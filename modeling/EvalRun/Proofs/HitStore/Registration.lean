import EvalRun.Proofs.HitStore.History
import EvalRun.Proofs.Response.Decoding

/-! # Proofs.HitStore.Registration — what one registration can and cannot change

    A backend is asked again after a fault, and an answer may arrive twice or
    be broken. Two facts keep the store right, whatever it holds:

    * **A failed registration merges nothing.** The topic is named before the
      body is decoded, so all that a broken body leaves behind is the name of
      its topic (`Names`).
    * **A replay is absorbed.** Once hits are registered, no effective score of
      them exceeds the score that is stored for its document. Every further
      registration keeps it so (`Absorbs.apply`), hence also any number of them
      (`Absorbs.after`), and merging hits of which this is true changes
      nothing. A NaN exceeds nothing and two zeros do not exceed each other, so
      neither needs a case of its own.
-/

namespace EvalRun

/-! ### Offers that change nothing -/

namespace TopicHits

/-- Every offer is absorbed: its document has a stored score, which the offer
    does not exceed. -/
def Absorbs (hits : TopicHits) (offered : List (String × Binary64)) : Prop :=
  ∀ doc score, (doc, score) ∈ offered →
    ∃ kept, hits.get? doc = some kept ∧ kept.lt score = false

variable {hits : TopicHits} {offered : List (String × Binary64)}

/-- Merging one more score keeps absorbed what is absorbed: a stored score is
    only replaced by one that exceeds it. -/
theorem Absorbs.merge (h : hits.Absorbs offered) (doc : String) (score : Binary64) :
    (hits.merge doc score).Absorbs offered := by
  intro name other hmem
  obtain ⟨kept, hget, hlt⟩ := h name other hmem
  rw [get?_merge]
  by_cases hname : name = doc
  · subst hname
    rw [if_pos rfl, hget]
    exact ⟨_, rfl, better_lt_of_lt_eq_false hlt⟩
  · rw [if_neg hname]
    exact ⟨kept, hget, hlt⟩

theorem Absorbs.mergeAll (h : hits.Absorbs offered) (more : List (String × Binary64)) :
    (hits.mergeAll more).Absorbs offered := by
  induction more generalizing hits with
  | nil => exact h
  | cons offer rest ih => exact ih (h.merge offer.1 offer.2)

/-- What has been merged is absorbed, also where a document occurs in it more
    than once. -/
theorem absorbs_mergeAll (hits : TopicHits) (offered : List (String × Binary64)) :
    (hits.mergeAll offered).Absorbs offered := by
  induction offered generalizing hits with
  | nil =>
    intro doc score hmem
    cases hmem
  | cons offer rest ih =>
    intro doc score hmem
    rcases List.mem_cons.1 hmem with hfirst | hrest
    · -- the first offer is absorbed at once, and stays so while the rest is merged
      have hfirst_absorbed : (hits.merge offer.1 offer.2).Absorbs [offer] := by
        intro name other hname
        obtain rfl : (name, other) = offer := List.mem_singleton.1 hname
        refine ⟨_, ?_, better_lt_new (hits.get? name) other⟩
        rw [get?_merge, if_pos rfl]
      exact hfirst_absorbed.mergeAll rest doc score (List.mem_singleton.2 hfirst)
    · exact ih (hits.merge offer.1 offer.2) doc score hrest

/-- Merging an absorbed offer changes nothing. -/
theorem merge_of_absorbed {doc : String} {score kept : Binary64} (hget : hits.get? doc = some kept)
    (hlt : kept.lt score = false) : hits.merge doc score = hits := by
  apply OrderedMap.ext_get?
  intro name
  rw [get?_merge]
  by_cases hname : name = doc
  · subst hname
    rw [if_pos rfl, hget]
    simp only [better, hlt, Bool.false_eq_true, if_false]
  · rw [if_neg hname]

theorem Absorbs.mergeAll_eq (h : hits.Absorbs offered) : hits.mergeAll offered = hits := by
  induction offered with
  | nil => rfl
  | cons offer rest ih =>
    obtain ⟨kept, hget, hlt⟩ := h offer.1 offer.2 (by simp)
    have hrest : hits.Absorbs rest := by
      intro doc score hmem
      exact h doc score (List.mem_cons_of_mem _ hmem)
    calc hits.mergeAll (offer :: rest)
        = (hits.merge offer.1 offer.2).mergeAll rest := rfl
      _ = hits.mergeAll rest := by rw [merge_of_absorbed hget hlt]
      _ = hits := ih hrest

end TopicHits

namespace HitStore

/-! ### Replays -/

/-- The topic is in the store, and its map absorbs the offers. -/
def Absorbs (s : HitStore) (topic : String) (offered : List (String × Binary64)) : Prop :=
  ∃ hits, s.hits? topic = some hits ∧ hits.Absorbs offered

variable {s : HitStore} {topic : String} {offered : List (String × Binary64)}

theorem absorbs_registerHits (s : HitStore) (topic : String) (batch : List Hit)
    (hasFormula : Bool) :
    (s.registerHits topic batch hasFormula).Absorbs topic (offers s.boost hasFormula batch) := by
  refine ⟨_, ?_, TopicHits.absorbs_mergeAll ((s.hits? topic).getD .empty) _⟩
  rw [hits?_registerHits, if_pos rfl]

/-- One call that does not take the topic out keeps absorbed what is absorbed,
    whatever the call and its topic. -/
theorem Absorbs.apply (h : s.Absorbs topic offered) {call : Call}
    (hkept : call.takes topic = false) : (s.apply call).Absorbs topic offered := by
  obtain ⟨hits, hhits, habsorbs⟩ := h
  unfold Absorbs
  rw [hits?_apply, hkept, if_neg Bool.false_ne_true, hhits, Option.getD_some]
  by_cases hnames : call.names topic = true
  · rw [if_pos hnames]
    exact ⟨_, rfl, habsorbs.mergeAll _⟩
  · rw [if_neg hnames]
    exact ⟨hits, rfl, habsorbs⟩

/-- Any number of such calls. -/
theorem Absorbs.after (h : s.Absorbs topic offered) {calls : List Call}
    (hkept : ∀ call ∈ calls, call.takes topic = false) :
    (s.after calls).Absorbs topic offered := by
  induction calls generalizing s with
  | nil => exact h
  | cons call rest ih =>
    have hfirst : (s.apply call).Absorbs topic offered := h.apply (hkept call (by simp))
    exact ih hfirst fun other hother => hkept other (List.mem_cons_of_mem _ hother)

/-- Registering absorbed hits changes nothing. -/
theorem registerHits_of_absorbs {batch : List Hit} {hasFormula : Bool}
    (h : s.Absorbs topic (offers s.boost hasFormula batch)) :
    s.registerHits topic batch hasFormula = s := by
  obtain ⟨hits, hhits, habsorbs⟩ := h
  refine ext_hits? rfl rfl fun other => ?_
  rw [hits?_registerHits]
  by_cases hother : other = topic
  · subst hother
    rw [if_pos rfl, hhits, Option.getD_some, habsorbs.mergeAll_eq]
  · rw [if_neg hother]

/-! ### Naming a topic -/

/-- The second store is the first one with a topic named, and nothing more. -/
structure Names (s : HitStore) (topic : String) (s' : HitStore) : Prop where
  boost_eq : s'.boost = s.boost
  decoder_eq : s'.decoder = s.decoder
  /-- The topic is in the store. -/
  containsTopic : s'.containsTopic topic = true
  /-- If it was there before, nothing changes at all. -/
  eq_of_containsTopic : s.containsTopic topic = true → s' = s
  /-- If it was not, its map is empty. -/
  hits?_of_not_containsTopic : s.containsTopic topic = false → s'.hits? topic = some .empty
  /-- No other topic comes, goes or changes. -/
  hits?_other : ∀ other, other ≠ topic → s'.hits? other = s.hits? other
  /-- No document of any topic gets a score or another one. -/
  score?_eq : ∀ other doc, s'.score? other doc = s.score? other doc

/-- Naming a topic that is in the store changes nothing. -/
theorem ensureTopic_of_containsTopic (h : s.containsTopic topic = true) :
    s.ensureTopic topic = s := by
  obtain ⟨hits, hhits⟩ := containsTopic_iff.1 h
  refine ext_hits? rfl rfl fun other => ?_
  rw [hits?_ensureTopic, hhits, Option.getD_some]
  split
  · rename_i hother
    rw [hother, hhits]
  · rfl

theorem score?_ensureTopic (s : HitStore) (topic other doc : String) :
    (s.ensureTopic topic).score? other doc = s.score? other doc := by
  unfold score?
  rw [hits?_ensureTopic]
  by_cases hother : other = topic
  · subst hother
    rw [if_pos rfl]
    cases s.hits? other with
    | none => rfl
    | some hits => rfl
  · rw [if_neg hother]

theorem names_ensureTopic (s : HitStore) (topic : String) :
    s.Names topic (s.ensureTopic topic) where
  boost_eq := rfl
  decoder_eq := rfl
  containsTopic := containsTopic_ensureTopic s topic
  eq_of_containsTopic := ensureTopic_of_containsTopic
  hits?_of_not_containsTopic h := by
    rw [hits?_ensureTopic, if_pos rfl, containsTopic_eq_false_iff.1 h, Option.getD_none]
  hits?_other other hother := by rw [hits?_ensureTopic, if_neg hother]
  score?_eq := score?_ensureTopic s topic

/-- Hits are merged into a topic in the same way whether it is named before or
    not. -/
theorem registerHits_ensureTopic (s : HitStore) (topic : String) (batch : List Hit)
    (hasFormula : Bool) :
    (s.ensureTopic topic).registerHits topic batch hasFormula
      = s.registerHits topic batch hasFormula := by
  refine ext_hits? rfl rfl fun other => ?_
  have hboost : (s.ensureTopic topic).boost = s.boost := rfl
  rw [hits?_registerHits, hits?_registerHits, hits?_ensureTopic, hits?_ensureTopic, hboost]
  by_cases hother : other = topic
  · rw [if_pos hother, if_pos hother, if_pos rfl, Option.getD_some]
  · rw [if_neg hother, if_neg hother, if_neg hother]

/-! ### What a registration comes to -/

/-- What a registration comes to. If it fails, the body is one that is not
    decoded, and the topic is named and nothing else; that is so for every
    body with an unusable hit, wherever it stands among the usable ones. If it
    succeeds, the number is that of the hits of the body, and they are
    merged. -/
theorem registerResult_names_or_merges (s : HitStore) (topic body : String) (hasFormula : Bool) :
    (∀ fault s', s.registerResult topic body hasFormula = (.error fault, s') →
      s.decoder.decodeBody body = .error fault ∧ s.Names topic s') ∧
    (∀ payload shape entries index, Json.parse body = .ok payload →
      s.decoder.shapes.find? (fun shape => shape.claims payload) = some shape →
      shape.entries? payload = some entries → shape.FirstUnusable entries index →
      ∃ reason s', s.registerResult topic body hasFormula
          = (.error (.invalidHit shape index reason), s') ∧ s.Names topic s') ∧
    ∀ count s', s.registerResult topic body hasFormula = (.ok count, s') →
      ∃ batch, s.decoder.decodeBody body = .ok batch ∧ count = batch.length ∧
        s' = s.registerHits topic batch hasFormula := by
  have hdecoder : (s.ensureTopic topic).decoder = s.decoder := rfl
  unfold registerResult
  simp only [hdecoder]
  refine ⟨?_, ?_, ?_⟩
  · intro fault s' h
    cases hbody : s.decoder.decodeBody body with
    | error reason =>
      rw [hbody] at h
      cases h
      exact ⟨rfl, names_ensureTopic s topic⟩
    | ok batch =>
      rw [hbody] at h
      cases h
  · intro payload shape entries index hparse hshape hentries hfirst
    obtain ⟨reason, hbody⟩ := Response.decodeBody_of_unusable hparse hshape hentries hfirst
    rw [hbody]
    exact ⟨reason, _, rfl, names_ensureTopic s topic⟩
  · intro count s' h
    cases hbody : s.decoder.decodeBody body with
    | error reason =>
      rw [hbody] at h
      cases h
    | ok batch =>
      rw [hbody] at h
      cases h
      exact ⟨batch, rfl, rfl, registerHits_ensureTopic s topic batch hasFormula⟩

/-- Hits that were registered once may be registered again, after any calls
    that do not take their topic out, and whether they come as hits or as a
    body that holds them: the store stays as it is. -/
theorem registerHits_absorbed (s : HitStore) (topic : String) (batch : List Hit)
    (hasFormula : Bool) (calls : List Call) (hkept : ∀ call ∈ calls, call.takes topic = false) :
    ((s.registerHits topic batch hasFormula).after calls).registerHits topic batch hasFormula
      = (s.registerHits topic batch hasFormula).after calls ∧
    ∀ body, s.decoder.decodeBody body = .ok batch →
      ((s.registerHits topic batch hasFormula).after calls).registerResult topic body hasFormula
        = (.ok batch.length, (s.registerHits topic batch hasFormula).after calls) := by
  have habsorbs : ((s.registerHits topic batch hasFormula).after calls).Absorbs topic
      (offers s.boost hasFormula batch) :=
    (absorbs_registerHits s topic batch hasFormula).after hkept
  have hboost : ((s.registerHits topic batch hasFormula).after calls).boost = s.boost :=
    boost_after calls
  have hdecoder : ((s.registerHits topic batch hasFormula).after calls).decoder = s.decoder :=
    decoder_after calls
  generalize (s.registerHits topic batch hasFormula).after calls = s' at *
  rw [← hboost] at habsorbs
  have hsame : s'.registerHits topic batch hasFormula = s' := registerHits_of_absorbs habsorbs
  refine ⟨hsame, ?_⟩
  intro body hbody
  have hbody' : (s'.ensureTopic topic).decoder.decodeBody body = .ok batch :=
    (congrArg (fun decoder => decoder.decodeBody body) hdecoder).trans hbody
  simp only [registerResult, hbody', registerHits_ensureTopic, hsame]

/-- A document with three scores, one of them a NaN that comes first and is
    never replaced, registered again after a greater score of another document
    and calls on two topics. -/
theorem registerHits_absorbed_nan :
    (∀ call ∈ [Call.registerHits "T" [⟨"b", .ofNat 7⟩] false, .take "U", .ensureTopic "T"],
      call.takes "T" = false) ∧
    (((new (.ofNat 5) (.ofFormat .auto)).registerHits "T"
        [⟨"a", .quietNaN false⟩, ⟨"a", .ofNat 3⟩, ⟨"a", .signedZero true⟩] true).after
        [.registerHits "T" [⟨"b", .ofNat 7⟩] false, .take "U", .ensureTopic "T"]).registerHits "T"
        [⟨"a", .quietNaN false⟩, ⟨"a", .ofNat 3⟩, ⟨"a", .signedZero true⟩] true
      = ((new (.ofNat 5) (.ofFormat .auto)).registerHits "T"
        [⟨"a", .quietNaN false⟩, ⟨"a", .ofNat 3⟩, ⟨"a", .signedZero true⟩] true).after
        [.registerHits "T" [⟨"b", .ofNat 7⟩] false, .take "U", .ensureTopic "T"] := by
  have hkept : ∀ call ∈ [Call.registerHits "T" [⟨"b", .ofNat 7⟩] false, .take "U",
      .ensureTopic "T"], call.takes "T" = false := by
    intro call hcall
    simp only [List.mem_cons, List.not_mem_nil, or_false] at hcall
    rcases hcall with rfl | rfl | rfl <;> rfl
  exact ⟨hkept, (registerHits_absorbed _ "T" _ true _ hkept).1⟩

end HitStore

end EvalRun
