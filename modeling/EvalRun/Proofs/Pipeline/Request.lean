import EvalRun.Pipeline.Topic
import EvalRun.Proofs.HitStore.History

/-! # Proofs.Pipeline.Request — what one request comes to

    With a backend that is a function of the request, a request comes to its
    hits or to a fault, whatever its topic, its place and the store
    (`outcome`). Everything a topic does is said in these terms:

    * **Errors.** The error of a failed request is its fault with the topic and
      the place of the request.
    * **Stores.** While a topic is collected, the store holds that topic at
      most, and its map keeps what was offered so far (`Collects`). So taking
      the topic out leaves an empty store, however far collecting has got.
-/

namespace EvalRun

/-! ### Requests -/

namespace Pipeline

/-- What can go wrong with a request. -/
inductive RequestFault where
  /-- The backend gave no body. -/
  | backend (fault : BackendFault)
  /-- The body is not decoded. -/
  | response (fault : Response.DecodeError)

/-- The error of a topic whose request at an index went wrong. -/
def RequestFault.error (topic : String) (index : Nat) : RequestFault → RunError
  | backend fault => .backend topic index fault
  | response fault => .malformedResponse topic index fault

/-- What a request comes to: its hits, or what went wrong. -/
def outcome (answer : QueryVariant → Answer) (decoder : Response.Decoder)
    (variant : QueryVariant) : Except RequestFault (List Hit) :=
  match answer variant with
  | .error fault => .error (.backend fault)
  | .ok body =>
    match decoder.decodeBody body with
    | .error fault => .error (.response fault)
    | .ok batch => .ok batch

/-- The request gives hits, if only none. -/
def Succeeds (answer : QueryVariant → Answer) (decoder : Response.Decoder)
    (variant : QueryVariant) : Prop :=
  ∃ batch, outcome answer decoder variant = .ok batch

/-- The request goes wrong. -/
def Fails (answer : QueryVariant → Answer) (decoder : Response.Decoder)
    (variant : QueryVariant) : Prop :=
  ∃ fault, outcome answer decoder variant = .error fault

/-- What a request offers its topic: nothing, if it goes wrong. -/
def requestOffers (answer : QueryVariant → Answer) (boost : Binary64)
    (decoder : Response.Decoder) (variant : QueryVariant) : List (String × Binary64) :=
  match outcome answer decoder variant with
  | .ok batch => offers boost variant.hasFormula batch
  | .error _ => []

section
variable {answer : QueryVariant → Answer} {decoder : Response.Decoder} {variant : QueryVariant}

theorem not_fails_iff : ¬ Fails answer decoder variant ↔ Succeeds answer decoder variant := by
  unfold Fails Succeeds
  cases outcome answer decoder variant <;> simp

theorem requestOffers_of_ok {boost : Binary64} {batch : List Hit}
    (h : outcome answer decoder variant = .ok batch) :
    requestOffers answer boost decoder variant = offers boost variant.hasFormula batch := by
  simp [requestOffers, h]

/-- Registering a request that succeeds names the topic and merges the hits. -/
theorem register_of_ok {s : HitStore} (topic : String) (index : Nat) {batch : List Hit}
    (h : outcome answer s.decoder variant = .ok batch) :
    register s topic index variant (answer variant) =
      (.ok batch.length, (s.ensureTopic topic).registerHits topic batch variant.hasFormula) := by
  unfold outcome at h
  cases hanswer : answer variant with
  | error fault => simp [hanswer] at h
  | ok body =>
    cases hdecode : s.decoder.decodeBody body with
    | error fault => simp [hanswer, hdecode] at h
    | ok hits =>
      simp only [hanswer, hdecode, Except.ok.injEq] at h
      have hdecode' : (s.ensureTopic topic).decoder.decodeBody body = .ok hits := hdecode
      simp only [register, HitStore.registerResult, hdecode', h]

/-- Registering a request that fails gives its error and at most names the
    topic. -/
theorem register_of_error {s : HitStore} (topic : String) (index : Nat) {fault : RequestFault}
    (h : outcome answer s.decoder variant = .error fault) :
    ∃ s', register s topic index variant (answer variant) = (.error (fault.error topic index), s')
      ∧ (s' = s ∨ s' = s.ensureTopic topic) := by
  unfold outcome at h
  cases hanswer : answer variant with
  | error fault' =>
    simp only [hanswer, Except.error.injEq] at h
    subst h
    exact ⟨s, rfl, .inl rfl⟩
  | ok body =>
    cases hdecode : s.decoder.decodeBody body with
    | error fault' =>
      simp only [hanswer, hdecode, Except.error.injEq] at h
      subst h
      have hdecode' : (s.ensureTopic topic).decoder.decodeBody body = .error fault' := hdecode
      refine ⟨s.ensureTopic topic, ?_, .inr rfl⟩
      simp only [register, HitStore.registerResult, hdecode', RequestFault.error]
    | ok hits => simp [hanswer, hdecode] at h

end

end Pipeline

/-! ### A store while a topic is collected -/

namespace HitStore

/-- The store holds one topic at most, and the map of that topic keeps what was
    offered. -/
structure Collects (s : HitStore) (boost : Binary64) (decoder : Response.Decoder)
    (topic : String) (offered : List (String × Binary64)) : Prop where
  boost_eq : s.boost = boost
  decoder_eq : s.decoder = decoder
  /-- No other topic is in the store. -/
  hits?_other : ∀ other, other ≠ topic → s.hits? other = none
  /-- As long as the topic is not in the store, nothing was offered. -/
  absent : s.hits? topic = none → offered = []
  /-- The map of the topic. -/
  keeps : ∀ hits, s.hits? topic = some hits → hits.Keeps offered

theorem collects_new (boost : Binary64) (decoder : Response.Decoder) (topic : String) :
    (new boost decoder).Collects boost decoder topic [] where
  boost_eq := rfl
  decoder_eq := rfl
  hits?_other _ _ := rfl
  absent _ := rfl
  keeps hits h := by cases h

namespace Collects

variable {s s' : HitStore} {boost : Binary64} {decoder : Response.Decoder} {topic : String}
  {offered : List (String × Binary64)}

/-- What is in the store, or an empty map, keeps what was offered. -/
theorem keeps_getD (h : s.Collects boost decoder topic offered) :
    ((s.hits? topic).getD .empty).Keeps offered := by
  cases hhits : s.hits? topic with
  | none =>
    rw [h.absent hhits]
    exact TopicHits.keeps_empty
  | some hits => exact h.keeps hits hhits

theorem ensureTopic (h : s.Collects boost decoder topic offered) :
    (s.ensureTopic topic).Collects boost decoder topic offered where
  boost_eq := h.boost_eq
  decoder_eq := h.decoder_eq
  hits?_other other hne := by rw [hits?_ensureTopic, if_neg hne, h.hits?_other other hne]
  absent hnone := by
    rw [hits?_ensureTopic, if_pos rfl] at hnone
    cases hnone
  keeps hits hhits := by
    rw [hits?_ensureTopic, if_pos rfl, Option.some.injEq] at hhits
    rw [← hhits]
    exact h.keeps_getD

theorem registerHits (h : s.Collects boost decoder topic offered) (batch : List Hit)
    (hasFormula : Bool) :
    (s.registerHits topic batch hasFormula).Collects boost decoder topic
      (offered ++ offers boost hasFormula batch) where
  boost_eq := h.boost_eq
  decoder_eq := h.decoder_eq
  hits?_other other hne := by rw [hits?_registerHits, if_neg hne, h.hits?_other other hne]
  absent hnone := by
    rw [hits?_registerHits, if_pos rfl] at hnone
    cases hnone
  keeps hits hhits := by
    rw [hits?_registerHits, if_pos rfl, Option.some.injEq] at hhits
    rw [← hhits, h.boost_eq]
    exact h.keeps_getD.mergeAll _

/-- Only the set of what was offered matters. -/
theorem of_mem_iff {offered' : List (String × Binary64)}
    (h : s.Collects boost decoder topic offered)
    (hmem : ∀ offer, offer ∈ offered ↔ offer ∈ offered') :
    s.Collects boost decoder topic offered' where
  boost_eq := h.boost_eq
  decoder_eq := h.decoder_eq
  hits?_other := h.hits?_other
  absent hnone := by
    apply List.eq_nil_iff_forall_not_mem.2
    intro offer hoffer
    have hoffered := (hmem offer).2 hoffer
    rw [h.absent hnone] at hoffered
    cases hoffered
  keeps hits hhits := (h.keeps hits hhits).of_mem_iff hmem

/-- Taking the topic out leaves an empty store. -/
theorem take_eq_new (h : s.Collects boost decoder topic offered) :
    (s.take topic).2 = new boost decoder := by
  apply ext_hits? h.boost_eq h.decoder_eq
  intro other
  have hnew : (new boost decoder).hits? other = none := rfl
  rw [hits?_take, hnew]
  by_cases hne : other = topic
  · rw [if_pos hne]
  · rw [if_neg hne, h.hits?_other other hne]

/-- Without NaN and negative zero, what was offered decides the store, once
    the topic is in it or not. -/
theorem unique (h : s.Collects boost decoder topic offered)
    (h' : s'.Collects boost decoder topic offered)
    (hplain : ∀ offer ∈ offered, offer.2.IsPlain)
    (hcontains : s.containsTopic topic = s'.containsTopic topic) : s = s' := by
  apply ext_hits? (h.boost_eq.trans h'.boost_eq.symm) (h.decoder_eq.trans h'.decoder_eq.symm)
  intro other
  by_cases hne : other = topic
  · subst hne
    cases hhits : s.hits? other with
    | none =>
      rw [containsTopic_eq_false_iff.2 hhits] at hcontains
      exact (containsTopic_eq_false_iff.1 hcontains.symm).symm
    | some hits =>
      rw [containsTopic_iff.2 ⟨hits, hhits⟩] at hcontains
      obtain ⟨hits', hhits'⟩ := containsTopic_iff.1 hcontains.symm
      rw [hhits', (h.keeps hits hhits).unique (h'.keeps hits' hhits') hplain]
  · rw [h.hits?_other other hne, h'.hits?_other other hne]

end Collects

end HitStore

end EvalRun
