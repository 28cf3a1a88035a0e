import EvalRun.Proofs.HitStore.Merge
import EvalRun.Ranking.Processor
import Mathlib.Data.List.DropRight

/-! # Proofs.HitStore.History — what a store holds after any calls

    A store is driven by calls, in any order and on any topics. What it holds
    of a topic is a function of the calls since the topic was last taken out:

    * **Present.** The topic is in the store if one of them names it.
    * **Kept.** Its map keeps what they offered for it.

    `hits?_apply` says what one call does to the map of a topic, whatever the
    call and the topic; `agrees_after` carries this along every sequence of
    calls, from the right.
-/

namespace EvalRun.HitStore

/-- A call on a store. -/
inductive Call where
  /-- Names a topic. -/
  | ensureTopic (topic : String)
  /-- Registers hits that are already decoded. -/
  | registerHits (topic : String) (batch : List Hit) (hasFormula : Bool)
  /-- Registers the hits of a response body. -/
  | registerResult (topic body : String) (hasFormula : Bool)
  /-- Takes a topic out. -/
  | take (topic : String)
  /-- Takes a topic out and ranks it. -/
  | process (processor : Processor) (topic : String)

namespace Call

/-- The topic of a call. -/
def topic : Call → String
  | ensureTopic topic | registerHits topic _ _ | registerResult topic _ _ => topic
  | take topic | process _ topic => topic

/-- The call takes its topic out of the store. -/
def isTaking : Call → Bool
  | take _ | process _ _ => true
  | _ => false

/-- The call takes this topic out. -/
def takes (name : String) (call : Call) : Bool := call.topic = name && call.isTaking

/-- The call names this topic, so that it is in the store afterwards. A body
    that is not decoded names its topic as well. -/
def names (name : String) (call : Call) : Bool := call.topic = name && !call.isTaking

/-- What a call registers for its topic. A body that is not decoded registers
    nothing. -/
def registered (boost : Binary64) (decoder : Response.Decoder) : Call → List (String × Binary64)
  | registerHits _ batch hasFormula => offers boost hasFormula batch
  | registerResult _ body hasFormula =>
    match decoder.decodeBody body with
    | .ok batch => offers boost hasFormula batch
    | .error _ => []
  | _ => []

/-- What a call registers for this topic. -/
def registeredFor (boost : Binary64) (decoder : Response.Decoder) (name : String) (call : Call) :
    List (String × Binary64) :=
  if call.topic = name then call.registered boost decoder else []

end Call

/-- The store after a call. -/
def apply (s : HitStore) : Call → HitStore
  | .ensureTopic topic => s.ensureTopic topic
  | .registerHits topic batch hasFormula => s.registerHits topic batch hasFormula
  | .registerResult topic body hasFormula => (s.registerResult topic body hasFormula).2
  | .take topic => (s.take topic).2
  | .process processor topic => (processor.process s topic).2

/-- The store after calls in their order. -/
def after (s : HitStore) (calls : List Call) : HitStore := calls.foldl apply s

/-- The calls since a topic was last taken out. -/
def sinceTaken (topic : String) (calls : List Call) : List Call :=
  calls.rtakeWhile fun call => !call.takes topic

/-- What was registered for a topic since it was last taken out. -/
def offeredSince (boost : Binary64) (decoder : Response.Decoder) (topic : String)
    (calls : List Call) : List (String × Binary64) :=
  (sinceTaken topic calls).flatMap (Call.registeredFor boost decoder topic)

/-! ### One call -/

variable (s : HitStore) (topic other : String)

theorem hits?_ensureTopic :
    (s.ensureTopic topic).hits? other =
      if other = topic then some ((s.hits? topic).getD .empty) else s.hits? other :=
  OrderedMap.get?_alter s.topics topic other _

theorem hits?_registerHits (batch : List Hit) (hasFormula : Bool) :
    (s.registerHits topic batch hasFormula).hits? other =
      if other = topic then
        some (((s.hits? topic).getD .empty).mergeAll (offers s.boost hasFormula batch))
      else s.hits? other := by
  have halter := OrderedMap.get?_alter s.topics topic other
    fun hits? => s.mergeHits hasFormula (hits?.getD .empty) batch
  rwa [TopicHits.mergeHits_eq_mergeAll] at halter

theorem hits?_take : (s.take topic).2.hits? other = if other = topic then none else s.hits? other :=
  OrderedMap.get?_erase s.topics topic other

theorem hits?_registerResult (body : String) (hasFormula : Bool) :
    (s.registerResult topic body hasFormula).2.hits? other =
      if other = topic then
        some (((s.hits? topic).getD .empty).mergeAll
          ((Call.registerResult topic body hasFormula).registered s.boost s.decoder))
      else s.hits? other := by
  have hdecoder : (s.ensureTopic topic).decoder = s.decoder := rfl
  have hboost : (s.ensureTopic topic).boost = s.boost := rfl
  simp only [registerResult, Call.registered, hdecoder]
  cases s.decoder.decodeBody body with
  | error fault => simp only [hits?_ensureTopic, TopicHits.mergeAll, List.foldl_nil]
  | ok batch =>
    simp only [hits?_registerHits, hits?_ensureTopic, hboost, if_true, Option.getD_some]
    split <;> rfl

/-- What a call does to the maps: that of its own topic is taken out, or what
    the call registers is merged into it, and no other is touched. -/
theorem hits?_apply_ite (call : Call) :
    (s.apply call).hits? other =
      if other = call.topic then
        if call.isTaking then none
        else some (((s.hits? call.topic).getD .empty).mergeAll
          (call.registered s.boost s.decoder))
      else s.hits? other := by
  cases call with
  | ensureTopic name => exact hits?_ensureTopic s name other
  | registerHits name batch hasFormula => exact hits?_registerHits s name other batch hasFormula
  | registerResult name body hasFormula => exact hits?_registerResult s name other body hasFormula
  | take name => exact hits?_take s name other
  | process processor name => exact hits?_take s name other

/-- What a call does to the map of a topic: it may take the map out or merge
    what it registers for the topic, or leave it alone. -/
theorem hits?_apply (call : Call) :
    (s.apply call).hits? topic =
      if call.takes topic then none
      else if call.names topic then
        some (((s.hits? topic).getD .empty).mergeAll (call.registeredFor s.boost s.decoder topic))
      else s.hits? topic := by
  rw [hits?_apply_ite]
  by_cases h : call.topic = topic
  · subst h
    cases htaking : call.isTaking with
    | true => simp [Call.takes, htaking]
    | false => simp [Call.takes, Call.names, Call.registeredFor, htaking]
  · simp [Call.takes, Call.names, h, Ne.symm h]

/-- A call on another topic leaves the map of a topic alone. -/
theorem hits?_apply_of_ne {call : Call} (h : call.topic ≠ topic) :
    (s.apply call).hits? topic = s.hits? topic := by
  rw [hits?_apply]
  simp [Call.takes, Call.names, h]

theorem boost_apply (call : Call) : (s.apply call).boost = s.boost := by
  cases call with
  | registerResult topic body hasFormula =>
    simp only [apply, registerResult]
    split <;> rfl
  | _ => rfl

theorem decoder_apply (call : Call) : (s.apply call).decoder = s.decoder := by
  cases call with
  | registerResult topic body hasFormula =>
    simp only [apply, registerResult]
    split <;> rfl
  | _ => rfl

/-- Stores with the same rules and the same maps are equal. -/
theorem ext_hits? {s s' : HitStore} (hboost : s.boost = s'.boost)
    (hdecoder : s.decoder = s'.decoder) (hhits : ∀ topic, s.hits? topic = s'.hits? topic) :
    s = s' := by
  obtain ⟨boost, decoder, topics⟩ := s
  obtain ⟨boost', decoder', topics'⟩ := s'
  have htopics : topics = topics' := OrderedMap.ext_get? hhits
  simp only at hboost hdecoder
  subst hboost hdecoder htopics
  rfl

theorem containsTopic_eq_false_iff {s : HitStore} {topic : String} :
    s.containsTopic topic = false ↔ s.hits? topic = none :=
  OrderedMap.not_contains_iff

theorem containsTopic_iff {s : HitStore} {topic : String} :
    s.containsTopic topic = true ↔ ∃ hits, s.hits? topic = some hits :=
  OrderedMap.contains_iff

@[simp] theorem containsTopic_ensureTopic (s : HitStore) (topic : String) :
    (s.ensureTopic topic).containsTopic topic = true := by
  rw [containsTopic_iff, hits?_ensureTopic, if_pos rfl]
  exact ⟨_, rfl⟩

@[simp] theorem containsTopic_registerHits (s : HitStore) (topic : String) (batch : List Hit)
    (hasFormula : Bool) : (s.registerHits topic batch hasFormula).containsTopic topic = true := by
  rw [containsTopic_iff, hits?_registerHits, if_pos rfl]
  exact ⟨_, rfl⟩

/-! ### Any number of calls -/

variable {s topic}

theorem boost_after (calls : List Call) : (s.after calls).boost = s.boost := by
  induction calls generalizing s with
  | nil => rfl
  | cons call rest ih => exact (ih (s := s.apply call)).trans (boost_apply s call)

theorem decoder_after (calls : List Call) : (s.after calls).decoder = s.decoder := by
  induction calls generalizing s with
  | nil => rfl
  | cons call rest ih => exact (ih (s := s.apply call)).trans (decoder_apply s call)

theorem after_concat (calls : List Call) (call : Call) :
    s.after (calls ++ [call]) = (s.after calls).apply call := by
  simp [after]

/-- What a store holds of a topic agrees with the calls since the topic was
    last taken out. -/
def Agrees (boost : Binary64) (decoder : Response.Decoder) (topic : String) (since : List Call) :
    Option TopicHits → Prop
  | none => ∀ call ∈ since, call.names topic = false
  | some hits =>
    (∃ call ∈ since, call.names topic = true) ∧
      hits.Keeps (since.flatMap (Call.registeredFor boost decoder topic))

theorem Call.registeredFor_of_not_names {boost : Binary64} {decoder : Response.Decoder}
    {call : Call} (h : call.names topic = false) : call.registeredFor boost decoder topic = [] := by
  unfold registeredFor
  split
  · rename_i htopic
    cases call <;> simp_all [names, isTaking, Call.topic, registered]
  · rfl

/-- A call that does not take the topic out carries the agreement on. -/
theorem Agrees.step {boost : Binary64} {decoder : Response.Decoder} {since : List Call}
    {hits? : Option TopicHits} (h : Agrees boost decoder topic since hits?) (call : Call) :
    Agrees boost decoder topic (since ++ [call])
      (if call.names topic then
        some ((hits?.getD .empty).mergeAll (call.registeredFor boost decoder topic))
      else hits?) := by
  cases hnames : call.names topic with
  | false =>
    have hnothing : call.registeredFor boost decoder topic = [] :=
      Call.registeredFor_of_not_names hnames
    cases hits? with
    | none =>
      intro other hother
      rcases List.mem_append.1 hother with hother | hother
      · exact h other hother
      · rw [List.mem_singleton.1 hother]
        exact hnames
    | some hits =>
      obtain ⟨⟨naming, hmem, hnaming⟩, hkeeps⟩ := h
      refine ⟨⟨naming, List.mem_append_left _ hmem, hnaming⟩, ?_⟩
      simpa [hnothing] using hkeeps
  | true =>
    refine ⟨⟨call, by simp, hnames⟩, ?_⟩
    rw [List.flatMap_append, List.flatMap_singleton]
    apply TopicHits.Keeps.mergeAll
    cases hits? with
    | none =>
      -- no call so far names the topic, so nothing has been registered for it
      have hnothing : since.flatMap (Call.registeredFor boost decoder topic) = [] := by
        rw [List.flatMap_eq_nil_iff]
        exact fun other hother => Call.registeredFor_of_not_names (h other hother)
      rw [hnothing]
      exact TopicHits.keeps_empty
    | some hits => exact h.2

/-- After any calls, a store that was empty at first agrees with the calls
    since the topic was last taken out. -/
theorem agrees_after (boost : Binary64) (decoder : Response.Decoder) (topic : String)
    (calls : List Call) :
    Agrees boost decoder topic (sinceTaken topic calls)
      (((new boost decoder).after calls).hits? topic) := by
  induction calls using List.reverseRecOn with
  | nil =>
    intro call hcall
    simp [sinceTaken] at hcall
  | append_singleton calls call ih =>
    have hboost : ((new boost decoder).after calls).boost = boost := boost_after calls
    have hdecoder : ((new boost decoder).after calls).decoder = decoder := decoder_after calls
    rw [after_concat, hits?_apply, hboost, hdecoder]
    unfold sinceTaken
    rw [List.rtakeWhile_concat]
    -- a last call that takes the topic out leaves nothing to agree with
    cases htakes : call.takes topic with
    | true =>
      intro other hother
      simp at hother
    | false => exact ih.step call

/-- What a store holds after any calls. A topic is present if and only if it
    was named since it was last taken out. Its map keeps what was registered
    for it since then; where no NaN was, the stored scores are the greatest.
    Taking the topic out gives that map, and only once. No call on another
    topic touches it. -/
theorem hits?_after (boost : Binary64) (decoder : Response.Decoder) (calls : List Call)
    (topic : String) :
    (((new boost decoder).after calls).containsTopic topic = true ↔
      ∃ call ∈ sinceTaken topic calls, call.names topic = true) ∧
    (∀ hits, ((new boost decoder).after calls).hits? topic = some hits →
      hits.Keeps (offeredSince boost decoder topic calls) ∧
      ∀ doc score, hits.get? doc = some score →
        (∀ other, (doc, other) ∈ offeredSince boost decoder topic calls → other.isNaN = false) →
        ∀ other, (doc, other) ∈ offeredSince boost decoder topic calls →
          other.lineKey ≤ score.lineKey) ∧
    (((new boost decoder).after calls).take topic).1
      = ((new boost decoder).after calls).hits? topic ∧
    ((((new boost decoder).after calls).take topic).2.take topic).1 = none ∧
    ∀ call : Call, call.topic ≠ topic →
      ((new boost decoder).after (calls ++ [call])).hits? topic
        = ((new boost decoder).after calls).hits? topic := by
  have hagrees := agrees_after boost decoder topic calls
  refine ⟨?_, ?_, rfl, ?_, ?_⟩
  · have hcontains : ((new boost decoder).after calls).containsTopic topic
        = (((new boost decoder).after calls).hits? topic).isSome := rfl
    rw [hcontains]
    cases hhits : ((new boost decoder).after calls).hits? topic with
    | none =>
      rw [hhits] at hagrees
      constructor
      · intro h
        cases h
      · rintro ⟨call, hmem, hnames⟩
        rw [hagrees call hmem] at hnames
        cases hnames
    | some hits =>
      rw [hhits] at hagrees
      exact ⟨fun _ => hagrees.1, fun _ => rfl⟩
  · intro hits hhits
    rw [hhits] at hagrees
    exact ⟨hagrees.2, fun _ _ hget hnan _ hmem => hagrees.2.lineKey_le hget hnan hmem⟩
  · have htaken := hits?_take ((new boost decoder).after calls) topic topic
    rwa [if_pos rfl] at htaken
  · intro call hne
    rw [after_concat, hits?_apply_of_ne _ _ hne]

end EvalRun.HitStore
