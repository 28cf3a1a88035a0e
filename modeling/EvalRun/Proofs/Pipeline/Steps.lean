import EvalRun.Pipeline.Interleaving
import EvalRun.Proofs.Pipeline.Request

/-! # Proofs.Pipeline.Steps — requests that step side by side

    However the steps of the requests of a topic are ordered, three things hold
    of them. The key ideas:

    * **One step.** A phase follows from the request alone, whatever the other
      requests do (`Phase.Follows`). So a request that fails does so in every
      order, and with the same error.
    * **The store.** At any time it collects what the merged requests offer.
      That is a set, in which the order of the merges is no longer seen. It is
      so even if each request has answers of its own (`Flow.Gathers`), and so
      for a backend that is a function of the request (`Flow.Tracks`).
    * **Progress.** A request takes at most four steps of its own, and steps of
      the others leave its phase alone (`Flow.isFinal_along`).
-/

namespace EvalRun.Pipeline

variable {answer : QueryVariant → Answer} {boost : Binary64} {decoder : Response.Decoder}
  {topic : String} {index : Nat} {variant : QueryVariant} {s : HitStore}

/-! ### One request -/

namespace Phase

/-- The phase is one that the request at this index can be in. -/
def Follows (answer : QueryVariant → Answer) (decoder : Response.Decoder) (topic : String)
    (index : Nat) (variant : QueryVariant) : Phase → Prop
  | waiting => True
  | answered body | named body => answer variant = .ok body
  | decoded batch => outcome answer decoder variant = .ok batch
  | merged => Succeeds answer decoder variant
  | failed error =>
    ∃ fault, outcome answer decoder variant = .error fault ∧ error = fault.error topic index

/-- The request has named its topic, and has not failed. -/
def hasNamed : Phase → Bool
  | named _ | decoded _ | merged => true
  | _ => false

/-- What the request has put into the store. -/
def registered (answer : QueryVariant → Answer) (boost : Binary64) (decoder : Response.Decoder)
    (variant : QueryVariant) : Phase → List (String × Binary64)
  | merged => requestOffers answer boost decoder variant
  | _ => []

/-- A bound on the steps until the request is finished. -/
def stepsLeft : Phase → Nat
  | waiting => 4
  | answered _ => 3
  | named _ => 2
  | decoded _ => 1
  | merged | failed _ => 0

theorem isFinal_of_stepsLeft_eq_zero {phase : Phase} (h : phase.stepsLeft = 0) :
    phase.isFinal = true := by
  cases phase <;> first | rfl | cases h

/-- A step brings the request nearer to its end. -/
theorem stepsLeft_advance_le (answer : QueryVariant → Answer) (topic : String) (index : Nat)
    (variant : QueryVariant) (s : HitStore) (phase : Phase) :
    (phase.advance answer topic index variant s).1.stepsLeft ≤ phase.stepsLeft - 1 := by
  cases phase with
  | waiting =>
    simp only [advance]
    split <;> simp [stepsLeft]
  | answered body => simp [advance, stepsLeft]
  | named body =>
    simp only [advance]
    split <;> simp [stepsLeft]
  | decoded batch => simp [advance, stepsLeft]
  | merged => simp [advance, stepsLeft]
  | failed error => simp [advance, stepsLeft]

/-- A step keeps to what the request comes to. -/
theorem Follows.advance {phase : Phase} (h : phase.Follows answer decoder topic index variant)
    (hdecoder : s.decoder = decoder) :
    (phase.advance answer topic index variant s).1.Follows answer decoder topic index variant := by
  cases phase with
  | waiting =>
    simp only [Phase.advance]
    cases hanswer : answer variant with
    | error fault => exact ⟨.backend fault, by simp [outcome, hanswer], rfl⟩
    | ok body => exact hanswer
  | answered body => exact h
  | named body =>
    have hanswer : answer variant = .ok body := h
    simp only [Phase.advance, hdecoder]
    cases hdecode : decoder.decodeBody body with
    | error fault => exact ⟨.response fault, by simp [outcome, hanswer, hdecode], rfl⟩
    | ok batch =>
      show outcome answer decoder variant = .ok batch
      simp [outcome, hanswer, hdecode]
  | decoded batch => exact ⟨batch, h⟩
  | merged => exact h
  | failed error => exact h

/-- What is in the store stays there. -/
theorem registered_advance {phase : Phase} {offer : String × Binary64}
    (h : offer ∈ phase.registered answer boost decoder variant) :
    offer ∈ (phase.advance answer topic index variant s).1.registered answer boost decoder
      variant := by
  cases phase with
  | merged => exact h
  | _ => cases h

/-- A topic in the store stays in it. -/
theorem containsTopic_advance (phase : Phase) (h : s.containsTopic topic = true) :
    (phase.advance answer topic index variant s).2.containsTopic topic = true := by
  cases phase with
  | waiting =>
    simp only [advance]
    split <;> exact h
  | answered body => exact HitStore.containsTopic_ensureTopic s topic
  | named body =>
    simp only [advance]
    split <;> exact h
  | decoded batch => exact HitStore.containsTopic_registerHits s topic batch _
  | merged => exact h
  | failed error => exact h

/-- A request that has named its topic has it in the store. -/
theorem containsTopic_of_hasNamed_advance {phase : Phase}
    (hnamed : phase.hasNamed = true → s.containsTopic topic = true)
    (h : (phase.advance answer topic index variant s).1.hasNamed = true) :
    (phase.advance answer topic index variant s).2.containsTopic topic = true := by
  cases phase with
  | waiting =>
    simp only [advance] at h
    split at h <;> cases h
  | answered body => exact HitStore.containsTopic_ensureTopic s topic
  | failed error => cases h
  | _ => exact containsTopic_advance _ (hnamed rfl)

/-- The store collects what the request puts into it. -/
theorem collects_advance {phase : Phase} {offered : List (String × Binary64)}
    (hs : s.Collects boost decoder topic offered)
    (h : phase.Follows answer decoder topic index variant)
    (hregistered : ∀ offer ∈ phase.registered answer boost decoder variant, offer ∈ offered) :
    (phase.advance answer topic index variant s).2.Collects boost decoder topic
      (offered ++ (phase.advance answer topic index variant s).1.registered answer boost decoder
        variant) := by
  cases phase with
  | waiting =>
    simp only [advance]
    split <;> simpa [registered] using hs
  | answered body => simpa [advance, registered] using hs.ensureTopic
  | named body =>
    simp only [advance]
    split <;> simpa [registered] using hs
  | decoded batch =>
    have houtcome : outcome answer decoder variant = .ok batch := h
    simp only [advance, registered]
    rw [requestOffers_of_ok houtcome]
    exact hs.registerHits batch variant.hasFormula
  | merged =>
    -- nothing is merged a second time: its offers are among the others already
    refine hs.of_mem_iff fun offer => ?_
    rw [List.mem_append]
    exact ⟨.inl, fun hoffer => hoffer.elim id (hregistered offer)⟩
  | failed error => simpa [advance, registered] using hs

/-- A finished request that succeeds has its hits in the store. -/
theorem Follows.eq_merged {phase : Phase} (h : phase.Follows answer decoder topic index variant)
    (hfinal : phase.isFinal = true) (hsucceeds : Succeeds answer decoder variant) :
    phase = .merged := by
  cases phase with
  | merged => rfl
  | failed error =>
    obtain ⟨fault, hfault, -⟩ := h
    exact absurd ⟨fault, hfault⟩ (not_fails_iff.2 hsucceeds)
  | _ => cases hfinal

/-- A finished request that fails has its error. -/
theorem Follows.eq_failed {phase : Phase} {fault : RequestFault}
    (h : phase.Follows answer decoder topic index variant) (hfinal : phase.isFinal = true)
    (hfault : outcome answer decoder variant = .error fault) :
    phase = .failed (fault.error topic index) := by
  cases phase with
  | merged => exact absurd h (fun hsucceeds => not_fails_iff.2 hsucceeds ⟨fault, hfault⟩)
  | failed error =>
    obtain ⟨fault', hfault', rfl⟩ := h
    rw [hfault, Except.error.injEq] at hfault'
    rw [hfault']
  | _ => cases hfinal

end Phase

/-! ### All requests of a topic -/

namespace Flow

/-- The phases after a step: that of the request that steps, and all others as
    they are. -/
theorem getElem?_requests_step (answer : QueryVariant → Answer) (topic : String) (f : Flow)
    (i j : Nat) :
    (f.step answer topic i).requests[j]? =
      if j = i then
        f.requests[i]?.map fun r => (r.1, (r.2.advance answer topic i r.1 f.store).1)
      else f.requests[j]? := by
  unfold step
  cases hi : f.requests[i]? with
  | none =>
    by_cases hj : j = i
    · simp [hj, hi]
    · simp [hj]
  | some r =>
    obtain ⟨hlength, -⟩ := List.getElem?_eq_some_iff.1 hi
    by_cases hj : j = i
    · simp [hj, hlength]
    · simp [hj, List.getElem?_set_ne (Ne.symm hj)]

theorem step_of_none {f : Flow} {i : Nat} (h : f.requests[i]? = none) :
    f.step answer topic i = f := by
  unfold step
  rw [h]

theorem store_step_of_some (answer : QueryVariant → Answer) (topic : String) {f : Flow}
    {i : Nat} {r : QueryVariant × Phase} (h : f.requests[i]? = some r) :
    (f.step answer topic i).store = (r.2.advance answer topic i r.1 f.store).2 := by
  unfold step
  rw [h]

/-- The invariant of steps in which each request has answers of its own: every
    phase follows from the answer of its request, and the store collects what
    the merged requests offer. -/
structure Gathers (f : Flow) (answers : Nat → QueryVariant → Answer) (boost : Binary64)
    (decoder : Response.Decoder) (topic : Topic) : Prop where
  variants_eq : f.requests.map (·.1) = topic.variants
  follows : ∀ (i : Nat) (r : QueryVariant × Phase), f.requests[i]? = some r →
    r.2.Follows (answers i) decoder topic.id i r.1
  /-- The order in which the requests were merged does not matter. -/
  exists_collects : ∃ offered, f.store.Collects boost decoder topic.id offered ∧
    ∀ offer, offer ∈ offered ↔ ∃ (i : Nat) (r : QueryVariant × Phase),
      f.requests[i]? = some r ∧ offer ∈ r.2.registered (answers i) boost decoder r.1

/-- At the beginning no request has begun. -/
theorem eq_waiting_of_begin {s : HitStore} {topic : Topic} {i : Nat} {r : QueryVariant × Phase}
    (h : (begin s topic).requests[i]? = some r) : r.2 = .waiting := by
  simp only [begin, List.getElem?_map, Option.map_eq_some_iff] at h
  obtain ⟨variant, -, rfl⟩ := h
  rfl

theorem gathers_begin (answers : Nat → QueryVariant → Answer) (boost : Binary64)
    (decoder : Response.Decoder) (topic : Topic) :
    (begin (.new boost decoder) topic).Gathers answers boost decoder topic := by
  refine ⟨?_, ?_, [], HitStore.collects_new boost decoder topic.id, ?_⟩
  · simp [begin, Function.comp_def]
  · intro i r hr
    rw [eq_waiting_of_begin hr]
    trivial
  · intro offer
    refine ⟨fun hoffer => (by cases hoffer), ?_⟩
    rintro ⟨i, r, hr, hoffer⟩
    rw [eq_waiting_of_begin hr] at hoffer
    cases hoffer

/-- A step adds to what is registered what the request that steps has put into
    the store by then. -/
theorem registered_step_iff {answers : Nat → QueryVariant → Answer} {f : Flow} {i : Nat}
    {r : QueryVariant × Phase} (hr : f.requests[i]? = some r) (offer : String × Binary64) :
    (∃ (j : Nat) (q : QueryVariant × Phase), f.requests[j]? = some q ∧
        offer ∈ q.2.registered (answers j) boost decoder q.1) ∨
      offer ∈ (r.2.advance (answers i) topic i r.1 f.store).1.registered (answers i) boost decoder
        r.1 ↔
    ∃ (j : Nat) (q : QueryVariant × Phase), (f.step (answers i) topic i).requests[j]? = some q ∧
      offer ∈ q.2.registered (answers j) boost decoder q.1 := by
  have hstepped := getElem?_requests_step (answers i) topic f i i
  rw [if_pos rfl, hr, Option.map_some] at hstepped
  constructor
  · rintro (⟨j, q, hq, hoffer⟩ | hoffer)
    -- what was in the store by the step before is not taken back
    · by_cases hj : j = i
      · subst hj
        rw [hr, Option.some.injEq] at hq
        subst hq
        exact ⟨j, _, hstepped, Phase.registered_advance hoffer⟩
      · exact ⟨j, q, by rw [getElem?_requests_step, if_neg hj, hq], hoffer⟩
    · exact ⟨i, _, hstepped, hoffer⟩
  · rintro ⟨j, q, hq, hoffer⟩
    by_cases hj : j = i
    · subst hj
      rw [hstepped, Option.some.injEq] at hq
      subst hq
      exact .inr hoffer
    · rw [getElem?_requests_step, if_neg hj] at hq
      exact .inl ⟨j, q, hq, hoffer⟩

/-- The invariant is kept by any step. -/
theorem Gathers.step {answers : Nat → QueryVariant → Answer} {topic : Topic} {f : Flow}
    (h : f.Gathers answers boost decoder topic) (i : Nat) :
    (f.step (answers i) topic.id i).Gathers answers boost decoder topic := by
  cases hr : f.requests[i]? with
  | none =>
    rw [step_of_none hr]
    exact h
  | some r =>
    obtain ⟨offered, hcollects, hmem⟩ := h.exists_collects
    have hregistered : ∀ offer ∈ r.2.registered (answers i) boost decoder r.1, offer ∈ offered :=
      fun offer hoffer => (hmem offer).2 ⟨i, r, hr, hoffer⟩
    -- only the request that steps has a new phase; the store is the one after that step
    refine ⟨?_, ?_, offered ++ (r.2.advance (answers i) topic.id i r.1 f.store).1.registered
      (answers i) boost decoder r.1, ?_, ?_⟩
    · rw [variants_step, h.variants_eq]
    · intro j q hq
      rw [getElem?_requests_step] at hq
      by_cases hj : j = i
      · rw [if_pos hj, hr, Option.map_some, Option.some.injEq] at hq
        subst hj hq
        exact (h.follows j r hr).advance hcollects.decoder_eq
      · rw [if_neg hj] at hq
        exact h.follows j q hq
    · rw [store_step_of_some (answers i) topic.id hr]
      exact Phase.collects_advance hcollects (h.follows i r hr) hregistered
    · intro offer
      rw [List.mem_append, hmem]
      exact registered_step_iff hr offer

/-- What the requests have put into the store. -/
def registered (answer : QueryVariant → Answer) (boost : Binary64) (decoder : Response.Decoder)
    (f : Flow) : List (String × Binary64) :=
  f.requests.flatMap fun r => r.2.registered answer boost decoder r.1

theorem mem_registered {f : Flow} {offer : String × Binary64} :
    offer ∈ f.registered answer boost decoder ↔
      ∃ (i : Nat) (r : QueryVariant × Phase), f.requests[i]? = some r ∧
        offer ∈ r.2.registered answer boost decoder r.1 := by
  rw [registered, List.mem_flatMap]
  constructor
  · rintro ⟨r, hr, hoffer⟩
    obtain ⟨i, hi⟩ := List.mem_iff_getElem?.1 hr
    exact ⟨i, r, hi, hoffer⟩
  · rintro ⟨i, r, hi, hoffer⟩
    exact ⟨r, List.mem_of_getElem? hi, hoffer⟩

/-- The invariant of the steps: the requests are those of the topic, every phase
    follows from its request, and the store collects what the merged requests
    offer. -/
structure Tracks (f : Flow) (answer : QueryVariant → Answer) (boost : Binary64)
    (decoder : Response.Decoder) (topic : Topic) : Prop where
  variants_eq : f.requests.map (·.1) = topic.variants
  follows : ∀ (i : Nat) (r : QueryVariant × Phase), f.requests[i]? = some r →
    r.2.Follows answer decoder topic.id i r.1
  /-- The offers are those of the merged requests, in the order of the topic. -/
  collects : f.store.Collects boost decoder topic.id (f.registered answer boost decoder)
  contains_of_hasNamed : ∀ (i : Nat) (r : QueryVariant × Phase), f.requests[i]? = some r →
    r.2.hasNamed = true → f.store.containsTopic topic.id = true
  /-- Without a request nothing names the topic. -/
  absent : f.requests = [] → f.store.containsTopic topic.id = false

/-- Requests that track one function all have its answers. -/
theorem Tracks.gathers {topic : Topic} {f : Flow} (h : f.Tracks answer boost decoder topic) :
    f.Gathers (fun _ => answer) boost decoder topic :=
  ⟨h.variants_eq, h.follows, _, h.collects, fun _ => mem_registered⟩

theorem tracks_begin (answer : QueryVariant → Answer) (boost : Binary64)
    (decoder : Response.Decoder) (topic : Topic) :
    (begin (.new boost decoder) topic).Tracks answer boost decoder topic := by
  have hgathers := gathers_begin (fun _ => answer) boost decoder topic
  obtain ⟨offered, hcollects, hmem⟩ := hgathers.exists_collects
  exact {
    variants_eq := hgathers.variants_eq
    follows := hgathers.follows
    collects := hcollects.of_mem_iff fun offer => (hmem offer).trans mem_registered.symm
    contains_of_hasNamed := by
      intro i r hr hnamed
      rw [eq_waiting_of_begin hr] at hnamed
      cases hnamed
    absent := fun _ => rfl }

namespace Tracks

variable {topic : Topic} {f : Flow}

/-- The invariant is kept by any step. -/
theorem step (h : f.Tracks answer boost decoder topic) (i : Nat) :
    (f.step answer topic.id i).Tracks answer boost decoder topic := by
  have hgathers := h.gathers.step i
  obtain ⟨offered, hcollects, hmem⟩ := hgathers.exists_collects
  refine ⟨hgathers.variants_eq, hgathers.follows,
    hcollects.of_mem_iff fun offer => (hmem offer).trans mem_registered.symm, ?_, ?_⟩
  · intro j q hq hnamed
    cases hr : f.requests[i]? with
    | none =>
      rw [step_of_none hr] at hq ⊢
      exact h.contains_of_hasNamed j q hq hnamed
    | some r =>
      rw [getElem?_requests_step] at hq
      rw [store_step_of_some answer topic.id hr]
      by_cases hj : j = i
      · rw [if_pos hj, hr, Option.map_some, Option.some.injEq] at hq
        subst hq
        exact Phase.containsTopic_of_hasNamed_advance (h.contains_of_hasNamed i r hr) hnamed
      · rw [if_neg hj] at hq
        exact Phase.containsTopic_advance r.2 (h.contains_of_hasNamed j q hq hnamed)
  · intro hnil
    have hlength := length_requests_step answer topic.id f i
    rw [hnil, List.length_nil] at hlength
    have hrequests := List.eq_nil_of_length_eq_zero hlength.symm
    rw [step_of_none (by rw [hrequests, List.getElem?_nil])]
    exact h.absent hrequests

/-- And so by any schedule. -/
theorem along (h : f.Tracks answer boost decoder topic) (schedule : List Nat) :
    (f.along answer topic.id schedule).Tracks answer boost decoder topic := by
  induction schedule generalizing f with
  | nil => exact h
  | cons i rest ih => exact ih (h.step i)

theorem variant_of_getElem? (h : f.Tracks answer boost decoder topic) {i : Nat}
    {r : QueryVariant × Phase} (hr : f.requests[i]? = some r) :
    topic.variants[i]? = some r.1 := by
  rw [← h.variants_eq, List.getElem?_map, hr, Option.map_some]

/-- If all requests are merged, all of them succeed. -/
theorem succeeds_of_isMerged (h : f.Tracks answer boost decoder topic) (hmerged : f.IsMerged) :
    ∀ v ∈ topic.variants, Succeeds answer decoder v := by
  intro v hv
  rw [← h.variants_eq, List.mem_map] at hv
  obtain ⟨r, hr, rfl⟩ := hv
  obtain ⟨i, hi⟩ := List.mem_iff_getElem?.1 hr
  have hfollows := h.follows i r hi
  rw [hmerged r hr] at hfollows
  exact hfollows

/-- Once all requests are merged, the store collects what they offer. -/
theorem collects_of_isMerged (h : f.Tracks answer boost decoder topic) (hmerged : f.IsMerged) :
    f.store.Collects boost decoder topic.id
      (topic.variants.flatMap (requestOffers answer boost decoder)) := by
  have hregistered : f.registered answer boost decoder =
      topic.variants.flatMap (requestOffers answer boost decoder) := by
    rw [← h.variants_eq, List.flatMap_map]
    apply List.flatMap_congr
    intro r hr
    rw [hmerged r hr]
    rfl
  rw [← hregistered]
  exact h.collects

/-- Once all requests are merged, the topic is in the store, unless there was no
    request. -/
theorem containsTopic_of_isMerged (h : f.Tracks answer boost decoder topic)
    (hmerged : f.IsMerged) : f.store.containsTopic topic.id = !topic.variants.isEmpty := by
  rw [← h.variants_eq]
  cases hrequests : f.requests with
  | nil => simpa using h.absent hrequests
  | cons r rest =>
    have hr : f.requests[0]? = some r := by
      rw [hrequests, List.getElem?_cons_zero]
    have hnamed : r.2.hasNamed = true := by
      rw [hmerged r (List.mem_of_getElem? hr)]
      rfl
    simpa using h.contains_of_hasNamed 0 r hr hnamed

/-- An error among the requests is that of a request that fails. -/
theorem exists_of_mem_errors (h : f.Tracks answer boost decoder topic) {e : RunError}
    (he : e ∈ f.errors) :
    ∃ i variant fault, topic.variants[i]? = some variant ∧
      outcome answer decoder variant = .error fault ∧ e = fault.error topic.id i := by
  obtain ⟨⟨variant, phase⟩, hr, herror⟩ := List.mem_filterMap.1 he
  obtain ⟨i, hi⟩ := List.mem_iff_getElem?.1 hr
  have hfollows := h.follows i _ hi
  cases phase with
  | failed error =>
    obtain ⟨fault, hfault, rfl⟩ := hfollows
    cases herror
    exact ⟨i, variant, fault, h.variant_of_getElem? hi, hfault, rfl⟩
  | _ => cases herror

end Tracks

theorem tracks_after (answer : QueryVariant → Answer) (boost : Binary64)
    (decoder : Response.Decoder) (topic : Topic) (schedule : List Nat) :
    (after answer (.new boost decoder) topic schedule).Tracks answer boost decoder topic :=
  (tracks_begin answer boost decoder topic).along schedule

/-! ### Progress -/

/-- A request that does not step stays as it is. -/
theorem getElem?_requests_along_of_not_mem {f : Flow} {schedule : List Nat} {j : Nat}
    (h : j ∉ schedule) : (f.along answer topic schedule).requests[j]? = f.requests[j]? := by
  induction schedule generalizing f with
  | nil => rfl
  | cons i rest ih =>
    rw [List.mem_cons, not_or] at h
    have hrest := ih (f := f.step answer topic i) h.2
    rw [getElem?_requests_step, if_neg h.1] at hrest
    exact hrest

/-- A request that steps often enough is finished. -/
theorem isFinal_along {f : Flow} {schedule : List Nat} {j : Nat} {variant : QueryVariant}
    {phase : Phase} (hj : f.requests[j]? = some (variant, phase))
    (h : phase.stepsLeft ≤ schedule.count j) :
    ∃ phase', (f.along answer topic schedule).requests[j]? = some (variant, phase') ∧
      phase'.isFinal = true := by
  induction schedule generalizing f phase with
  | nil => exact ⟨phase, hj, Phase.isFinal_of_stepsLeft_eq_zero (Nat.le_zero.1 h)⟩
  | cons i rest ih =>
    have hstep := getElem?_requests_step answer topic f i j
    by_cases hi : j = i
    · subst hi
      rw [if_pos rfl, hj] at hstep
      -- one step less to come in the schedule, and one less that is needed
      have hle := Phase.stepsLeft_advance_le answer topic j variant f.store phase
      rw [List.count_cons_self] at h
      exact ih hstep (hle.trans (by omega))
    · rw [if_neg hi, hj] at hstep
      rw [List.count_cons_of_ne (Ne.symm hi)] at h
      exact ih hstep h

/-- From its beginning a request is finished after four steps of its own. -/
theorem isFinal_after (answer : QueryVariant → Answer) (s : HitStore) {topic : Topic}
    (schedule : List Nat) {j : Nat} {variant : QueryVariant}
    (hj : topic.variants[j]? = some variant) (h : 4 ≤ schedule.count j) :
    ∃ phase, (after answer s topic schedule).requests[j]? = some (variant, phase) ∧
      phase.isFinal = true := by
  have hbegin : (begin s topic).requests[j]? = some (variant, .waiting) := by
    simp [begin, hj]
  exact isFinal_along hbegin h

/-- Requests that all succeed and step often enough are all merged. -/
theorem isMerged_after {topic : Topic} {schedule : List Nat}
    (hall : ∀ v ∈ topic.variants, Succeeds answer decoder v)
    (hcount : ∀ i < topic.variants.length, 4 ≤ schedule.count i) :
    (after answer (.new boost decoder) topic schedule).IsMerged := by
  have htracks := tracks_after answer boost decoder topic schedule
  rintro ⟨variant, phase⟩ hr
  obtain ⟨i, hi⟩ := List.mem_iff_getElem?.1 hr
  have hvariant := htracks.variant_of_getElem? hi
  obtain ⟨hlength, -⟩ := List.getElem?_eq_some_iff.1 hvariant
  obtain ⟨phase', hphase, hfinal⟩ :=
    isFinal_after answer (.new boost decoder) schedule hvariant (hcount i hlength)
  rw [hi, Option.some.injEq, Prod.mk.injEq] at hphase
  rw [← hphase.2] at hfinal
  exact (htracks.follows i _ hi).eq_merged hfinal (hall _ (List.mem_of_getElem? hvariant))

/-- Every request of a topic four times, round after round. -/
def rounds (topic : Topic) : List Nat :=
  (List.replicate 4 (List.range topic.variants.length)).flatten

theorem count_rounds {topic : Topic} {i : Nat} (h : i < topic.variants.length) :
    (rounds topic).count i = 4 := by
  simp [rounds, List.count_range, h]

end Flow

end EvalRun.Pipeline
