import EvalRun.Proofs.Pipeline.Conversation
import EvalRun.Proofs.Ranking.Processing
import Mathlib.Data.Set.List

/-! # Proofs.Pipeline.Transcript — the answers behind a run

    A backend with a state may answer a request now in one way and now in
    another. So what a run comes to is said of its transcript: for every topic,
    the states in which its requests found the backend, and the ranking.

    * **One request at a time.** Each request finds the state that the request
      before it has left (`statesFrom`).
    * **More.** A request asks the backend in the first of its steps, and finds
      the state of that step (`firstState?`); its other steps read no answer.

    Either way the store collects what these answers offer, whatever the order
    in which they are merged (`TopicFinds.exists_collects`), and the results
    that a run may have are those of its transcripts
    (`runEndsOver_iff_exists_runs`).
-/

namespace EvalRun.Pipeline

variable {σ : Type} {backend : Backend (StateM σ)} {processor : Processor} {threads : Nat}
  {boost : Binary64} {decoder : Response.Decoder} {tag : String}

/-! ### What requests find -/

/-- The states that requests find which are asked one after the other, the first
    of them in the given state. -/
def statesFrom (backend : Backend (StateM σ)) : σ → List QueryVariant → List σ
  | _, [] => []
  | x, variant :: rest => x :: statesFrom backend (backend.stateAfter x variant) rest

/-- The state that a request finds which steps by a schedule: that of its first
    step. -/
def firstState? (schedule : List (σ × Nat)) (index : Nat) : Option σ :=
  (schedule.find? fun move => move.2 = index).map (·.1)

/-- The requests find these states, in their order, if they step by a
    schedule. -/
def FindInOrder (schedule : List (σ × Nat)) (variants : List QueryVariant) (states : List σ) :
    Prop :=
  (List.range variants.length).map (firstState? schedule) = states.map some

/-- The hits that requests return, each from the state that it finds. A request
    that goes wrong returns none. -/
def hitsFound (backend : Backend (StateM σ)) (decoder : Response.Decoder)
    (variants : List QueryVariant) (states : List σ) : List (List Hit) :=
  variants.zipWith (fun v x => (outcome (backend.answerIn x) decoder v).toOption.getD []) states

/-- What requests offer their topic, each from the state that it finds. -/
def offersFound (backend : Backend (StateM σ)) (boost : Binary64) (decoder : Response.Decoder)
    (variants : List QueryVariant) (states : List σ) : List (String × Binary64) :=
  (variants.zipWith (fun v x => requestOffers (backend.answerIn x) boost decoder v) states).flatten

theorem statesFrom_append (x : σ) (first second : List QueryVariant) :
    statesFrom backend x (first ++ second) =
      statesFrom backend x first ++ statesFrom backend (backend.stateAfterAll x first) second := by
  induction first generalizing x with
  | nil => rfl
  | cons variant rest ih => exact congrArg (x :: ·) (ih (backend.stateAfter x variant))

theorem length_statesFrom (x : σ) (variants : List QueryVariant) :
    (statesFrom backend x variants).length = variants.length := by
  induction variants generalizing x with
  | nil => rfl
  | cons variant rest ih => exact congrArg (· + 1) (ih (backend.stateAfter x variant))

theorem firstState?_concat (schedule : List (σ × Nat)) (x : σ) (i j : Nat) :
    firstState? (schedule ++ [(x, i)]) j =
      (firstState? schedule j).or (if i = j then some x else none) := by
  unfold firstState?
  rw [List.find?_append, List.find?_singleton]
  by_cases hij : i = j
  · cases schedule.find? fun move => move.2 = j <;> simp [hij]
  · cases schedule.find? fun move => move.2 = j <;> simp [hij]

theorem FindInOrder.length_eq {schedule : List (σ × Nat)} {variants : List QueryVariant}
    {states : List σ} (h : FindInOrder schedule variants states) :
    states.length = variants.length := by
  have hlength := congrArg List.length h
  simpa using hlength.symm

theorem FindInOrder.getElem? {schedule : List (σ × Nat)} {variants : List QueryVariant}
    {states : List σ} (h : FindInOrder schedule variants states) {i : Nat}
    (hi : i < variants.length) : states[i]? = firstState? schedule i := by
  have hget : ((List.range variants.length).map (firstState? schedule))[i]? =
      (states.map some)[i]? := by
    rw [h]
  rw [List.getElem?_map, List.getElem?_range hi, List.getElem?_map] at hget
  cases hstate : states[i]? with
  | none => simp [hstate] at hget
  | some x => simpa [hstate, eq_comm] using hget

/-- What a request offers are the documents that it returns. -/
theorem map_fst_requestOffers (answer : QueryVariant → Answer) (boost : Binary64)
    (decoder : Response.Decoder) (variant : QueryVariant) :
    (requestOffers answer boost decoder variant).map (·.1) =
      ((outcome answer decoder variant).toOption.getD []).map (·.doc) := by
  unfold requestOffers
  cases outcome answer decoder variant with
  | error fault => rfl
  | ok batch => simp [offers, Except.toOption]

/-- The documents that are offered are those of the hits. -/
theorem map_fst_offersFound (boost : Binary64) (variants : List QueryVariant) (states : List σ) :
    (offersFound backend boost decoder variants states).map (·.1) =
      (hitsFound backend decoder variants states).flatten.map (·.doc) := by
  simp only [offersFound, hitsFound, List.map_flatten, List.map_zipWith, map_fst_requestOffers]

/-- An element of lists that are made of the members of two lists, pair by
    pair. -/
theorem mem_flatten_zipWith {α β γ : Type} {f : α → β → List γ} {as : List α} {bs : List β}
    {c : γ} :
    c ∈ (as.zipWith f bs).flatten ↔
      ∃ (i : Nat) (a : α) (b : β), as[i]? = some a ∧ bs[i]? = some b ∧ c ∈ f a b := by
  rw [List.mem_flatten]
  constructor
  · rintro ⟨cs, hcs, hc⟩
    obtain ⟨i, hi⟩ := List.mem_iff_getElem?.1 hcs
    obtain ⟨a, b, ha, hb, rfl⟩ := List.getElem?_zipWith_eq_some.1 hi
    exact ⟨i, a, b, ha, hb, hc⟩
  · rintro ⟨i, a, b, ha, hb, hc⟩
    exact ⟨_, List.mem_of_getElem? (List.getElem?_zipWith_eq_some.2 ⟨a, b, ha, hb, rfl⟩), hc⟩

/-! ### One request at a time -/

/-- Requests none of which fails in any state succeed one after the other. -/
theorem succeedFrom_of_forall {variants : List QueryVariant} {x : σ}
    (hall : ∀ v ∈ variants, ∀ x, ¬ Fails (backend.answerIn x) decoder v) :
    SucceedFrom backend decoder x variants := by
  induction variants generalizing x with
  | nil => trivial
  | cons variant rest ih =>
    exact ⟨not_fails_iff.1 (hall variant List.mem_cons_self x),
      ih fun v hv => hall v (List.mem_cons_of_mem variant hv)⟩

/-- Requests that are all registered offer what they find. -/
theorem collects_of_issueFrom {topic : String} {variants : List QueryVariant} {index : Nat}
    {s s' : HitStore} {offered : List (String × Binary64)} {x y : σ}
    (hs : s.Collects boost decoder topic offered)
    (h : (issueFrom backend topic index s variants).run x = ((.ok (), s'), y)) :
    s'.Collects boost decoder topic
      (offered ++ offersFound backend boost decoder variants (statesFrom backend x variants)) := by
  induction variants generalizing index s offered x with
  | nil =>
    obtain ⟨⟨-, rfl⟩, -⟩ := (Prod.mk.inj h).imp_left Prod.mk.inj
    simpa [offersFound] using hs
  | cons variant rest ih =>
    rw [run_issueFrom_cons] at h
    cases houtcome : outcome (backend.answerIn x) decoder variant with
    | error fault =>
      obtain ⟨next, hregister, -⟩ := register_of_fails index hs houtcome
      rw [hregister] at h
      cases h
    | ok batch =>
      obtain ⟨hits, next, hregister, hnext, -⟩ := register_of_succeeds index hs ⟨batch, houtcome⟩
      rw [hregister] at h
      have hrest := ih hnext h
      rw [List.append_assoc] at hrest
      exact hrest

/-! ### Several requests at a time -/

/-- No step leads back to the beginning. -/
theorem Phase.advance_ne_waiting (answer : QueryVariant → Answer) (topic : String) (index : Nat)
    (variant : QueryVariant) (s : HitStore) (p : Phase) :
    (p.advance answer topic index variant s).1 ≠ waiting := by
  cases p with
  | waiting =>
    simp only [advance]
    split <;> simp
  | named body =>
    simp only [advance]
    split <;> simp
  | _ => simp [advance]

namespace Flow

/-- A request that has begun reads no answer. -/
theorem step_congr {answer other : QueryVariant → Answer} {topic : String} {f : Flow} {i : Nat}
    (h : ∀ r, f.requests[i]? = some r → r.2 ≠ .waiting) :
    f.step answer topic i = f.step other topic i := by
  unfold step
  cases hr : f.requests[i]? with
  | none => rfl
  | some r =>
    obtain ⟨variant, phase⟩ := r
    cases phase with
    | waiting => exact absurd rfl (h _ hr)
    | _ => rfl

theorem afterStates_concat (s : HitStore) (topic : Topic) (schedule : List (σ × Nat)) (x : σ)
    (i : Nat) :
    afterStates backend s topic (schedule ++ [(x, i)]) =
      (afterStates backend s topic schedule).step (backend.answerIn x) topic.id i := by
  simp [afterStates]

/-- A request has not begun if and only if it has no step in the schedule. -/
theorem waiting_iff {s : HitStore} {topic : Topic} {schedule : List (σ × Nat)} {i : Nat}
    {r : QueryVariant × Phase}
    (h : (afterStates backend s topic schedule).requests[i]? = some r) :
    r.2 = .waiting ↔ firstState? schedule i = none := by
  induction schedule using List.reverseRecOn generalizing r with
  | nil =>
    have hwaiting : r.2 = .waiting := eq_waiting_of_begin h
    exact ⟨fun _ => rfl, fun _ => hwaiting⟩
  | append_singleton done move ih =>
    obtain ⟨x, j⟩ := move
    rw [afterStates_concat, getElem?_requests_step] at h
    rw [firstState?_concat]
    by_cases hij : i = j
    · subst hij
      rw [if_pos rfl, Option.map_eq_some_iff] at h
      obtain ⟨q, -, rfl⟩ := h
      rw [if_pos rfl]
      refine ⟨fun hwaiting => (Phase.advance_ne_waiting _ _ _ _ _ _ hwaiting).elim,
        fun hnone => ?_⟩
      cases hfirst : firstState? done i <;> simp [hfirst] at hnone
    · rw [if_neg hij] at h
      rw [if_neg (Ne.symm hij), Option.or_none]
      exact ih h

/-- What a schedule makes of a topic whose requests have each an answer of their
    own. -/
def afterAnswers (answers : Nat → QueryVariant → Answer) (s : HitStore) (topic : Topic)
    (schedule : List Nat) : Flow :=
  schedule.foldl (fun f i => f.step (answers i) topic.id i) (begin s topic)

/-- Every request has the answers of the state that it finds. -/
theorem afterStates_eq_afterAnswers {answers : Nat → QueryVariant → Answer} {s : HitStore}
    {topic : Topic} {schedule : List (σ × Nat)}
    (h : ∀ i x, firstState? schedule i = some x → answers i = backend.answerIn x) :
    afterStates backend s topic schedule = afterAnswers answers s topic (schedule.map (·.2)) := by
  induction schedule using List.reverseRecOn with
  | nil => rfl
  | append_singleton done move ih =>
    obtain ⟨x, i⟩ := move
    have hdone := ih fun j y hj => h j y (by rw [firstState?_concat, hj]; rfl)
    have hstep : (afterStates backend s topic done).step (backend.answerIn x) topic.id i =
        (afterStates backend s topic done).step (answers i) topic.id i := by
      cases hfirst : firstState? done i with
      | none =>
        -- this is the step in which the request asks
        rw [h i x (by rw [firstState?_concat, hfirst, if_pos rfl]; rfl)]
      | some y =>
        apply step_congr
        intro r hr hwaiting
        rw [(waiting_iff hr).1 hwaiting] at hfirst
        cases hfirst
    rw [afterStates_concat, hstep, hdone]
    simp [afterAnswers]

/-- The invariant of steps is kept, and so it holds after any schedule. -/
theorem gathers_afterAnswers (answers : Nat → QueryVariant → Answer) (boost : Binary64)
    (decoder : Response.Decoder) (topic : Topic) (schedule : List Nat) :
    (afterAnswers answers (.new boost decoder) topic schedule).Gathers answers boost decoder
      topic := by
  induction schedule using List.reverseRecOn with
  | nil => exact gathers_begin answers boost decoder topic
  | append_singleton done i ih =>
    simpa [afterAnswers] using ih.step i

/-- A request that has begun has found a state. -/
theorem exists_firstState? {s : HitStore} {topic : Topic} {schedule : List (σ × Nat)} {i : Nat}
    {r : QueryVariant × Phase} (h : (afterStates backend s topic schedule).requests[i]? = some r)
    (hbegun : r.2 ≠ .waiting) : ∃ x, firstState? schedule i = some x := by
  apply Option.ne_none_iff_exists'.1
  rw [ne_eq, ← waiting_iff h]
  exact hbegun

/-- Every variant of the topic has its request. -/
theorem exists_request (backend : Backend (StateM σ)) (s : HitStore)
    (schedule : List (σ × Nat)) {topic : Topic} {i : Nat} {variant : QueryVariant}
    (h : topic.variants[i]? = some variant) :
    ∃ r, (afterStates backend s topic schedule).requests[i]? = some r ∧ r.1 = variant := by
  rw [← variants_afterStates backend s topic schedule, List.getElem?_map,
    Option.map_eq_some_iff] at h
  exact h

/-- Once all requests are merged, each of them has found a state. -/
theorem exists_states_of_isMerged {s : HitStore} {topic : Topic} {schedule : List (σ × Nat)}
    (hmerged : (afterStates backend s topic schedule).IsMerged) :
    ∃ states, FindInOrder schedule topic.variants states := by
  have hstates : (List.range topic.variants.length).map (firstState? schedule) ∈
      Set.range (List.map some) := by
    rw [Set.range_list_map]
    intro state? hstate
    obtain ⟨i, hi, rfl⟩ := List.mem_map.1 hstate
    obtain ⟨r, hr, -⟩ := exists_request backend s schedule
      (List.getElem?_eq_getElem (List.mem_range.1 hi))
    obtain ⟨x, hx⟩ := exists_firstState? hr (by rw [hmerged r (List.mem_of_getElem? hr)]; nofun)
    exact ⟨x, hx.symm⟩
  obtain ⟨states, hstates⟩ := hstates
  exact ⟨states, hstates.symm⟩

/-- Then the store collects what they offer from these states. -/
theorem collects_of_isMerged {topic : Topic} {schedule : List (σ × Nat)} {states : List σ}
    (hmerged : (afterStates backend (.new boost decoder) topic schedule).IsMerged)
    (hfound : FindInOrder schedule topic.variants states) :
    (afterStates backend (.new boost decoder) topic schedule).store.Collects boost decoder topic.id
      (offersFound backend boost decoder topic.variants states) := by
  -- a request that never asks may have any answers
  let answers (i : Nat) : QueryVariant → Answer :=
    ((firstState? schedule i).map backend.answerIn).getD fun _ => .ok ""
  have hanswers (i : Nat) (x : σ) (hx : firstState? schedule i = some x) :
      answers i = backend.answerIn x := by
    simp [answers, hx]
  have hgathers := gathers_afterAnswers answers boost decoder topic (schedule.map (·.2))
  rw [← afterStates_eq_afterAnswers hanswers] at hgathers
  obtain ⟨offered, hcollects, hmem⟩ := hgathers.exists_collects
  apply hcollects.of_mem_iff
  intro offer
  rw [hmem, offersFound, mem_flatten_zipWith]
  constructor
  · rintro ⟨i, r, hr, hoffer⟩
    have hmerged_r : r.2 = .merged := hmerged r (List.mem_of_getElem? hr)
    have hvariant : topic.variants[i]? = some r.1 := by
      rw [← variants_afterStates backend (.new boost decoder) topic schedule, List.getElem?_map, hr,
        Option.map_some]
    obtain ⟨hlength, -⟩ := List.getElem?_eq_some_iff.1 hvariant
    obtain ⟨x, hx⟩ := exists_firstState? hr (by rw [hmerged_r]; nofun)
    rw [hmerged_r, hanswers i x hx] at hoffer
    exact ⟨i, r.1, x, hvariant, (hfound.getElem? hlength).trans hx, hoffer⟩
  · rintro ⟨i, v, x, hv, hx, hoffer⟩
    obtain ⟨hlength, -⟩ := List.getElem?_eq_some_iff.1 hv
    rw [hfound.getElem? hlength] at hx
    obtain ⟨r, hr, rfl⟩ := exists_request backend (.new boost decoder) schedule hv
    refine ⟨i, r, hr, ?_⟩
    rw [hmerged r (List.mem_of_getElem? hr), hanswers i x hx]
    exact hoffer

end Flow

/-! ### One topic -/

/-- A topic may end with this ranking and leave this store, its requests finding
    the backend in these states. -/
inductive TopicFinds (threads : Nat) (backend : Backend (StateM σ)) (processor : Processor)
    (s : HitStore) (topic : Topic) : List σ → Option RankedList → HitStore → Prop where
  | inTurn (single : threads ≤ 1) {x y : σ} {list? : Option RankedList} {store : HitStore}
      (run_eq : (processTopic backend processor s topic).run x = ((.ok list?, store), y)) :
    TopicFinds threads backend processor s topic (statesFrom backend x topic.variants) list? store
  | sideBySide (several : ¬ threads ≤ 1) {f : Flow} (schedule : List (σ × Nat))
      (after : Flow.afterStates backend s topic schedule = f) (merged : f.IsMerged)
      {states : List σ} (found : FindInOrder schedule topic.variants states) :
    TopicFinds threads backend processor s topic states (processor.process f.store topic.id).1
      (processor.process f.store topic.id).2

/-- The ranking is made of what the requests offer from the states that they
    find, and the topic leaves the store empty. -/
theorem TopicFinds.exists_collects {topic : Topic} {states : List σ} {list? : Option RankedList}
    {store : HitStore}
    (h : TopicFinds threads backend processor (.new boost decoder) topic states list? store) :
    store = .new boost decoder ∧ ∃ s : HitStore,
      s.Collects boost decoder topic.id
        (offersFound backend boost decoder topic.variants states) ∧
      list? = (processor.process s topic.id).1 := by
  cases h with
  | inTurn single run_eq =>
    rw [run_processTopic] at run_eq
    rcases hissue : (issueFrom backend topic.id 0 (.new boost decoder) topic.variants).run _
      with ⟨⟨error | ⟨⟩, s⟩, y⟩
    · rw [hissue] at run_eq
      cases run_eq
    · rw [hissue] at run_eq
      obtain ⟨⟨hlist, rfl⟩, -⟩ := (Prod.mk.inj run_eq).imp_left Prod.mk.inj
      have hs := collects_of_issueFrom (HitStore.collects_new boost decoder topic.id) hissue
      exact ⟨hs.take_eq_new, s, hs, (Except.ok.inj hlist).symm⟩
  | sideBySide several schedule after merged found =>
    subst after
    have hs := Flow.collects_of_isMerged merged found
    exact ⟨hs.take_eq_new, _, hs, rfl⟩

/-- So the ranking is that of a map which keeps these offers. -/
theorem TopicFinds.exists_isRanking {topic : Topic} {states : List σ} {list : RankedList}
    {store : HitStore}
    (h : TopicFinds threads backend processor (.new boost decoder) topic states (some list)
      store) :
    ∃ hits : TopicHits,
      hits.Keeps (offersFound backend boost decoder topic.variants states) ∧
      processor.IsRanking topic.id hits list := by
  obtain ⟨-, s, hs, hlist⟩ := h.exists_collects
  obtain ⟨hits, hhits, hranking⟩ := Processor.exists_isRanking_of_process hlist.symm
  exact ⟨hits, hs.keeps hits hhits, hranking⟩

/-- Every request finds a state. -/
theorem TopicFinds.length_states {s store : HitStore} {topic : Topic} {states : List σ}
    {list? : Option RankedList}
    (h : TopicFinds threads backend processor s topic states list? store) :
    states.length = topic.variants.length := by
  cases h with
  | inTurn single run_eq => exact length_statesFrom _ topic.variants
  | sideBySide several schedule after merged found => exact found.length_eq

/-- A topic may end with a ranking if and only if it may with its requests
    finding some states. -/
theorem topicEndsOver_ok_iff {s store : HitStore} {topic : Topic} {list? : Option RankedList} :
    TopicEndsOver threads backend processor s topic (.ok list?) store ↔
      ∃ states, TopicFinds threads backend processor s topic states list? store := by
  unfold TopicEndsOver
  constructor
  · intro h
    split at h
    · rename_i hsingle
      obtain ⟨x, y, hrun⟩ := h
      exact ⟨_, .inTurn hsingle hrun⟩
    · rename_i hseveral
      cases h with
      | ranked schedule after merged =>
        subst after
        obtain ⟨states, hfound⟩ := Flow.exists_states_of_isMerged merged
        exact ⟨states, .sideBySide hseveral schedule rfl merged hfound⟩
  · rintro ⟨states, h⟩
    cases h with
    | inTurn single run_eq => exact (if_pos single).mpr ⟨_, _, run_eq⟩
    | sideBySide several schedule after merged found =>
      exact (if_neg several).mpr (.ranked schedule after merged)

/-! ### Runs -/

/-- One topic of a run. -/
structure TopicRun (σ : Type) where
  /-- The topic. -/
  topic : Topic
  /-- The states of the backend that its requests find, in their order. -/
  states : List σ
  /-- Its ranking, if it has one. -/
  list? : Option RankedList

/-- A run over topics may have this result, its topics going like this. Each of
    them finds the store as the run did. -/
structure RunFinds (threads : Nat) (backend : Backend (StateM σ)) (processor : Processor)
    (store : HitStore) (tag : String) (topics : List Topic) (runs : List (TopicRun σ))
    (result : RunResult) : Prop where
  topics_eq : runs.map (·.topic) = topics
  topic_finds : ∀ r ∈ runs,
    TopicFinds threads backend processor store r.topic r.states r.list? store
  result_eq : result = .ofRankings tag store (runs.map (·.list?))

/-- Topics none of whose requests fails in any state are all ranked, each from
    the states that its requests find. -/
theorem topicsEnd_iff_exists_runs {topics : List Topic}
    (hall : ∀ topic ∈ topics, ∀ v ∈ topic.variants, ∀ x, ¬ Fails (backend.answerIn x) decoder v)
    {p last : Progress} (hp : p.store = .new boost decoder) {outcome : Except RunError Unit} :
    TopicsEnd (TopicEndsOver threads backend processor) tag p topics outcome last ↔
      ∃ runs : List (TopicRun σ), runs.map (·.topic) = topics ∧
        (∀ r ∈ runs, TopicFinds threads backend processor (.new boost decoder) r.topic r.states
          r.list? (.new boost decoder)) ∧
        outcome = .ok () ∧ last = p.finishAll tag (.new boost decoder) (runs.map (·.list?)) := by
  induction topics generalizing p with
  | nil =>
    constructor
    · rintro ⟨⟩
      exact ⟨[], rfl, by simp, rfl, rfl⟩
    · rintro ⟨runs, hruns, -, rfl, rfl⟩
      obtain rfl := List.map_eq_nil_iff.1 hruns
      exact .finished p
  | cons topic rest ih =>
    have hrest := fun t ht => hall t (List.mem_cons_of_mem topic ht)
    constructor
    · intro h
      cases h with
      | stopped topic_ends =>
        obtain ⟨-, -, hfails⟩ := topicEndsOver_spec topic_ends
        obtain ⟨v, hv, x, hx⟩ := hfails _ rfl
        rw [hp] at hx
        exact absurd hx (hall topic List.mem_cons_self v hv x)
      | @further _ _ _ _ list? store _ topic_ends rest_ends =>
        rw [hp] at topic_ends
        obtain ⟨states, hfinds⟩ := topicEndsOver_ok_iff.1 topic_ends
        -- the topic leaves the store empty, so the rest starts as this one did
        obtain ⟨rfl, -⟩ := hfinds.exists_collects
        obtain ⟨runs, rfl, hruns, houtcome, hlast⟩ := (ih hrest rfl).1 rest_ends
        exact ⟨⟨topic, states, list?⟩ :: runs, rfl, List.forall_mem_cons.2 ⟨hfinds, hruns⟩,
          houtcome, hlast⟩
    · rintro ⟨runs, htopics, hruns, rfl, rfl⟩
      obtain ⟨r, runs, rfl, rfl, rfl⟩ := List.map_eq_cons_iff.1 htopics
      obtain ⟨hfinds, hruns⟩ := List.forall_mem_cons.1 hruns
      refine .further ?_ ((ih hrest rfl).2 ⟨runs, rfl, hruns, rfl, rfl⟩)
      rw [hp]
      exact topicEndsOver_ok_iff.2 ⟨r.states, hfinds⟩

/-- The results that a run may have none of whose requests fails in any state
    are those of its transcripts. -/
theorem runEndsOver_iff_exists_runs {topics : List Topic}
    (hall : ∀ topic ∈ topics, ∀ v ∈ topic.variants, ∀ x, ¬ Fails (backend.answerIn x) decoder v)
    {result : RunResult} :
    RunEndsOver threads backend processor (.new boost decoder) tag topics result ↔
      ∃ runs, RunFinds threads backend processor (.new boost decoder) tag topics runs result := by
  have hstart : (Progress.start (.new boost decoder)).store = .new boost decoder := rfl
  constructor
  · rintro ⟨outcome, last, hends, rfl⟩
    obtain ⟨runs, htopics, hfinds, rfl, rfl⟩ := (topicsEnd_iff_exists_runs hall hstart).1 hends
    exact ⟨runs, htopics, hfinds, RunResult.of_finishAll_start _ _⟩
  · rintro ⟨runs, htopics, hfinds, rfl⟩
    exact ⟨_, _, (topicsEnd_iff_exists_runs hall hstart).2 ⟨runs, htopics, hfinds, rfl, rfl⟩,
      (RunResult.of_finishAll_start _ _).symm⟩

/-- The topics of a run with one request at a time, from a state of the backend
    on. -/
def runsFrom (backend : Backend (StateM σ)) (processor : Processor) (fresh : HitStore) :
    σ → List Topic → List (TopicRun σ)
  | _, [] => []
  | x, topic :: rest =>
    ⟨topic, statesFrom backend x topic.variants, rankingIn backend processor fresh x topic⟩ ::
      runsFrom backend processor fresh (backend.stateAfterAll x topic.variants) rest

/-- With one request at a time, the requests of a run find one state after the
    other. -/
theorem runFinds_runsFrom (hsingle : threads ≤ 1) {topics : List Topic} {x : σ}
    (hall : SucceedFrom backend decoder x (topics.flatMap (·.variants))) :
    (runsFrom backend processor (.new boost decoder) x topics).flatMap (·.states) =
        statesFrom backend x (topics.flatMap (·.variants)) ∧
      RunFinds threads backend processor (.new boost decoder) tag topics
        (runsFrom backend processor (.new boost decoder) x topics)
        ((run backend processor (.new boost decoder) tag topics).run x).1 := by
  have htopics : (runsFrom backend processor (.new boost decoder) x topics).map (·.topic) = topics ∧
      (runsFrom backend processor (.new boost decoder) x topics).map (·.list?) =
        rankingsFrom backend processor (.new boost decoder) x topics ∧
      (runsFrom backend processor (.new boost decoder) x topics).flatMap (·.states) =
        statesFrom backend x (topics.flatMap (·.variants)) ∧
      ∀ r ∈ runsFrom backend processor (.new boost decoder) x topics,
        TopicFinds threads backend processor (.new boost decoder) r.topic r.states r.list?
          (.new boost decoder) := by
    induction topics generalizing x with
    | nil => exact ⟨rfl, rfl, rfl, by simp [runsFrom]⟩
    | cons topic rest ih =>
      rw [List.flatMap_cons, succeedFrom_append_iff] at hall
      obtain ⟨htopics, hlists, hstates, hfinds⟩ := ih hall.2
      refine ⟨congrArg (topic :: ·) htopics, congrArg (_ :: ·) hlists, ?_, ?_⟩
      · rw [runsFrom, List.flatMap_cons, hstates, List.flatMap_cons, statesFrom_append]
      · exact List.forall_mem_cons.2
          ⟨.inTurn hsingle (processTopic_of_succeedFrom processor boost hall.1), hfinds⟩
  obtain ⟨htopics, hlists, hstates, hfinds⟩ := htopics
  refine ⟨hstates, htopics, hfinds, ?_⟩
  rw [run_of_succeedFrom hall, hlists]

end EvalRun.Pipeline
