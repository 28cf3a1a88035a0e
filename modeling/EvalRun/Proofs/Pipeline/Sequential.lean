import EvalRun.Proofs.Pipeline.Request

/-! # Proofs.Pipeline.Sequential — one topic, one request after the other

    Collecting stops at the first request that fails. Up to there the store
    collects what the requests offer, and afterwards, ranked or failed, the
    topic is out of it again: a topic that finds the store empty leaves it
    empty.

    Requests are observed with `Backend.logged`, which answers like the
    function it is made of. So what a topic comes to is said without the log,
    and the log is said by itself (`issued`).
-/

namespace EvalRun.Pipeline

variable {answer : QueryVariant → Answer} {boost : Binary64} {decoder : Response.Decoder}
  {processor : Processor}

/-! ### Collecting -/

/-- The next request, for a backend that is a function of the request. -/
theorem issueFrom_ofFunction_cons (topic : String) (index : Nat) (s : HitStore)
    (variant : QueryVariant) (rest : List QueryVariant) :
    Id.run (issueFrom (.ofFunction answer) topic index s (variant :: rest)) =
      match register s topic index variant (answer variant) with
      | (.error e, s) => (.error e, s)
      | (.ok _, s) => Id.run (issueFrom (.ofFunction answer) topic (index + 1) s rest) := by
  simp only [issueFrom]
  rfl

/-- Registering a request that succeeds names the topic, and the store collects
    what the request offers. -/
theorem register_of_succeeds {topic : String} (index : Nat) {s : HitStore}
    {offered : List (String × Binary64)} (hs : s.Collects boost decoder topic offered)
    {variant : QueryVariant} (hsucceeds : Succeeds answer decoder variant) :
    ∃ hits s', register s topic index variant (answer variant) = (.ok hits, s') ∧
      s'.Collects boost decoder topic (offered ++ requestOffers answer boost decoder variant) ∧
      s'.containsTopic topic = true := by
  obtain ⟨batch, hbatch⟩ := hsucceeds
  have hbatch' : outcome answer s.decoder variant = .ok batch := by
    rw [hs.decoder_eq, hbatch]
  refine ⟨_, _, register_of_ok topic index hbatch', ?_, HitStore.containsTopic_registerHits ..⟩
  rw [requestOffers_of_ok hbatch]
  exact hs.ensureTopic.registerHits batch variant.hasFormula

/-- Registering a request that fails gives its error, and the store collects
    what it collected before. -/
theorem register_of_fails {topic : String} (index : Nat) {s : HitStore}
    {offered : List (String × Binary64)} (hs : s.Collects boost decoder topic offered)
    {variant : QueryVariant} {fault : RequestFault}
    (hfault : outcome answer decoder variant = .error fault) :
    ∃ s', register s topic index variant (answer variant) =
        (.error (fault.error topic index), s') ∧
      s'.Collects boost decoder topic offered := by
  have hfault' : outcome answer s.decoder variant = .error fault := by
    rw [hs.decoder_eq, hfault]
  obtain ⟨s', hregister, hs'⟩ := register_of_error topic index hfault'
  refine ⟨s', hregister, ?_⟩
  rcases hs' with rfl | rfl
  · exact hs
  · exact hs.ensureTopic

/-- Requests that all succeed are all registered. The topic is in the store
    then, unless there was no request. -/
theorem issueFrom_of_succeeds {topic : String} {variants : List QueryVariant} (index : Nat)
    {s : HitStore} {offered : List (String × Binary64)}
    (hs : s.Collects boost decoder topic offered)
    (hall : ∀ v ∈ variants, Succeeds answer decoder v) :
    ∃ s', Id.run (issueFrom (.ofFunction answer) topic index s variants) = (.ok (), s') ∧
      s'.Collects boost decoder topic
        (offered ++ variants.flatMap (requestOffers answer boost decoder)) ∧
      s'.containsTopic topic = (s.containsTopic topic || !variants.isEmpty) := by
  induction variants generalizing index s offered with
  | nil => exact ⟨s, rfl, by simpa using hs, by simp⟩
  | cons variant rest ih =>
    obtain ⟨hits, next, hregister, hnext, hnamed⟩ :=
      register_of_succeeds index hs (hall variant List.mem_cons_self)
    obtain ⟨s', hrun, hs', hcontains⟩ := ih (index + 1) hnext
      fun v hv => hall v (List.mem_cons_of_mem _ hv)
    refine ⟨s', ?_, ?_, ?_⟩
    · rw [issueFrom_ofFunction_cons, hregister]
      exact hrun
    · rw [List.flatMap_cons, ← List.append_assoc]
      exact hs'
    · -- the first request names the topic, whatever the store held before
      rw [hcontains, hnamed]
      simp

/-- The first request that fails ends collecting with its error. -/
theorem issueFrom_of_fails {topic : String} {done : List QueryVariant} (rest : List QueryVariant)
    {variant : QueryVariant} {fault : RequestFault} (index : Nat) {s : HitStore}
    {offered : List (String × Binary64)} (hs : s.Collects boost decoder topic offered)
    (hdone : ∀ v ∈ done, Succeeds answer decoder v)
    (hfault : outcome answer decoder variant = .error fault) :
    ∃ s' offered', s'.Collects boost decoder topic offered' ∧
      Id.run (issueFrom (.ofFunction answer) topic index s (done ++ variant :: rest)) =
        (.error (fault.error topic (index + done.length)), s') := by
  induction done generalizing index s offered with
  | nil =>
    obtain ⟨s', hregister, hs'⟩ := register_of_fails index hs hfault
    refine ⟨s', offered, hs', ?_⟩
    rw [List.nil_append, issueFrom_ofFunction_cons, hregister]
    rfl
  | cons first done ih =>
    obtain ⟨hits, next, hregister, hnext, -⟩ :=
      register_of_succeeds index hs (hdone first List.mem_cons_self)
    obtain ⟨s', offered', hs', hrun⟩ := ih (index + 1) hnext
      fun v hv => hdone v (List.mem_cons_of_mem _ hv)
    refine ⟨s', offered', hs', ?_⟩
    rw [List.cons_append, issueFrom_ofFunction_cons, hregister, List.length_cons,
      Nat.add_comm done.length, ← Nat.add_assoc]
    exact hrun

/-! ### One topic -/

/-- A topic is collected, and then it is ranked or, if a request failed, taken
    out of the store. -/
theorem processTopic_ofFunction (s : HitStore) (topic : Topic) :
    Id.run (processTopic (.ofFunction answer) processor s topic) =
      match Id.run (issueFrom (.ofFunction answer) topic.id 0 s topic.variants) with
      | (.error e, s) => (.error e, (s.take topic.id).2)
      | (.ok (), s) =>
        (.ok (processor.process s topic.id).1, (processor.process s topic.id).2) := by
  simp only [processTopic, collect, bind_assoc, Id.run_bind]
  rcases Id.run (issueFrom (.ofFunction answer) topic.id 0 s topic.variants)
    with ⟨_ | _, s⟩ <;> rfl

/-- The ranking of a topic that is processed by itself. -/
def rankingOf (answer : QueryVariant → Answer) (processor : Processor) (fresh : HitStore)
    (topic : Topic) : Option RankedList :=
  match Id.run (processTopic (.ofFunction answer) processor fresh topic) with
  | (.ok list?, _) => list?
  | (.error _, _) => none

/-- A topic whose requests all succeed is ranked from what they offer, and
    leaves the store empty. -/
theorem processTopic_of_succeeds (processor : Processor) (boost : Binary64) {topic : Topic}
    (hall : ∀ v ∈ topic.variants, Succeeds answer decoder v) :
    ∃ s : HitStore, s.Collects boost decoder topic.id
        (topic.variants.flatMap (requestOffers answer boost decoder)) ∧
      s.containsTopic topic.id = !topic.variants.isEmpty ∧
      Id.run (processTopic (.ofFunction answer) processor (.new boost decoder) topic) =
        (.ok (processor.process s topic.id).1, .new boost decoder) := by
  obtain ⟨s, hrun, hs, hcontains⟩ :=
    issueFrom_of_succeeds 0 (HitStore.collects_new boost decoder topic.id) hall
  refine ⟨s, hs, hcontains, ?_⟩
  have htaken : (processor.process s topic.id).2 = .new boost decoder := hs.take_eq_new
  rw [processTopic_ofFunction, hrun]
  simp only [htaken]

/-- So it has the ranking that it has by itself. -/
theorem processTopic_eq_rankingOf {topic : Topic}
    (hall : ∀ v ∈ topic.variants, Succeeds answer decoder v) :
    Id.run (processTopic (.ofFunction answer) processor (.new boost decoder) topic) =
      (.ok (rankingOf answer processor (.new boost decoder) topic), .new boost decoder) := by
  obtain ⟨s, -, -, hrun⟩ :=
    processTopic_of_succeeds processor boost hall
  unfold rankingOf
  rw [hrun]

/-- A topic with a request that fails ends with the error of the first such
    request, and leaves the store empty. -/
theorem processTopic_of_fails {topic : Topic} {done rest : List QueryVariant}
    {variant : QueryVariant} {fault : RequestFault}
    (hvariants : topic.variants = done ++ variant :: rest)
    (hdone : ∀ v ∈ done, Succeeds answer decoder v)
    (hfault : outcome answer decoder variant = .error fault) :
    Id.run (processTopic (.ofFunction answer) processor (.new boost decoder) topic) =
      (.error (fault.error topic.id done.length), .new boost decoder) := by
  obtain ⟨s, offered, hs, hrun⟩ := issueFrom_of_fails rest 0
    (HitStore.collects_new boost decoder topic.id) hdone hfault
  rw [processTopic_ofFunction, hvariants, hrun, Nat.zero_add]
  simp only [hs.take_eq_new]

/-! ### The log -/

/-- The requests that are issued: all up to the first that fails, and that
    one. -/
def issued (answer : QueryVariant → Answer) (decoder : Response.Decoder) :
    List QueryVariant → List QueryVariant
  | [] => []
  | variant :: rest =>
    match outcome answer decoder variant with
    | .ok _ => variant :: issued answer decoder rest
    | .error _ => [variant]

theorem issued_of_succeeds {variants : List QueryVariant}
    (hall : ∀ v ∈ variants, Succeeds answer decoder v) :
    issued answer decoder variants = variants := by
  induction variants with
  | nil => rfl
  | cons variant rest ih =>
    obtain ⟨batch, hbatch⟩ := hall variant List.mem_cons_self
    rw [issued, hbatch, ih fun v hv => hall v (List.mem_cons_of_mem _ hv)]

theorem issued_of_fails {done rest : List QueryVariant} {variant : QueryVariant}
    {fault : RequestFault} (hdone : ∀ v ∈ done, Succeeds answer decoder v)
    (hfault : outcome answer decoder variant = .error fault) :
    issued answer decoder (done ++ variant :: rest) = done ++ [variant] := by
  induction done with
  | nil => rw [List.nil_append, issued, hfault, List.nil_append]
  | cons first done ih =>
    obtain ⟨batch, hbatch⟩ := hdone first List.mem_cons_self
    rw [List.cons_append, issued, hbatch, ih fun v hv => hdone v (List.mem_cons_of_mem _ hv),
      List.cons_append]

/-- Collecting with a log is collecting, and the log grows by what is issued. -/
theorem issueFrom_logged {topic : String} {variants : List QueryVariant} {index : Nat}
    {s : HitStore} {offered : List (String × Binary64)}
    (hs : s.Collects boost decoder topic offered) (log : List QueryVariant) :
    (issueFrom (.logged answer) topic index s variants).run log =
      (Id.run (issueFrom (.ofFunction answer) topic index s variants),
        log ++ issued answer decoder variants) := by
  induction variants generalizing index s offered log with
  | nil =>
    rw [issued, List.append_nil]
    rfl
  | cons variant rest ih =>
    -- the request is in the log whatever its answer comes to
    have hstep : (issueFrom (.logged answer) topic index s (variant :: rest)).run log =
        StateT.run (match register s topic index variant (answer variant) with
          | (.error e, s) => pure (.error e, s)
          | (.ok _, s) => issueFrom (.logged answer) topic (index + 1) s rest)
          (log ++ [variant]) := rfl
    rw [hstep, issueFrom_ofFunction_cons]
    cases houtcome : outcome answer decoder variant with
    | error fault =>
      obtain ⟨s', hregister, -⟩ := register_of_fails index hs houtcome
      rw [hregister, issued, houtcome]
      rfl
    | ok batch =>
      obtain ⟨hits, next, hregister, hnext, -⟩ := register_of_succeeds index hs ⟨batch, houtcome⟩
      rw [hregister, issued, houtcome]
      simp only
      rw [ih hnext, List.append_assoc, List.singleton_append]

/-- Processing a topic with a log is processing it, and the log grows by what
    is issued. -/
theorem processTopic_logged (answer : QueryVariant → Answer) (processor : Processor)
    (boost : Binary64) (decoder : Response.Decoder) (topic : Topic) (log : List QueryVariant) :
    (processTopic (.logged answer) processor (.new boost decoder) topic).run log =
      (Id.run (processTopic (.ofFunction answer) processor (.new boost decoder) topic),
        log ++ issued answer decoder topic.variants) := by
  rw [processTopic_ofFunction]
  simp only [processTopic, collect, bind_assoc, StateT.run_bind,
    issueFrom_logged (HitStore.collects_new boost decoder topic.id) log]
  rcases Id.run (issueFrom (.ofFunction answer) topic.id 0 (.new boost decoder) topic.variants)
    with ⟨_ | _, s⟩ <;> rfl

end EvalRun.Pipeline
