import EvalRun.Proofs.Pipeline.Sequential
import EvalRun.Proofs.Pipeline.Steps

/-! # Proofs.Pipeline.Interleaving — every order of steps, one ranking

    Requests that step side by side come to what they come to one after the
    other.

    * **All succeed.** Once all requests are merged, the store collects what
      they all offer, as it does after issuing them in their order. If no
      offered score is a NaN or a negative zero, this decides the store, and so
      the ranking.
    * **One fails.** The topic ends with the error of a request that fails,
      whatever the others have done, and it is out of the store.
-/

namespace EvalRun.Pipeline

variable {answer : QueryVariant → Answer} {boost : Binary64} {decoder : Response.Decoder}
  {processor : Processor} {topic : Topic}

/-- Every order of steps that merges all requests gives the ranking of the
    requests one after the other. -/
theorem processTopic_eq_of_isMerged {f : Flow} (h : f.Tracks answer boost decoder topic)
    (hmerged : f.IsMerged)
    (hplain : ∀ v ∈ topic.variants, ∀ offer ∈ requestOffers answer boost decoder v,
      offer.2.IsPlain) :
    Id.run (processTopic (.ofFunction answer) processor (.new boost decoder) topic) =
      (.ok (processor.process f.store topic.id).1, (processor.process f.store topic.id).2) := by
  obtain ⟨s, hs, hcontains, hrun⟩ :=
    processTopic_of_succeeds processor boost (h.succeeds_of_isMerged hmerged)
  -- both stores collect the same offers, and these decide the store
  have hstore : f.store = s := by
    apply (h.collects_of_isMerged hmerged).unique hs
    · intro offer hoffer
      obtain ⟨v, hv, hoffer⟩ := List.mem_flatMap.1 hoffer
      exact hplain v hv offer hoffer
    · rw [h.containsTopic_of_isMerged hmerged, hcontains]
  have htaken : (processor.process s topic.id).2 = .new boost decoder := hs.take_eq_new
  rw [hstore, htaken, hrun]

/-- A request that fails can end its topic: it may be the only one that
    begins. -/
theorem interleaved_of_fails {i : Nat} {variant : QueryVariant} {fault : RequestFault}
    (hvariant : topic.variants[i]? = some variant)
    (hfault : outcome answer decoder variant = .error fault) :
    Interleaved answer processor (.new boost decoder) topic (.error (fault.error topic.id i))
      (.new boost decoder) := by
  have htracks := Flow.tracks_after answer boost decoder topic (.replicate 4 i)
  obtain ⟨phase, hphase, hfinal⟩ :=
    Flow.isFinal_after answer (.new boost decoder) (.replicate 4 i) hvariant (by simp)
  have hfailed := (htracks.follows i _ hphase).eq_failed hfinal hfault
  have hsettled : (Flow.after answer (.new boost decoder) topic (.replicate 4 i)).IsSettled := by
    intro r hr
    obtain ⟨j, hj⟩ := List.mem_iff_getElem?.1 hr
    by_cases hji : j = i
    · rw [hji, hphase, Option.some.injEq] at hj
      rw [← hj]
      exact .inr hfinal
    · -- the schedule never comes to the other requests
      have hnever : j ∉ List.replicate 4 i := fun hmem => hji (List.eq_of_mem_replicate hmem)
      rw [Flow.after, Flow.getElem?_requests_along_of_not_mem hnever, Flow.begin,
        List.getElem?_map, Option.map_eq_some_iff] at hj
      obtain ⟨v, -, rfl⟩ := hj
      exact .inl rfl
  have herror : fault.error topic.id i ∈
      (Flow.after answer (.new boost decoder) topic (.replicate 4 i)).errors :=
    List.mem_filterMap.2 ⟨_, List.mem_of_getElem? hphase, by rw [hfailed]; rfl⟩
  have hstopped : Interleaved answer processor (.new boost decoder) topic _ _ :=
    .stopped (.replicate 4 i) rfl hsettled _ herror
  rwa [htracks.collects.take_eq_new] at hstopped

/-- How a topic ends whose requests step in any order, from an empty store.

    If all its requests succeed and offer neither a NaN nor a negative zero,
    it ends as with the requests one after the other: ranked, with the same
    ranking, and the store is empty. It does end, once each request has made
    four steps.

    If some request fails, it ends with the error of a request that fails, of
    whichever of them, and the store is empty. -/
theorem interleaved_iff (answer : QueryVariant → Answer) (processor : Processor)
    (boost : Binary64) (decoder : Response.Decoder) (topic : Topic) :
    ((∀ v ∈ topic.variants, Succeeds answer decoder v ∧
        ∀ offer ∈ requestOffers answer boost decoder v, offer.2.IsPlain) →
      (∃ list?, Id.run (processTopic (.ofFunction answer) processor (.new boost decoder) topic) =
        (.ok list?, .new boost decoder)) ∧
      (∀ schedule : List Nat, (∀ i < topic.variants.length, 4 ≤ schedule.count i) →
        (Flow.after answer (.new boost decoder) topic schedule).IsMerged) ∧
      ∀ result store, Interleaved answer processor (.new boost decoder) topic result store ↔
        Id.run (processTopic (.ofFunction answer) processor (.new boost decoder) topic) =
          (result, store)) ∧
    ((∃ v ∈ topic.variants, Fails answer decoder v) →
      (∃ result store, Interleaved answer processor (.new boost decoder) topic result store) ∧
      ∀ result store, Interleaved answer processor (.new boost decoder) topic result store ↔
        (∃ i variant fault, topic.variants[i]? = some variant ∧
          outcome answer decoder variant = .error fault ∧
          result = .error (fault.error topic.id i)) ∧
        store = .new boost decoder) := by
  constructor
  · intro hall
    have hsucceeds : ∀ v ∈ topic.variants, Succeeds answer decoder v := fun v hv => (hall v hv).1
    have hplain : ∀ v ∈ topic.variants, ∀ offer ∈ requestOffers answer boost decoder v,
        offer.2.IsPlain := fun v hv => (hall v hv).2
    refine ⟨⟨_, processTopic_eq_rankingOf hsucceeds⟩, ?_, ?_⟩
    · exact fun schedule hcount => Flow.isMerged_after hsucceeds hcount
    · intro result store
      constructor
      · intro hinterleaved
        cases hinterleaved with
        | ranked schedule hafter hmerged =>
          subst hafter
          have htracks := Flow.tracks_after answer boost decoder topic schedule
          exact processTopic_eq_of_isMerged htracks hmerged hplain
        | stopped schedule hafter hsettled error hmem =>
          subst hafter
          have htracks := Flow.tracks_after answer boost decoder topic schedule
          obtain ⟨i, variant, fault, hvariant, hfault, -⟩ := htracks.exists_of_mem_errors hmem
          exact absurd ⟨fault, hfault⟩
            (not_fails_iff.2 (hsucceeds variant (List.mem_of_getElem? hvariant)))
      · intro hrun
        have hmerged :
            (Flow.after answer (.new boost decoder) topic (Flow.rounds topic)).IsMerged :=
          Flow.isMerged_after hsucceeds fun i hi => (Flow.count_rounds hi).ge
        have hranked : Interleaved answer processor (.new boost decoder) topic _ _ :=
          .ranked (Flow.rounds topic) rfl hmerged
        rw [processTopic_eq_of_isMerged (Flow.tracks_after ..) hmerged hplain,
          Prod.mk.injEq] at hrun
        rwa [hrun.1, hrun.2] at hranked
  · rintro ⟨v, hv, fault, hfault⟩
    obtain ⟨i, hi⟩ := List.mem_iff_getElem?.1 hv
    refine ⟨⟨_, _, interleaved_of_fails hi hfault⟩, ?_⟩
    intro result store
    constructor
    · intro hinterleaved
      cases hinterleaved with
      | ranked schedule hafter hmerged =>
        subst hafter
        have htracks := Flow.tracks_after answer boost decoder topic schedule
        exact absurd ⟨fault, hfault⟩
          (not_fails_iff.2 (htracks.succeeds_of_isMerged hmerged v hv))
      | stopped schedule hafter hsettled error hmem =>
        subst hafter
        have htracks := Flow.tracks_after answer boost decoder topic schedule
        obtain ⟨i, variant, fault, hvariant, hfault, rfl⟩ := htracks.exists_of_mem_errors hmem
        exact ⟨⟨i, variant, fault, hvariant, hfault, rfl⟩, htracks.collects.take_eq_new⟩
    · rintro ⟨⟨i, variant, fault, hvariant, hfault, rfl⟩, rfl⟩
      exact interleaved_of_fails hvariant hfault

/-- Two requests return the same document, and one of them earns it the boost:
    every order gives the same ranking. If the second of them times out, every
    order ends with its error. -/
theorem interleaved_two_requests :
    let answer : QueryVariant → Answer := fun v =>
      if v.formula = "slow" then .error .timeout else .ok "\x7b\"hits\":[[\"a\",0]]\x7d"
    let processor : Processor := ⟨none, .ofDepth 5⟩
    let fresh : HitStore := .new ⟨false, 0x3ff0000000000000, by decide⟩ (.ofFormat .flat)
    let both : Topic := ⟨"T", [⟨"x", ""⟩, ⟨"x", "y"⟩]⟩
    let late : Topic := ⟨"T", [⟨"x", ""⟩, ⟨"x", "slow"⟩]⟩
    (∀ result store, Interleaved answer processor fresh both result store →
      Id.run (processTopic (.ofFunction answer) processor fresh both) = (result, store)) ∧
    ∀ result store, Interleaved answer processor fresh late result store →
      result = .error (.backend "T" 1 .timeout) ∧ store = fresh := by
  intro answer processor fresh both late
  constructor
  · have hall : ∀ v ∈ both.variants, Succeeds answer fresh.decoder v ∧
        ∀ offer ∈ requestOffers answer fresh.boost fresh.decoder v, offer.2.IsPlain := by
      intro v hv
      simp only [both, List.mem_cons, List.not_mem_nil, or_false] at hv
      rcases hv with rfl | rfl
      · exact ⟨⟨_, rfl⟩, by decide +kernel⟩
      · exact ⟨⟨_, rfl⟩, by decide +kernel⟩
    have hboth := (interleaved_iff answer processor fresh.boost fresh.decoder both).1 hall
    exact fun result store => (hboth.2.2 result store).1
  · intro result store hinterleaved
    have hfails : ∃ v ∈ late.variants, Fails answer fresh.decoder v :=
      ⟨⟨"x", "slow"⟩, by simp [late], _, rfl⟩
    have hlate := (interleaved_iff answer processor fresh.boost fresh.decoder late).2 hfails
    obtain ⟨⟨i, variant, fault, hvariant, hfault, rfl⟩, hstore⟩ :=
      (hlate.2 result store).1 hinterleaved
    refine ⟨?_, hstore⟩
    match i, hvariant with
    | 0, hvariant =>
      -- the first request does not fail
      cases hvariant
      exact absurd ⟨fault, hfault⟩ (not_fails_iff.2 ⟨_, rfl⟩)
    | 1, hvariant =>
      cases hvariant
      have htimeout : outcome answer fresh.decoder ⟨"x", "slow"⟩ = .error (.backend .timeout) := rfl
      rw [htimeout, Except.error.injEq] at hfault
      rw [← hfault]
      rfl
    | _ + 2, hvariant => cases hvariant

end EvalRun.Pipeline
