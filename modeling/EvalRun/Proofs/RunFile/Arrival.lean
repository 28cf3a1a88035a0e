import EvalRun.Proofs.HitStore.History
import EvalRun.Proofs.Json.Scaling
import EvalRun.Proofs.Ranking.Processing
import EvalRun.Proofs.Response.Written
import EvalRun.Proofs.RunFile.Scores

/-! # Proofs.RunFile.Arrival — a score on its way from a response to its row

    Whoever sends a score as the run file would write it may expect to find it
    there unchanged, if no boost is added. On its way the score is read, added
    to zero, merged, ranked and written, and only reading it may change it:

    * **Zero.** Adding zero changes no number but negative zero
      (`add_zero_of_isZero_eq_false`).
    * **Alone.** A document that was offered one score is stored with it, and
      every ranking that shows the document shows that score
      (`arrives_of_offered_once`).
    * **Reading.** The number of the literal is what arrives. It is the score
      that was sent if the literal is short (`unboosted_score_arrives`), and
      need not be if it is long (`unboosted_score_changes`).
-/

namespace EvalRun

namespace Binary64

/-! ### Adding zero -/

theorem add_zero_of_isZero_eq_false {x : Binary64} (hnan : x.isNaN = false)
    (hzero : x.isZero = false) : x.add .zero = x := by
  have hnanZero : zero.isNaN = false := rfl
  have hinfiniteZero : zero.isInfinite = false := rfl
  unfold add
  rw [if_neg (by simp [hnan]), if_neg (by simp [hnanZero])]
  by_cases hinfinite : x.isInfinite = true
  · simp [hinfinite, hinfiniteZero]
  · have hfinite : x.isFinite = true := by
      simp only [isNaN, isInfinite, isFinite, decide_eq_true_eq, decide_eq_false_iff_not] at *
      omega
    have hpos := units_pos hzero
    have hsum : x.signedUnits + zero.signedUnits = x.signedUnits := by
      have hzeroUnits : zero.signedUnits = 0 := rfl
      omega
    rw [if_neg hinfinite, if_neg (by simp [hinfiniteZero])]
    simp only [hsum]
    have hsign : decide (x.signedUnits < 0) = x.negative := by
      unfold signedUnits
      cases x.negative <;> simp
      omega
    have habs : x.signedUnits.natAbs = x.units := by
      unfold signedUnits
      cases x.negative <;> simp
    have hnonzero : x.signedUnits ≠ 0 := by omega
    rw [if_neg hnonzero, hsign, habs, nearest_units hfinite]
    rfl

theorem isZero_add_zero {x : Binary64} (hzero : x.isZero = true) :
    (x.add .zero).isZero = true := by
  obtain ⟨negative, magnitude, hmagnitude⟩ := x
  obtain rfl : magnitude = 0 := of_decide_eq_true hzero
  cases negative <;> rfl

/-- Only a number itself gives the number when zero is added, zeros apart. -/
theorem add_zero_eq_iff {x y : Binary64} (hnan : y.isNaN = false) (hx : x.isZero = false) :
    y.add .zero = x ↔ y = x := by
  cases hy : y.isZero with
  | false => rw [add_zero_of_isZero_eq_false hnan hy]
  | true =>
    constructor
    · rintro rfl
      rw [isZero_add_zero hy] at hx
      cases hx
    · rintro rfl
      rw [hy] at hx
      cases hx

end Binary64

open HitStore (Call sinceTaken offeredSince)
open Json (NumberLiteral)
open Response (Decoder Format HoldsOne)

/-! ### A document with one score -/

/-- The score of a document has arrived: it is stored, and shown by every
    ranking that has a row for the document. Where a ranking has none, all its
    rows stand before the place of the document. -/
structure Arrives (store : HitStore) (topic doc : String) (x : Binary64) : Prop where
  score?_eq : store.score? topic doc = some x
  ranked : ∀ processor : Processor, ∃ list, (processor.process store topic).1 = some list ∧
    (∀ e ∈ list.entries, e.doc = doc → e.score = x ∧ e.scoreColumn = scoreLayout.render x) ∧
    (doc ∉ list.entries.map (·.doc) →
      ∀ e ∈ list.entries, RankedEntry.order e (.ofRetrieved doc x) = .lt)

theorem Arrives.unique {store : HitStore} {topic doc : String} {x y : Binary64}
    (hx : Arrives store topic doc x) (hy : Arrives store topic doc y) : x = y :=
  Option.some.inj (hx.score?_eq.symm.trans hy.score?_eq)

variable {boost : Binary64} {decoder : Decoder} {topic doc : String} {calls : List Call}

/-- A document that was offered with one score only is stored with it, and
    ranked with it. -/
theorem arrives_of_offered_once {x : Binary64}
    (hoffered : (doc, x) ∈ offeredSince boost decoder topic calls)
    (hone : ∀ score, (doc, score) ∈ offeredSince boost decoder topic calls → score = x) :
    Arrives ((HitStore.new boost decoder).after calls) topic doc x := by
  obtain ⟨hcontains, hkeeps, -⟩ := HitStore.hits?_after boost decoder calls topic
  generalize (HitStore.new boost decoder).after calls = store at *
  -- the call that offers the score names the topic
  have hnamed : ∃ call ∈ sinceTaken topic calls, call.names topic = true := by
    obtain ⟨call, hcall, hmem⟩ := List.mem_flatMap.1 hoffered
    refine ⟨call, hcall, ?_⟩
    by_contra hnames
    rw [Call.registeredFor_of_not_names (Bool.eq_false_iff.2 hnames)] at hmem
    cases hmem
  obtain ⟨hits, hhits⟩ := HitStore.containsTopic_iff.1 (hcontains.2 hnamed)
  obtain ⟨hkept, -⟩ := hkeeps hits hhits
  obtain ⟨score, hget⟩ := OrderedMap.contains_iff.1 ((hkept.contains_iff doc).2 ⟨x, hoffered⟩)
  obtain rfl : score = x := hone score (hkept.mem_of_get? doc score hget)
  refine ⟨?_, ?_⟩
  · simp only [HitStore.score?, hhits, Option.bind_eq_bind, Option.bind_some, hget]
  · intro processor
    have hne : hits.isEmpty = false :=
      List.isEmpty_eq_false_iff_exists_mem.2 ⟨_, OrderedMap.mem_entries.2 hget⟩
    obtain ⟨list, hlist, hranking⟩ := (processor.process_isRanking store topic).2 hits hhits hne
    refine ⟨list, hlist, ?_, hranking.missing doc score hget⟩
    intro e he hdoc
    cases horigin : e.origin with
    | filler =>
      -- a filler is no document of the topic
      obtain ⟨-, habsent, -⟩ := hranking.filler e he horigin
      rw [hdoc, OrderedMap.not_contains_iff, hget] at habsent
      cases habsent
    | retrieved =>
      have hscore := hranking.retrieved e he horigin
      rw [hdoc, hget, Option.some.injEq] at hscore
      exact ⟨hscore.symm, by rw [RankedEntry.scoreColumn_of_retrieved horigin, hscore]⟩

/-- A document that was not offered has no score. -/
theorem score?_of_not_offered
    (hnone : ∀ score, (doc, score) ∉ offeredSince boost decoder topic calls) :
    ((HitStore.new boost decoder).after calls).score? topic doc = none := by
  obtain ⟨-, hkeeps, -⟩ := HitStore.hits?_after boost decoder calls topic
  cases hhits : ((HitStore.new boost decoder).after calls).hits? topic with
  | none => simp [HitStore.score?, hhits]
  | some hits =>
    obtain ⟨hkept, -⟩ := hkeeps hits hhits
    cases hget : hits.get? doc with
    | none => simp [HitStore.score?, hhits, hget]
    | some score => exact absurd (hkept.mem_of_get? doc score hget) (hnone score)

/-! ### A score that is sent -/

/-- The literal is the text that the run file has for a score. -/
structure IsColumnOf (literal : NumberLiteral) (x : Binary64) : Prop where
  positional : IsPositional (scoreLayout.render x) literal.negative literal.whole literal.fraction
  exponent_eq : literal.exponent = none

variable {format : Format} {literal : NumberLiteral} {x : Binary64} {body : String}
  {before after : List Call}

/-- The literal of a score has the score for its nearest double. -/
theorem IsColumnOf.ofDecimal_eq (h : IsColumnOf literal x) (hfinite : x.isFinite = true) :
    Binary64.ofDecimal literal.negative
      ⟨readDigits 0 (literal.whole ++ literal.fraction), -literal.fraction.length⟩ = x := by
  have hcolumn : (RankedEntry.ofRetrieved "" x).scoreColumn = scoreLayout.render x :=
    RankedEntry.scoreColumn_of_retrieved rfl
  have hread := RankedEntry.readScore?_scoreColumn (e := .ofRetrieved "" x) rfl hfinite
  rw [hcolumn, h.positional.readScore?_eq] at hread
  exact Option.some.inj hread

/-- Where one call only registers the document for the topic, what it registers is
    what was offered for the document. -/
theorem mem_offeredSince_iff_of_others {call : Call}
    (hcalls : sinceTaken topic calls = before ++ call :: after) (htopic : call.topic = topic)
    (hothers : ∀ other ∈ before ++ after, ∀ score,
      (doc, score) ∉ other.registeredFor boost decoder topic) (score : Binary64) :
    (doc, score) ∈ offeredSince boost decoder topic calls ↔
      (doc, score) ∈ call.registered boost decoder := by
  unfold offeredSince
  rw [hcalls, List.flatMap_append, List.flatMap_cons, List.mem_append, List.mem_append,
    Call.registeredFor, if_pos htopic, List.mem_flatMap, List.mem_flatMap]
  constructor
  · rintro (⟨other, hother, hmem⟩ | hmem | ⟨other, hother, hmem⟩)
    · exact absurd hmem (hothers other (List.mem_append_left _ hother) score)
    · exact hmem
    · exact absurd hmem (hothers other (List.mem_append_right _ hother) score)
  · exact fun hmem => .inr (.inl hmem)

/-- A document with one hit is offered once, without a formula with zero added. -/
theorem mem_offers_iff_of_single {earlier later : List Hit} {read : Binary64}
    (hdocs : ∀ hit ∈ earlier ++ later, hit.doc ≠ doc) (score : Binary64) :
    (doc, score) ∈ offers boost false (earlier ++ ⟨doc, read⟩ :: later) ↔
      score = read.add .zero := by
  simp only [offers, List.mem_map]
  constructor
  · rintro ⟨hit, hhit, heq⟩
    obtain ⟨hdoc, hscore⟩ := Prod.mk.inj heq
    rcases List.mem_append.1 hhit with hhit | hhit
    · exact absurd hdoc (hdocs hit (List.mem_append_left _ hhit))
    · rcases List.mem_cons.1 hhit with rfl | hhit
      · exact hscore.symm
      · exact absurd hdoc (hdocs hit (List.mem_append_right _ hhit))
  · rintro rfl
    exact ⟨⟨doc, read⟩, List.mem_append_right _ List.mem_cons_self, rfl⟩

/-- A score that is sent for a document, without a formula, in the only response
    that names the document, is written in the response as the run file would
    write it.

    * If its literal is too large for the reader, the response is refused, and
      the document has no score.
    * Otherwise the number of the literal arrives, with zero added.
    * So the score arrives if and only if it is the number of its literal.
    * It is, if its digits make a number below `2 ^ 53` and at most 22 of them
      stand behind the point. -/
theorem unboosted_score_arrives (hfinite : x.isFinite = true) (hnonzero : x.isZero = false)
    (hwritten : IsColumnOf literal x) (hbody : HoldsOne format body doc literal)
    (hcalls : sinceTaken topic calls = before ++ .registerResult topic body false :: after)
    (hothers : ∀ call ∈ before ++ after, ∀ score,
      (doc, score) ∉ call.registeredFor boost (Decoder.ofFormat format) topic) :
    let store := (HitStore.new boost (Decoder.ofFormat format)).after calls
    (literal.number? = none →
      (Decoder.ofFormat format).decodeBody body = .error .invalidJson ∧
        store.score? topic doc = none) ∧
    (∀ n, literal.number? = some n → Arrives store topic doc (n.toBinary64.add .zero)) ∧
    (Arrives store topic doc x ↔ ∃ n, literal.number? = some n ∧ n.toBinary64 = x) ∧
    (readDigits 0 (literal.whole ++ literal.fraction) < 2 ^ 53 → literal.fraction.length ≤ 22 →
      Arrives store topic doc x) := by
  intro store
  obtain ⟨hrefused, hdecoded⟩ := hbody.decodeBody_eq
  -- what is offered for the document comes from the response
  have hoffered := mem_offeredSince_iff_of_others hcalls rfl hothers
  have hrefusal (hlarge : literal.number? = none) : store.score? topic doc = none := by
    apply score?_of_not_offered
    intro score hmem
    rw [hoffered, Call.registered, hrefused hlarge] at hmem
    cases hmem
  have harrives (n : Json.Number) (hn : literal.number? = some n) :
      Arrives store topic doc (n.toBinary64.add .zero) := by
    obtain ⟨earlier, later, hbatch, hdocs⟩ := hdecoded n hn
    have honce : ∀ score, (doc, score) ∈ offeredSince boost (Decoder.ofFormat format) topic calls ↔
        score = n.toBinary64.add .zero := by
      intro score
      rw [hoffered, Call.registered, hbatch]
      exact mem_offers_iff_of_single hdocs score
    exact arrives_of_offered_once ((honce _).2 rfl) fun score => (honce score).1
  have hiff : Arrives store topic doc x ↔ ∃ n, literal.number? = some n ∧ n.toBinary64 = x := by
    constructor
    · intro h
      cases hnumber : literal.number? with
      | none =>
        have hscore := h.score?_eq
        rw [hrefusal hnumber] at hscore
        cases hscore
      | some n =>
        have heq := (harrives n hnumber).unique h
        have hnan := NumberLiteral.isNaN_of_number? hnumber
        exact ⟨n, rfl, (Binary64.add_zero_eq_iff hnan hnonzero).1 heq⟩
    · rintro ⟨n, hn, rfl⟩
      have hnan := NumberLiteral.isNaN_of_number? hn
      have h := harrives n hn
      rwa [Binary64.add_zero_of_isZero_eq_false hnan hnonzero] at h
  refine ⟨fun hlarge => ⟨hrefused hlarge, hrefusal hlarge⟩, harrives, hiff, ?_⟩
  intro hdigits hplaces
  rw [hiff]
  have hnumber := NumberLiteral.number?_of_short hwritten.exponent_eq
    hwritten.positional.fraction_ne_nil hdigits hplaces
  rw [hwritten.ofDecimal_eq hfinite] at hnumber
  exact ⟨_, hnumber, rfl⟩

/-- A short score arrives from a flat response. -/
theorem unboosted_score_arrives_short :
    scoreLayout.render ⟨false, 0x4019000000000000, by decide⟩ = "6.25" ∧
      Arrives ((HitStore.new .zero (Decoder.ofFormat .auto)).after [.registerResult "T"
        "\x7b\x22hits\x22:[\x7b\x22id\x22:\x22d\x22,\x22score\x22:6.25\x7d]\x7d" false])
        "T" "d" ⟨false, 0x4019000000000000, by decide⟩ := by
  have hrender : scoreLayout.render ⟨false, 0x4019000000000000, by decide⟩ = "6.25" := by
    decide +kernel
  have hwritten : IsColumnOf ⟨false, ['6'], ['2', '5'], none⟩
      ⟨false, 0x4019000000000000, by decide⟩ := by
    refine ⟨⟨?_, by decide, by decide, List.all_eq_true.1 rfl, List.all_eq_true.1 rfl⟩, rfl⟩
    rw [hrender]
    decide
  have hbody : HoldsOne .auto
      "\x7b\x22hits\x22:[\x7b\x22id\x22:\x22d\x22,\x22score\x22:6.25\x7d]\x7d" "d"
      ⟨false, ['6'], ['2', '5'], none⟩ := by
    refine ⟨.object [("hits", .array [.object [("id", .string "d"), ("score", .number
      ⟨false, ['6'], ['2', '5'], none⟩)]])], .flat, [], [], _, by rfl, by decide,
      .flat (by decide) rfl, .object rfl rfl (.string "d") rfl, nofun, List.mem_singleton.2 rfl, ?_⟩
    intro other hother hne
    exact absurd (List.mem_singleton.1 hother) hne
  -- there is no other call
  have hothers : ∀ call ∈ ([] ++ [] : List Call), ∀ score,
      ("d", score) ∉ call.registeredFor .zero (Decoder.ofFormat .auto) "T" := nofun
  exact ⟨hrender, (unboosted_score_arrives (by decide) (by decide) hwritten hbody rfl
    hothers).2.2.2 (by decide) (by decide)⟩

/-- A score with seventeen digits does not: its digits are no double, and are
    rounded before they are divided. The next double is stored, whose text is
    another. -/
theorem unboosted_score_changes :
    let x : Binary64 := ⟨false, 0x3ffe08fa3383a6f4, by decide⟩
    let next : Binary64 := ⟨false, 0x3ffe08fa3383a6f5, by decide⟩
    let body := "\x7b\x22hits\x22:[[\x22d\x22,1.8771917354846979]]\x7d"
    x.isFinite = true ∧ x.isZero = false ∧ scoreLayout.render x = "1.8771917354846979" ∧
      ((HitStore.new .zero (Decoder.ofFormat .auto)).after
        [.registerResult "T" body false]).score? "T" "d" = some next ∧
      scoreLayout.render next = "1.877191735484698" := by
  decide +kernel

end EvalRun
