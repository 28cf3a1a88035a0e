import EvalRun.Proofs.HitStore.Registration
import EvalRun.Proofs.Json.Accepted
import EvalRun.Proofs.Json.Integers
import EvalRun.Proofs.Response.Written

/-! # Proofs.Response.NumericIds — documents whose ids are written as numbers

    A document whose id is written as a number has the text of that number for
    its id. Two numbers that are written differently may be read as one, so the
    ids are followed from the text of the response to the store.

    * **Ids.** A response lists its ids as they are written (`ListsIds`). Every
      body that is decoded to some hits does (`exists_listsIds`).
    * **Documents.** Each hit is of the document that its id names, unless a number
      is too large and the response is refused (`ListsIds.decodeBody_eq`).
    * **Two integers.** Hits whose ids are integers of different values have an
      entry each in the store, except where both integers are beyond 64 bits and
      are rounded to one double (`HitStore.registerResult_integerIds`).
-/

namespace EvalRun

namespace Response

open Json (Written NumberLiteral)
open Json.Written (last? Spells)

/-- An id as it is written. -/
inductive WrittenId where
  | text (s : String)
  | number (literal : NumberLiteral)

namespace WrittenId

/-- The id as a part of the response. -/
def written : WrittenId → Written
  | text s => .string s
  | number literal => .number literal

/-- The document that the id names, unless it is a number that is too large. -/
def doc? : WrittenId → Option String
  | text s => some s
  | number literal => literal.number?.map Json.Number.text

end WrittenId

/-- The entry is written as a hit with the id in a shape: an object whose last
    members of the right names are the id and a number, or an array of the
    two. -/
inductive Shape.Carries (shape : Shape) : Written → WrittenId → Prop where
  | object {members : List (String × Written)} {id : WrittenId} {literal : NumberLiteral}
    (id_member : last? shape.idMember members = some id.written)
    (score_member : last? shape.scoreMember members = some (.number literal)) :
    Carries shape (.object members) id
  | array (id : WrittenId) (literal : NumberLiteral) :
    Carries shape (.array [id.written, .number literal]) id

/-- The hits of the payload are written where the format has them, and these
    are their ids in order. -/
structure ListsIds (format : Format) (payload : Written) (ids : List WrittenId) : Prop where
  exists_entries : ∃ shape entries, WritesHits format payload shape entries ∧
    List.Forall₂ shape.Carries entries ids

variable {format : Format} {shape : Shape} {payload entry : Written} {v : Json} {id : WrittenId}
  {ids : List WrittenId} {hit : Hit} {body : String}

/-! ### One hit -/

theorem WrittenId.exists_isIdText (h : id.written.value? = some v) :
    ∃ doc, id.doc? = some doc ∧ IsIdText v doc := by
  cases id with
  | text s =>
    cases h
    exact ⟨s, rfl, .string s⟩
  | number literal =>
    obtain ⟨n, hn, rfl⟩ := Option.map_eq_some_iff.1 h
    refine ⟨n.text, ?_, .number n⟩
    rw [doc?, hn]
    rfl

/-- What is written as a hit with an id stands for a hit of its document. -/
theorem Shape.Carries.exists_denotes (h : shape.Carries entry id) (hv : entry.value? = some v) :
    ∃ hit, id.doc? = some hit.doc ∧ shape.Denotes v hit := by
  cases h with
  | object id_member score_member =>
    obtain ⟨value, hvalue, -⟩ := Written.member?_of_last? hv id_member
    obtain ⟨doc, hdoc, htext⟩ := WrittenId.exists_isIdText hvalue
    obtain ⟨n, -, hdenotes⟩ := (Shape.Writes.object id_member hvalue htext score_member).denotes hv
    exact ⟨_, hdoc, hdenotes⟩
  | array id literal =>
    obtain ⟨items, hitems, -⟩ := Option.map_eq_some_iff.1 hv
    cases Written.forall₂_of_values? hitems with
    | cons hvalue =>
      obtain ⟨doc, hdoc, htext⟩ := WrittenId.exists_isIdText hvalue
      obtain ⟨n, -, hdenotes⟩ := (Shape.Writes.array hvalue htext literal).denotes hv
      exact ⟨_, hdoc, hdenotes⟩

theorem exists_writtenId_of_isIdText {item : Written} {doc : String}
    (hv : item.value? = some v) (h : IsIdText v doc) : ∃ id : WrittenId, item = id.written := by
  cases h with
  | string =>
    obtain rfl := Written.eq_string_of_value? hv
    exact ⟨.text _, rfl⟩
  | number =>
    obtain ⟨literal, rfl⟩ := Written.exists_number_of_value? hv
    exact ⟨.number literal, rfl⟩

/-- What stands for a hit is written as one with some id. -/
theorem Shape.Denotes.exists_carries (h : shape.Denotes v hit) (hv : entry.value? = some v) :
    ∃ id, shape.Carries entry id := by
  cases h with
  | object id_member id_text score_member =>
    obtain ⟨members, rfl⟩ := Written.exists_object_of_value? hv
    obtain ⟨item, hitem, hvalue⟩ := Written.exists_last?_of_member? hv id_member
    obtain ⟨score, hscore, hnumber⟩ := Written.exists_last?_of_member? hv score_member
    obtain ⟨id, rfl⟩ := exists_writtenId_of_isIdText hvalue id_text
    obtain ⟨literal, rfl⟩ := Written.exists_number_of_value? hnumber
    exact ⟨id, .object hitem hscore⟩
  | array id_text n =>
    obtain ⟨items, rfl, hitems⟩ := Written.exists_array_of_value? hv
    cases Written.forall₂_of_values? hitems with
    | cons hvalue hrest =>
      cases hrest with
      | cons hnumber hnil =>
        cases hnil
        obtain ⟨id, rfl⟩ := exists_writtenId_of_isIdText hvalue id_text
        obtain ⟨literal, rfl⟩ := Written.exists_number_of_value? hnumber
        exact ⟨id, .array id literal⟩

/-! ### All hits -/

theorem exists_forall₂_denotes {entries : List Written} {items : List Json}
    (hcarries : List.Forall₂ shape.Carries entries ids)
    (hvalues : List.Forall₂ (fun entry v => entry.value? = some v) entries items) :
    ∃ hits, List.Forall₂ (fun id hit => id.doc? = some hit.doc) ids hits ∧
      List.Forall₂ shape.Denotes items hits := by
  induction hcarries generalizing items with
  | nil =>
    cases hvalues
    exact ⟨[], .nil, .nil⟩
  | cons hentry _ ih =>
    cases hvalues with
    | cons hv hrest =>
      obtain ⟨hit, hdoc, hdenotes⟩ := hentry.exists_denotes hv
      obtain ⟨hits, hdocs, hall⟩ := ih hrest
      exact ⟨hit :: hits, .cons hdoc hdocs, .cons hdenotes hall⟩

theorem exists_forall₂_carries {entries : List Written} {items : List Json} {hits : List Hit}
    (hvalues : List.Forall₂ (fun entry v => entry.value? = some v) entries items)
    (hdenotes : List.Forall₂ shape.Denotes items hits) :
    ∃ ids, List.Forall₂ shape.Carries entries ids := by
  induction hvalues generalizing hits with
  | nil => exact ⟨[], .nil⟩
  | cons hv _ ih =>
    cases hdenotes with
    | cons hfirst hrest =>
      obtain ⟨id, hid⟩ := hfirst.exists_carries hv
      obtain ⟨ids, hids⟩ := ih hrest
      exact ⟨id :: ids, .cons hid hids⟩

/-! ### Responses -/

/-- A response that lists its ids is decoded to hits of the documents that the
    ids name, in their order. It is refused if one of its numbers is too
    large. -/
theorem ListsIds.decodeBody_eq (h : ListsIds format payload ids) (hbody : Spells body payload) :
    ((∃ literal ∈ payload.literals, literal.number? = none) →
      (Decoder.ofFormat format).decodeBody body = .error .invalidJson) ∧
    ((∀ literal ∈ payload.literals, literal.number? ≠ none) → ∃ hits,
      (Decoder.ofFormat format).decodeBody body = .ok hits ∧
      List.Forall₂ (fun id hit => id.doc? = some hit.doc) ids hits) := by
  obtain ⟨shape, entries, hhits, hcarries⟩ := h.exists_entries
  refine ⟨decodeBody_of_number?_eq_none hbody.tokens_eq hbody.depth_le, ?_⟩
  intro hreadable
  obtain ⟨v, hv⟩ := Written.exists_value? hreadable
  have hparse := Written.parse_eq_ok_iff.2 ⟨payload, hbody, hv⟩
  obtain ⟨items, hitems, hdecoded⟩ := hhits.decodeBody_eq_ok_iff hparse hv
  obtain ⟨hits, hdocs, hdenotes⟩ :=
    exists_forall₂_denotes hcarries (Written.forall₂_of_values? hitems)
  exact ⟨hits, (hdecoded hits).2 hdenotes, hdocs⟩

/-- The hits of a payload are written where its value has them. -/
theorem HasHits.exists_writesHits {items : List Json} (h : HasHits format v shape items)
    (hv : payload.value? = some v) : ∃ entries, WritesHits format payload shape entries := by
  have hobject {w : Written} {u found : Json} {name : String} (hu : w.value? = some u)
      (hmember : u.member? name = some found) : ∃ members item, w = .object members ∧
        last? name members = some item ∧ item.value? = some found := by
    cases u with
    | object read =>
      obtain ⟨members, rfl⟩ := Written.exists_object_of_value? hu
      obtain ⟨item, hitem, hvalue⟩ := Written.exists_last?_of_member? hu hmember
      exact ⟨members, item, rfl, hitem, hvalue⟩
    | _ => cases hmember
  cases h with
  | flat admitted hits =>
    obtain ⟨members, item, rfl, hitem, hvalue⟩ := hobject hv hits
    obtain ⟨entries, rfl, -⟩ := Written.exists_array_of_value? hvalue
    exact ⟨entries, .flat admitted hitem⟩
  | nested admitted hits inner =>
    obtain ⟨members, item, rfl, hitem, hvalue⟩ := hobject hv hits
    obtain ⟨outer, found, rfl, hfound, hinner⟩ := hobject hvalue inner
    obtain ⟨entries, rfl, -⟩ := Written.exists_array_of_value? hinner
    exact ⟨entries, .nested admitted hitem hfound⟩

/-- Every body that is decoded to some hits is a response that lists their
    ids. -/
theorem exists_listsIds {hits : List Hit}
    (h : (Decoder.ofFormat format).decodeBody body = .ok hits) (hne : hits ≠ []) :
    ∃ payload ids, Spells body payload ∧ ListsIds format payload ids := by
  unfold Decoder.decodeBody at h
  split at h
  · rename_i v hparse
    obtain ⟨payload, hbody, hv⟩ := Written.parse_eq_ok_iff.1 hparse
    by_cases hhas : ∃ shape items, HasHits format v shape items
    · obtain ⟨shape, items, hhas⟩ := hhas
      obtain ⟨entries, hentries⟩ := hhas.exists_writesHits hv
      obtain ⟨items, hitems, hdecoded⟩ := hentries.decodeBody_eq_ok_iff hparse hv
      have hdenotes : List.Forall₂ shape.Denotes items hits := by
        rw [← hdecoded]
        simp only [Decoder.decodeBody, hparse]
        exact h
      obtain ⟨ids, hids⟩ := exists_forall₂_carries (Written.forall₂_of_values? hitems) hdenotes
      exact ⟨payload, ids, hbody, ⟨shape, entries, hentries, hids⟩⟩
    · -- without hits in either place there are none
      rw [decodeValue_of_not_hasHits fun shape items hhits => hhas ⟨shape, items, hhits⟩] at h
      exact absurd (Except.ok.inj h).symm hne
  · cases h

end Response

namespace HitStore

open Json (Written NumberLiteral)
open Json.Written (Spells)
open Response (Decoder Format ListsIds WrittenId)

variable {body : String} {format : Format} {payload : Written} {ids : List WrittenId}

/-! ### Registration -/

/-- Every document of a batch has a score afterwards. -/
theorem exists_score?_registerHits (s : HitStore) (topic : String) (hasFormula : Bool)
    {hits : List Hit} {hit : Hit} (hmem : hit ∈ hits) :
    ∃ score, (s.registerHits topic hits hasFormula).score? topic hit.doc = some score := by
  obtain ⟨stored, hstored, habsorbs⟩ := absorbs_registerHits s topic hits hasFormula
  have hoffered : (hit.doc, s.effective hasFormula hit.score) ∈ offers s.boost hasFormula hits :=
    List.mem_map_of_mem hmem
  obtain ⟨kept, hkept, -⟩ := habsorbs _ _ hoffered
  refine ⟨kept, ?_⟩
  unfold score?
  rw [hstored]
  exact hkept

/-- What the store has of two hits whose ids are written as integers. -/
structure Separates (s : HitStore) (topic : String) (hit hit' : Hit) (l l' : NumberLiteral) :
    Prop where
  /-- Both documents have an entry. -/
  exists_score : ∃ score, s.score? topic hit.doc = some score
  exists_score' : ∃ score, s.score? topic hit'.doc = some score
  /-- They are one document if and only if both integers are beyond 64 bits and
      are rounded to one double. -/
  doc_eq_iff : hit.doc = hit'.doc ↔ l.IsWide ∧ l'.IsWide ∧ l.number? = l'.number?
  /-- They are, if the integers are `2 ^ 64` or more without their signs and differ
      in the last digit alone. -/
  doc_eq_of_agree : l.AgreeBeforeLast l' → hit.doc = hit'.doc

/-- A response that lists its ids is registered, unless one of its numbers is too
    large. Two hits whose ids are integers of different values have an entry each
    afterwards, but share it where both integers are beyond 64 bits and are
    rounded to one double. -/
theorem registerResult_integerIds (s : HitStore) (topic : String) (hasFormula : Bool)
    (hdecoder : s.decoder = Decoder.ofFormat format)
    (hbody : Spells body payload) (hids : ListsIds format payload ids) :
    ((∃ literal ∈ payload.literals, literal.number? = none) →
      s.registerResult topic body hasFormula = (.error .invalidJson, s.ensureTopic topic)) ∧
    ((∀ literal ∈ payload.literals, literal.number? ≠ none) → ∃ hits,
      s.registerResult topic body hasFormula =
        (.ok hits.length, s.registerHits topic hits hasFormula) ∧
      hits.length = ids.length ∧
      ∀ (i j : Nat) (l l' : NumberLiteral), ids[i]? = some (.number l) →
        ids[j]? = some (.number l') → l.IsInteger → l'.IsInteger → l.integer ≠ l'.integer →
        ∃ hit hit', hits[i]? = some hit ∧ hits[j]? = some hit' ∧
          (s.registerHits topic hits hasFormula).Separates topic hit hit' l l') := by
  have hensured : (s.ensureTopic topic).decoder = Decoder.ofFormat format := hdecoder
  obtain ⟨hrefused, hdecoded⟩ := hids.decodeBody_eq hbody
  refine ⟨?_, ?_⟩
  · intro hlarge
    simp only [registerResult, hensured, hrefused hlarge]
  · intro hreadable
    -- hits and ids stand side by side
    obtain ⟨hits, hhits, hdocs⟩ := hdecoded hreadable
    obtain ⟨hlength, hdoc⟩ := List.forall₂_iff_get.1 hdocs
    refine ⟨hits, ?_, hlength.symm, ?_⟩
    · simp only [registerResult, hensured, hhits, registerHits_ensureTopic]
    · intro i j l l' hi hj hl hl' hne
      have hnumber {k : Nat} {literal : NumberLiteral} (hk : ids[k]? = some (.number literal)) :
          ∃ hit n, hits[k]? = some hit ∧ literal.number? = some n ∧ hit.doc = n.text := by
        obtain ⟨hlt, hget⟩ := List.getElem?_eq_some_iff.1 hk
        have hlt' : k < hits.length := by omega
        have htext := hdoc k hlt hlt'
        rw [List.get_eq_getElem, List.get_eq_getElem, hget] at htext
        obtain ⟨n, hn, hdoc⟩ := Option.map_eq_some_iff.1 htext
        exact ⟨hits[k], n, List.getElem?_eq_getElem hlt', hn, hdoc.symm⟩
      obtain ⟨hit, n, hhit, hn, hdoc⟩ := hnumber hi
      obtain ⟨hit', n', hhit', hn', hdoc'⟩ := hnumber hj
      refine ⟨hit, hit', hhit, hhit', exists_score?_registerHits s topic hasFormula
        (List.mem_of_getElem? hhit), exists_score?_registerHits s topic hasFormula
        (List.mem_of_getElem? hhit'), ?_, ?_⟩
      · rw [hdoc, hdoc', NumberLiteral.text_eq_text_iff hl hl' hn hn' hne, hn, hn',
          Option.some.injEq]
      · intro hagree
        have hsame := hagree.number?_eq hl hl'
        rw [hdoc, hdoc', Option.some.inj (hn.symm.trans (hsame.trans hn'))]

/-- Three hits whose ids are the two literals and `-3`. -/
def threeIds (l l' : NumberLiteral) : Written :=
  .object [("hits", .array [.array [.number l, .number ⟨false, ['1'], [], none⟩],
    .array [.number l', .number ⟨false, ['2'], [], none⟩],
    .array [.number ⟨true, ['3'], [], none⟩, .number ⟨false, ['0'], ['5'], none⟩]])]

/-- A body with two ids beyond 64 bits that differ in the last digit. -/
theorem spells_threeIds :
    Spells "\x7b\x22hits\x22:[[18446744073709551616,1],[18446744073709551617,2],[-3,0.5]]\x7d"
      (threeIds ⟨false, "18446744073709551616".toList, [], none⟩
        ⟨false, "18446744073709551617".toList, [], none⟩) :=
  ⟨by rfl, by decide⟩

/-- The two share an entry, and the third has its own. -/
theorem registerResult_integerIds_shared :
    let l : NumberLiteral := ⟨false, "18446744073709551616".toList, [], none⟩
    let l' : NumberLiteral := ⟨false, "18446744073709551617".toList, [], none⟩
    let narrow : NumberLiteral := ⟨true, ['3'], [], none⟩
    let s := ((new .zero (.ofFormat .auto)).registerResult "T"
      "\x7b\x22hits\x22:[[18446744073709551616,1],[18446744073709551617,2],[-3,0.5]]\x7d" false).2
    ∃ hit hit' other, s.Separates "T" hit hit' l l' ∧ s.Separates "T" hit other l narrow ∧
      hit.doc = hit'.doc ∧ hit.doc ≠ other.doc := by
  intro l l' narrow s
  have hids : ListsIds .auto (threeIds l l') [.number l, .number l', .number narrow] :=
    ⟨.flat, _, .flat (by decide) rfl, .cons (.array (.number _) _) (.cons (.array (.number _) _)
      (.cons (.array (.number _) _) .nil))⟩
  obtain ⟨hits, hregistered, -, hpairs⟩ := (registerResult_integerIds
    (new .zero (.ofFormat .auto)) "T" false rfl spells_threeIds hids).2 (by decide +kernel)
  have hstore : s = (new .zero (.ofFormat .auto)).registerHits "T" hits false :=
    congrArg Prod.snd hregistered
  obtain ⟨hit, hit', hhit, -, hshared⟩ :=
    hpairs 0 1 l l' rfl rfl (by decide) (by decide) (by decide)
  obtain ⟨first, other, hfirst, -, hapart⟩ :=
    hpairs 0 2 l narrow rfl rfl (by decide) (by decide) (by decide)
  obtain rfl : hit = first := Option.some.inj (hhit.symm.trans hfirst)
  rw [hstore]
  refine ⟨hit, hit', other, hshared, hapart, ?_, ?_⟩
  · exact hshared.doc_eq_of_agree
      ⟨rfl, ⟨"1844674407370955161".toList, '6', '7', rfl, rfl⟩, by decide, by decide⟩
  · intro hsame
    exact absurd (hapart.doc_eq_iff.1 hsame).2.1 (by decide)

/-- So two documents whose ids are integers of different values have one entry,
    and the lower score is gone. -/
theorem registerResult_confuses_integerIds :
    let l : NumberLiteral := ⟨false, "18446744073709551616".toList, [], none⟩
    let l' : NumberLiteral := ⟨false, "18446744073709551617".toList, [], none⟩
    let body := "\x7b\x22hits\x22:[[18446744073709551616,1],[18446744073709551617,2],[-3,0.5]]\x7d"
    let s := ((new .zero (.ofFormat .auto)).registerResult "T" body false).2
    Spells body (threeIds l l') ∧ l.IsInteger ∧ l'.IsInteger ∧ l.integer ≠ l'.integer ∧
      ((Decoder.ofFormat .auto).decodeBody body).toOption =
        some [⟨"1.8446744073709552e+19", .ofNat 1⟩, ⟨"1.8446744073709552e+19", .ofNat 2⟩,
          ⟨"-3", .ofDecimal false ⟨5, -1⟩⟩] ∧
      (s.hits? "T").map (fun hits => hits.entries) =
        some [("-3", .ofDecimal false ⟨5, -1⟩), ("1.8446744073709552e+19", .ofNat 2)] := by
  intro l l' body s
  exact ⟨spells_threeIds, by decide, by decide, by decide, by decide +kernel, by decide +kernel⟩

end HitStore

end EvalRun
