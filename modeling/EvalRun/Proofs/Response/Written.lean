import EvalRun.Proofs.Json.Written
import EvalRun.Proofs.Response.Decoding

/-! # Proofs.Response.Written — a response whose score is written in a certain way

    Which score a hit comes with depends on how the score is written, and that
    is lost in the value of the payload. So the response is taken as a text: its
    hits are found in the tree that keeps the literals.

    * **Hits.** An entry that writes a hit has a value that stands for it, with
      the number of its literal for a score (`Shape.Writes.denotes`).
    * **Responses.** A response with one hit for a document is decoded to a list
      with that hit and others, or it is refused because the literal is too
      large (`HoldsOne.decodeBody_eq`).
-/

namespace EvalRun.Response

open Json (Written NumberLiteral)
open Json.Written (last?)

/-- The entry is written as a hit of the document in a shape: the last members
    of the right names count, or the elements of an array of two. -/
inductive Shape.Writes (shape : Shape) : Written → String → NumberLiteral → Prop where
  | object {members : List (String × Written)} {item : Written} {value : Json} {doc : String}
    {literal : NumberLiteral} (id_member : last? shape.idMember members = some item)
    (id_value : item.value? = some value) (id_text : IsIdText value doc)
    (score_member : last? shape.scoreMember members = some (.number literal)) :
    Writes shape (.object members) doc literal
  | array {item : Written} {value : Json} {doc : String} (id_value : item.value? = some value)
    (id_text : IsIdText value doc) (literal : NumberLiteral) :
    Writes shape (.array [item, .number literal]) doc literal

/-- Where the hits of a payload are written for a format, and in which shape. -/
inductive WritesHits (format : Format) : Written → Shape → List Written → Prop where
  | flat {members : List (String × Written)} {entries : List Written} (admitted : format ≠ .nested)
    (hits : last? "hits" members = some (.array entries)) :
    WritesHits format (.object members) .flat entries
  | nested {members outer : List (String × Written)} {entries : List Written}
    (admitted : format ≠ .flat) (hits : last? "hits" members = some (.object outer))
    (inner : last? "hits" outer = some (.array entries)) :
    WritesHits format (.object members) .nested entries

/-- The body is a response with one hit for the document, whose score is
    written as the literal. Its other hits are hits of other documents, and no
    other number in it is too large. -/
structure HoldsOne (format : Format) (body : String) (doc : String) (literal : NumberLiteral) :
    Prop where
  exists_written : ∃ (payload : Written) (shape : Shape) (earlier later : List Written)
    (entry : Written),
    Json.tokens body.toList = payload.tokens ∧ payload.depth ≤ Json.maxNesting ∧
    WritesHits format payload shape (earlier ++ entry :: later) ∧
    shape.Writes entry doc literal ∧
    (∀ other ∈ earlier ++ later, ∃ doc' literal', doc' ≠ doc ∧ shape.Writes other doc' literal') ∧
    literal ∈ payload.literals ∧
    ∀ other ∈ payload.literals, other ≠ literal → other.number? ≠ none

/-! ### Hits -/

variable {format : Format} {shape : Shape} {doc : String} {literal : NumberLiteral}

/-- What is written as a hit stands for that hit, with the number of the
    literal for its score. -/
theorem Shape.Writes.denotes {entry : Written} {v : Json} (h : shape.Writes entry doc literal)
    (hv : entry.value? = some v) :
    ∃ n, literal.number? = some n ∧ shape.Denotes v ⟨doc, n.toBinary64⟩ := by
  cases h with
  | object id_member id_value id_text score_member =>
    obtain ⟨value, hvalue, hid⟩ := Written.member?_of_last? hv id_member
    obtain ⟨found, hfound, hscore⟩ := Written.member?_of_last? hv score_member
    obtain rfl := Option.some.inj (id_value.symm.trans hvalue)
    simp only [Written.value?, Option.map_eq_some_iff] at hv hfound
    obtain ⟨members, -, rfl⟩ := hv
    obtain ⟨n, hn, rfl⟩ := hfound
    exact ⟨n, hn, .object hid id_text hscore⟩
  | array id_value id_text literal =>
    simp only [Written.value?, Option.map_eq_some_iff] at hv
    obtain ⟨items, hitems, rfl⟩ := hv
    cases Written.forall₂_of_values? hitems with
    | cons hid hrest =>
      cases hrest with
      | cons hscore hnil =>
        cases hnil
        obtain rfl := Option.some.inj (id_value.symm.trans hid)
        simp only [Written.value?, Option.map_eq_some_iff] at hscore
        obtain ⟨n, hn, rfl⟩ := hscore
        exact ⟨n, hn, .array id_text n⟩

/-- The hits of a payload stand where they are written. -/
theorem WritesHits.hasHits {payload : Written} {entries : List Written} {v : Json}
    (h : WritesHits format payload shape entries) (hv : payload.value? = some v) :
    ∃ items, Written.values? entries = some items ∧ HasHits format v shape items := by
  have harray {entries : List Written} {found : Json}
      (h : (Written.array entries).value? = some found) :
      ∃ items, Written.values? entries = some items ∧ found = .array items := by
    simp only [Written.value?, Option.map_eq_some_iff] at h
    obtain ⟨items, hitems, rfl⟩ := h
    exact ⟨items, hitems, rfl⟩
  cases h with
  | flat admitted hits =>
    obtain ⟨found, hfound, hmember⟩ := Written.member?_of_last? hv hits
    obtain ⟨items, hitems, rfl⟩ := harray hfound
    exact ⟨items, hitems, .flat admitted hmember⟩
  | nested admitted hits inner =>
    obtain ⟨outer, houter, hmember⟩ := Written.member?_of_last? hv hits
    obtain ⟨found, hfound, hinner⟩ := Written.member?_of_last? houter inner
    obtain ⟨items, hitems, rfl⟩ := harray hfound
    simp only [Written.value?, Option.map_eq_some_iff] at houter
    obtain ⟨members, -, rfl⟩ := houter
    exact ⟨items, hitems, .nested admitted hmember hinner⟩

/-- Entries that are written as hits of other documents stand for such hits. -/
theorem exists_hits_of_writes {entries : List Written} {items : List Json}
    (hvalues : List.Forall₂ (fun item v => item.value? = some v) entries items)
    (hwrites : ∀ entry ∈ entries, ∃ doc' literal', doc' ≠ doc ∧ shape.Writes entry doc' literal') :
    ∃ hits, List.Forall₂ shape.Denotes items hits ∧ ∀ hit ∈ hits, hit.doc ≠ doc := by
  induction hvalues with
  | nil => exact ⟨[], .nil, nofun⟩
  | cons hv _ ih =>
    obtain ⟨hits, hall, hne⟩ := ih fun entry hentry => hwrites entry (List.mem_cons_of_mem _ hentry)
    obtain ⟨doc', literal', hdoc, hentry⟩ := hwrites _ List.mem_cons_self
    obtain ⟨n, -, hdenotes⟩ := hentry.denotes hv
    refine ⟨⟨doc', n.toBinary64⟩ :: hits, .cons hdenotes hall, ?_⟩
    intro hit hhit
    rcases List.mem_cons.1 hhit with rfl | hhit
    · exact hdoc
    · exact hne hit hhit

/-! ### Responses -/

/-- A body is decoded to the hits for which the entries of its payload stand, and
    only if each entry stands for one. -/
theorem WritesHits.decodeBody_eq_ok_iff {payload : Written} {entries : List Written} {body : String}
    {v : Json} (h : WritesHits format payload shape entries) (hparse : Json.parse body = .ok v)
    (hv : payload.value? = some v) :
    ∃ items, Written.values? entries = some items ∧ ∀ hits,
      (Decoder.ofFormat format).decodeBody body = .ok hits ↔
        List.Forall₂ shape.Denotes items hits := by
  obtain ⟨items, hitems, hhas⟩ := h.hasHits hv
  have hordered := ordered_of_entries? (Json.ordered_of_parse hparse) (entries?_of_hasHits hhas)
  refine ⟨items, hitems, ?_⟩
  intro hits
  simp only [Decoder.decodeBody, hparse]
  rw [decodeValue_of_hasHits hhas]
  exact Shape.readHitsFrom_eq_ok_iff hordered 0 hits

/-- A body in which a number is too large is refused. -/
theorem decodeBody_of_number?_eq_none {decoder : Decoder} {payload : Written} {body : String}
    (htokens : Json.tokens body.toList = payload.tokens) (hdepth : payload.depth ≤ Json.maxNesting)
    (hlarge : ∃ literal ∈ payload.literals, literal.number? = none) :
    decoder.decodeBody body = .error .invalidJson := by
  have hparse := Written.parse_of_tokens htokens hdepth
  rw [payload.value?_eq_none_iff.2 hlarge] at hparse
  simp only [Decoder.decodeBody, hparse, Option.elim_none]

/-- A response with one hit for a document is decoded to that hit, with the
    number of its literal for a score, among hits of other documents. It is
    refused if that number is too large. -/
theorem HoldsOne.decodeBody_eq {body : String} (h : HoldsOne format body doc literal) :
    (literal.number? = none →
      (Decoder.ofFormat format).decodeBody body = .error .invalidJson) ∧
    ∀ n, literal.number? = some n → ∃ earlier later,
      (Decoder.ofFormat format).decodeBody body =
        .ok (earlier ++ ⟨doc, n.toBinary64⟩ :: later) ∧
      ∀ hit ∈ earlier ++ later, hit.doc ≠ doc := by
  obtain ⟨payload, shape, earlier, later, entry, htokens, hdepth, hhits, hentry, hothers, hmem,
    hreadable⟩ := h.exists_written
  refine ⟨?_, ?_⟩
  · intro hlarge
    exact decodeBody_of_number?_eq_none htokens hdepth ⟨literal, hmem, hlarge⟩
  · intro n hn
    have hread : ∀ other ∈ payload.literals, other.number? ≠ none := by
      intro other hother
      by_cases heq : other = literal
      · rw [heq, hn]
        exact Option.some_ne_none n
      · exact hreadable other hother heq
    obtain ⟨v, hv⟩ := Written.exists_value? hread
    have hparse := Written.parse_of_tokens htokens hdepth
    rw [hv, Option.elim_some] at hparse
    obtain ⟨items, hitems, hdecoded⟩ := hhits.decodeBody_eq_ok_iff hparse hv
    obtain ⟨before, found, after, hbefore, hfound, hafter, rfl⟩ :=
      Written.exists_of_values?_append hitems
    obtain ⟨n', hn', hdenotes⟩ := hentry.denotes hfound
    obtain rfl : n = n' := Option.some.inj (hn.symm.trans hn')
    obtain ⟨hits, hall, hne⟩ := exists_hits_of_writes (Written.forall₂_of_values? hbefore)
      fun other hother => hothers other (List.mem_append_left _ hother)
    obtain ⟨hits', hall', hne'⟩ := exists_hits_of_writes (Written.forall₂_of_values? hafter)
      fun other hother => hothers other (List.mem_append_right _ hother)
    refine ⟨hits, hits', (hdecoded _).2 (List.rel_append hall (.cons hdenotes hall')), ?_⟩
    intro hit hhit
    rcases List.mem_append.1 hhit with hhit | hhit
    · exact hne hit hhit
    · exact hne' hit hhit

end EvalRun.Response
