import EvalRun.Proofs.Json.Ordered
import EvalRun.Response.Decoder
import Mathlib.Data.List.Forall2

/-! # Proofs.Response.Decoding — a decoder accepts its two shapes and no other

    What a hit is, is said without the reader: `Denotes` relates a JSON value
    to the hit that it stands for in a shape. Against this relation, decoding
    is complete and stops at the right place:

    * **One hit.** A value is read as a hit if and only if it denotes it
      (`readHit_eq_ok_iff`). This needs that each name stands once in an
      object, as it does in every value that is read.
    * **An array.** All of its elements are read, in their order, or the error
      carries the index of the first that denotes nothing (`IsDecoded`).
    * **A payload.** The format says where the hits stand (`HasHits`). A
      payload with none there has no hits, and is no error.
    * **Both shapes.** They differ in names only: with the members of all hits
      renamed, one shape decodes what the other does.
-/

namespace EvalRun.Response

/-! ### What denotes a hit -/

/-- The value is a string or a number, and the text is that string, or the
    number written out. -/
inductive IsIdText : Json → String → Prop where
  | string (s : String) : IsIdText (.string s) s
  | number (n : Json.Number) : IsIdText (.number n) n.text

namespace Shape

/-- The value stands for the hit in a shape: as an object with the members of
    the shape, whatever other members it has, or as an array of two. -/
inductive Denotes (shape : Shape) : Json → Hit → Prop where
  | object {members : List (String × Json)} {value : Json} {id : String} {n : Json.Number}
    (id_member : (Json.object members).member? shape.idMember = some value)
    (id_text : IsIdText value id)
    (score_member : (Json.object members).member? shape.scoreMember = some (.number n)) :
    Denotes shape (.object members) ⟨id, n.toBinary64⟩
  | array {value : Json} {id : String} (id_text : IsIdText value id) (n : Json.Number) :
    Denotes shape (.array [value, .number n]) ⟨id, n.toBinary64⟩

/-- The value stands for some hit. -/
def Usable (shape : Shape) (entry : Json) : Prop := ∃ hit, shape.Denotes entry hit

/-- The element at the index stands for no hit, and all before it do. -/
def FirstUnusable (shape : Shape) (entries : List Json) (index : Nat) : Prop :=
  (∃ entry, entries[index]? = some entry ∧ ¬ shape.Usable entry) ∧
    ∀ earlier < index, ∀ entry, entries[earlier]? = some entry → shape.Usable entry

/-- What decoding an array of hits has to give. -/
structure IsDecoded (shape : Shape) (entries : List Json)
    (result : Except DecodeError (List Hit)) : Prop where
  /-- There are hits if and only if every element stands for one. -/
  isOk_iff : (∃ hits, result = .ok hits) ↔ ∀ entry ∈ entries, shape.Usable entry
  /-- The hits are those that the elements stand for, one for each, in their
      order. -/
  ok_iff : ∀ hits, result = .ok hits ↔ List.Forall₂ shape.Denotes entries hits
  /-- Any error is about an unusable hit of this shape. -/
  exists_of_error : ∀ fault, result = .error fault →
    ∃ index reason, fault = .invalidHit shape index reason
  /-- Its index is that of the first. -/
  error_iff : ∀ index, (∃ reason, result = .error (.invalidHit shape index reason)) ↔
    shape.FirstUnusable entries index

end Shape

/-- Where the hits of a payload stand for a format, and in which shape. -/
inductive HasHits (format : Format) (payload : Json) : Shape → List Json → Prop where
  | flat {entries : List Json} (admitted : format ≠ .nested)
    (hits : payload.member? "hits" = some (.array entries)) : HasHits format payload .flat entries
  | nested {outer : List (String × Json)} {entries : List Json} (admitted : format ≠ .flat)
    (hits : payload.member? "hits" = some (.object outer))
    (inner : (Json.object outer).member? "hits" = some (.array entries)) :
    HasHits format payload .nested entries

/-- The second value is the first with its members `id` and `score` under the
    names of the nested shape. All other members are free, and what is no
    object stays as it is. -/
inductive Renamed : Json → Json → Prop where
  | object {members members' : List (String × Json)}
    (id_member : (Json.object members').member? "_id" = (Json.object members).member? "id")
    (score_member :
      (Json.object members').member? "_score" = (Json.object members).member? "score") :
    Renamed (.object members) (.object members')
  | other {entry : Json} (not_object : ∀ members, entry ≠ .object members) : Renamed entry entry

/-! ### One hit -/

theorem docId_eq_ok_iff {value : Json} {id : String} :
    Shape.docId value = .ok id ↔ IsIdText value id := by
  constructor
  · intro h
    cases value with
    | string s =>
      cases h
      exact .string _
    | number n =>
      cases h
      exact .number _
    | _ => cases h
  · intro h
    cases h with
    | string => rfl
    | number => rfl

theorem score_eq_ok_iff {value : Json} {x : Binary64} :
    Shape.score value = .ok x ↔ ∃ n, value = .number n ∧ n.toBinary64 = x := by
  constructor
  · intro h
    cases value with
    | number n =>
      cases h
      exact ⟨n, rfl, rfl⟩
    | _ => cases h
  · rintro ⟨n, rfl, rfl⟩
    rfl

namespace Shape

variable {shape : Shape}

/-- What a member gives: its value read, or what is given if there is no such
    member. -/
def valueOr {α : Type} (read : Json → Except HitFault α) (given : Option α) :
    Option Json → Option α
  | some value => (read value).toOption
  | none => given

theorem idMember_ne_scoreMember (shape : Shape) : shape.idMember ≠ shape.scoreMember := by
  cases shape with
  | flat => decide
  | nested => decide

theorem toOption_eq_some_iff {ε α : Type} {r : Except ε α} {a : α} :
    r.toOption = some a ↔ r = .ok a := by
  cases r <;> simp [Except.toOption]

/-- Members are read into the hit of their id and score. Reading overwrites
    what is given, so each name must stand once. -/
theorem readMembers_eq_ok_iff {members : List (String × Json)}
    (hunique : members.Pairwise fun a b => a.1 ≠ b.1) (id? : Option String)
    (score? : Option Binary64) (hit : Hit) :
    shape.readMembers id? score? members = .ok hit ↔
      valueOr docId id? (members.lookup shape.idMember) = some hit.doc ∧
        valueOr score score? (members.lookup shape.scoreMember) = some hit.score := by
  induction members generalizing id? score? with
  | nil =>
    obtain ⟨doc, score⟩ := hit
    cases id? <;> cases score? <;> simp [readMembers, valueOr]
  | cons member rest ih =>
    obtain ⟨name, value⟩ := member
    obtain ⟨hhead, hrest⟩ := List.pairwise_cons.1 hunique
    -- the name does not come again, so what it gives is not overwritten
    have habsent : rest.lookup name = none := by
      rw [List.lookup_eq_none_iff]
      intro other hother
      exact bne_iff_ne.2 (hhead other hother)
    have hdistinct : shape.scoreMember ≠ shape.idMember := shape.idMember_ne_scoreMember.symm
    rw [OrderedMap.lookup_cons_ite, OrderedMap.lookup_cons_ite]
    by_cases hid : name = shape.idMember
    · rw [← hid] at hdistinct ⊢
      simp only [readMembers, hid.symm, if_true, if_neg hdistinct]
      cases hvalue : docId value with
      | error fault => simp [bind, Except.bind, valueOr, hvalue, Except.toOption]
      | ok id =>
        have hrec := ih hrest (some id) score?
        rw [← hid, habsent] at hrec
        simpa [bind, Except.bind, valueOr, hvalue, Except.toOption] using hrec
    · rw [if_neg (Ne.symm hid)]
      by_cases hscore : name = shape.scoreMember
      · rw [← hscore]
        simp only [readMembers, hid, if_false, hscore.symm, if_true]
        cases hvalue : score value with
        | error fault => simp [bind, Except.bind, valueOr, hvalue, Except.toOption]
        | ok x =>
          have hrec := ih hrest id? (some x)
          rw [← hscore, habsent] at hrec
          simpa [bind, Except.bind, valueOr, hvalue, Except.toOption] using hrec
      · rw [if_neg (Ne.symm hscore)]
        simp only [readMembers, hid, hscore, if_false]
        exact ih hrest id? score?

theorem readHit_object_eq_ok_iff {members : List (String × Json)}
    (ascending : members.Pairwise fun a b => a.1 < b.1) (hit : Hit) :
    shape.readHit (.object members) = .ok hit ↔ shape.Denotes (.object members) hit := by
  obtain ⟨doc, x⟩ := hit
  have hunique : members.Pairwise fun a b => a.1 ≠ b.1 :=
    OrderedMap.pairwise_keys_ne ⟨members, ascending⟩
  rw [readHit, readMembers_eq_ok_iff hunique]
  constructor
  · rintro ⟨hdoc, hscore⟩
    -- with nothing given, both members must be there
    cases hid : members.lookup shape.idMember with
    | none =>
      rw [hid] at hdoc
      cases hdoc
    | some value =>
      cases hx : members.lookup shape.scoreMember with
      | none =>
        rw [hx] at hscore
        cases hscore
      | some found =>
        rw [hid] at hdoc
        rw [hx] at hscore
        have htext : IsIdText value doc := docId_eq_ok_iff.1 (toOption_eq_some_iff.1 hdoc)
        obtain ⟨n, rfl, rfl⟩ := score_eq_ok_iff.1 (toOption_eq_some_iff.1 hscore)
        exact .object hid htext hx
  · rintro ⟨hid, htext, hx⟩
    have hid' : members.lookup shape.idMember = some _ := hid
    have hx' : members.lookup shape.scoreMember = some _ := hx
    rw [hid', hx']
    exact ⟨toOption_eq_some_iff.2 (docId_eq_ok_iff.2 htext), rfl⟩

theorem readHit_array_eq_ok_iff (items : List Json) (hit : Hit) :
    shape.readHit (.array items) = .ok hit ↔ shape.Denotes (.array items) hit := by
  constructor
  · intro h
    match items with
    | [] => cases h
    | [value] =>
      simp only [readHit] at h
      cases hvalue : docId value <;> simp [hvalue, bind, Except.bind] at h
    | value :: found :: rest =>
      simp only [readHit] at h
      cases hvalue : docId value with
      | error fault => simp [hvalue, bind, Except.bind] at h
      | ok id =>
        cases hfound : score found with
        | error fault => simp [hvalue, hfound, bind, Except.bind] at h
        | ok x =>
          cases rest with
          | cons third more => simp [hvalue, hfound, bind, Except.bind] at h
          | nil =>
            simp only [hvalue, hfound, bind, Except.bind, List.isEmpty_nil, if_true,
              Except.ok.injEq] at h
            subst h
            obtain ⟨n, rfl, rfl⟩ := score_eq_ok_iff.1 hfound
            exact .array (docId_eq_ok_iff.1 hvalue) n
  · rintro (_ | ⟨htext, n⟩)
    simp [readHit, docId_eq_ok_iff.2 htext, score, bind, Except.bind]

/-- A value is read as a hit if and only if it stands for it. -/
theorem readHit_eq_ok_iff {entry : Json} (hentry : entry.Ordered) (hit : Hit) :
    shape.readHit entry = .ok hit ↔ shape.Denotes entry hit := by
  cases hentry with
  | object ascending values => exact readHit_object_eq_ok_iff ascending hit
  | array elements => exact readHit_array_eq_ok_iff _ hit
  | _ => exact ⟨nofun, nofun⟩

theorem exists_readHit_eq_ok_iff {entry : Json} (hentry : entry.Ordered) :
    (∃ hit, shape.readHit entry = .ok hit) ↔ shape.Usable entry := by
  simp only [readHit_eq_ok_iff hentry]
  rfl

theorem exists_readHit_eq_error_iff {entry : Json} (hentry : entry.Ordered) :
    (∃ reason, shape.readHit entry = .error reason) ↔ ¬ shape.Usable entry := by
  rw [← exists_readHit_eq_ok_iff hentry]
  cases shape.readHit entry <;> simp

/-! ### An array of hits -/

variable {entries : List Json}

theorem firstUnusable_cons_zero {entry : Json} :
    shape.FirstUnusable (entry :: entries) 0 ↔ ¬ shape.Usable entry := by
  simp [FirstUnusable]

theorem firstUnusable_cons_succ {entry : Json} {index : Nat} :
    shape.FirstUnusable (entry :: entries) (index + 1) ↔
      shape.Usable entry ∧ shape.FirstUnusable entries index := by
  unfold FirstUnusable
  constructor
  · rintro ⟨hunusable, hearlier⟩
    refine ⟨hearlier 0 (by omega) entry rfl, hunusable, ?_⟩
    intro earlier hlt other hother
    exact hearlier (earlier + 1) (by omega) other hother
  · rintro ⟨hentry, hunusable, hearlier⟩
    refine ⟨hunusable, ?_⟩
    intro earlier hlt other hother
    cases earlier with
    | zero =>
      cases hother
      exact hentry
    | succ earlier => exact hearlier earlier (by omega) other hother

/-- With an unusable element, not all are usable. -/
theorem FirstUnusable.exists_mem {index : Nat} (h : shape.FirstUnusable entries index) :
    ∃ entry ∈ entries, ¬ shape.Usable entry := by
  obtain ⟨⟨entry, hget, hunusable⟩, -⟩ := h
  exact ⟨entry, List.mem_of_getElem? hget, hunusable⟩

/-- Hits are read in the order of the elements that stand for them. -/
theorem readHitsFrom_eq_ok_iff (hentries : ∀ entry ∈ entries, entry.Ordered) (index : Nat)
    (hits : List Hit) :
    shape.readHitsFrom index entries = .ok hits ↔ List.Forall₂ shape.Denotes entries hits := by
  induction entries generalizing index hits with
  | nil =>
    rw [readHitsFrom, List.forall₂_nil_left_iff, Except.ok.injEq]
    exact eq_comm
  | cons entry rest ih =>
    have hentry : entry.Ordered := hentries entry List.mem_cons_self
    have hrest : ∀ entry ∈ rest, entry.Ordered := fun other hother =>
      hentries other (List.mem_cons_of_mem _ hother)
    rw [List.forall₂_cons_left_iff]
    simp only [← readHit_eq_ok_iff hentry, ← ih hrest (index + 1), readHitsFrom]
    cases shape.readHit entry with
    | error reason => simp
    | ok hit =>
      cases shape.readHitsFrom (index + 1) rest with
      | error fault => simp [Except.map]
      | ok more => simp [Except.map, eq_comm]

/-- A fault carries the place of the first unusable element, counted from the
    index of the first element. -/
theorem readHitsFrom_eq_error (hentries : ∀ entry ∈ entries, entry.Ordered) {index : Nat}
    {fault : DecodeError} (h : shape.readHitsFrom index entries = .error fault) :
    ∃ offset reason, fault = .invalidHit shape (index + offset) reason ∧
      shape.FirstUnusable entries offset := by
  induction entries generalizing index with
  | nil => cases h
  | cons entry rest ih =>
    have hentry : entry.Ordered := hentries entry List.mem_cons_self
    have hrest : ∀ entry ∈ rest, entry.Ordered := fun other hother =>
      hentries other (List.mem_cons_of_mem _ hother)
    simp only [readHitsFrom] at h
    cases hread : shape.readHit entry with
    | error reason =>
      rw [hread] at h
      cases h
      exact ⟨0, reason, rfl, firstUnusable_cons_zero.2
        ((exists_readHit_eq_error_iff hentry).1 ⟨reason, hread⟩)⟩
    | ok hit =>
      rw [hread] at h
      cases hmore : shape.readHitsFrom (index + 1) rest with
      | ok more =>
        rw [hmore] at h
        cases h
      | error fault' =>
        rw [hmore] at h
        cases h
        obtain ⟨offset, reason, rfl, hfirst⟩ := ih hrest hmore
        have husable : shape.Usable entry := (exists_readHit_eq_ok_iff hentry).1 ⟨hit, hread⟩
        refine ⟨offset + 1, reason, ?_, firstUnusable_cons_succ.2 ⟨husable, hfirst⟩⟩
        rw [Nat.add_assoc, Nat.add_comm 1 offset]

/-- There is one first unusable element at most. -/
theorem FirstUnusable.unique {index index' : Nat} (h : shape.FirstUnusable entries index)
    (h' : shape.FirstUnusable entries index') : index = index' := by
  obtain ⟨⟨entry, hget, hunusable⟩, hearlier⟩ := h
  obtain ⟨⟨entry', hget', hunusable'⟩, hearlier'⟩ := h'
  rcases Nat.lt_trichotomy index index' with hlt | heq | hgt
  · exact absurd (hearlier' index hlt entry hget) hunusable
  · exact heq
  · exact absurd (hearlier index' hgt entry' hget') hunusable'

theorem forall₂_denotes_iff_usable :
    (∃ hits, List.Forall₂ shape.Denotes entries hits) ↔ ∀ entry ∈ entries, shape.Usable entry := by
  induction entries with
  | nil => simp
  | cons entry rest ih =>
    rw [List.forall_mem_cons, ← ih]
    constructor
    · rintro ⟨hits, hall⟩
      cases hall with
      | cons hentry hrest => exact ⟨⟨_, hentry⟩, _, hrest⟩
    · rintro ⟨⟨hit, hentry⟩, hits, hrest⟩
      exact ⟨hit :: hits, .cons hentry hrest⟩

theorem isDecoded_readHits (hentries : ∀ entry ∈ entries, entry.Ordered) :
    shape.IsDecoded entries (shape.readHits entries) := by
  have hok (hits : List Hit) : shape.readHits entries = .ok hits ↔
      List.Forall₂ shape.Denotes entries hits := readHitsFrom_eq_ok_iff hentries 0 hits
  have herror {fault : DecodeError} (h : shape.readHits entries = .error fault) :
      ∃ index reason, fault = .invalidHit shape index reason ∧
        shape.FirstUnusable entries index := by
    obtain ⟨offset, reason, rfl, hfirst⟩ := readHitsFrom_eq_error hentries h
    exact ⟨offset, reason, by rw [Nat.zero_add], hfirst⟩
  exact {
    isOk_iff := by
      rw [← forall₂_denotes_iff_usable]
      exact exists_congr hok
    ok_iff := hok
    exists_of_error := by
      intro fault h
      obtain ⟨index, reason, heq, -⟩ := herror h
      exact ⟨index, reason, heq⟩
    error_iff := by
      intro index
      constructor
      · rintro ⟨reason, h⟩
        obtain ⟨index', reason', heq, hfirst⟩ := herror h
        cases heq
        exact hfirst
      · intro hfirst
        cases hresult : shape.readHits entries with
        | ok hits =>
          -- then every element would be usable
          have husable := forall₂_denotes_iff_usable.1 ⟨hits, (hok hits).1 hresult⟩
          obtain ⟨entry, hmem, hunusable⟩ := hfirst.exists_mem
          exact absurd (husable entry hmem) hunusable
        | error fault =>
          obtain ⟨index', reason, rfl, hfirst'⟩ := herror hresult
          rw [hfirst'.unique hfirst]
          exact ⟨reason, rfl⟩ }

end Shape

/-! ### Payloads -/

variable {format : Format} {payload : Json} {shape : Shape} {entries : List Json}

theorem entries?_of_hasHits (h : HasHits format payload shape entries) :
    shape.entries? payload = some entries := by
  cases h with
  | flat admitted hits => simp only [Shape.entries?, hits]
  | nested admitted hits inner => simp only [Shape.entries?, hits, Option.bind_some, inner]

/-- The hits of an ordered payload are ordered, in either shape. -/
theorem ordered_of_entries? (hpayload : payload.Ordered)
    (h : shape.entries? payload = some entries) : ∀ entry ∈ entries, entry.Ordered := by
  intro entry hmem
  unfold Shape.entries? at h
  cases shape with
  | flat =>
    simp only at h
    split at h
    · rename_i hhits
      cases h
      exact Json.ordered_of_mem_array (Json.ordered_of_member? hpayload hhits) hmem
    · cases h
  | nested =>
    simp only at h
    split at h
    · rename_i hplace
      cases h
      obtain ⟨outer, houter, hinner⟩ := Option.bind_eq_some_iff.1 hplace
      have houter_ordered : outer.Ordered := Json.ordered_of_member? hpayload houter
      exact Json.ordered_of_mem_array (Json.ordered_of_member? houter_ordered hinner) hmem
    · cases h

/-- A payload is decoded in the shape in which its hits stand. -/
theorem decodeValue_of_hasHits (h : HasHits format payload shape entries) :
    (Decoder.ofFormat format).decodeValue payload = shape.readHits entries := by
  have hentries : shape.entries? payload = some entries := entries?_of_hasHits h
  cases h with
  | flat admitted hits =>
    cases format with
    | nested => contradiction
    | _ => simp [Decoder.decodeValue, Decoder.ofFormat, Shape.claims, Shape.decode, hits, hentries]
  | nested admitted hits inner =>
    cases format with
    | flat => contradiction
    | _ => simp [Decoder.decodeValue, Decoder.ofFormat, Shape.claims, Shape.decode, hits, hentries]

theorem hasHits_of_entries? (hshape : shape ∈ (Decoder.ofFormat format).shapes)
    (h : shape.entries? payload = some entries) : HasHits format payload shape entries := by
  cases shape with
  | flat =>
    have hadmitted : format ≠ .nested := by
      rintro rfl
      simp [Decoder.ofFormat] at hshape
    simp only [Shape.entries?] at h
    split at h
    · rename_i hhits
      cases h
      exact .flat hadmitted hhits
    · cases h
  | nested =>
    have hadmitted : format ≠ .flat := by
      rintro rfl
      simp [Decoder.ofFormat] at hshape
    simp only [Shape.entries?] at h
    split at h
    · rename_i hplace
      cases h
      obtain ⟨outer, houter, hinner⟩ := Option.bind_eq_some_iff.1 hplace
      -- only an object has a member
      cases outer with
      | object members => exact .nested hadmitted houter hinner
      | _ => cases hinner
    · cases h

/-- A payload without hits is no error: no shape claims it, or the nested one
    finds no array inside the object. -/
theorem decodeValue_of_not_hasHits (h : ∀ shape entries, ¬ HasHits format payload shape entries) :
    (Decoder.ofFormat format).decodeValue payload = .ok [] := by
  unfold Decoder.decodeValue
  split
  · rename_i shape hfind
    have hshape := List.mem_of_find?_eq_some hfind
    cases hentries : shape.entries? payload with
    | none => simp only [Shape.decode, hentries]
    | some entries => exact absurd (hasHits_of_entries? hshape hentries) (h shape entries)
  · rfl

/-- Any decoder: the body of a response in which a hit is unusable is not
    decoded, and the fault carries the place of the first such hit, however
    many usable ones stand before it. -/
theorem decodeBody_of_unusable {decoder : Decoder} {body : String}
    (hparse : Json.parse body = .ok payload)
    (hshape : decoder.shapes.find? (fun shape => shape.claims payload) = some shape)
    (hentries : shape.entries? payload = some entries) {index : Nat}
    (hfirst : shape.FirstUnusable entries index) :
    ∃ reason, decoder.decodeBody body = .error (.invalidHit shape index reason) := by
  have hdecoded : shape.IsDecoded entries (shape.readHits entries) :=
    Shape.isDecoded_readHits (ordered_of_entries? (Json.ordered_of_parse hparse) hentries)
  obtain ⟨reason, hread⟩ := (hdecoded.error_iff index).2 hfirst
  refine ⟨reason, ?_⟩
  simp only [Decoder.decodeBody, hparse, Decoder.decodeValue, hshape, Shape.decode, hentries, hread]

/-! ### One shape and the other -/

theorem Renamed.denotes_iff {entry entry' : Json} (h : Renamed entry entry') (hit : Hit) :
    Shape.flat.Denotes entry hit ↔ Shape.nested.Denotes entry' hit := by
  cases h with
  | object id_member score_member =>
    constructor
    · rintro ⟨hid, htext, hscore⟩
      exact .object (id_member.trans hid) htext (score_member.trans hscore)
    · rintro ⟨hid, htext, hscore⟩
      exact .object (id_member.symm.trans hid) htext (score_member.symm.trans hscore)
  | other not_object =>
    constructor
    · rintro (_ | ⟨htext, n⟩)
      · exact absurd rfl (not_object _)
      · exact .array htext n
    · rintro (_ | ⟨htext, n⟩)
      · exact absurd rfl (not_object _)
      · exact .array htext n

variable {entries' : List Json}

theorem forall₂_denotes_iff_of_renamed (h : List.Forall₂ Renamed entries entries')
    (hits : List Hit) :
    List.Forall₂ Shape.flat.Denotes entries hits ↔
      List.Forall₂ Shape.nested.Denotes entries' hits := by
  induction h generalizing hits with
  | nil => simp
  | cons hentry hrest ih =>
    rw [List.forall₂_cons_left_iff, List.forall₂_cons_left_iff]
    simp only [hentry.denotes_iff, ih]

theorem firstUnusable_iff_of_renamed (h : List.Forall₂ Renamed entries entries') (index : Nat) :
    Shape.flat.FirstUnusable entries index ↔ Shape.nested.FirstUnusable entries' index := by
  induction h generalizing index with
  | nil => simp [Shape.FirstUnusable]
  | cons hentry hrest ih =>
    have husable := exists_congr hentry.denotes_iff
    cases index with
    | zero =>
      rw [Shape.firstUnusable_cons_zero, Shape.firstUnusable_cons_zero]
      exact not_congr husable
    | succ index =>
      rw [Shape.firstUnusable_cons_succ, Shape.firstUnusable_cons_succ]
      exact and_congr husable (ih index)

/-! ### What a decoder accepts -/

/-- What a decoder makes of a payload. Where the format finds hits, all of them
    are decoded or the first unusable one is named; any other payload, and any
    payload without shapes to try, has no hits. Renaming the members of all
    hits, and moving the hits to where the nested shape has them, changes
    neither the hits nor the place of the first unusable one. -/
theorem decodeValue_ofFormat (format : Format) (payload : Json) (hpayload : payload.Ordered) :
    (∀ shape entries, HasHits format payload shape entries →
      shape.IsDecoded entries ((Decoder.ofFormat format).decodeValue payload)) ∧
    ((∀ shape entries, ¬ HasHits format payload shape entries) →
      (Decoder.ofFormat format).decodeValue payload = .ok []) ∧
    Decoder.decodeValue ⟨[]⟩ payload = .ok [] ∧
    ∀ format' payload' entries entries', payload'.Ordered →
      HasHits format payload .flat entries → HasHits format' payload' .nested entries' →
      List.Forall₂ Renamed entries entries' →
      (∀ hits, (Decoder.ofFormat format).decodeValue payload = .ok hits ↔
        (Decoder.ofFormat format').decodeValue payload' = .ok hits) ∧
      ∀ index,
        (∃ reason, (Decoder.ofFormat format).decodeValue payload
          = .error (.invalidHit .flat index reason)) ↔
        ∃ reason, (Decoder.ofFormat format').decodeValue payload'
          = .error (.invalidHit .nested index reason) := by
  have hdecoded (format : Format) (payload : Json) (hpayload : payload.Ordered) (shape : Shape)
      (entries : List Json) (h : HasHits format payload shape entries) :
      shape.IsDecoded entries ((Decoder.ofFormat format).decodeValue payload) := by
    rw [decodeValue_of_hasHits h]
    exact Shape.isDecoded_readHits (ordered_of_entries? hpayload (entries?_of_hasHits h))
  refine ⟨hdecoded format payload hpayload, decodeValue_of_not_hasHits, rfl, ?_⟩
  intro format' payload' entries entries' hpayload' h h' hrenamed
  have hflat := hdecoded format payload hpayload .flat entries h
  have hnested := hdecoded format' payload' hpayload' .nested entries' h'
  constructor
  · intro hits
    rw [hflat.ok_iff, hnested.ok_iff, forall₂_denotes_iff_of_renamed hrenamed]
  · intro index
    rw [hflat.error_iff, hnested.error_iff, firstUnusable_iff_of_renamed hrenamed]

/-- A flat response whose first hit is an object with one more member, whose
    second is an array with a number for an id, and whose third is an array
    that has no score: it is the third that is named. -/
theorem decodeValue_ofFormat_third_unusable :
    (Json.object [("hits", .array
      [.object [("id", .string "a"), ("rank", .null), ("score", .number (.natural 1))],
        .array [.number (.natural 42), .number (.negative 2)],
        .array [.string "c"]])]).Ordered ∧
    ∃ reason, (Decoder.ofFormat .auto).decodeValue
      (.object [("hits", .array
        [.object [("id", .string "a"), ("rank", .null), ("score", .number (.natural 1))],
          .array [.number (.natural 42), .number (.negative 2)],
          .array [.string "c"]])]) = .error (.invalidHit .flat 2 reason) := by
  have hordered : (Json.object [("hits", .array
      [.object [("id", .string "a"), ("rank", .null), ("score", .number (.natural 1))],
        .array [.number (.natural 42), .number (.negative 2)],
        .array [.string "c"]])]).Ordered := by
    refine .object (by decide) ?_
    simp only [List.mem_cons, List.not_mem_nil, or_false, forall_eq]
    refine .array ?_
    simp only [List.mem_cons, List.not_mem_nil, or_false, forall_eq_or_imp, forall_eq]
    refine ⟨.object (by decide) ?_, .array ?_, .array ?_⟩
    · simp only [List.mem_cons, List.not_mem_nil, or_false, forall_eq_or_imp, forall_eq]
      exact ⟨.string _, .null, .number _⟩
    · simp only [List.mem_cons, List.not_mem_nil, or_false, forall_eq_or_imp, forall_eq]
      exact ⟨.number _, .number _⟩
    · simp only [List.mem_cons, List.not_mem_nil, or_false, forall_eq]
      exact .string _
  refine ⟨hordered, ?_⟩
  have hdecoded := (decodeValue_ofFormat .auto _ hordered).1 .flat _ (.flat (by decide) rfl)
  apply (hdecoded.error_iff 2).2
  rw [Shape.firstUnusable_cons_succ, Shape.firstUnusable_cons_succ,
    Shape.firstUnusable_cons_zero]
  refine ⟨⟨_, .object rfl (.string "a") rfl⟩, ⟨_, .array (.number _) _⟩, ?_⟩
  rintro ⟨hit, h⟩
  cases h

end EvalRun.Response
