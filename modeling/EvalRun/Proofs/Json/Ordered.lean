import EvalRun.Json.Reader
import EvalRun.OrderedMap

/-! # Proofs.Json.Ordered — what is read has its members in order

    The type of JSON values admits objects with any list of members. Those
    that stand for a value have each name once, in ascending order, in every
    object inside them (`Ordered`), and reading makes no others:

    * **One token.** Whatever the state holds back, in open arrays, in open
      objects and in a complete value, is ordered, and one token keeps it so
      (`IsOrdered.step`).
    * **A text.** So is the value that the last token leaves
      (`ordered_of_parse`).
-/

namespace EvalRun.Json

/-! ### Values -/

/-- Every object in the value has its members in ascending order of their
    names. So each name stands once. -/
inductive Ordered : Json → Prop where
  | null : Ordered .null
  | bool (b : Bool) : Ordered (.bool b)
  | number (n : Number) : Ordered (.number n)
  | string (s : String) : Ordered (.string s)
  | array {items : List Json} (elements : ∀ item ∈ items, Ordered item) : Ordered (.array items)
  | object {members : List (String × Json)} (ascending : members.Pairwise fun a b => a.1 < b.1)
    (values : ∀ member ∈ members, Ordered member.2) : Ordered (.object members)

/-- Members that make an ordered object. -/
def MembersOrdered (members : List (String × Json)) : Prop := Ordered (.object members)

variable {members : List (String × Json)}

theorem membersOrdered_iff :
    MembersOrdered members ↔
      (members.Pairwise fun a b => a.1 < b.1) ∧ ∀ member ∈ members, Ordered member.2 := by
  constructor
  · intro h
    cases h with
    | object ascending values => exact ⟨ascending, values⟩
  · rintro ⟨ascending, values⟩
    exact .object ascending values

theorem ordered_of_mem_array {items : List Json} (h : Ordered (.array items)) {item : Json}
    (hmem : item ∈ items) : item.Ordered := by
  cases h with
  | array elements => exact elements item hmem

/-- A member of an ordered value is ordered. -/
theorem ordered_of_member? {v found : Json} (h : v.Ordered) {name : String}
    (hmember : v.member? name = some found) : found.Ordered := by
  cases h with
  | object ascending values =>
    have hmem : (name, found) ∈ _ := (OrderedMap.mem_iff_lookup_eq_some ascending).2 hmember
    exact values _ hmem
  | _ => cases hmember

/-! ### One more member -/

theorem insertMember_eq_alterEntries (name : String) (value : Json)
    (members : List (String × Json)) :
    insertMember name value members = OrderedMap.alterEntries name (fun _ => value) members := by
  induction members with
  | nil => rfl
  | cons member rest ih =>
    simp only [insertMember, OrderedMap.alterEntries, ih]
    split
    · rename_i hname
      rw [hname]
    · rfl

theorem mem_insertMember {name : String} {value : Json} {member : String × Json}
    (h : member ∈ insertMember name value members) : member = (name, value) ∨ member ∈ members := by
  induction members with
  | nil => exact .inl (List.mem_singleton.1 h)
  | cons head rest ih =>
    simp only [insertMember] at h
    split at h
    · rcases List.mem_cons.1 h with h | h
      · exact .inl h
      · exact .inr (List.mem_cons_of_mem _ h)
    · split at h
      · exact List.mem_cons.1 h
      · rcases List.mem_cons.1 h with h | h
        · exact .inr (h ▸ List.mem_cons_self)
        · exact (ih h).imp_right (List.mem_cons_of_mem _)

theorem MembersOrdered.insertMember (h : MembersOrdered members) {value : Json}
    (hvalue : value.Ordered) (name : String) :
    MembersOrdered (insertMember name value members) := by
  obtain ⟨ascending, values⟩ := membersOrdered_iff.1 h
  refine membersOrdered_iff.2 ⟨?_, ?_⟩
  · rw [insertMember_eq_alterEntries]
    exact OrderedMap.ascending_alterEntries name _ ascending
  · intro member hmem
    rcases mem_insertMember hmem with rfl | hmem
    · exact hvalue
    · exact values member hmem

/-! ### One token -/

/-- What an open array or object holds back is ordered. -/
def Frame.IsOrdered : Frame → Prop
  | .array items => ∀ item ∈ items, item.Ordered
  | .member members _ => MembersOrdered members

/-- What comes next builds on ordered parts. -/
def Expect.IsOrdered : Expect → Prop
  | .name members _ => MembersOrdered members
  | .behind v => v.Ordered
  | _ => True

/-- Every part of a state is ordered. -/
def IsOrdered (state : ReadState) : Prop :=
  state.1.IsOrdered ∧ ∀ frame ∈ state.2, frame.IsOrdered

variable {state next : ReadState} {stack : List Frame} {token : Token}

theorem isOrdered_cons {expect : Expect} {frame : Frame} (hexpect : expect.IsOrdered)
    (hframe : frame.IsOrdered) (hstack : ∀ frame ∈ stack, frame.IsOrdered) :
    IsOrdered (expect, frame :: stack) := by
  refine ⟨hexpect, ?_⟩
  intro other hother
  rcases List.mem_cons.1 hother with rfl | hother
  · exact hframe
  · exact hstack other hother

theorem membersOrdered_nil : MembersOrdered [] :=
  .object .nil fun member hmem => by cases hmem

/-- A value that begins is a scalar, which is complete, or it opens an array
    or an object that is still empty. -/
theorem isOrdered_stepValue (hstack : ∀ frame ∈ stack, frame.IsOrdered)
    (h : stepValue stack token = .ok next) : IsOrdered next := by
  cases token with
  | null =>
    cases h
    exact ⟨.null, hstack⟩
  | bool b =>
    cases h
    exact ⟨.bool b, hstack⟩
  | number literal =>
    simp only [stepValue] at h
    split at h
    · cases h
      exact ⟨.number _, hstack⟩
    · cases h
  | string content =>
    cases content with
    | error fault => cases h
    | ok s =>
      cases h
      exact ⟨.string s, hstack⟩
  | openArray =>
    simp only [stepValue] at h
    split at h
    · cases h
      refine isOrdered_cons trivial ?_ hstack
      intro item hmem
      cases hmem
    · cases h
  | openObject =>
    simp only [stepValue] at h
    split at h
    · cases h
      exact ⟨membersOrdered_nil, hstack⟩
    · cases h
  | _ => cases h

/-- Behind a complete value, it joins the array or the object that is open. -/
theorem isOrdered_stepBehind {v : Json} (hv : v.Ordered)
    (hstack : ∀ frame ∈ stack, frame.IsOrdered) (h : stepBehind v stack token = .ok next) :
    IsOrdered next := by
  cases stack with
  | nil => cases h
  | cons frame rest =>
    have hframe : frame.IsOrdered := hstack frame List.mem_cons_self
    have hrest : ∀ frame ∈ rest, frame.IsOrdered := fun other hother =>
      hstack other (List.mem_cons_of_mem _ hother)
    cases frame with
    | array items =>
      have hitems : ∀ item ∈ v :: items, item.Ordered := by
        intro item hitem
        rcases List.mem_cons.1 hitem with rfl | hitem
        · exact hv
        · exact hframe item hitem
      cases token with
      | comma =>
        cases h
        exact isOrdered_cons trivial hitems hrest
      | closeArray =>
        cases h
        exact ⟨.array fun item hitem => hitems item (List.mem_reverse.1 hitem), hrest⟩
      | _ => cases h
    | member members name =>
      have hmembers : MembersOrdered (insertMember name v members) :=
        MembersOrdered.insertMember hframe hv name
      cases token with
      | comma =>
        cases h
        exact ⟨hmembers, hrest⟩
      | closeObject =>
        cases h
        exact ⟨hmembers, hrest⟩
      | _ => cases h

theorem IsOrdered.step (hstate : IsOrdered state) (h : step state token = .ok next) :
    IsOrdered next := by
  obtain ⟨expect, stack⟩ := state
  obtain ⟨hexpect, hstack⟩ := hstate
  cases expect with
  | value => exact isOrdered_stepValue hstack h
  | valueOrClose =>
    simp only [Json.step] at h
    split at h
    · cases h
      refine ⟨.array fun item hmem => ?_, fun frame hframe => ?_⟩
      · cases hmem
      · exact hstack frame (List.mem_cons_of_mem _ hframe)
    · exact isOrdered_stepValue hstack h
  | name members mayClose =>
    cases token with
    | string content =>
      cases content with
      | error fault => cases h
      | ok s =>
        cases h
        exact isOrdered_cons trivial hexpect hstack
    | closeObject =>
      simp only [Json.step] at h
      split at h
      · cases h
        exact ⟨hexpect, hstack⟩
      · cases h
    | _ => cases h
  | colon =>
    cases token with
    | colon =>
      cases h
      exact ⟨trivial, hstack⟩
    | _ => cases h
  | behind v => exact isOrdered_stepBehind hexpect hstack h

/-! ### A text -/

theorem readFrom_cons (state : ReadState) (token : Token) (rest : List Token) :
    readFrom state (token :: rest) =
      match step state token with
      | .ok next => readFrom next rest
      | .error fault => .error fault := by
  obtain ⟨expect, stack⟩ := state
  cases expect <;> cases stack <;> rfl

theorem ordered_of_readFrom {tokens : List Token} {v : Json} (hstate : IsOrdered state)
    (h : readFrom state tokens = .ok v) : v.Ordered := by
  induction tokens generalizing state with
  | nil =>
    -- only a complete value with nothing open ends the text
    unfold readFrom at h
    split at h
    · cases h
      exact hstate.1
    · cases h
    · contradiction
  | cons token rest ih =>
    rw [readFrom_cons] at h
    cases hstep : step state token with
    | ok next =>
      rw [hstep] at h
      exact ih (hstate.step hstep) h
    | error fault =>
      rw [hstep] at h
      cases h

/-- A text that is read gives an ordered value. -/
theorem ordered_of_parse {text : String} {v : Json} (h : parse text = .ok v) : v.Ordered := by
  have hstart : IsOrdered (.value, []) := ⟨trivial, fun frame hframe => by cases hframe⟩
  exact ordered_of_readFrom hstart h

end EvalRun.Json
