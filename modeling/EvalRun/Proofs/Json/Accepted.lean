import EvalRun.Proofs.Json.Written

/-! # Proofs.Json.Accepted — every text that is read is written as a tree

    The tokens of a tree are read as its value. This module has the converse:
    the reader takes no other tokens.

    * **Where a value is expected,** tokens that lead to the end of the text begin
      with those of a tree, and its value is what has been read behind them
      (`exists_written`). The same holds of further elements and members.
    * **A text** is read if and only if its tokens are those of a tree that is not
      nested too deep and has no number that is too large (`parse_eq_ok_iff`).
-/

namespace EvalRun.Json.Written

/-- The tokens of the text are those of the tree, which is not nested too
    deep. -/
structure Spells (text : String) (w : Written) : Prop where
  tokens_eq : Json.tokens text.toList = w.tokens
  depth_le : w.depth ≤ maxNesting

variable {v : Json} {stack : List Frame} {tokens : List Token}

/-! ### One token -/

/-- The text goes on behind anything but a complete value with nothing open. -/
theorem exists_step_of_readFrom {state : ReadState} (h : readFrom state tokens = .ok v) :
    state = (.behind v, []) ∧ tokens = [] ∨
      ∃ token rest next, tokens = token :: rest ∧ step state token = .ok next ∧
        readFrom next rest = .ok v := by
  cases tokens with
  | nil =>
    left
    unfold readFrom at h
    split at h
    · cases h
      exact ⟨rfl, rfl⟩
    · cases h
    · contradiction
  | cons token rest =>
    right
    rw [readFrom_cons] at h
    cases hstep : step state token with
    | ok next =>
      rw [hstep] at h
      exact ⟨token, rest, next, rfl, hstep, h⟩
    | error fault =>
      rw [hstep] at h
      cases h

/-- Behind an element stands a comma and another value, or the array ends. -/
theorem readFrom_array_cases {u : Json} {found : List Json}
    (h : readFrom (.behind u, .array found :: stack) tokens = .ok v) :
    (∃ rest, tokens = .comma :: rest ∧
      readFrom (.value, .array (u :: found) :: stack) rest = .ok v) ∨
    ∃ rest, tokens = .closeArray :: rest ∧
      readFrom (.behind (.array (u :: found).reverse), stack) rest = .ok v := by
  obtain ⟨hstate, -⟩ | ⟨token, rest, next, rfl, hstep, hread⟩ := exists_step_of_readFrom h
  · cases hstate
  · cases token with
    | comma =>
      cases hstep
      exact .inl ⟨rest, rfl, hread⟩
    | closeArray =>
      cases hstep
      exact .inr ⟨rest, rfl, hread⟩
    | _ => cases hstep

/-- Behind a member stands a comma, and another name must follow, or the object
    ends. -/
theorem readFrom_member_cases {u : Json} {found : List (String × Json)} {name : String}
    (h : readFrom (.behind u, .member found name :: stack) tokens = .ok v) :
    (∃ rest, tokens = .comma :: rest ∧
      readFrom (.name (insertMember name u found) false, stack) rest = .ok v) ∨
    ∃ rest, tokens = .closeObject :: rest ∧
      readFrom (.behind (.object (insertMember name u found)), stack) rest = .ok v := by
  obtain ⟨hstate, -⟩ | ⟨token, rest, next, rfl, hstep, hread⟩ := exists_step_of_readFrom h
  · cases hstate
  · cases token with
    | comma =>
      cases hstep
      exact .inl ⟨rest, rfl, hread⟩
    | closeObject =>
      cases hstep
      exact .inr ⟨rest, rfl, hread⟩
    | _ => cases hstep

/-- Where a name is expected stands one, and a colon behind it, or the object
    ends without members. -/
theorem readFrom_name_cases {found : List (String × Json)} {mayClose : Bool}
    (h : readFrom (.name found mayClose, stack) tokens = .ok v) :
    (∃ name rest, tokens = .string (.ok name) :: .colon :: rest ∧
      readFrom (.value, .member found name :: stack) rest = .ok v) ∨
    ∃ rest, mayClose = true ∧ tokens = .closeObject :: rest ∧
      readFrom (.behind (.object found), stack) rest = .ok v := by
  obtain ⟨hstate, -⟩ | ⟨token, rest, next, rfl, hstep, hread⟩ := exists_step_of_readFrom h
  · cases hstate
  · cases token with
    | string content =>
      cases content with
      | error fault => cases hstep
      | ok name =>
        cases hstep
        obtain ⟨hstate, -⟩ | ⟨token, rest, next, rfl, hstep, hread⟩ :=
          exists_step_of_readFrom hread
        · cases hstate
        · cases token with
          | colon =>
            cases hstep
            exact .inl ⟨name, rest, rfl, hread⟩
          | _ => cases hstep
    | closeObject =>
      cases hmay : mayClose with
      | true =>
        rw [hmay] at hstep
        cases hstep
        exact .inr ⟨rest, rfl, rfl, hread⟩
      | false =>
        rw [hmay] at hstep
        cases hstep
    | _ => cases hstep

/-- An array begins with a value, or ends without elements. -/
theorem readFrom_valueOrClose_cases
    (h : readFrom (.valueOrClose, .array [] :: stack) tokens = .ok v) :
    readFrom (.value, .array [] :: stack) tokens = .ok v ∨
    ∃ rest, tokens = .closeArray :: rest ∧ readFrom (.behind (.array []), stack) rest = .ok v := by
  obtain ⟨hstate, -⟩ | ⟨token, rest, next, rfl, hstep, hread⟩ := exists_step_of_readFrom h
  · cases hstate
  · cases token with
    | closeArray =>
      cases hstep
      exact .inr ⟨rest, rfl, hread⟩
    | _ =>
      left
      rw [readFrom_cons]
      simp only [step] at hstep ⊢
      rw [hstep]
      exact hread

/-! ### Trees -/

mutual

/-- Tokens that are read where a value is expected begin with those of a tree. -/
theorem exists_written (tokens : List Token) (stack : List Frame)
    (hstack : stack.length ≤ maxNesting) (h : readFrom (.value, stack) tokens = .ok v) :
    ∃ (w : Written) (rest : List Token) (u : Json), tokens = w.tokens ++ rest ∧
      stack.length + w.depth ≤ maxNesting ∧ w.value? = some u ∧
      readFrom (.behind u, stack) rest = .ok v := by
  obtain ⟨hstate, -⟩ | ⟨token, behind, next, rfl, hstep, hread⟩ := exists_step_of_readFrom h
  · cases hstate
  · cases token with
    | null =>
      cases hstep
      exact ⟨.null, behind, .null, rfl, hstack, rfl, hread⟩
    | bool b =>
      cases hstep
      exact ⟨.bool b, behind, .bool b, rfl, hstack, rfl, hread⟩
    | string content =>
      cases content with
      | error fault => cases hstep
      | ok s =>
        cases hstep
        exact ⟨.string s, behind, .string s, rfl, hstack, rfl, hread⟩
    | number literal =>
      simp only [step, stepValue] at hstep
      split at hstep
      · rename_i n hn
        cases hstep
        refine ⟨.number literal, behind, .number n, rfl, hstack, ?_, hread⟩
        rw [value?, hn]
        rfl
      · cases hstep
    | openArray =>
      simp only [step, stepValue] at hstep
      split at hstep
      · rename_i hopen
        cases hstep
        obtain hfirst | ⟨rest, rfl, hrest⟩ := readFrom_valueOrClose_cases hread
        · obtain ⟨item, more, u, rfl, hdepth, hvalue, hmore⟩ :=
            exists_written behind (.array [] :: stack) hopen hfirst
          obtain ⟨items, rest, vs, rfl, hdepths, hvalues, hrest⟩ :=
            exists_moreItems more u [] stack hopen hmore
          simp only [List.length_cons] at hdepth
          refine ⟨.array (item :: items), rest, .array (u :: vs), ?_, ?_, ?_, hrest⟩
          · simp [Written.tokens]
          · simp only [depth, itemsDepth]
            omega
          · simp [value?, values?, hvalue, hvalues]
        · exact ⟨.array [], rest, .array [], rfl, hopen, rfl, hrest⟩
      · cases hstep
    | openObject =>
      simp only [step, stepValue] at hstep
      split at hstep
      · rename_i hopen
        cases hstep
        obtain ⟨name, first, rfl, hfirst⟩ | ⟨rest, -, rfl, hrest⟩ := readFrom_name_cases hread
        · obtain ⟨item, more, u, rfl, hdepth, hvalue, hmore⟩ :=
            exists_written first (.member [] name :: stack) hopen hfirst
          obtain ⟨members, rest, vs, rfl, hdepths, hvalues, hrest⟩ :=
            exists_moreMembers more u [] name stack hopen hmore
          simp only [List.length_cons] at hdepth
          refine ⟨.object ((name, item) :: members), rest, .object vs, ?_, ?_, ?_, hrest⟩
          · simp [Written.tokens]
          · simp only [depth, membersDepth]
            omega
          · simp [value?, membersFrom?, hvalue, hvalues]
        · exact ⟨.object [], rest, .object [], rfl, hopen, rfl, hrest⟩
      · cases hstep
    | _ => cases hstep
termination_by tokens.length

/-- Tokens that are read behind an element of an array begin with those of the
    other elements. -/
theorem exists_moreItems (tokens : List Token) (u : Json) (found : List Json) (stack : List Frame)
    (hstack : stack.length < maxNesting)
    (h : readFrom (.behind u, .array found :: stack) tokens = .ok v) :
    ∃ (items : List Written) (rest : List Token) (vs : List Json),
      tokens = moreItems items ++ rest ∧ stack.length + 1 + itemsDepth items ≤ maxNesting ∧
      values? items = some vs ∧
      readFrom (.behind (.array ((u :: found).reverse ++ vs)), stack) rest = .ok v := by
  obtain ⟨behind, rfl, hread⟩ | ⟨rest, rfl, hrest⟩ := readFrom_array_cases h
  · obtain ⟨item, more, next, rfl, hdepth, hvalue, hmore⟩ :=
      exists_written behind (.array (u :: found) :: stack) hstack hread
    obtain ⟨items, rest, vs, rfl, hdepths, hvalues, hrest⟩ :=
      exists_moreItems more next (u :: found) stack hstack hmore
    simp only [List.length_cons] at hdepth
    refine ⟨item :: items, rest, next :: vs, ?_, ?_, ?_, ?_⟩
    · simp [moreItems]
    · simp only [itemsDepth]
      omega
    · simp [values?, hvalue, hvalues]
    · simpa using hrest
  · refine ⟨[], rest, [], rfl, hstack, rfl, ?_⟩
    rw [List.append_nil]
    exact hrest
termination_by tokens.length

/-- Tokens that are read behind a member of an object begin with those of the
    other members. -/
theorem exists_moreMembers (tokens : List Token) (u : Json) (found : List (String × Json))
    (name : String) (stack : List Frame) (hstack : stack.length < maxNesting)
    (h : readFrom (.behind u, .member found name :: stack) tokens = .ok v) :
    ∃ (members : List (String × Written)) (rest : List Token) (vs : List (String × Json)),
      tokens = moreMembers members ++ rest ∧
      stack.length + 1 + membersDepth members ≤ maxNesting ∧
      membersFrom? (insertMember name u found) members = some vs ∧
      readFrom (.behind (.object vs), stack) rest = .ok v := by
  obtain ⟨behind, rfl, hread⟩ | ⟨rest, rfl, hrest⟩ := readFrom_member_cases h
  · obtain ⟨other, first, rfl, hfirst⟩ | ⟨-, hmay, -⟩ := readFrom_name_cases hread
    · obtain ⟨item, more, next, rfl, hdepth, hvalue, hmore⟩ :=
        exists_written first (.member (insertMember name u found) other :: stack) hstack hfirst
      obtain ⟨members, rest, vs, rfl, hdepths, hvalues, hrest⟩ :=
        exists_moreMembers more next (insertMember name u found) other stack hstack hmore
      simp only [List.length_cons] at hdepth
      refine ⟨(other, item) :: members, rest, vs, ?_, ?_, ?_, hrest⟩
      · simp [moreMembers]
      · simp only [membersDepth]
        omega
      · simp [membersFrom?, hvalue, hvalues]
    · cases hmay
  · exact ⟨[], rest, _, rfl, hstack, rfl, hrest⟩
termination_by tokens.length

end

/-! ### Texts -/

/-- A text is read if and only if it is written as a tree that has a value, and
    that value is read. -/
theorem parse_eq_ok_iff {text : String} :
    parse text = .ok v ↔ ∃ w, Spells text w ∧ w.value? = some v := by
  constructor
  · intro h
    obtain ⟨w, rest, u, htokens, hdepth, hvalue, hread⟩ :=
      exists_written (Json.tokens text.toList) [] (Nat.zero_le _) h
    -- nothing is open, so nothing follows
    obtain ⟨hstate, rfl⟩ | ⟨token, rest, next, rfl, hstep, -⟩ := exists_step_of_readFrom hread
    · cases hstate
      rw [List.append_nil] at htokens
      rw [List.length_nil, Nat.zero_add] at hdepth
      exact ⟨w, ⟨htokens, hdepth⟩, hvalue⟩
    · cases hstep
  · rintro ⟨w, hspells, hvalue⟩
    rw [parse_of_tokens hspells.tokens_eq hspells.depth_le, hvalue]
    rfl

end EvalRun.Json.Written
