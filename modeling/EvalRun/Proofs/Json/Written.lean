import EvalRun.Proofs.Json.Ordered
import Mathlib.Data.List.Forall2

/-! # Proofs.Json.Written — a text as a tree that keeps its numbers as they are written

    A JSON value has forgotten how its numbers were written, and which member
    of a repeated name came first. A `Written` text has not: it is the tree of
    a token sequence, with number literals at its leaves.

    * **Tokens.** The reader takes the tokens of such a tree for its value, with
      whatever stands before and behind them (`readFrom_tokens`).
    * **Numbers.** A tree has a value unless one of its literals is too large
      (`value?_eq_none_iff`); then the whole text is refused.
    * **Members.** Of equal names the last stands (`lookup_membersFrom?`).
-/

namespace EvalRun.Json

/-- A JSON text as a tree. Members stand in the order in which they are
    written, and names may be repeated. -/
inductive Written where
  | null
  | bool (b : Bool)
  | number (literal : NumberLiteral)
  | string (s : String)
  | array (items : List Written)
  | object (members : List (String × Written))

namespace Written

/-! ### Tokens -/

mutual

/-- The tokens of a text. -/
def tokens : Written → List Token
  | .null => [.null]
  | .bool b => [.bool b]
  | .number literal => [.number literal]
  | .string s => [.string (.ok s)]
  | .array [] => [.openArray, .closeArray]
  | .array (item :: rest) => .openArray :: (item.tokens ++ moreItems rest)
  | .object [] => [.openObject, .closeObject]
  | .object ((name, item) :: rest) =>
    .openObject :: .string (.ok name) :: .colon :: (item.tokens ++ moreMembers rest)

/-- The tokens behind the first element of an array. -/
def moreItems : List Written → List Token
  | [] => [.closeArray]
  | item :: rest => .comma :: (item.tokens ++ moreItems rest)

/-- The tokens behind the first member of an object. -/
def moreMembers : List (String × Written) → List Token
  | [] => [.closeObject]
  | (name, item) :: rest =>
    .comma :: .string (.ok name) :: .colon :: (item.tokens ++ moreMembers rest)

end

mutual

/-- How deep arrays and objects are nested. -/
def depth : Written → Nat
  | .array items => itemsDepth items + 1
  | .object members => membersDepth members + 1
  | _ => 0

/-- The depth of the deepest element. -/
def itemsDepth : List Written → Nat
  | [] => 0
  | item :: rest => max item.depth (itemsDepth rest)

/-- The depth of the deepest member. -/
def membersDepth : List (String × Written) → Nat
  | [] => 0
  | (_, item) :: rest => max item.depth (membersDepth rest)

end

/-! ### Values -/

mutual

/-- The value of a text, unless one of its numbers is too large. -/
def value? : Written → Option Json
  | .null => some .null
  | .bool b => some (.bool b)
  | .number literal => literal.number?.map .number
  | .string s => some (.string s)
  | .array items => (values? items).map .array
  | .object members => (membersFrom? [] members).map .object

/-- The values of the elements of an array. -/
def values? : List Written → Option (List Json)
  | [] => some []
  | item :: rest => item.value?.bind fun v => (values? rest).map (v :: ·)

/-- The members of an object, behind those that have been read. -/
def membersFrom? (found : List (String × Json)) :
    List (String × Written) → Option (List (String × Json))
  | [] => some found
  | (name, item) :: rest => item.value?.bind fun v => membersFrom? (insertMember name v found) rest

end

mutual

/-- The number literals of a text. -/
def literals : Written → List NumberLiteral
  | .number literal => [literal]
  | .array items => itemLiterals items
  | .object members => memberLiterals members
  | _ => []

/-- The number literals of the elements of an array. -/
def itemLiterals : List Written → List NumberLiteral
  | [] => []
  | item :: rest => item.literals ++ itemLiterals rest

/-- The number literals of the members of an object. -/
def memberLiterals : List (String × Written) → List NumberLiteral
  | [] => []
  | (_, item) :: rest => item.literals ++ memberLiterals rest

end

/-! ### Reading the tokens -/

/-- No text begins with the end of an array. -/
theorem readFrom_valueOrClose (w : Written) (stack : List Frame) (behind : List Token) :
    readFrom (.valueOrClose, stack) (w.tokens ++ behind) =
      readFrom (.value, stack) (w.tokens ++ behind) := by
  have hstep {token : Token} (h : token ≠ .closeArray) :
      step (.valueOrClose, stack) token = step (.value, stack) token := by
    cases stack with
    | nil => rfl
    | cons frame rest => cases frame <;> cases token <;> first | rfl | exact absurd rfl h
  obtain ⟨first, rest, htokens, hfirst⟩ :
      ∃ first rest, w.tokens = first :: rest ∧ first ≠ .closeArray := by
    rcases w with _ | _ | _ | _ | (_ | ⟨item, rest⟩) | (_ | ⟨⟨name, item⟩, rest⟩) <;>
      exact ⟨_, _, rfl, nofun⟩
  rw [htokens, List.cons_append, readFrom_cons, readFrom_cons, hstep hfirst]

mutual

/-- Where a value is expected, the tokens of a text are read as its value, or
    refused if it has none. -/
theorem readFrom_tokens (w : Written) (stack : List Frame) (behind : List Token)
    (hdepth : stack.length + w.depth ≤ maxNesting) :
    readFrom (.value, stack) (w.tokens ++ behind) =
      w.value?.elim (.error .malformed) fun v => readFrom (.behind v, stack) behind := by
  cases w with
  | null => rfl
  | bool b => rfl
  | string s => rfl
  | number literal =>
    simp only [tokens, List.cons_append, List.nil_append, readFrom_cons, step, stepValue, value?]
    cases literal.number? <;> rfl
  | array items =>
    have hopen : stack.length < maxNesting := by
      simp only [depth] at hdepth
      omega
    cases items with
    | nil =>
      simp only [tokens, List.cons_append, List.nil_append, readFrom_cons, step, stepValue, hopen,
        if_true]
      rfl
    | cons item rest =>
      simp only [depth, itemsDepth] at hdepth
      simp only [tokens, List.cons_append, List.append_assoc, readFrom_cons, step, stepValue, hopen,
        if_true, readFrom_valueOrClose]
      rw [readFrom_tokens item (.array [] :: stack) _ (by simp only [List.length_cons]; omega)]
      cases hitem : item.value? with
      | none => simp [value?, values?, hitem]
      | some v =>
        rw [Option.elim_some, readFrom_moreItems rest v [] stack behind (by omega)]
        cases hrest : values? rest <;> simp [value?, values?, hitem, hrest]
  | object members =>
    have hopen : stack.length < maxNesting := by
      simp only [depth] at hdepth
      omega
    cases members with
    | nil =>
      simp only [tokens, List.cons_append, List.nil_append, readFrom_cons, step, stepValue, hopen,
        if_true]
      rfl
    | cons member rest =>
      obtain ⟨name, item⟩ := member
      simp only [depth, membersDepth] at hdepth
      simp only [tokens, List.cons_append, List.append_assoc, readFrom_cons, step, stepValue, hopen,
        if_true, Except.map]
      have hroom : (Frame.member [] name :: stack).length + item.depth ≤ maxNesting := by
        rw [List.length_cons]
        omega
      rw [readFrom_tokens item (.member [] name :: stack) _ hroom]
      cases hitem : item.value? with
      | none => simp [value?, membersFrom?, hitem]
      | some v =>
        rw [Option.elim_some, readFrom_moreMembers rest v [] name stack behind (by omega)]
        cases hrest : membersFrom? (insertMember name v []) rest <;>
          simp [value?, membersFrom?, hitem, hrest]

/-- Behind an element of an array, the tokens of the others are read. -/
theorem readFrom_moreItems (items : List Written) (v : Json) (found : List Json)
    (stack : List Frame) (behind : List Token)
    (hdepth : stack.length + 1 + itemsDepth items ≤ maxNesting) :
    readFrom (.behind v, .array found :: stack) (moreItems items ++ behind) =
      (values? items).elim (.error .malformed) fun vs =>
        readFrom (.behind (.array ((v :: found).reverse ++ vs)), stack) behind := by
  cases items with
  | nil => simp [moreItems, values?, readFrom_cons, step, stepBehind]
  | cons item rest =>
    simp only [itemsDepth] at hdepth
    simp only [moreItems, List.cons_append, List.append_assoc, readFrom_cons, step, stepBehind]
    rw [readFrom_tokens item (.array (v :: found) :: stack) _
      (by simp only [List.length_cons]; omega)]
    cases hitem : item.value? with
    | none => simp [values?, hitem]
    | some next =>
      rw [Option.elim_some, readFrom_moreItems rest next (v :: found) stack behind (by omega)]
      cases hrest : values? rest <;> simp [values?, hitem, hrest]

/-- Behind a member of an object, the tokens of the others are read. -/
theorem readFrom_moreMembers (members : List (String × Written)) (v : Json)
    (found : List (String × Json)) (name : String) (stack : List Frame) (behind : List Token)
    (hdepth : stack.length + 1 + membersDepth members ≤ maxNesting) :
    readFrom (.behind v, .member found name :: stack) (moreMembers members ++ behind) =
      (membersFrom? (insertMember name v found) members).elim (.error .malformed) fun vs =>
        readFrom (.behind (.object vs), stack) behind := by
  cases members with
  | nil => simp [moreMembers, membersFrom?, readFrom_cons, step, stepBehind]
  | cons member rest =>
    obtain ⟨next, item⟩ := member
    simp only [membersDepth] at hdepth
    simp only [moreMembers, List.cons_append, List.append_assoc, readFrom_cons, step, stepBehind,
      Except.map]
    rw [readFrom_tokens item (.member (insertMember name v found) next :: stack) _
      (by simp only [List.length_cons]; omega)]
    cases hitem : item.value? with
    | none => simp [membersFrom?, hitem]
    | some value =>
      rw [Option.elim_some,
        readFrom_moreMembers rest value (insertMember name v found) next stack behind (by omega)]
      simp [membersFrom?, hitem]

end

/-- A text with the tokens of a tree is read as the value of the tree. -/
theorem parse_of_tokens {text : String} {w : Written} (htokens : Json.tokens text.toList = w.tokens)
    (hdepth : w.depth ≤ maxNesting) :
    parse text = w.value?.elim (.error .malformed) .ok := by
  have hread := readFrom_tokens w [] [] (by simpa using hdepth)
  rw [List.append_nil] at hread
  unfold parse
  rw [htokens, hread]
  rfl

/-! ### Numbers -/

mutual

/-- A text has no value if and only if one of its numbers is too large. -/
theorem value?_eq_none_iff (w : Written) :
    w.value? = none ↔ ∃ literal ∈ w.literals, literal.number? = none := by
  cases w with
  | array items =>
    simp only [value?, literals, Option.map_eq_none_iff]
    exact values?_eq_none_iff items
  | object members =>
    simp only [value?, literals, Option.map_eq_none_iff]
    exact membersFrom?_eq_none_iff members []
  | _ => simp [value?, literals]

theorem values?_eq_none_iff (items : List Written) :
    values? items = none ↔ ∃ literal ∈ itemLiterals items, literal.number? = none := by
  cases items with
  | nil => simp [values?, itemLiterals]
  | cons item rest =>
    have hitem := value?_eq_none_iff item
    have hrest := values?_eq_none_iff rest
    simp only [itemLiterals, List.mem_append, or_and_right, exists_or, ← hitem, ← hrest, values?]
    cases item.value? <;> simp

theorem membersFrom?_eq_none_iff (members : List (String × Written))
    (found : List (String × Json)) :
    membersFrom? found members = none ↔
      ∃ literal ∈ memberLiterals members, literal.number? = none := by
  cases members with
  | nil => simp [membersFrom?, memberLiterals]
  | cons member rest =>
    obtain ⟨name, item⟩ := member
    have hitem := value?_eq_none_iff item
    have hrest (found : List (String × Json)) := membersFrom?_eq_none_iff rest found
    simp only [memberLiterals, List.mem_append, or_and_right, exists_or, ← hitem, membersFrom?]
    cases item.value? with
    | none => simp
    | some v => simpa using hrest (insertMember name v found)

end

theorem exists_value? {w : Written} (h : ∀ literal ∈ w.literals, literal.number? ≠ none) :
    ∃ v, w.value? = some v := by
  apply Option.ne_none_iff_exists'.1
  intro hnone
  obtain ⟨literal, hmem, hlarge⟩ := w.value?_eq_none_iff.1 hnone
  exact h literal hmem hlarge

/-- The values of the elements before an element, of the element, and of those
    behind it. -/
theorem exists_of_values?_append {earlier later : List Written} {item : Written} {vs : List Json}
    (h : values? (earlier ++ item :: later) = some vs) :
    ∃ before v after, values? earlier = some before ∧ item.value? = some v ∧
      values? later = some after ∧ vs = before ++ v :: after := by
  induction earlier generalizing vs with
  | nil =>
    simp only [List.nil_append, values?, Option.bind_eq_some_iff, Option.map_eq_some_iff] at h
    obtain ⟨v, hv, after, hafter, rfl⟩ := h
    exact ⟨[], v, after, rfl, hv, hafter, rfl⟩
  | cons first rest ih =>
    simp only [List.cons_append, values?, Option.bind_eq_some_iff, Option.map_eq_some_iff] at h
    obtain ⟨u, hu, more, hmore, rfl⟩ := h
    obtain ⟨before, v, after, hbefore, hv, hafter, rfl⟩ := ih hmore
    refine ⟨u :: before, v, after, ?_, hv, hafter, rfl⟩
    simp [values?, hu, hbefore]

/-- The elements of an array have their values one by one. -/
theorem forall₂_of_values? {items : List Written} {vs : List Json} (h : values? items = some vs) :
    List.Forall₂ (fun item v => item.value? = some v) items vs := by
  induction items generalizing vs with
  | nil =>
    obtain rfl : [] = vs := Option.some.inj h
    exact .nil
  | cons item rest ih =>
    simp only [values?, Option.bind_eq_some_iff, Option.map_eq_some_iff] at h
    obtain ⟨v, hv, more, hmore, rfl⟩ := h
    exact .cons hv (ih hmore)

variable {w : Written} {v : Json}

/-! ### Trees of a value -/

theorem exists_number_of_value? {n : Number} (h : w.value? = some (.number n)) :
    ∃ literal, w = .number literal := by
  cases w with
  | number literal => exact ⟨literal, rfl⟩
  | _ => simp [value?] at h

theorem eq_string_of_value? {s : String} (h : w.value? = some (.string s)) : w = .string s := by
  cases w with
  | string s' =>
    cases h
    rfl
  | _ => simp [value?] at h

theorem exists_array_of_value? {items : List Json} (h : w.value? = some (.array items)) :
    ∃ entries, w = .array entries ∧ values? entries = some items := by
  cases w with
  | array entries => exact ⟨entries, rfl, by simpa [value?] using h⟩
  | _ => simp [value?] at h

theorem exists_object_of_value? {members : List (String × Json)}
    (h : w.value? = some (.object members)) : ∃ written, w = .object written := by
  cases w with
  | object written => exact ⟨written, rfl⟩
  | _ => simp [value?] at h

/-! ### Members -/

/-- The last member of a name. -/
def last? (name : String) : List (String × Written) → Option Written
  | [] => none
  | (other, item) :: rest => last? name rest <|> if name = other then some item else none

theorem lookup_insertMember {found : List (String × Json)}
    (ascending : found.Pairwise fun a b => a.1 < b.1) (name other : String) (v : Json) :
    (insertMember other v found).lookup name =
      if name = other then some v else found.lookup name := by
  rw [insertMember_eq_alterEntries, OrderedMap.lookup_alterEntries other name _ ascending]

theorem ascending_insertMember {found : List (String × Json)}
    (ascending : found.Pairwise fun a b => a.1 < b.1) (name : String) (v : Json) :
    (insertMember name v found).Pairwise fun a b => a.1 < b.1 := by
  rw [insertMember_eq_alterEntries]
  exact OrderedMap.ascending_alterEntries name _ ascending

/-- Of equal names the last stands, and those that have been read before give
    way to it. -/
theorem lookup_membersFrom? {members : List (String × Written)} {found read : List (String × Json)}
    (ascending : found.Pairwise fun a b => a.1 < b.1)
    (h : membersFrom? found members = some read) (name : String) :
    read.lookup name = (last? name members).elim (found.lookup name) value? := by
  induction members generalizing found with
  | nil =>
    obtain rfl : found = read := Option.some.inj h
    rfl
  | cons member rest ih =>
    obtain ⟨other, item⟩ := member
    simp only [membersFrom?, Option.bind_eq_some_iff] at h
    obtain ⟨v, hv, hrest⟩ := h
    rw [ih (ascending_insertMember ascending other v) hrest, lookup_insertMember ascending]
    simp only [last?]
    cases last? name rest with
    | some later => rfl
    | none =>
      by_cases hname : name = other
      · simp [hname, hv]
      · simp [hname]

theorem exists_value?_of_last? {members : List (String × Written)}
    {found read : List (String × Json)} (h : membersFrom? found members = some read)
    {name : String} {item : Written} (hlast : last? name members = some item) :
    ∃ v, item.value? = some v := by
  induction members generalizing found with
  | nil => cases hlast
  | cons member rest ih =>
    obtain ⟨other, first⟩ := member
    simp only [membersFrom?, Option.bind_eq_some_iff] at h
    obtain ⟨v, hv, hrest⟩ := h
    simp only [last?] at hlast
    cases hlater : last? name rest with
    | some later =>
      rw [hlater] at hlast
      exact ih hrest (hlater.trans hlast)
    | none =>
      rw [hlater] at hlast
      by_cases hname : name = other
      · obtain rfl : first = item := by simpa [hname] using hlast
        exact ⟨v, hv⟩
      · simp [hname] at hlast

/-- A member of an object is the last of its name. -/
theorem member?_of_last? {members : List (String × Written)} {v : Json}
    (h : (object members).value? = some v) {name : String} {item : Written}
    (hlast : last? name members = some item) :
    ∃ found, item.value? = some found ∧ v.member? name = some found := by
  simp only [value?, Option.map_eq_some_iff] at h
  obtain ⟨read, hread, rfl⟩ := h
  obtain ⟨found, hfound⟩ := exists_value?_of_last? hread hlast
  have hlookup := lookup_membersFrom? .nil hread name
  rw [hlast, Option.elim_some, hfound] at hlookup
  exact ⟨found, hfound, hlookup⟩

/-- A member of the value of an object is the value of the last of its name. -/
theorem exists_last?_of_member? {members : List (String × Written)}
    (h : (object members).value? = some v) {name : String} {found : Json}
    (hmember : v.member? name = some found) :
    ∃ item, last? name members = some item ∧ item.value? = some found := by
  simp only [value?, Option.map_eq_some_iff] at h
  obtain ⟨read, hread, rfl⟩ := h
  have hlookup := lookup_membersFrom? .nil hread name
  rw [show read.lookup name = some found from hmember] at hlookup
  cases hlast : last? name members with
  | none =>
    rw [hlast] at hlookup
    cases hlookup
  | some item =>
    rw [hlast] at hlookup
    exact ⟨item, rfl, hlookup.symm⟩

end Written

end EvalRun.Json
