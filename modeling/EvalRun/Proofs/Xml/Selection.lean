import EvalRun.Xml.Tree

/-! # Proofs.Xml.Selection — the elements at a path

    The elements of a tree have an order, that of their start tags in the
    document, and each is reached from the top along the local names of the
    elements around it. The elements *at a path* are those reached along
    these names and no others, in the order of the document.

    Selection follows a path level by level instead and collects the children
    of a name from every node of a level. Both find the same elements in the
    same order (`Node.select_eq_reached`).
-/

namespace EvalRun.Xml.Node

/-! ### Elements in the order of the document -/

mutual

/-- The elements of a tree in the order of their start tags, each with the
    local names from the top of the tree to it. -/
def walk : Node → List (List (List Char) × Node)
  | element name first last children =>
    ([name], element name first last children) ::
      (walkAll children).map fun found => (name :: found.1, found.2)
  | text _ => []
  | comment => []
  | instruction => []

/-- The elements of several trees. -/
def walkAll : List Node → List (List (List Char) × Node)
  | [] => []
  | n :: rest => walk n ++ walkAll rest

end

/-- The elements of trees that are reached along the given names. -/
def along (names : List (List Char)) (trees : List Node) : List Node :=
  ((walkAll trees).filter fun found => found.1 = names).map (·.2)

/-- The elements inside an element that are reached along a path, in the order
    of the document. -/
def reached (n : Node) (path : List String) : List Node :=
  along (path.map String.toList) n.children

/-- Elements of several trees are elements of one after another. -/
theorem walkAll_eq_flatMap (trees : List Node) : walkAll trees = trees.flatMap walk := by
  induction trees with
  | nil => rfl
  | cons n rest ih => rw [walkAll, ih, List.flatMap_cons]

/-- The way to an element has a name at least, that of the element. -/
theorem ne_nil_of_mem_walkAll {trees : List Node} {found : List (List Char) × Node}
    (hfound : found ∈ walkAll trees) : found.1 ≠ [] := by
  rw [walkAll_eq_flatMap] at hfound
  obtain ⟨n, -, hn⟩ := List.mem_flatMap.1 hfound
  cases n with
  | element name first last children =>
    rcases List.mem_cons.1 hn with rfl | hinside
    · simp
    · obtain ⟨inner, -, rfl⟩ := List.mem_map.1 hinside
      simp
  | text _ => cases hn
  | comment => cases hn
  | instruction => cases hn

/-! ### One name of a path -/

/-- No way to an element is empty. -/
theorem along_nil (trees : List Node) : along [] trees = [] := by
  unfold along
  rw [List.filter_eq_nil_iff.2, List.map_nil]
  intro found hfound
  simpa using ne_nil_of_mem_walkAll hfound

/-- Elements along a path in several trees are found in one after another. -/
theorem along_cons (names : List (List Char)) (n : Node) (rest : List Node) :
    along names (n :: rest) = along names [n] ++ along names rest := by
  simp [along, walkAll]

/-- Inside one tree, a path leads to its top if it has no further name, and
    goes on among the children otherwise. -/
theorem along_element (own : List Char) (names : List (List Char)) (name : List Char)
    (first last : Nat) (children : List Node) :
    along (own :: names) [element name first last children] =
      if name = own then
        (if names = [] then [element name first last children] else []) ++ along names children
      else [] := by
  have hinside : ((walkAll children).map fun found => (name :: found.1, found.2)).filter
      (fun found => found.1 = own :: names) =
      if name = own then ((walkAll children).filter fun found => found.1 = names).map
        fun found => (name :: found.1, found.2) else [] := by
    rw [List.filter_map]
    by_cases hname : name = own
    · rw [if_pos hname]
      congr 2
      funext found
      simp [hname]
    · rw [if_neg hname, List.filter_eq_nil_iff.2, List.map_nil]
      intro found _
      simp [hname]
  rw [along, walkAll, walkAll, List.append_nil, walk, List.filter_cons, hinside]
  by_cases hname : name = own
  · by_cases hnames : names = []
    · simp [hname, hnames, along, Function.comp_def]
    · have hlong : [] ≠ names := fun h => hnames h.symm
      simp [hname, hnames, hlong, along, Function.comp_def]
  · simp [hname]

/-- A path of one name leads to the trees of that name. -/
theorem along_singleton (name : String) (trees : List Node) :
    along [name.toList] trees = trees.filter (isNamed name) := by
  induction trees with
  | nil => rfl
  | cons n rest ih =>
    rw [along_cons, ih, List.filter_cons]
    cases n with
    | element own first last children =>
      rw [along_element, along_nil]
      by_cases hown : own = name.toList <;> simp [isNamed, hown]
    | text _ => rfl
    | comment => rfl
    | instruction => rfl

/-- A longer path goes on inside the trees of its first name. -/
theorem along_name_cons (name : String) {names : List (List Char)} (hnames : names ≠ [])
    (trees : List Node) :
    along (name.toList :: names) trees =
      (trees.filter (isNamed name)).flatMap fun n => along names n.children := by
  induction trees with
  | nil => rfl
  | cons n rest ih =>
    rw [along_cons, ih, List.filter_cons]
    cases n with
    | element own first last children =>
      rw [along_element, if_neg hnames, List.nil_append]
      by_cases hown : own = name.toList
      · simp [isNamed, hown, Node.children]
      · simp [isNamed, hown]
    | text _ => rfl
    | comment => rfl
    | instruction => rfl

/-! ### Level by level -/

/-- A path followed from several nodes is followed from each. -/
theorem foldl_childrenNamed (path : List String) (level : List Node) :
    path.foldl (fun level name => level.flatMap (childrenNamed name)) level =
      level.flatMap fun n => n.select path := by
  induction path generalizing level with
  | nil => simp [select]
  | cons name rest ih =>
    unfold select
    simp only [List.foldl_cons, ih, List.flatMap_assoc, List.flatMap_singleton]

/-- The first name of a path selects children, and the rest goes on in each. -/
theorem select_cons (n : Node) (name : String) (rest : List String) :
    n.select (name :: rest) = (n.childrenNamed name).flatMap fun child => child.select rest := by
  rw [select, List.foldl_cons, foldl_childrenNamed, List.flatMap_singleton]

/-- What a path of two names leads to. -/
theorem select_pair (n : Node) (name name' : String) :
    n.select [name, name'] = (n.childrenNamed name).flatMap (childrenNamed name') := by
  simp [select]

/-- Level by level, a path leads to the elements that are reached along its
    names, in the order of the document. -/
theorem select_eq_reached (n : Node) {path : List String} (hpath : path ≠ []) :
    n.select path = n.reached path := by
  induction path generalizing n with
  | nil => exact absurd rfl hpath
  | cons name rest ih =>
    unfold reached
    rw [select_cons, List.map_cons]
    by_cases hrest : rest = []
    · subst hrest
      rw [List.map_nil, along_singleton]
      simp [select, childrenNamed]
    · rw [along_name_cons name (by simpa using hrest)]
      unfold childrenNamed
      simp only [ih _ hrest, reached]

end EvalRun.Xml.Node
