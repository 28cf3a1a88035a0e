import EvalRun.Proofs.Xml.Selection
import Mathlib.Data.List.Basic
import Mathlib.Data.List.Flatten

/-! # Proofs.Xml.Traversal — selection keeps the order of a depth-first traversal

    Two elements of a tree may look alike, so which of them is meant is told by
    its *address*: the number of a child at every level, from the top down. A
    depth-first traversal meets a node before what is inside it, and that before
    the next sibling.

    * **Traversal.** It meets every node of the tree (`mem_traverse_iff`), and
      addresses in their lexicographic order (`pairwise_traverse`), so each once.
    * **Levels.** Selection goes through a tree level by level. Of every node of
      a level it takes the children of the next name, and what it finds in one
      child stays together. So the addresses that it ends at are met by the
      traversal in the same order (`addresses_sublist`), however the names of the
      path repeat and whatever is nested in what.
-/

namespace EvalRun.Xml.Node

/-! ### Addresses -/

/-- The node at an address below a node. -/
def at? : Node → List Nat → Option Node
  | n, [] => some n
  | n, i :: rest => n.children[i]?.bind fun child => child.at? rest

theorem at?_append (n : Node) (place below : List Nat) :
    n.at? (place ++ below) = (n.at? place).bind fun m => m.at? below := by
  induction place generalizing n with
  | nil => rfl
  | cons i rest ih =>
    simp only [List.cons_append, at?, Option.bind_assoc]
    congr 1
    funext child
    exact ih child

/-- The address leads down a chain of children that are elements, and their
    local names spell the path. -/
inductive Reaches : Node → List String → List Nat → Prop where
  | here (n : Node) : Reaches n [] []
  | child {n child : Node} {name : String} {path : List String} {i : Nat} {below : List Nat}
    (hchild : n.children[i]? = some child) (helement : child.isElement = true)
    (hname : child.localName = name.toList) (hbelow : Reaches child path below) :
    Reaches n (name :: path) (i :: below)

theorem isNamed_iff {n : Node} {name : String} :
    n.isNamed name = true ↔ n.isElement = true ∧ n.localName = name.toList := by
  cases n <;> simp [isNamed, isElement, localName]

/-! ### Depth-first traversal -/

mutual

/-- The addresses of a node and of all nodes inside, in the order in which a
    depth-first traversal meets them. -/
def traverse : Node → List (List Nat)
  | element _ _ _ children => [] :: traverseFrom 0 children
  | text _ => [[]]
  | comment => [[]]
  | instruction => [[]]

/-- The addresses in several siblings, the first of which has the given number. -/
def traverseFrom (i : Nat) : List Node → List (List Nat)
  | [] => []
  | n :: rest => (traverse n).map (i :: ·) ++ traverseFrom (i + 1) rest

end

/-- Siblings are traversed one after another. -/
theorem traverseFrom_eq_flatMap (i : Nat) (siblings : List Node) :
    traverseFrom i siblings =
      (siblings.zipIdx i).flatMap fun p => p.1.traverse.map (p.2 :: ·) := by
  induction siblings generalizing i with
  | nil => rfl
  | cons n rest ih => rw [traverseFrom, ih, List.zipIdx_cons, List.flatMap_cons]

/-- A node is met first, and its children are traversed behind it. -/
theorem traverse_eq (n : Node) :
    n.traverse = [] :: n.children.zipIdx.flatMap fun p => p.1.traverse.map (p.2 :: ·) := by
  cases n with
  | element name first last children => rw [traverse, traverseFrom_eq_flatMap]; rfl
  | text chars => rfl
  | comment => rfl
  | instruction => rfl

/-- The traversal meets exactly the addresses that lead to a node. -/
theorem mem_traverse_iff (n : Node) (address : List Nat) :
    address ∈ n.traverse ↔ (n.at? address).isSome = true := by
  induction address generalizing n with
  | nil => rw [traverse_eq]; simp [at?]
  | cons i rest ih =>
    rw [traverse_eq]
    simp only [List.mem_cons, reduceCtorEq, false_or, List.mem_flatMap, List.mem_map,
      List.cons.injEq, exists_eq_right_right, at?]
    constructor
    · rintro ⟨⟨child, j⟩, hmem, hrest, rfl⟩
      have hchild : n.children[j]? = some child := List.mem_zipIdx_iff_getElem?.1 hmem
      rw [hchild, Option.bind_some]
      exact (ih child).1 hrest
    · intro hsome
      cases hchild : n.children[i]? with
      | none => rw [hchild] at hsome; cases hsome
      | some child =>
        rw [hchild, Option.bind_some] at hsome
        exact ⟨(child, i), List.mem_zipIdx_iff_getElem?.2 hchild, (ih child).2 hsome, rfl⟩

mutual

/-- Addresses are met in their lexicographic order, that of a node before those
    inside it. -/
theorem pairwise_traverse (n : Node) : n.traverse.Pairwise (· < ·) := by
  cases n with
  | element name first last children =>
    rw [traverse, List.pairwise_cons]
    refine ⟨?_, (pairwise_traverseFrom 0 children).1⟩
    intro address hmem
    obtain ⟨j, below, -, rfl⟩ := (pairwise_traverseFrom 0 children).2 address hmem
    exact List.nil_lt_cons j below
  | text chars => exact List.pairwise_singleton ..
  | comment => exact List.pairwise_singleton ..
  | instruction => exact List.pairwise_singleton ..

/-- So they are in several siblings, and they begin with the numbers of these. -/
theorem pairwise_traverseFrom (i : Nat) (siblings : List Node) :
    (traverseFrom i siblings).Pairwise (· < ·) ∧
      ∀ address ∈ traverseFrom i siblings, ∃ j below, i ≤ j ∧ address = j :: below := by
  cases siblings with
  | nil => exact ⟨List.Pairwise.nil, nofun⟩
  | cons n rest =>
    have hfirst := pairwise_traverse n
    obtain ⟨hrest, hnumbers⟩ := pairwise_traverseFrom (i + 1) rest
    rw [traverseFrom, List.pairwise_append, List.pairwise_map]
    refine ⟨⟨?_, hrest, ?_⟩, ?_⟩
    · exact hfirst.imp fun h => List.cons_lt_cons_iff.2 (.inr ⟨rfl, h⟩)
    · -- what is in a sibling comes before what is in the next ones
      intro address hmem other hother
      obtain ⟨below, -, rfl⟩ := List.mem_map.1 hmem
      obtain ⟨j, below', hj, rfl⟩ := hnumbers other hother
      exact List.cons_lt_cons_iff.2 (.inl hj)
    · intro address hmem
      rcases List.mem_append.1 hmem with hmem | hmem
      · obtain ⟨below, -, rfl⟩ := List.mem_map.1 hmem
        exact ⟨i, below, Nat.le_refl i, rfl⟩
      · obtain ⟨j, below, hj, rfl⟩ := hnumbers address hmem
        exact ⟨j, below, by omega, rfl⟩

end

/-- The traversal meets no node twice. -/
theorem nodup_traverse (n : Node) : n.traverse.Nodup := by
  apply (pairwise_traverse n).imp
  intro address other hlt heq
  rw [heq] at hlt
  exact List.lt_irrefl other hlt

/-- The traversal of a tree goes through the nodes inside one of its nodes in
    the order in which the traversal of that node does. -/
theorem traverse_sublist {tree n : Node} {place : List Nat} (h : tree.at? place = some n) :
    (n.traverse.map (place ++ ·)).Sublist tree.traverse := by
  induction place generalizing tree with
  | nil =>
    obtain rfl : tree = n := Option.some.inj h
    simp
  | cons i rest ih =>
    obtain ⟨child, hchild, hrest⟩ := Option.bind_eq_some_iff.1 h
    have hmem : (child, i) ∈ tree.children.zipIdx := List.mem_zipIdx_iff_getElem?.2 hchild
    have hinside : ((n.traverse.map (rest ++ ·)).map (i :: ·)).Sublist
        (child.traverse.map (i :: ·)) := (ih hrest).map _
    rw [List.map_map] at hinside
    rw [traverse_eq tree]
    apply List.Sublist.cons
    apply hinside.trans
    exact List.sublist_flatten_of_mem (List.mem_map.2 ⟨(child, i), hmem, rfl⟩)

/-! ### Level by level -/

/-- The addresses at which selection along a path ends: for every child of the
    first name, its number before the addresses inside it. -/
def addresses : List String → Node → List (List Nat)
  | [], _ => [[]]
  | name :: path, n => (n.children.zipIdx.filter fun p => p.1.isNamed name).flatMap fun p =>
    (addresses path p.1).map (p.2 :: ·)

/-- Selection gives the nodes at these addresses. -/
theorem map_at?_addresses (path : List String) (n : Node) :
    (addresses path n).map n.at? = (n.select path).map some := by
  induction path generalizing n with
  | nil => rfl
  | cons name path ih =>
    -- the address of a child leads to what its rest leads to from there
    have hchild : ∀ p ∈ n.children.zipIdx.filter fun p => p.1.isNamed name,
        ((addresses path p.1).map (p.2 :: ·)).map n.at? = (p.1.select path).map some := by
      rintro ⟨child, i⟩ hmem
      have hget : n.children[i]? = some child :=
        List.mem_zipIdx_iff_getElem?.1 (List.mem_of_mem_filter hmem)
      have hat : n.at? ∘ (i :: ·) = child.at? := by
        funext below
        simp [at?, hget]
      rw [List.map_map, hat, ih]
    have hnamed : (n.children.zipIdx.filter fun p => p.1.isNamed name).map Prod.fst =
        n.childrenNamed name := by
      have hfilter : (n.children.zipIdx.map Prod.fst).filter (isNamed name) =
          (n.children.zipIdx.filter fun p => p.1.isNamed name).map Prod.fst := List.filter_map
      rw [← hfilter, List.zipIdx_map_fst, childrenNamed]
    calc (addresses (name :: path) n).map n.at?
        = (n.children.zipIdx.filter fun p => p.1.isNamed name).flatMap
            fun p => (p.1.select path).map some := by
          rw [addresses, List.map_flatMap]
          exact List.flatMap_congr hchild
      _ = ((n.children.zipIdx.filter fun p => p.1.isNamed name).map Prod.fst).flatMap
            fun child => (child.select path).map some := by rw [List.flatMap_map]
      _ = (n.select (name :: path)).map some := by rw [hnamed, select_cons, List.map_flatMap]

/-- They are the addresses that are reached along the path. -/
theorem mem_addresses_iff {path : List String} {n : Node} {address : List Nat} :
    address ∈ addresses path n ↔ n.Reaches path address := by
  induction path generalizing n address with
  | nil =>
    constructor
    · intro hmem
      obtain rfl := List.mem_singleton.1 hmem
      exact .here n
    · intro h
      cases h
      exact List.mem_singleton.2 rfl
  | cons name path ih =>
    rw [addresses, List.mem_flatMap]
    constructor
    · rintro ⟨⟨child, i⟩, hmem, haddress⟩
      obtain ⟨hmem, hnamed⟩ := List.mem_filter.1 hmem
      obtain ⟨below, hbelow, rfl⟩ := List.mem_map.1 haddress
      obtain ⟨helement, hname⟩ := isNamed_iff.1 hnamed
      exact .child (List.mem_zipIdx_iff_getElem?.1 hmem) helement hname (ih.1 hbelow)
    · intro h
      cases h with
      | @child _ child _ _ i below hchild helement hname hbelow =>
        have hnamed := isNamed_iff.2 ⟨helement, hname⟩
        have hmem : (child, i) ∈ n.children.zipIdx := List.mem_zipIdx_iff_getElem?.2 hchild
        exact ⟨(child, i), List.mem_filter.2 ⟨hmem, hnamed⟩, List.mem_map_of_mem (ih.2 hbelow)⟩

/-- The traversal meets these addresses in the order in which selection ends at
    them. -/
theorem addresses_sublist (path : List String) (n : Node) :
    (addresses path n).Sublist n.traverse := by
  induction path generalizing n with
  | nil =>
    rw [traverse_eq]
    exact (List.nil_sublist _).cons_cons []
  | cons name path ih =>
    rw [traverse_eq, addresses]
    apply List.Sublist.cons
    -- in a child of the name selection leaves out what the path does not lead to
    have hinside := List.Sublist.flatMap_right (n.children.zipIdx.filter fun p => p.1.isNamed name)
      fun p _ => (ih p.1).map (p.2 :: ·)
    exact hinside.trans (List.filter_sublist.flatMap _)

/-- Selection from a node of a tree ends at nodes below it, and

    * they are the nodes that a chain of elements leads to, one for each name of
      the path;
    * each of them is selected once;
    * they come in the order in which a depth-first traversal of the whole tree
      meets them. -/
theorem select_inOrder {tree n : Node} {place : List Nat} (h : tree.at? place = some n)
    (path : List String) :
    ∃ found : List (List Nat), found.map tree.at? = (n.select path).map some ∧
      (∀ address, address ∈ found ↔ ∃ below, address = place ++ below ∧ n.Reaches path below) ∧
      found.Nodup ∧ found.Sublist tree.traverse := by
  have hsublist : ((addresses path n).map (place ++ ·)).Sublist tree.traverse :=
    ((addresses_sublist path n).map _).trans (traverse_sublist h)
  refine ⟨(addresses path n).map (place ++ ·), ?_, ?_, ?_, hsublist⟩
  · have hat : tree.at? ∘ (place ++ ·) = n.at? := by
      funext below
      rw [Function.comp_apply, at?_append, h, Option.bind_some]
    rw [List.map_map, hat, map_at?_addresses]
  · intro address
    rw [List.mem_map]
    constructor
    · rintro ⟨below, hbelow, rfl⟩
      exact ⟨below, rfl, mem_addresses_iff.1 hbelow⟩
    · rintro ⟨below, rfl, hbelow⟩
      exact ⟨below, mem_addresses_iff.2 hbelow, rfl⟩
  · exact hsublist.nodup (nodup_traverse tree)

/-- Elements of one name inside each other, selected from one of them along a
    path that repeats the name. -/
theorem select_inOrder_nested :
    let leaf := element ['a'] 0 0 []
    let inner := element ['a'] 0 0 [element ['a'] 0 0 [leaf], text [' '], element ['a'] 0 0 [leaf]]
    let tree := element ['a'] 0 0 [leaf, inner, leaf]
    tree.at? [1] = some inner ∧
      ∃ found : List (List Nat), found.map tree.at? = (inner.select ["a", "a"]).map some ∧
        (∀ address, address ∈ found ↔
          ∃ below, address = [1] ++ below ∧ inner.Reaches ["a", "a"] below) ∧
        found.Nodup ∧ found.Sublist tree.traverse :=
  ⟨rfl, select_inOrder rfl ["a", "a"]⟩

end EvalRun.Xml.Node
