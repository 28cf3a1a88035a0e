import EvalRun.Binary64.Basic

/-! # Toml.Value — values of TOML and how tables grow

    A table knows how it came about, since that decides what may still be
    added to it:

    * an **inline** table is closed;
    * a table with a **header** takes keys below its header and subtables, but
      no second header and no dotted keys from outside;
    * a table **implied** by a longer header may still get its own header;
    * a **dotted** table grows by further dotted keys, and by subtables.
-/

namespace EvalRun.Toml

/-- How a table came about. -/
inductive TableKind where
  | inline
  | header
  | implied
  | dotted
  deriving DecidableEq, Repr

/-- A TOML value. -/
inductive Value where
  /-- A string. -/
  | string (s : String)
  /-- An integer. -/
  | integer (n : Int)
  /-- A float. -/
  | float (x : Binary64)
  /-- A boolean. -/
  | boolean (b : Bool)
  /-- A date, a time, or both. -/
  | datetime
  /-- An array written with brackets. -/
  | array (items : List Value)
  /-- A table with its keys in the order of their first use. -/
  | table (kind : TableKind) (entries : List (String × Value))
  /-- The tables of repeated double headers, in their order. -/
  | tables (elements : List (List (String × Value)))
  deriving Repr, Inhabited

/-- The keys of a table with their values. -/
abbrev Entries := List (String × Value)

/-- The entries with the value of a key that they have replaced. -/
def replaceEntry (key : String) (value : Value) : Entries → Entries
  | [] => []
  | (other, old) :: rest =>
    if other = key then (other, value) :: rest else (other, old) :: replaceEntry key value rest

/-- A path may lead through a table: dotted keys only through tables that have
    no header, headers through all but inline tables. -/
def mayPass (dotted : Bool) : TableKind → Bool
  | .inline => false
  | .header => !dotted
  | .implied => true
  | .dotted => true

/-- Changes the table at the end of a path, which starts in a table of the
    given kind and entries. Missing tables on the way are made. A path through
    repeated tables leads to the last of them. -/
def changeAt (dotted : Bool) (change : TableKind → Entries → Option Entries) :
    List String → TableKind → Entries → Option Entries
  | [], kind, entries => change kind entries
  | key :: path, _, entries =>
    match entries.lookup key with
    | none =>
      let kind := if dotted then TableKind.dotted else .implied
      (changeAt dotted change path kind []).map fun inner => entries ++ [(key, .table kind inner)]
    | some (.table kind inner) =>
      if mayPass dotted kind then
        (changeAt dotted change path kind inner).map fun inner =>
          replaceEntry key (.table kind inner) entries
      else none
    | some (.tables elements) =>
      match elements.getLast? with
      | none => none
      | some last =>
        (changeAt dotted change path .header last).map fun last =>
          replaceEntry key (.tables (elements.dropLast ++ [last])) entries
    | some _ => none

/-- Adds a key to a table. A key without dots must not stand in a dotted
    table, and a dotted one in no other. -/
def addKey (simple : Bool) (key : String) (value : Value) (kind : TableKind) (entries : Entries) :
    Option Entries :=
  if (kind = .dotted) = (simple = true) then none
  else if (entries.lookup key).isSome then none
  else some (entries ++ [(key, value)])

/-- Adds the value of a key of one or more parts. -/
def assign (path : List String) (key : String) (value : Value) (kind : TableKind)
    (entries : Entries) : Option Entries :=
  changeAt true (addKey path.isEmpty key value) path kind entries

/-- Opens the table of a header. -/
def openTable (key : String) (_ : TableKind) (entries : Entries) : Option Entries :=
  match entries.lookup key with
  | none => some (entries ++ [(key, .table .header [])])
  | some (.table .implied inner) => some (replaceEntry key (.table .header inner) entries)
  | some _ => none

/-- Opens one more of the tables of a repeated header. -/
def openElement (key : String) (_ : TableKind) (entries : Entries) : Option Entries :=
  match entries.lookup key with
  | none => some (entries ++ [(key, .tables [[]])])
  | some (.tables elements) => some (replaceEntry key (.tables (elements ++ [[]])) entries)
  | some _ => none

/-! ### Documents -/

/-- One line of a document. -/
inductive Statement where
  /-- A header in brackets. -/
  | header (path : List String) (key : String)
  /-- A header in double brackets. -/
  | elementHeader (path : List String) (key : String)
  /-- A key with its value. -/
  | assignment (path : List String) (key : String) (value : Value)
  deriving Repr

/-- A document under construction: its tables, and the path of the table that
    keys are added to. -/
structure Assembly where
  entries : Entries
  current : List String

/-- Takes in one line. -/
def Assembly.add (a : Assembly) : Statement → Option Assembly
  | .header path key => do
    let entries ← changeAt false (openTable key) path .header a.entries
    some ⟨entries, path ++ [key]⟩
  | .elementHeader path key => do
    let entries ← changeAt false (openElement key) path .header a.entries
    some ⟨entries, path ++ [key]⟩
  | .assignment path key value => do
    let entries ← changeAt false (assign path key value) a.current .header a.entries
    some ⟨entries, a.current⟩

/-- The table of all lines of a document. -/
def assemble (statements : List Statement) : Option Entries :=
  (statements.foldlM Assembly.add ⟨[], []⟩).map (·.entries)

end EvalRun.Toml
