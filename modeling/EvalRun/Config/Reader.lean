import EvalRun.Config.Basic
import EvalRun.Toml.Reader

/-! # Config.Reader — settings from TOML

    A configuration is a TOML document with four keys at the top and four
    sections. Everything may be left out, and keys that mean nothing are
    skipped.

    * A **section** is a table, or an array that gives its settings in their
      order. A date holds no settings that mean anything, and leaves the whole
      section at its defaults.
    * A **name** out of a fixed choice is a string, or a table whose only key
      it is and holds nothing.
    * A **float** may be written as an integer, an integer never as a float.
-/

namespace EvalRun.Config

open Toml (Value Entries)

/-! ### Values -/

/-- A string. -/
def readString : Value → Option String
  | .string s => some s
  | _ => none

/-- A natural number. -/
def readNatural : Value → Option Nat
  | .integer (.ofNat n) => some n
  | _ => none

/-- A seed. -/
def readSeed (v : Value) : Option UInt64 := (readNatural v).map UInt64.ofNat

/-- The double closest to an integer. -/
def ofInteger (n : Int) : Binary64 := (Binary64.ofNat n.natAbs).withSign (decide (n < 0))

/-- A float, or an integer in the place of one. -/
def readFloat : Value → Option Binary64
  | .float x => some x
  | .integer n => some (ofInteger n)
  | _ => none

/-- A boolean. -/
def readBoolean : Value → Option Bool
  | .boolean b => some b
  | _ => none

/-- A value that holds nothing. -/
def holdsNothing : Value → Bool
  | .table _ entries => entries.isEmpty
  | .array items => items.isEmpty
  | .tables elements => elements.isEmpty
  | _ => false

/-- A name out of a fixed choice. -/
def readChoice {α : Type} (ofName? : String → Option α) : Value → Option α
  | .string name => ofName? name
  | .table _ [(name, value)] => if holdsNothing value then ofName? name else none
  | _ => none

/-! ### Settings -/

/-- The settings of a section, whose names in their order are given. -/
def readSection (names : List String) : Value → Option Entries
  | .table _ entries => some entries
  | .array items => some (names.zip items)
  | .tables elements => some (names.zip (elements.map (.table .header)))
  | .datetime => some []
  | _ => none

/-- A setting, or its default if it is left out. -/
def setting {α : Type} (entries : Entries) (name : String) (fallback : α)
    (read : Value → Option α) : Option α :=
  match entries.lookup name with
  | none => some fallback
  | some value => read value

/-- A setting that stays unset if it is left out. -/
def optional {α : Type} (entries : Entries) (name : String) (read : Value → Option α) :
    Option (Option α) :=
  setting entries name none fun value => (read value).map some

/-- The settings of the search service. -/
def readBackend (v : Value) : Option BackendSettings := do
  let entries ← readSection ["url", "from", "size", "timeout_ms", "response_format"] v
  let fallback : BackendSettings := {}
  let url ← setting entries "url" fallback.url readString
  let pageStart ← setting entries "from" fallback.pageStart readNatural
  let pageSize ← setting entries "size" fallback.pageSize readNatural
  let timeoutMs? ← optional entries "timeout_ms" readNatural
  let responseFormat? ← optional entries "response_format" (readChoice Response.Format.ofName?)
  some { url, pageStart, pageSize, timeoutMs?, responseFormat? }

/-- The settings of scoring and ranking. -/
def readScoring (v : Value) : Option ScoringSettings := do
  let entries ← readSection ["formula_boost", "max_depth"] v
  let fallback : ScoringSettings := {}
  let formulaBoost? ← optional entries "formula_boost" readFloat
  let maxDepth ← setting entries "max_depth" fallback.maxDepth readNatural
  some { formulaBoost?, maxDepth }

/-- The settings of padding. -/
def readPadding (v : Value) : Option PaddingSettings := do
  let entries ← readSection ["enabled", "target", "filler_path", "seed"] v
  let fallback : PaddingSettings := {}
  let enabled? ← optional entries "enabled" readBoolean
  let target ← setting entries "target" fallback.target readNatural
  let fillerPath ← setting entries "filler_path" fallback.fillerPath readString
  let seed? ← optional entries "seed" readSeed
  some { enabled?, target, fillerPath, seed? }

/-- The only setting of its section: the number of requests under way. -/
def readConcurrency (v : Value) : Option Nat := do
  let entries ← readSection ["variant_threads"] v
  let fallback : RunConfig := {}
  setting entries "variant_threads" fallback.variantThreads readNatural

/-- All settings of a document. -/
def readEntries (entries : Entries) : Option RunConfig := do
  let fallback : RunConfig := {}
  let profile ← setting entries "profile" fallback.profile (readChoice Profile.ofName?)
  let topicsPath ← setting entries "topics" fallback.topicsPath readString
  let outputPath ← setting entries "output" fallback.outputPath readString
  let runTag ← setting entries "run_tag" fallback.runTag readString
  let backend ← setting entries "backend" fallback.backend readBackend
  let scoring ← setting entries "scoring" fallback.scoring readScoring
  let padding ← setting entries "padding" fallback.padding readPadding
  let variantThreads ←
    setting entries "concurrency" fallback.variantThreads readConcurrency
  some { profile, topicsPath, outputPath, runTag, backend, scoring, padding, variantThreads }

/-- The settings that a text gives, whether they are in range or not. -/
def read (text : String) : Option RunConfig := do
  readEntries (← Toml.parse text)

end EvalRun.Config
