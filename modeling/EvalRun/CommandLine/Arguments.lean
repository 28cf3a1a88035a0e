import EvalRun.Config.Profile

/-! # CommandLine.Arguments — what the arguments of the program say

    Arguments are read from left to right:

    * **Options** take a value, either attached with an equals sign or as the
      next argument. A value that starts with a dash has to be attached.
    * **Flags** take none. One-letter flags may be joined, and a one-letter
      option may end such a group with its value attached.
    * **Subcommand.** The word `init` ends the options of the program and
      begins those of the subcommand, which knows the configuration file and
      the verbosity only.

    An option waits for its value, and is taken in when the next option or
    the end of the arguments is reached. So of two faults the one that is met
    first on this walk is reported.
-/

namespace EvalRun.CommandLine

/-- Why arguments are not accepted. -/
inductive UsageError where
  /-- A value is missing, not one of the choices, or an empty path. -/
  | badValue
  /-- A value is not a number in range. -/
  | badNumber
  /-- There is no such option. -/
  | unknownArgument
  /-- An option or flag is given twice. -/
  | repeatedArgument
  /-- A flag is given a value. -/
  | valueForFlag
  /-- There is no such subcommand. -/
  | unknownSubcommand
  /-- Help is asked for. -/
  | helpRequested
  deriving DecidableEq, Repr

/-! ### Options -/

/-- The options that take a value. -/
inductive Parameter where
  | config
  | topics
  | output
  | runTag
  | backendUrl
  | profile
  | seed
  | filler
  | threads
  deriving DecidableEq, Repr

/-- The options that take none. -/
inductive Flag where
  | verbose
  | noPadding
  | help
  deriving DecidableEq, Repr

/-- An option or a flag. -/
inductive Switch where
  | parameter (p : Parameter)
  | flag (f : Flag)
  deriving DecidableEq, Repr

/-- Where options are given: to the program or to its subcommand. -/
inductive Level where
  | program
  | init
  deriving DecidableEq, Repr

/-- The long names known everywhere. -/
def sharedNames : List (String × Switch) :=
  [("config", .parameter .config), ("verbose", .flag .verbose), ("help", .flag .help)]

/-- The long names known to the program alone. -/
def programNames : List (String × Switch) :=
  [("topics", .parameter .topics), ("output", .parameter .output), ("run-tag", .parameter .runTag),
    ("backend-url", .parameter .backendUrl), ("profile", .parameter .profile),
    ("seed", .parameter .seed), ("filler", .parameter .filler), ("no-padding", .flag .noPadding),
    ("threads", .parameter .threads)]

/-- The switch of a long name. -/
def Level.longName? (level : Level) (name : String) : Option Switch :=
  match level with
  | .program => (sharedNames ++ programNames).lookup name
  | .init => sharedNames.lookup name

/-- The switch of a letter. -/
def Level.letter? (level : Level) (c : Char) : Option Switch :=
  if c = 'c' then some (.parameter .config)
  else if c = 'v' then some (.flag .verbose)
  else if c = 'h' then some (.flag .help)
  else if c = 'o' && level = .program then some (.parameter .output)
  else none

/-! ### Values -/

/-- What the options of one level say. -/
structure Overrides where
  configPath? : Option String := none
  verbose : Bool := false
  profile? : Option Profile := none
  topicsPath? : Option String := none
  outputPath? : Option String := none
  runTag? : Option String := none
  backendUrl? : Option String := none
  seed? : Option UInt64 := none
  fillerPath? : Option String := none
  noPadding : Bool := false
  threads? : Option Nat := none
  deriving DecidableEq, Repr

/-- A path, which is not empty. -/
def readPath (value : String) : Except UsageError String :=
  if value.isEmpty then .error .badValue else .ok value

/-- The name of a profile. -/
def readProfile (value : String) : Except UsageError Profile :=
  match Profile.ofName? value with
  | some p => .ok p
  | none => .error .badValue

/-- A number of 64 bits in decimal digits, perhaps after a plus sign. -/
def readNumber (value : String) : Except UsageError Nat :=
  let digits :=
    match value.toList with
    | '+' :: rest => rest
    | cs => cs
  let n := readDigits 0 digits
  if digits.isEmpty || !digits.all Char.isDigit || 0x10000000000000000 ≤ n then .error .badNumber
  else .ok n

/-- A slot with a value in it, unless it has one already. -/
def fill {α : Type} (slot : Option α) (value : Except UsageError α) :
    Except UsageError (Option α) :=
  if slot.isSome then .error .repeatedArgument else value.map some

namespace Overrides

/-- Takes in the value of an option. -/
def give (o : Overrides) (p : Parameter) (value : String) : Except UsageError Overrides := do
  match p with
  | .config => return { o with configPath? := ← fill o.configPath? (readPath value) }
  | .topics => return { o with topicsPath? := ← fill o.topicsPath? (readPath value) }
  | .output => return { o with outputPath? := ← fill o.outputPath? (readPath value) }
  | .runTag => return { o with runTag? := ← fill o.runTag? (.ok value) }
  | .backendUrl => return { o with backendUrl? := ← fill o.backendUrl? (.ok value) }
  | .profile => return { o with profile? := ← fill o.profile? (readProfile value) }
  | .seed => return { o with seed? := ← fill o.seed? ((readNumber value).map UInt64.ofNat) }
  | .filler => return { o with fillerPath? := ← fill o.fillerPath? (readPath value) }
  | .threads => return { o with threads? := ← fill o.threads? (readNumber value) }

/-- Takes in a flag. -/
def raise (o : Overrides) : Flag → Except UsageError Overrides
  | .verbose => if o.verbose then .error .repeatedArgument else .ok { o with verbose := true }
  | .noPadding => if o.noPadding then .error .repeatedArgument else .ok { o with noPadding := true }
  | .help => .error .helpRequested

end Overrides

/-! ### Reading one level -/

/-- The options of a level while they are read. -/
structure Reading where
  /-- What the options so far say. -/
  given : Overrides := {}
  /-- The last option, not taken in yet, with its value if it has come. -/
  pending? : Option (Parameter × Option String) := none
  /-- Two dashes have ended the options. -/
  ended : Bool := false
  deriving DecidableEq, Repr

namespace Reading

/-- The last option still needs its value. -/
def awaitsValue (r : Reading) : Bool :=
  match r.pending? with
  | some (_, none) => true
  | _ => false

/-- Takes in the last option. -/
def settle (r : Reading) : Except UsageError Reading :=
  match r.pending? with
  | none => .ok r
  | some (_, none) => .error .badValue
  | some (p, some value) => do
    let given ← r.given.give p value
    .ok { r with given, pending? := none }

/-- Reads an option, with its value if that is attached. -/
def parameter (r : Reading) (p : Parameter) (attached? : Option String) :
    Except UsageError Reading := do
  let r ← r.settle
  match attached? with
  | none => .ok { r with pending? := some (p, none) }
  | some value => .ok { r with given := ← r.given.give p value }

/-- Reads a flag. -/
def flag (r : Reading) (f : Flag) : Except UsageError Reading := do
  let r ← r.settle
  .ok { r with given := ← r.given.raise f }

/-- Reads a long option, with its value if one is attached. -/
def long (level : Level) (r : Reading) (name : String) (attached? : Option String) :
    Except UsageError Reading :=
  match level.longName? name, attached? with
  | none, _ => .error .unknownArgument
  | some (.parameter p), _ => r.parameter p attached?
  | some (.flag f), none => r.flag f
  | some (.flag _), some _ => .error .valueForFlag

/-- The value attached to a letter: what follows it, without an equals sign. -/
def attachedToLetter? : List Char → Option String
  | [] => none
  | '=' :: rest => some (String.ofList rest)
  | cs => some (String.ofList cs)

/-- Reads a group of letters. -/
def letters (level : Level) (r : Reading) : List Char → Except UsageError Reading
  | [] => .ok r
  | c :: rest =>
    match level.letter? c with
    | none => .error .unknownArgument
    | some (.parameter p) => r.parameter p (attachedToLetter? rest)
    | some (.flag f) => do letters level (← r.flag f) rest

/-- The words that are subcommands of the program. -/
def subcommands : List String := ["init", "help"]

/-- The fault of a word that is neither an option nor a value. -/
def strayWord (level : Level) (ended : Bool) (word : String) : UsageError :=
  if level = .program && !(ended && subcommands.contains word) then .unknownSubcommand
  else .unknownArgument

/-- Reads a word that is no option. -/
def word (level : Level) (r : Reading) (w : String) : Except UsageError Reading :=
  match r.pending? with
  | some (p, none) => .ok { r with pending? := some (p, some w) }
  | _ => .error (strayWord level false w)

/-- Reads one argument. -/
def argument (level : Level) (r : Reading) (arg : String) : Except UsageError Reading :=
  if r.ended then .error (strayWord level true arg)
  else
    match arg.toList with
    | ['-', '-'] => .ok { r with ended := true }
    | '-' :: '-' :: cs =>
      let name := cs.takeWhile (· ≠ '=')
      let attached? :=
        match cs.drop name.length with
        | [] => none
        | _ :: value => some (String.ofList value)
      long level r (String.ofList name) attached?
    | '-' :: c :: cs => letters level r (c :: cs)
    | _ => word level r arg

end Reading

/-! ### Reading all arguments -/

/-- What the arguments ask for. -/
structure Invocation where
  /-- The subcommand is asked for. -/
  init : Bool
  /-- What the options say. -/
  overrides : Overrides
  deriving DecidableEq, Repr

/-- Options of the subcommand over those before it. Only those known to both
    can differ. -/
def Overrides.under (outer inner : Overrides) : Overrides :=
  { outer with
    configPath? := inner.configPath? <|> outer.configPath?
    verbose := inner.verbose || outer.verbose }

/-- Reads the arguments of the subcommand. -/
def readInit (r : Reading) (args : List String) : Except UsageError Overrides := do
  let r ← args.foldlM (Reading.argument .init) r
  return (← r.settle).given

/-- Help on a subcommand, which is itself without subcommands. -/
def readHelp : List String → UsageError
  | [] => .helpRequested
  | [word] => if Reading.subcommands.contains word then .helpRequested else .unknownSubcommand
  | _ => .unknownSubcommand

/-- Reads arguments up to a subcommand, and what follows that. -/
def readProgram (r : Reading) : List String → Except UsageError Invocation
  | [] => do return ⟨false, (← r.settle).given⟩
  | arg :: rest =>
    if !r.ended && !r.awaitsValue && arg = "init" then do
      let inner ← readInit {} rest
      return ⟨true, (← r.settle).given.under inner⟩
    else if !r.ended && !r.awaitsValue && arg = "help" then .error (readHelp rest)
    else do readProgram (← r.argument .program arg) rest

/-- What the arguments of the program ask for. -/
def Invocation.parse (args : List String) : Except UsageError Invocation := readProgram {} args

end EvalRun.CommandLine
