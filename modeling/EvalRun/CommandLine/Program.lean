import EvalRun.CommandLine.Layers
import EvalRun.Pipeline.Execute

/-! # CommandLine.Program — what the program does

    The program either writes a configuration file to start from or executes a
    run. It reports what it did in one line, and by its exit code.
-/

namespace EvalRun.CommandLine

/-- What came of the program. -/
inductive Report where
  /-- The arguments are not accepted, or ask for help. -/
  | usage (e : UsageError)
  /-- A configuration file was written. -/
  | wroteDefault (path : String)
  /-- A configuration file was there already. -/
  | keptExisting (path : String)
  /-- Nothing was begun. -/
  | refused (e : RunError)
  /-- A run was finished. -/
  | finished (summary : Pipeline.RunSummary) (outputPath : String)
  /-- A run was stopped. -/
  | aborted (e : RunError)

/-- The help text. -/
def helpText : String :=
  String.intercalate "\n"
    ["Generate NTCIR evaluation runs from a text+math search backend", "",
      "Usage: mathrun [OPTIONS] [COMMAND]", "",
      "Commands:",
      "  init  Write a commented default config file",
      "  help  Print this message or the help of the given subcommand(s)", "",
      "Options:",
      "  -c, --config <config>            Config file (default: ./mathrun.toml if present)",
      "  -v, --verbose                    Log debug events",
      "      --topics <topics>            Topic XML file",
      "  -o, --output <output>            Run file to write",
      "      --run-tag <run-tag>          Tag written in the last column of every row",
      "      --backend-url <backend-url>  Search backend endpoint",
      "      --profile <profile>          Task profile [possible values: ntcir, wiki]",
      "      --seed <seed>                Seed for per-topic filler shuffles",
      "      --filler <filler>            Filler id list used for padding",
      "      --no-padding                 Disable padding",
      "      --threads <threads>          Threads issuing the queries of one topic",
      "  -h, --help                       Print help",
      ""]

/-- The text of arguments that are not accepted. -/
def UsageError.message : UsageError → String
  | badValue => "error: invalid value"
  | badNumber => "error: invalid number"
  | unknownArgument => "error: unexpected argument"
  | repeatedArgument => "error: the argument cannot be used multiple times"
  | valueForFlag => "error: unexpected value"
  | unknownSubcommand => "error: unrecognized subcommand"
  | helpRequested => ""

namespace Report

/-- The exit code. -/
def exitCode : Report → Nat
  | usage .helpRequested => 0
  | usage _ => 2
  | refused _ => 1
  | aborted _ => 1
  | _ => 0

/-- What is printed as a result. -/
def output : Report → String
  | usage .helpRequested => helpText
  | _ => ""

/-- What is printed as a message. -/
def diagnostics : Report → String
  | usage .helpRequested => ""
  | usage e => e.message ++ "\n"
  | wroteDefault path => "Wrote default config to " ++ path ++ "\n"
  | keptExisting path => path ++ " already exists, left untouched\n"
  | refused e => e.message ++ "\n"
  | finished s path =>
    "Wrote " ++ toString s.rowsWritten ++ " rows for " ++ toString s.topicsWritten ++ " of "
      ++ toString s.topicsSeen ++ " topics to " ++ path ++ "\n"
  | aborted e => "Run aborted: " ++ e.message ++ "\n"

end Report

/-- Writes a configuration file to start from. -/
def writeStarter (o : Overrides) (fs : FileSystem) : Report × FileSystem :=
  match RunConfig.writeDefaultIfMissing fs o.configPath with
  | .error e => (.refused e, fs)
  | .ok (true, fs) => (.wroteDefault o.configPath, fs)
  | .ok (false, fs) => (.keptExisting o.configPath, fs)

/-- Runs the program. -/
def program {m : Type → Type} [Monad m] (args : List String) (transport : Http.Transport m)
    (fs : FileSystem) (drawnSeed : UInt64) : m (Report × FileSystem) := do
  match Invocation.parse args with
  | .error e => return (.usage e, fs)
  | .ok invocation =>
    if invocation.init then return writeStarter invocation.overrides fs
    else
      match invocation.overrides.loadConfig fs with
      | .error e => return (.refused e, fs)
      | .ok c =>
        match ← Pipeline.execute c transport fs drawnSeed with
        | (.ok summary, fs) => return (.finished summary c.outputPath, fs)
        | (.error e, fs) => return (.aborted e, fs)

end EvalRun.CommandLine
