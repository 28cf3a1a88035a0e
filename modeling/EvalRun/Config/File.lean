import EvalRun.Config.Reader
import EvalRun.Config.Writer

/-! # Config.File — reading and writing configuration files

    A configuration is accepted only if every setting is in range, so whatever
    is read can be run. A file of default settings never replaces a file that
    is already there.
-/

namespace EvalRun

/-- The configuration file that is looked up in the working directory. -/
def configFileName : String := "mathrun.toml"

namespace RunConfig

/-- Accepts what a text gives, if it gives settings and all are in range. -/
def accept (fault : ConfigFault) (settings? : Option RunConfig) : Except RunError RunConfig :=
  match settings? with
  | none => .error (.config fault)
  | some c => c.validate.map fun _ => c

/-- The configuration in a text. -/
def parse (text : String) : Except RunError RunConfig := accept .malformed (Config.read text)

/-- The configuration in a file. -/
def ofFile (fs : FileSystem) (path : String) : Except RunError RunConfig :=
  match fs.readText path with
  | .error fault => .error (.config (.unreadable path fault))
  | .ok text => accept (.malformedFile path) (Config.read text)

/-- Writes the file of default settings unless something is there, and says
    whether it did. -/
def writeDefaultIfMissing (fs : FileSystem) (path : String) :
    Except RunError (Bool × FileSystem) :=
  if fs.exists? path then .ok (false, fs)
  else
    match fs.writeText path Config.defaultText with
    | .error fault => .error (.config (.defaultNotWritten path fault))
    | .ok fs => .ok (true, fs)

/-- Writes a configuration to a file. -/
def writeFile (c : RunConfig) (fs : FileSystem) (path : String) : Except RunError FileSystem :=
  match Config.write? c with
  | none => .error (.config .unwritable)
  | some text =>
    match fs.writeText path text with
    | .error fault => .error (.config (.fileNotWritten path fault))
    | .ok fs => .ok fs

end RunConfig

end EvalRun
