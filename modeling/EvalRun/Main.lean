import EvalRun.CommandLine.Program
import EvalRun.Http.Socket

/-! # Main — the program

    The files that a run may touch are read into a tree, the program runs on
    that tree, and what it changed is written back.
-/

namespace EvalRun.Main

open CommandLine

/-- The names from the root to the end of a path, for a program that works in
    the given place. -/
def absoluteNames (workingDir : Place) (path : String) : Place :=
  let names := FileSystem.pathNames [] path.toList
  let start := if names.head? = some "" then [] else workingDir
  names.foldl (fun place name =>
    if name = "" || name = "." then place
    else if name = ".." then place.dropLast
    else place ++ [name]) start

/-- The path of a place. -/
def pathOf (place : Place) : String := "/" ++ FileSystem.key place

/-- The error numbers of the system for a directory, and for a file in the
    place of one. -/
def isDirectoryCode (e : IO.Error) : Bool := ((toString e).splitOn "code: 21").length > 1

/-- Reads what stands at a place, or at the nearest place above it where
    something does. -/
def capture (fs : FileSystem) : Nat → Place → IO FileSystem
  | 0, _ => return fs
  | fuel + 1, place => do
    if place.isEmpty then return fs
    try
      let contents ← IO.FS.readBinFile (pathOf place)
      return fs.putBelow [] (.file contents) place
    catch e =>
      if isDirectoryCode e then return fs.putBelow [] .directory place
      else capture fs fuel place.dropLast

/-- Reads what stands at the ends of paths. -/
def captureAll (fs : FileSystem) (paths : List String) : IO FileSystem :=
  paths.foldlM (fun fs path =>
    let place := absoluteNames fs.workingDir path
    capture fs place.length place) fs

/-- The paths that a run with these settings may touch. -/
def touchedPaths (c : RunConfig) : List String :=
  [c.topicsPath, c.padding.fillerPath, c.outputPath]

/-- The files that the program may touch. -/
def captureFor (args : List String) (fs : FileSystem) : IO FileSystem := do
  match Invocation.parse args with
  | .error _ => return fs
  | .ok invocation =>
    let fs ← captureAll fs [invocation.overrides.configPath]
    match invocation.overrides.loadConfig fs with
    | .error _ => return fs
    | .ok c => captureAll fs (touchedPaths c)

/-- A file with these contents stands there. -/
def holds (node? : Option FileNode) (contents : ByteArray) : Bool :=
  match node? with
  | some (.file old) => old.data == contents.data
  | _ => false

/-- Writes the files that are new or have changed. -/
def writeBack (before after : FileSystem) : IO Unit :=
  after.nodes.entries.forM fun (key, node) => do
    match node with
    | .file contents =>
      unless holds (before.nodes.get? key) contents do IO.FS.writeBinFile (pathOf [key]) contents
    | .directory => return

/-- A seed that no one can foresee. -/
def drawSeed : IO UInt64 := do
  let bytes ← IO.getRandomBytes 8
  return bytes.toUInt64LE!

end EvalRun.Main

open EvalRun CommandLine in
/-- Runs the program on the files and the network of the machine. -/
def main (args : List String) : IO UInt32 := do
  let workingDir := EvalRun.Main.absoluteNames [] (← IO.currentDir).toString
  let fs ← EvalRun.Main.captureFor args (.ofWorkingDir workingDir)
  let (report, after) ← program args Http.Transport.network fs (← EvalRun.Main.drawSeed)
  try EvalRun.Main.writeBack fs after
  catch e =>
    IO.eprintln ("I/O error: " ++ toString e)
    return 1
  IO.print report.output
  IO.eprint report.diagnostics
  return .ofNat report.exitCode
