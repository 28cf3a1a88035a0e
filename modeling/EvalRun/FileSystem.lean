import EvalRun.OrderedMap

/-! # FileSystem — files and directories as a value

    A run reads a topic file, a filler file and a configuration, and writes a
    run file. Everything it can observe of the disk is in one map from the
    places of a tree to what stands there:

    * **Places.** A place is a list of names from the root down. A path reaches
      it name by name, from the root if the path starts with a slash and from
      the working directory otherwise, so every leading name must be a
      directory.
    * **Faults.** An access that fails says why, in the words of the system.
    * **Contents.** A file holds bytes; only bytes that are UTF-8 are a text.
-/

namespace EvalRun

/-- Why a file was not read or written. -/
inductive FileFault where
  /-- Nothing stands at the place. -/
  | notFound
  /-- A file stands where a directory is needed. -/
  | notDirectory
  /-- A directory stands where a file is needed. -/
  | isDirectory
  /-- The path or one of its names is too long. -/
  | nameTooLong
  /-- The path has a null character. -/
  | nullInPath
  /-- The bytes of the file are no text. -/
  | notText
  deriving DecidableEq, Repr

/-- The words of the system. -/
def FileFault.message : FileFault → String
  | notFound => "No such file or directory (os error 2)"
  | notDirectory => "Not a directory (os error 20)"
  | isDirectory => "Is a directory (os error 21)"
  | nameTooLong => "File name too long (os error 36)"
  | nullInPath => "file name contained an unexpected NUL byte"
  | notText => "stream did not contain valid UTF-8"

/-- What stands at a place. -/
inductive FileNode where
  /-- A file with its bytes. -/
  | file (contents : ByteArray)
  /-- A directory. -/
  | directory

/-- The names from the root to a place. -/
abbrev Place := List String

/-- A tree of files. The root is always a directory. -/
structure FileSystem where
  /-- What stands where, by the joined names of the place. -/
  nodes : OrderedMap FileNode
  /-- The place where relative paths start. -/
  workingDir : Place

namespace FileSystem

/-- The key under which a place is kept. No name holds a slash. -/
def key (place : Place) : String := String.intercalate "/" place

/-- What stands at a place. -/
def node? (fs : FileSystem) (place : Place) : Option FileNode :=
  if place.isEmpty then some .directory else fs.nodes.get? (key place)

/-- The tree with something put at a place. -/
def put (fs : FileSystem) (place : Place) (node : FileNode) : FileSystem :=
  { fs with nodes := fs.nodes.alter (key place) fun _ => node }

/-! ### Paths -/

/-- The names of a path, which stand between slashes; the characters of the
    current name are given in reverse. -/
def pathNames (current : List Char) : List Char → List String
  | [] => [String.ofList current.reverse]
  | c :: rest =>
    if c = '/' then String.ofList current.reverse :: pathNames [] rest
    else pathNames (c :: current) rest

/-- The greatest length of a name, in bytes. -/
def maxNameSize : Nat := 255

/-- The length from which a path is too long, in bytes. -/
def maxPathSize : Nat := 4096

/-- One name further from a directory: the place that it names there. No name
    and a single dot stay, and two dots go back. -/
def step (dir : Place) (name : String) : Except FileFault Place :=
  if name = "" || name = "." then .ok dir
  else if name = ".." then .ok dir.dropLast
  else if name.utf8ByteSize > maxNameSize then .error .nameTooLong
  else .ok (dir ++ [name])

/-- Goes into a directory. -/
def enter (fs : FileSystem) (dir : Place) (name : String) : Except FileFault Place := do
  let place ← step dir name
  match fs.node? place with
  | some .directory => .ok place
  | some (.file _) => .error .notDirectory
  | none => .error .notFound

/-- The names of a path that the system looks up at all. -/
def lookupNames (path : String) : Except FileFault (List String) :=
  if path.toList.contains '\x00' then .error .nullInPath
  else if path.isEmpty then .error .notFound
  else if path.utf8ByteSize ≥ maxPathSize then .error .nameTooLong
  else .ok (pathNames [] path.toList)

/-- The place where a path with the given names starts. -/
def start (fs : FileSystem) (names : List String) : Place :=
  if names.head? = some "" then [] else fs.workingDir

/-- The place of a path, all of whose names but the last are directories. -/
def locate (fs : FileSystem) (path : String) : Except FileFault Place := do
  let names ← lookupNames path
  let dir ← names.dropLast.foldlM fs.enter (fs.start names)
  step dir (names.getLastD "")

/-! ### Reading -/

/-- What stands at the end of a path. -/
def find (fs : FileSystem) (path : String) : Except FileFault FileNode := do
  let place ← fs.locate path
  match fs.node? place with
  | some node => .ok node
  | none => .error .notFound

/-- Something stands at the end of a path. -/
def exists? (fs : FileSystem) (path : String) : Bool := (fs.find path).isOk

/-- The text of a file. -/
def readText (fs : FileSystem) (path : String) : Except FileFault String := do
  match ← fs.find path with
  | .directory => .error .isDirectory
  | .file contents =>
    match String.fromUTF8? contents with
    | some text => .ok text
    | none => .error .notText

/-! ### Writing -/

/-- The place at which a path lets a file be written. A path that ends in a
    slash can only be a directory. -/
def writablePlace (fs : FileSystem) (path : String) : Except FileFault Place := do
  let names ← lookupNames path
  if names.getLastD "" = "" then
    -- The names before the last one that counts must be directories here too.
    let inner := (names.reverse.dropWhile (· = "")).reverse
    let _ ← inner.dropLast.foldlM fs.enter (fs.start names)
    .error .isDirectory
  else
    let place ← fs.locate path
    match fs.node? place with
    | some .directory => .error .isDirectory
    | _ => .ok place

/-- Writes a file, in place of the one there if there is one. -/
def writeText (fs : FileSystem) (path text : String) : Except FileFault FileSystem := do
  let place ← fs.writablePlace path
  .ok (fs.put place (.file text.toUTF8))

/-! ### Building a tree -/

/-- Puts something below a directory, and makes the directories on the way. -/
def putBelow (fs : FileSystem) (dir : Place) (node : FileNode) : List String → FileSystem
  | [] => fs
  | [name] => fs.put (dir ++ [name]) node
  | name :: rest => (fs.put (dir ++ [name]) .directory).putBelow (dir ++ [name]) node rest

/-- A working directory and nothing else. -/
def ofWorkingDir (dir : Place) : FileSystem :=
  (FileSystem.mk .empty dir).putBelow [] .directory dir

/-- Puts something at the end of a relative path, and makes the directories on
    the way. -/
def install (fs : FileSystem) (path : String) (node : FileNode) : FileSystem :=
  let names := (pathNames [] path.toList).filter fun name => name ≠ "" ∧ name ≠ "."
  fs.putBelow fs.workingDir node names

end FileSystem

end EvalRun
