import EvalRun.Backend
import EvalRun.FileSystem
import EvalRun.Ranking.Ranker
import EvalRun.Response.Shape
import EvalRun.Topics.RawTopic

/-! # RunError — what can stop a run

    Every error says where it comes from. An error of one request carries the
    topic and the place of the request among the requests of the topic, so a
    halted run says where it stopped.
-/

namespace EvalRun

/-- Why the topics could not be read. -/
inductive TopicFault where
  /-- The topic file could not be read. -/
  | unreadable (path : String) (fault : FileFault)
  /-- The document is not a topic document. -/
  | document (fault : Topics.DocumentFault)
  deriving DecidableEq, Repr

/-- The text of a topic fault. -/
def TopicFault.message : TopicFault → String
  | unreadable path fault => "Failed to read topic file '" ++ path ++ "': " ++ fault.message
  | document fault => fault.message

/-- A setting whose value is out of its range. -/
inductive Violation where
  | emptyRunTag
  | brokenRunTag
  | zeroPageSize
  | zeroDepth
  | excessiveDepth
  | infiniteBoost
  | zeroTarget
  | zeroThreads
  deriving DecidableEq, Repr

/-- The text of a violation. -/
def Violation.message : Violation → String
  | emptyRunTag => "run_tag must not be empty"
  | brokenRunTag => "run_tag must not contain tabs or line breaks"
  | zeroPageSize => "backend.size must be at least 1"
  | zeroDepth => "scoring.max_depth must be at least 1"
  | excessiveDepth => "scoring.max_depth must not exceed " ++ toString Ranker.depthLimit
  | infiniteBoost => "scoring.formula_boost must be finite"
  | zeroTarget => "padding.target must be at least 1 when padding is enabled"
  | zeroThreads => "concurrency.variant_threads must be at least 1"

/-- Why there is no usable configuration. -/
inductive ConfigFault where
  /-- There is no profile of that name. -/
  | unknownProfile (name : String)
  /-- The text is not a configuration. -/
  | malformed
  /-- The file could not be read. -/
  | unreadable (path : String) (fault : FileFault)
  /-- The text of the file is not a configuration. -/
  | malformedFile (path : String)
  /-- A setting is out of range. -/
  | invalid (violation : Violation)
  /-- A setting has no written form. -/
  | unwritable
  /-- The file could not be written. -/
  | fileNotWritten (path : String) (fault : FileFault)
  /-- The file of default settings could not be written. -/
  | defaultNotWritten (path : String) (fault : FileFault)
  /-- The filler file could not be read. -/
  | fillerUnreadable (path : String) (fault : FileFault)
  deriving DecidableEq, Repr

/-- A path and what went wrong with it. -/
def pathMessage (what path : String) (fault : FileFault) : String :=
  what ++ " '" ++ path ++ "': " ++ fault.message

/-- The text of an input or output fault. -/
def ioMessage (fault : FileFault) : String := "I/O error: " ++ fault.message

/-- The text of a configuration fault. -/
def ConfigFault.message : ConfigFault → String
  | unknownProfile name =>
    "Invalid profile '" ++ name ++ "'. Expected \x22ntcir\x22 or \x22wiki\x22."
  | malformed => "Failed to parse config"
  | unreadable path fault => pathMessage "Failed to read config file" path fault
  | malformedFile path => "Failed to parse config file '" ++ path ++ "'"
  | invalid violation => violation.message
  | unwritable => "Failed to serialize config"
  | fileNotWritten path fault => pathMessage "Failed to write config file" path fault
  | defaultNotWritten path fault => pathMessage "Failed to write default config file" path fault
  | fillerUnreadable path fault =>
    "Failed to load filler pool '" ++ path ++ "': " ++ ioMessage fault

/-- What stopped a run. -/
inductive RunError where
  /-- The body of a response was not decoded. -/
  | malformedResponse (topic : String) (variant : Nat) (reason : Response.DecodeError)
  /-- The backend gave no body. -/
  | backend (topic : String) (variant : Nat) (reason : BackendFault)
  /-- The topics could not be read. -/
  | topics (reason : TopicFault)
  /-- There is no usable configuration. -/
  | config (reason : ConfigFault)
  /-- A file could not be read or written. -/
  | io (fault : FileFault)

namespace RunError

/-- Where a request stands: its topic and its place in the topic. -/
def requestPlace (topic : String) (variant : Nat) : String :=
  "for topic " ++ topic ++ " (variant " ++ toString variant ++ "): "

/-- The text of an error. -/
def message : RunError → String
  | malformedResponse topic variant reason =>
    "malformed response " ++ requestPlace topic variant ++ reason.message
  | backend topic variant reason =>
    "backend request failed " ++ requestPlace topic variant ++ reason.message
  | topics reason => "topic input error: " ++ reason.message
  | config reason => "configuration error: " ++ reason.message
  | io fault => ioMessage fault

/-- The topic whose request went wrong. -/
def topic? : RunError → Option String
  | malformedResponse topic _ _ => some topic
  | backend topic _ _ => some topic
  | _ => none

end RunError

end EvalRun
