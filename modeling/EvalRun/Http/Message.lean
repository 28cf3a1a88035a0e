import EvalRun.Http.Address
import EvalRun.Http.Exchange

/-! # Http.Message — requests and responses on the wire

    A request is a head of lines and the text of a form. A response is a head
    and a body, which ends where its head says: after a number of bytes, with
    an empty chunk, or when the connection is closed.
-/

namespace EvalRun.Http

/-- The bytes of the request that sends a form. -/
def requestBytes (a : Address) (form : String) : ByteArray :=
  let body := form.toUTF8
  let head := String.intercalate "\r\n"
    ["POST " ++ a.target ++ " HTTP/1.1", "Host: " ++ a.host ++ ":" ++ toString a.portNumber,
      "Content-Type: " ++ formMediaType, "Content-Length: " ++ toString body.size,
      "Accept: */*", "Connection: close", "", ""]
  head.toUTF8 ++ body

/-- How the end of a body is told. -/
inductive Framing where
  /-- After so many bytes. -/
  | length (n : Nat)
  /-- With an empty chunk. -/
  | chunked
  /-- When the connection is closed. -/
  | untilClosed
  deriving DecidableEq, Repr

/-- The head of a response. -/
structure ResponseHead where
  status : Nat
  framing : Framing
  deriving DecidableEq, Repr

namespace ResponseHead

/-- The bytes between the head and the body. -/
def blankLine : List UInt8 := [0x0D, 0x0A, 0x0D, 0x0A]

/-- Splits bytes before the first place where a word begins, and drops the
    word. -/
def splitAround (word : List UInt8) : List UInt8 → Option (List UInt8 × List UInt8)
  | [] => none
  | b :: rest =>
    if word.isPrefixOf (b :: rest) then some ([], (b :: rest).drop word.length)
    else (splitAround word rest).map fun (before, after) => (b :: before, after)

/-- The name, in small letters, and the value of a line of the head. -/
def headerOf (line : String) : String × String :=
  let name := line.toList.takeWhile (· ≠ ':')
  let value := line.toList.drop (name.length + 1)
  ((String.ofList name).toLower, (String.ofList value).trimAscii.toString)

/-- How the lines of a head tell the end of the body. -/
def framingOf (headers : List (String × String)) : Framing :=
  match headers.lookup "transfer-encoding", headers.lookup "content-length" with
  | some _, _ => .chunked
  | none, some digits => ((decimal? digits.toList).map Framing.length).getD .untilClosed
  | none, none => .untilClosed

/-- Reads a head. -/
def parse? (bytes : List UInt8) : Option ResponseHead := do
  let text := String.ofList (bytes.map fun b => Char.ofNat b.toNat)
  match text.splitOn "\r\n" with
  | [] => none
  | line :: headers =>
    match line.splitOn " " with
    | version :: status :: _ =>
      if "HTTP/".isPrefixOf version then
        some ⟨← decimal? status.toList, framingOf (headers.map headerOf)⟩
      else none
    | _ => none

/-- The head at the front of what was received, and the bytes behind it. -/
def split? (received : ByteArray) : Option (ResponseHead × List UInt8) := do
  let (head, body) ← splitAround blankLine received.toList
  some (← parse? head, body)

end ResponseHead

/-- A response is there in full. -/
def isComplete (received : ByteArray) : Bool :=
  match ResponseHead.split? received with
  | none => false
  | some (⟨_, .length n⟩, body) => n ≤ body.length
  | some (⟨_, .chunked⟩, body) => (0x30 :: ResponseHead.blankLine).reverse.isPrefixOf body.reverse
  | some (⟨_, .untilClosed⟩, _) => false

/-- The value of hexadecimal digits at the front of a line. -/
def chunkSize (line : List UInt8) : Nat :=
  let digits := (line.map fun b => Char.ofNat b.toNat).takeWhile fun c =>
    c.isDigit || ('a' ≤ c && c ≤ 'f') || ('A' ≤ c && c ≤ 'F')
  digits.foldl (fun n c =>
    n * 16 + if c.isDigit then c.toNat - '0'.toNat else c.toLower.toNat - 'a'.toNat + 10) 0

/-- The bytes of chunks, of which there are at most `fuel`. -/
def joinChunks : Nat → List UInt8 → List UInt8
  | 0, _ => []
  | fuel + 1, bytes =>
    match ResponseHead.splitAround [0x0D, 0x0A] bytes with
    | none => []
    | some (line, rest) =>
      match chunkSize line with
      | 0 => []
      | size => rest.take size ++ joinChunks fuel (rest.drop (size + 2))

/-- The body of a response without its framing. -/
def bodyBytes (framing : Framing) (body : List UInt8) : List UInt8 :=
  match framing with
  | .length n => body.take n
  | .chunked => joinChunks body.length body
  | .untilClosed => body

/-- What was received, once the service sends no more. -/
def outcomeOf (received : ByteArray) : Outcome :=
  match ResponseHead.split? received with
  | none => .failed "no response"
  | some (head, body) =>
    match String.fromUTF8? ⟨(bodyBytes head.framing body).toArray⟩ with
    | some text => .response head.status text
    | none =>
      -- The body of an error is not read.
      if leastErrorStatus ≤ head.status then .response head.status ""
      else .failed "failed to read response: invalid UTF-8"

end EvalRun.Http
