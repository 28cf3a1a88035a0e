import EvalRun.Binary64.Decimal

/-! # Http.Address — where an address leads

    An address names the scheme, the host, perhaps the number at which the
    host listens, and what is asked for there. Only addresses of plain HTTP
    are followed.
-/

namespace EvalRun.Http

/-- A natural number in decimal digits. -/
def decimal? (digits : List Char) : Option Nat :=
  if digits.isEmpty || !digits.all Char.isDigit then none else some (readDigits 0 digits)

/-- Where a request goes. -/
structure Address where
  /-- The host. -/
  host : String
  /-- The number at which the host listens. -/
  portNumber : UInt16
  /-- What is asked for at the host. -/
  target : String
  deriving DecidableEq, Repr

namespace Address

/-- The scheme of plain HTTP. -/
def scheme : List Char := "http://".toList

/-- The number at which a host listens unless the address names another. -/
def defaultPortNumber : UInt16 := 80

/-- A number of 16 bits in decimal digits. -/
def portNumber? (digits : List Char) : Option UInt16 := do
  let n ← decimal? digits
  if n < 0x10000 then some (.ofNat n) else none

/-- The host at the front of an address and the number at which it listens. -/
def authority? (chars : List Char) : Option (String × UInt16) := do
  let host := chars.takeWhile (· ≠ ':')
  if host.isEmpty then none
  else
    match chars.drop host.length with
    | [] => some (String.ofList host, defaultPortNumber)
    | _ :: digits => do some (String.ofList host, ← portNumber? digits)

/-- A character that ends what is said about the host. -/
def endsAuthority (c : Char) : Bool := c = '/' || c = '?' || c = '#'

/-- What is asked for: the path and the query, and a slash if there is no
    path. -/
def targetOf (chars : List Char) : String :=
  match chars.takeWhile (· ≠ '#') with
  | '/' :: rest => String.ofList ('/' :: rest)
  | rest => String.ofList ('/' :: rest)

/-- Reads an address. -/
def parse? (url : String) : Option Address := do
  let chars := url.toList
  if scheme.isPrefixOf chars then
    let behind := chars.drop scheme.length
    let front := behind.takeWhile fun c => !endsAuthority c
    let (host, portNumber) ← authority? front
    some ⟨host, portNumber, targetOf (behind.drop front.length)⟩
  else none

end Address

end EvalRun.Http
