import EvalRun.Http.Message
import Std.Async.DNS
import Std.Async.Select
import Std.Async.TCP
import Std.Async.Timer

/-! # Http.Socket — forms sent over a network

    The outer edge of the program: one connection for every form, closed once
    the response is there.
-/

namespace EvalRun.Http

open Std.Async

/-- The number of bytes received at one time. -/
def receiveSize : UInt64 := 65536

/-- Where a host listens. -/
def socketAddress (portNumber : UInt16) : Std.Net.IPAddr → Std.Net.SocketAddress
  | .v4 addr => .v4 ⟨addr, portNumber⟩
  | .v6 addr => .v6 ⟨addr, portNumber⟩

/-- Receives until a response is there in full or the connection is closed. -/
partial def receive (socket : TCP.Socket.Client) (received : ByteArray) : Async ByteArray := do
  if isComplete received then return received
  match ← socket.recv? receiveSize with
  | none => return received
  | some bytes => receive socket (received ++ bytes)

/-- Sends a form over a connection of its own. -/
def sendOver (a : Address) (form : String) : Async Outcome := do
  let found ← DNS.getAddrInfo a.host (toString a.portNumber)
  match found[0]? with
  | none => return .failed "host not found"
  | some addr =>
    let socket ← TCP.Socket.Client.mk
    socket.connect (socketAddress a.portNumber addr)
    socket.send (requestBytes a form)
    return outcomeOf (← receive socket ByteArray.empty)

/-- Gives up after a number of milliseconds. -/
def giveUp (milliseconds : Nat) : Async Outcome := do
  sleep (.ofNat milliseconds)
  return .timedOut

/-- Sends a form, within the limit of the endpoint. -/
def exchange (e : Endpoint) (a : Address) (form : String) : Async Outcome := do
  match e.timeoutMs? with
  | none => sendOver a form
  | some milliseconds => Async.race (sendOver a form) (giveUp milliseconds)

/-- The network of the machine. -/
def Transport.network : Transport IO where
  send e form := do
    match Address.parse? e.url with
    | none => return .failed "bad address"
    | some a =>
      try (exchange e a form).block
      catch error => return .failed (toString error)

end EvalRun.Http
