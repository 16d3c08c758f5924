import DryKiln.Http.Wire
import Std.Async.DNS
import Std.Async.TCP
import Std.Async.Timer
/-!
Requests over the network of the machine.
-/

open Std.Async

namespace DryKiln
namespace Client

/-- All bytes up to the end of a connection. -/
partial def receiveAll (socket : TCP.Socket.Client) (received : ByteArray) : Async ByteArray := do
  match ← socket.recv? 65536 with
  | some bytes => receiveAll socket (received ++ bytes)
  | none => return received

/-- Sends a request to one address of its host. -/
def exchangeAt (ip : Std.Net.IPAddr) (address : Http.Address) (request : Http.Request) :
    Async Http.Reply := do
  let socket ← TCP.Socket.Client.mk
  let port := UInt16.ofNat address.port
  socket.connect <| match ip with
    | .v4 ip => .v4 ⟨ip, port⟩
    | .v6 ip => .v6 ⟨ip, port⟩
  socket.send (Http.requestText address request).toUTF8
  let received ← receiveAll socket ByteArray.empty
  match Http.responseOf? received.toList with
  | some response => return .ok response
  | none => return .error "not an HTTP response"

/-- Sends a request to the first address of its host. -/
def exchangeNow (address : Http.Address) (request : Http.Request) : Async Http.Reply := do
  match (← DNS.getAddrInfo address.host "")[0]? with
  | some ip => exchangeAt ip address request
  | none => return .error ("no address for " ++ address.host)

/-- What comes back for a request within so many milliseconds. -/
def exchange (timeout : UInt64) (request : Http.Request) : IO Http.Reply := do
  match Http.Address.ofUrl? request.url with
  | none => return .error ("no address in " ++ request.url)
  | some address =>
    let late : Async Http.Reply := do
      sleep (Std.Time.Millisecond.Offset.ofNat timeout.toNat)
      return .error "timed out"
    match ← (Async.block (Async.race (exchangeNow address request) late)).toBaseIO with
    | .ok reply => return reply
    | .error e => return .error (toString e)

end Client
end DryKiln
