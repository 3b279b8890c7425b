import ZoneRouting.Engine.Receive
/-!
The event loop of a device: what it does when it is time to advertise, when a datagram was heard,
when receiving failed and when an application asks for a payload to be sent. Each event leads to
packets that are offered to the transport, payloads that are delivered to the application, and, for
a request, its answer. Between events nothing is left in the engine's queues. A fault of the link
ends the loop; any other failure to receive passes.
-/
namespace ZoneRouting.Node

inductive Event where
  | tick
  | heard (bytes : Bytes)
  | receiveFailed (fault : Fault)
  | request (target : Identifier) (payload : Bytes)
  deriving DecidableEq, Repr

structure Reaction where
  offered : List Packet := []
  delivered : List Bytes := []
  answer : Option (Except Fault SendOutcome) := none
  stopped : Option Fault := none
  deriving Inhabited

def react (S : Suite) (now : UInt64) : Event → Engine → Reaction × Engine
  | .tick, e =>
    match e.advertise with
    | .ok packet => ({ offered := [packet] }, e)
    | .error fault => ({ stopped := some fault }, e)
  | .heard bytes, e =>
    let (replies, e) := e.receive S now bytes
    let (outgoing, e) := e.takeOutgoing
    let (incoming, e) := e.takeIncoming
    ({ offered := replies ++ outgoing, delivered := incoming }, e)
  | .receiveFailed (.link fault), e => ({ stopped := some (.link fault) }, e)
  | .receiveFailed _, e => ({}, e)
  | .request target payload, e =>
    let (answer, e) := e.send S now target payload
    let (outgoing, e) := e.takeOutgoing
    ({ offered := outgoing, answer := some answer }, e)

-- Offers packets to a transport one after the other. A packet that the transport fails to send is
-- lost, and the ones after it are offered all the same.
def transmitAll {τ : Type} (send : Packet → τ → Except Fault Unit × τ) (packets : List Packet)
    (link : τ) : τ :=
  packets.foldl (fun link packet => (send packet link).2) link

end ZoneRouting.Node
