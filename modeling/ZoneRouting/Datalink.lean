import ZoneRouting.Directory
import ZoneRouting.Fault
import ZoneRouting.Packet
/-!
Sending packets over sockets. Each neighbour has one address, and a packet for everybody goes to the
address of every neighbour, one after the other. The first address that cannot be sent to ends the
sending. `Host` puts several sockets on one computer.
-/
namespace ZoneRouting

abbrev Peers (α : Type) := Directory α

namespace Peers

variable {α : Type}

def addresses (peers : Peers α) (packet : Packet) : Except Fault (List α) :=
  match packet.target with
  | .broadcast => .ok peers.values
  | .single id =>
    match peers.find? id with
    | some address => .ok [address]
    | none => .error (.link (.unknownNeighbour id))

def attempt (fault? : α → Option IoFault) : List α → List α × Except Fault Unit
  | [] => ([], .ok ())
  | address :: rest =>
    match fault? address with
    | some fault => ([address], .error (.io fault))
    | none =>
      let (tried, outcome) := attempt fault? rest
      (address :: tried, outcome)

def send (peers : Peers α) (fault? : α → Option IoFault) (packet : Packet) :
    List α × Except Fault Unit :=
  match peers.addresses packet with
  | .error fault => ([], .error fault)
  | .ok targets => attempt fault? targets

end Peers

structure Socket where
  peers : Peers Nat
  waiting : List Bytes

structure Host where
  sockets : List Socket
  connected : Bool

namespace Host

def maxPayload : Nat := 65507

def bind (peers : List (Identifier × Nat)) (h : Host) : Nat × Host :=
  (h.sockets.length, { h with sockets := h.sockets ++ [⟨Directory.ofList peers, []⟩] })

def rebind : Fault := .io .addrInUse

def fault? (h : Host) (payload : Bytes) : Option IoFault :=
  if payload.length > 65535 then some .uncategorized
  else if ¬ h.connected then some .networkUnreachable
  else if payload.length > maxPayload then some .uncategorized
  else none

def withPeers (t : Nat) (f : Peers Nat → Peers Nat) (h : Host) : Host :=
  { h with sockets := h.sockets.modify t fun s => { s with peers := f s.peers } }

def peers (h : Host) (t : Nat) : Peers Nat := ((h.sockets[t]?).map Socket.peers).getD Directory.empty

def send (t : Nat) (packet : Packet) (h : Host) : Except Fault Unit × Host :=
  let (tried, outcome) := (h.peers t).send (fun _ => h.fault? packet.payload) packet
  let reached := if (h.fault? packet.payload).isSome then [] else tried
  (outcome, { h with
    sockets := reached.foldl (fun sockets address => sockets.modify address fun s =>
      { s with waiting := s.waiting ++ [packet.payload] }) h.sockets })

def receive (t : Nat) (h : Host) : Option Bytes × Host :=
  match h.sockets[t]? with
  | some ⟨peers, bytes :: rest⟩ => (some bytes, { h with sockets := h.sockets.set t ⟨peers, rest⟩ })
  | _ => (none, h)

end Host
end ZoneRouting
