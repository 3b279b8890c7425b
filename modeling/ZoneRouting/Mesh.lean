import ZoneRouting.Engine.Receive
import ZoneRouting.Links
/-!
Several devices within radio range of some of each other. Packets that were sent and not yet heard
are in the air, in the order of sending; taking the first one out delivers it to the devices in
range that it is for, and puts what they answer into the air behind all others.
-/
namespace ZoneRouting

structure Transmission where
  sender : Nat
  packet : Packet
  deriving DecidableEq, Repr

structure Mesh where
  devices : List Engine
  links : Links Nat
  clock : Clock
  air : List Transmission

namespace Mesh

-- The device that a seed gives: its identity is drawn first, and its engine goes on drawing where
-- the identity ended. Another identifier may be put in place of the one drawn.
def device (S : Suite) (settings : Settings) (seed : UInt64) (id : Option Identifier) : Engine :=
  let (identity, random) := Identity.generate (Random.ofSeed seed)
  Engine.start S settings { identity with id := id.getD identity.id } random

def numbers (m : Mesh) : List Nat := List.range m.devices.length

-- The devices that hear a transmission. Of devices with the same identifier only the first can be
-- meant.
def receivers (m : Mesh) (t : Transmission) : List Nat :=
  match t.packet.target with
  | .single id =>
    ((m.devices.findIdx? fun e => e.id = id).toList).filter fun i => m.links.hears t.sender i
  | .broadcast => m.numbers.filter fun i => m.links.hears t.sender i

def transmit (sender : Nat) (packets : List Packet) (m : Mesh) : Mesh :=
  { m with air := m.air ++ packets.map fun packet => ⟨sender, packet⟩ }

-- Delivers octets to a device, and puts its replies and then its outgoing packets into the air.
def deliver (S : Suite) (bytes : Bytes) (i : Nat) (m : Mesh) : Mesh :=
  match m.devices[i]? with
  | none => m
  | some e =>
    let (replies, e) := e.receive S m.clock.time bytes
    let (outgoing, e) := e.takeOutgoing
    { m with devices := m.devices.set i e }.transmit i (replies ++ outgoing)

structure AirPlan where
  lost : List Nat := []
  copies : Nat := 1

structure Heard where
  transmission : Transmission
  receivers : List Nat

def pump (S : Suite) (plan : AirPlan) : (count k : Nat) → Mesh → List Heard × Mesh
  | 0, _, m => ([], m)
  | count + 1, k, m =>
    match m.air with
    | [] => ([], m)
    | t :: air =>
      let receivers := if k ∈ plan.lost then [] else m.receivers t
      let m := receivers.foldl (fun m i =>
        plan.copies.repeat (fun m => m.deliver S t.packet.payload i) m) { m with air }
      let (rest, m) := pump S plan count (k + 1) m
      (⟨t, receivers⟩ :: rest, m)

def advertiseAll (m : Mesh) : Mesh :=
  m.numbers.foldl (fun m i =>
    match (m.devices[i]?).map Engine.advertise with
    | some (.ok packet) => m.transmit i [packet]
    | _ => m) m

end Mesh
end ZoneRouting
