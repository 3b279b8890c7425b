import ZoneRouting.Directory
import ZoneRouting.Fault
import ZoneRouting.Links
import ZoneRouting.Packet
/-!
A radio medium shared by all devices. A radio is attached under an identifier and hears what radios
in range send to that identifier or to everybody; what nobody hears is lost without notice. At any
time one radio listens under an identifier: attaching another takes its place, and closing leaves
nobody listening. A radio that no longer listens first hands out what it had heard.
-/
namespace ZoneRouting

structure Radio where
  id : Identifier
  waiting : List Bytes
  deriving DecidableEq, Repr

structure Medium where
  radios : List Radio
  listening : Directory Nat
  links : Links Identifier
  deriving DecidableEq

namespace Medium

def empty : Medium := ⟨[], Directory.empty, []⟩

def name (id : Identifier) : String := "mock-" ++ id.text

def attach (id : Identifier) (m : Medium) : Nat × Medium :=
  let t := m.radios.length
  (t, { m with radios := m.radios ++ [⟨id, []⟩], listening := m.listening.insert id t })

def deliver (id : Identifier) (payload : Bytes) (m : Medium) : Medium :=
  match m.listening.find? id with
  | none => m
  | some t =>
    { m with radios := m.radios.modify t fun r => { r with waiting := r.waiting ++ [payload] } }

def hearers (m : Medium) (sender : Identifier) (packet : Packet) : List Identifier :=
  match packet.target with
  | .single id => if m.links.hears sender id then [id] else []
  | .broadcast => m.links.neighbours sender

def send (t : Nat) (packet : Packet) (m : Medium) : Medium :=
  match m.radios[t]? with
  | none => m
  | some radio =>
    (m.hearers radio.id packet).foldl (fun m id => m.deliver id packet.payload) m

-- Whether a radio is the one that listens under its identifier.
def Listens (m : Medium) (t : Nat) : Prop :=
  (m.radios[t]?).bind (fun r => m.listening.find? r.id) = some t

instance (m : Medium) (t : Nat) : Decidable (m.Listens t) :=
  inferInstanceAs (Decidable ((m.radios[t]?).bind (fun r => m.listening.find? r.id) = some t))

-- The next datagram that a radio has heard: none if it may still hear one, and a fault if it never
-- will.
def receive (t : Nat) (m : Medium) : Except Fault (Option Bytes) × Medium :=
  match m.radios[t]? with
  | none => (.error (.link .mediumClosed), m)
  | some radio =>
    match radio.waiting with
    | bytes :: rest =>
      (.ok (some bytes), { m with radios := m.radios.set t { radio with waiting := rest } })
    | [] => if m.Listens t then (.ok none, m) else (.error (.link .mediumClosed), m)

def ready (m : Medium) (t : Nat) : Bool :=
  match m.radios[t]? with
  | none => false
  | some radio => m.listening.contains radio.id

def close (t : Nat) (m : Medium) : Medium :=
  match m.radios[t]? with
  | none => m
  | some radio => { m with listening := m.listening.erase radio.id }

end Medium
end ZoneRouting
