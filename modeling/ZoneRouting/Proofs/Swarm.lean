import ZoneRouting.Engine.Receive
import ZoneRouting.Links
import Mathlib.Data.List.FinRange
import Mathlib.Data.Fintype.Basic

set_option autoImplicit false

namespace ZoneRouting

structure Copy (n : Nat) where
  sender : Fin n
  receiver : Fin n
  bytes : Bytes
deriving DecidableEq

-- Devices and the copies in the air between them. The air has no order: any copy in it may be the
-- next one that is heard.
structure Swarm (n : Nat) where
  device : Fin n → Engine
  air : List (Copy n)

-- What can happen next. Links and clocks are those of the moment, so that they may change in any way.
inductive Event (n : Nat) where
  | advertise (links : Links (Fin n)) (u : Fin n)
  | send (now : UInt64) (u : Fin n) (target : Identifier) (payload : Bytes)
  | collect (links : Links (Fin n)) (u : Fin n)
  | hear (now : UInt64) (links : Links (Fin n)) (copy : Copy n)
  | lose (copy : Copy n)
  | echo (copy : Copy n)

def Event.advertises {n : Nat} : Event n → Bool
  | .advertise .. => true
  | .send .. | .collect .. | .hear .. | .lose _ | .echo _ => false

namespace Swarm

variable {n : Nat}

def start (S : Suite) (settings : Fin n → Settings) (who : Fin n → Identity) (random : Fin n → Random) : Swarm n :=
  ⟨fun u => Engine.start S (settings u) (who u) (random u), []⟩

def put (f : Swarm n) (u : Fin n) (e : Engine) : Swarm n := { f with device := Function.update f.device u e }

theorem device_put (f : Swarm n) (u : Fin n) (e : Engine) : (f.put u e).device u = e := by
  dsimp only [put]
  rw [Function.update_self]

theorem device_put_other (f : Swarm n) {u v : Fin n} (e : Engine) (other : v ≠ u) :
    (f.put u e).device v = f.device v := by
  dsimp only [put]
  rw [Function.update_of_ne other]

theorem device_put_each {f : Swarm n} (holds : Fin n → Engine → Prop) (every : ∀ u, holds u (f.device u)) {v : Fin n} {e : Engine}
    (placed : holds v e) (u : Fin n) : holds u ((f.put v e).device u) := by
  by_cases same : u = v
  · subst same
    rw [device_put]
    exact placed
  · rw [device_put_other f e same]
    exact every u

def hearers (links : Links (Fin n)) (u : Fin n) (packet : Packet) (f : Swarm n) : List (Fin n) :=
  (List.finRange n).filter fun v => links.hears u v && match packet.target with
    | .single id => (f.device v).id = id
    | .broadcast => true

def copies (links : Links (Fin n)) (u : Fin n) (packet : Packet) (f : Swarm n) : List (Copy n) :=
  (f.hearers links u packet).map fun v => ⟨u, v, packet.payload⟩

theorem length_copies_le (links : Links (Fin n)) (u : Fin n) (packet : Packet) (f : Swarm n) :
    (f.copies links u packet).length ≤ n := by
  rw [copies, List.length_map]
  exact (List.length_filter_le _ _).trans (List.length_finRange ▸ Nat.le_refl n)

theorem mem_copies_broadcast {links : Links (Fin n)} {u : Fin n} {bytes : Bytes} {f : Swarm n} {copy : Copy n} :
    copy ∈ f.copies links u (Packet.broadcast bytes) ↔
      copy.sender = u ∧ (u, copy.receiver) ∈ links ∧ copy.bytes = bytes := by
  have heard : ∀ v, v ∈ f.hearers links u (Packet.broadcast bytes) ↔ (u, v) ∈ links := by
    intro v
    rw [hearers, List.mem_filter, Bool.and_eq_true]
    exact ⟨fun found => of_decide_eq_true found.2.1, fun linked => ⟨List.mem_finRange v, decide_eq_true linked, rfl⟩⟩
  rw [copies, List.mem_map]
  constructor
  · rintro ⟨v, member, rfl⟩
    exact ⟨rfl, (heard v).mp member, rfl⟩
  · obtain ⟨sender, receiver, octets⟩ := copy
    rintro ⟨rfl, linked, rfl⟩
    exact ⟨receiver, (heard receiver).mpr linked, rfl⟩

theorem copies_single_linked {links : Links (Fin n)} {u v : Fin n} {id : Identifier} {f : Swarm n}
    (alone : ∀ w, (f.device w).id = id ↔ w = v) (linked : (u, v) ∈ links) (bytes : Bytes) :
    f.copies links u (Packet.single id bytes) = [⟨u, v, bytes⟩] := by
  have heard : ∀ w, w ∈ f.hearers links u (Packet.single id bytes) ↔ w = v := by
    intro w
    rw [hearers, List.mem_filter, Bool.and_eq_true]
    constructor
    · exact fun found => (alone w).mp (of_decide_eq_true found.2.2)
    · rintro rfl
      exact ⟨List.mem_finRange w, decide_eq_true linked, decide_eq_true ((alone w).mpr rfl)⟩
  have nodup : (f.hearers links u (Packet.single id bytes)).Nodup := (List.nodup_finRange n).filter _
  have single : f.hearers links u (Packet.single id bytes) = [v] := by
    refine List.perm_singleton.mp ((List.perm_ext_iff_of_nodup nodup (List.nodup_singleton v)).mpr fun w => ?_)
    rw [heard, List.mem_singleton]
  rw [copies, single]
  rfl

def transmit (links : Links (Fin n)) (u : Fin n) (packets : List Packet) (f : Swarm n) : Swarm n :=
  { f with air := f.air ++ packets.flatMap fun packet => f.copies links u packet }

def advertise (links : Links (Fin n)) (u : Fin n) (f : Swarm n) : Swarm n :=
  match (f.device u).advertise with
  | .ok packet => f.transmit links u [packet]
  | .error _ => f

def send (S : Suite) (now : UInt64) (u : Fin n) (target : Identifier) (payload : Bytes) (f : Swarm n) : Swarm n :=
  f.put u ((f.device u).send S now target payload).2

def collect (links : Links (Fin n)) (u : Fin n) (f : Swarm n) : Swarm n :=
  (f.put u (f.device u).takeOutgoing.2).transmit links u (f.device u).takeOutgoing.1

def hear (S : Suite) (now : UInt64) (links : Links (Fin n)) (copy : Copy n) (f : Swarm n) : Swarm n :=
  ({ f with air := f.air.erase copy }.put copy.receiver
    ((f.device copy.receiver).receive S now copy.bytes).2).transmit links copy.receiver
    ((f.device copy.receiver).receive S now copy.bytes).1

def apply (S : Suite) (f : Swarm n) : Event n → Swarm n
  | .advertise links u => f.advertise links u
  | .send now u target payload => f.send S now u target payload
  | .collect links u => f.collect links u
  | .hear now links copy => if copy ∈ f.air then f.hear S now links copy else f
  | .lose copy => { f with air := f.air.erase copy }
  | .echo copy => if copy ∈ f.air then { f with air := copy :: f.air } else f

def run (S : Suite) (events : List (Event n)) (f : Swarm n) : Swarm n := events.foldl (apply S) f

structure Hearing (links : Links (Fin n)) (copy : Copy n) (f : Swarm n) (reply : List Packet × Engine) (f' : Swarm n) :
    Prop where
  own : f'.device copy.receiver = reply.2
  others : ∀ v, v ≠ copy.receiver → f'.device v = f.device v
  air : f'.air = f.air.erase copy ++ reply.1.flatMap fun packet => f'.copies links copy.receiver packet

theorem hear_hearing (S : Suite) (now : UInt64) (links : Links (Fin n)) (copy : Copy n) (f : Swarm n) :
    Hearing links copy f ((f.device copy.receiver).receive S now copy.bytes) (f.hear S now links copy) where
  own := device_put _ _ _
  others _ other := device_put_other _ _ other
  air := rfl

theorem Hearing.at {links : Links (Fin n)} {copy : Copy n} {f f' : Swarm n} {reply : List Packet × Engine} {u : Fin n}
    (hearing : Hearing links copy f reply f') (holds : Engine → Prop) (own : copy.receiver = u → holds reply.2)
    (other : copy.receiver ≠ u → holds (f.device u)) : holds (f'.device u) := by
  by_cases same : copy.receiver = u
  · subst same
    rw [hearing.own]
    exact own rfl
  · rw [hearing.others u (Ne.symm same)]
    exact other same

theorem apply_hear {S : Suite} {now : UInt64} {links : Links (Fin n)} {copy : Copy n} {f : Swarm n}
    (member : copy ∈ f.air) : f.apply S (.hear now links copy) = f.hear S now links copy := if_pos member

theorem run_append (S : Suite) (events events' : List (Event n)) (f : Swarm n) :
    f.run S (events ++ events') = (f.run S events).run S events' := List.foldl_append

def inOrder (S : Suite) (now : UInt64) (links : Links (Fin n)) : Nat → Swarm n → List (Copy n)
  | 0, _ => []
  | count + 1, f =>
      match f.air with
      | [] => []
      | copy :: _ => copy :: inOrder S now links count (f.apply S (.hear now links copy))

end Swarm

-- Examples have three or four devices. Their literals mean the same in every module by these instances.
instance (priority := high) three : @NeZero Nat Zero.ofOfNat0 3 := Nat.instNeZeroSucc

instance (priority := high) four : @NeZero Nat Zero.ofOfNat0 4 := Nat.instNeZeroSucc

def numbered {n : Nat} (u : Fin n) : Identity :=
  ⟨⟨⟨BitVec.ofNat _ (u + 1)⟩⟩, ⟨⟨BitVec.ofNat _ (u + 1)⟩, ⟨BitVec.ofNat _ (u + 1)⟩⟩⟩

theorem numbered_distinct : Function.Injective fun u : Fin 4 => (numbered u).id := by
  rw [Function.Injective]
  decide

theorem numbered_named (u : Fin 4) : (numbered u).id ≠ Identifier.nil := by
  revert u
  decide

end ZoneRouting
