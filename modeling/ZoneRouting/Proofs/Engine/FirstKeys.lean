import ZoneRouting.Proofs.Engine.RouteKeys

set_option autoImplicit false

namespace ZoneRouting

theorem Keyring.record_conflict {ring : Keyring} {id : Identifier} {key known : PublicKey} (found : ring.find? id = some known)
    (other : key ≠ known) : ring.record id key = .error (.keyMismatch id) := by
  rw [record, found]
  exact if_neg other.symm

namespace Engine

-- A datagram that reaches a device as it is, or within messages for it that it can open, one within the other.
inductive Holds (S : Suite) (e : Engine) : Bytes → Datagram → Prop
  | plain (bytes : Bytes) (d : Datagram) (read : Wire.decode bytes = .ok d) : Holds S e bytes d
  | within (bytes content : Bytes) (m : Message) (d : Datagram) (read : Wire.decode bytes = .ok (.message m))
      (opened : e.unwrap? S (.message m) = some content) (inner : Holds S e content d) : Holds S e bytes d

-- The key that a datagram would have a device record, and for whom: an announcement that of its origin, a search for
-- this device that of who searches, and an answer to this device that of the device found.
def Claims (e : Engine) (d : Datagram) (id : Identifier) (key : PublicKey) : Prop :=
  match d with
  | .advertisement a => a.origin = id ∧ a.key = key
  | .discovery d => d.destination = e.id ∧ d.requester? = some id ∧ d.origin = key
  | .acknowledgement a => a.route.head? = some e.id ∧ a.target? = some id ∧ a.targetKey = key
  | _ => False

-- How a device treats a datagram that it does not believe: it sends nothing and stays as it was, except that an announcement
-- may have taught it a route inside its zone.
structure Ignores (e : Engine) (d : Datagram) (reply : List Packet × Engine) : Prop where
  silent : reply.1 = []
  rest : reply.2 = { e with table := reply.2.table }
  still : d.kind ≠ .advertisement → reply.2 = e

def callAll (S : Suite) (calls : List Call) (e : Engine) : Engine := calls.foldl (call S) e

variable {S : Suite} {e : Engine} {id : Identifier} {key known : PublicKey} {bytes : Bytes} {d : Datagram}

theorem call_all_changes (orderly : e.Orderly) (calls : List Call) : Changes S e (e.callAll S calls) := by
  induction calls generalizing e with
  | nil => exact .refl
  | cons c calls ih =>
      have first := call_changes (S := S) orderly c
      exact first.trans (ih (orderly_changes first orderly))

theorem Claims.closed (claims : e.Claims d id key) : e.unwrap? S d = none := by
  cases d with
  | message m => exact claims.elim
  | _ => rfl

theorem innermost_read (S : Suite) (e : Engine) (read : Wire.decode bytes = .ok d) (layers : Nat) :
    e.innermost? S (layers + 1) bytes = match e.unwrap? S d with
      | some content => e.innermost? S layers content
      | none => some (.datagram d) := by
  rw [innermost?, Wire.kind_encode (Wire.encode_of_decode read).2]
  cases opened : e.unwrap? S d <;> simp only [read, opened]

theorem Holds.innermost (holds : e.Holds S bytes d) (closed : e.unwrap? S d = none) (layers : Nat) :
    e.innermost? S layers bytes = none ∨ e.innermost? S layers bytes = some (.datagram d) := by
  induction holds generalizing layers with
  | plain bytes d read =>
      cases layers with
      | zero => exact Or.inl rfl
      | succ layers =>
          rw [innermost_read S e read layers, closed]
          exact Or.inr rfl
  | within bytes content m d read opened _ ih =>
      cases layers with
      | zero => exact Or.inl rfl
      | succ layers =>
          rw [innermost_read S e read layers, opened]
          exact ih closed layers

theorem ignores_nothing (d : Datagram) (e : Engine) : e.Ignores d ([], e) := ⟨rfl, rfl, fun _ => rfl⟩

theorem handle_conflict (now : UInt64) (claims : e.Claims d id key) (found : e.keyring.find? id = some known)
    (other : key ≠ known) : e.Ignores d (e.handle S now d) := by
  have refused := Keyring.record_conflict found other
  cases d with
  | advertisement a =>
      obtain ⟨rfl, rfl⟩ := claims
      rw [handle, handleAdvertisement]
      by_cases dropped : a.origin = e.id ∨ e.id ∈ a.route ∨ a.origin ∈ a.route ∨ ¬ Route.LoopFree a.route
      · rw [if_pos dropped]
        exact ignores_nothing _ e
      · rw [if_neg dropped]
        dsimp only
        rw [refused]
        exact ⟨rfl, rfl, fun announced => absurd rfl announced⟩
  | discovery d =>
      obtain ⟨own, first, rfl⟩ := claims
      rw [handle, handleDiscovery]
      by_cases dropped : ¬ Route.LoopFree d.route ∨ e.id ∈ d.route
      · rw [if_pos dropped]
        exact ignores_nothing _ e
      · rw [if_neg dropped, if_pos own, answer, first]
        cases d.route.getLast? with
        | none => exact ignores_nothing _ e
        | some previous =>
            dsimp only
            rw [refused]
            exact ignores_nothing _ e
  | acknowledgement a =>
      obtain ⟨first, last, rfl⟩ := claims
      rw [handle, handleAcknowledgement]
      by_cases loops : ¬ Route.LoopFree a.route
      · rw [if_pos loops]
        exact ignores_nothing _ e
      · rw [if_neg loops, if_pos first, last]
        dsimp only
        rw [accept]
        cases valid : a.targetKey.validate S with
        | error fault => exact ignores_nothing _ e
        | ok key =>
            obtain ⟨_, rfl⟩ := PublicKey.validate_ok_iff.mp valid
            dsimp only
            rw [refused]
            exact ignores_nothing _ e
  | failure f => exact claims.elim
  | message m => exact claims.elim

-- The route of an announcement is entered before its key is refused, hence the exception for the table.
theorem first_key_wins (reachable : e.Reachable S) (recorded : e.keyring.find? id = some known) :
    (∀ calls, (e.callAll S calls).keyring.find? id = some known) ∧
    ∀ now bytes d key, e.Holds S bytes d → e.Claims d id key → key ≠ known → e.Ignores d (e.receive S now bytes) := by
  refine ⟨fun calls => ?_, fun now bytes d key holds claims other => ?_⟩
  · exact (changes_keeps (call_all_changes (reachable_orderly reachable) calls)).keys id known recorded
  · rw [receive_content, content?]
    rcases holds.innermost claims.closed (e.settings.maxNestingDepth + 1) with deep | reached
    · rw [deep]
      exact ignores_nothing d e
    · rw [reached]
      exact handle_conflict now claims recorded other

-- A search for a device in the name of the neighbour that it has heard of, with the key of another one.
def impostor : Discovery where
  origin := (numbered (1 : Fin 4)).publicKey Suite.plain
  destination := (numbered (0 : Fin 4)).id
  sent := 0
  route := [(numbered (2 : Fin 4)).id]
  covered := []

def smuggled : Message :=
  (Message.wrap Suite.plain (Random.ofSeed 0) (octetsOf (.discovery impostor))
    [(numbered (2 : Fin 4)).id, (numbered (0 : Fin 4)).id] ((numbered (0 : Fin 4)).publicKey Suite.plain)
    (numbered (2 : Fin 4)).keys).1.toOption.getD passing

theorem first_key_wins_smuggled :
    acquainted.unwrap? Suite.plain (.message smuggled) = some (octetsOf (.discovery impostor)) ∧
    acquainted.receive Suite.plain 0 (octetsOf (.message smuggled)) = ([], acquainted) ∧
    ∀ calls, (acquainted.callAll Suite.plain calls).keyring.find? (numbered (2 : Fin 4)).id =
      some ((numbered (2 : Fin 4)).publicKey Suite.plain) := by
  have reachable : acquainted.Reachable Suite.plain := .call lone (announced 0 2).call (.start _ _ _)
  have runs : acquainted.id = (numbered (0 : Fin 4)).id ∧
      acquainted.keyring.find? (numbered (2 : Fin 4)).id = some ((numbered (2 : Fin 4)).publicKey Suite.plain) ∧
      Wire.decode (octetsOf (.message smuggled)) = .ok (.message smuggled) ∧
      acquainted.unwrap? Suite.plain (.message smuggled) = some (octetsOf (.discovery impostor)) ∧
      Wire.decode (octetsOf (.discovery impostor)) = .ok (.discovery impostor) := by decide +kernel
  obtain ⟨own, recorded, outer, opened, inner⟩ := runs
  have holds : acquainted.Holds Suite.plain (octetsOf (.message smuggled)) (.discovery impostor) :=
    .within _ _ smuggled _ outer opened (.plain _ _ inner)
  have claims : acquainted.Claims (.discovery impostor) (numbered (2 : Fin 4)).id
      ((numbered (1 : Fin 4)).publicKey Suite.plain) := ⟨own.symm, rfl, rfl⟩
  obtain ⟨lasts, ignores⟩ := first_key_wins reachable recorded
  have ignored := ignores 0 _ _ _ holds claims (by decide)
  refine ⟨opened, Prod.ext ignored.silent ?_, lasts⟩
  rw [ignored.still nofun]

end Engine
end ZoneRouting
