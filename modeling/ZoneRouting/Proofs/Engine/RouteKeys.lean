import ZoneRouting.Proofs.Engine.RoutingState

set_option autoImplicit false

namespace ZoneRouting

theorem KeyPair.shared_key_fault {S : Suite} {keys : KeyPair} {peer : PublicKey} {fault : Fault}
    (failed : keys.sharedKey S peer = .error fault) : fault = .crypto .lowOrderKey := by
  rw [sharedKey] at failed
  split at failed
  · exact (Except.error.inj failed).symm
  · cases failed

namespace Engine

variable {S : Suite} {now : UInt64} {e e₀ : Engine} {target next : Identifier} {payload : Bytes} {route : Route}
  {key : PublicKey} {fault : Fault}

theorem wrap_along_fault (failed : (e.wrapAlong S payload route key).1 = .error fault) :
    fault = .crypto .lowOrderKey ∨ ∃ reason, fault = .wire reason := by
  rw [wrap_along_result, Message.wrap] at failed
  cases agreed : e.identity.keys.sharedKey S key with
  | error reason =>
      rw [agreed] at failed
      cases failed
      exact Or.inl (KeyPair.shared_key_fault agreed)
  | ok shared =>
      rw [agreed] at failed
      dsimp only at failed
      split at failed
      · rename_i reason _
        exact Or.inr ⟨reason, (Except.error.inj failed).symm⟩
      · cases failed

theorem wrap_along_keyed (id : Identifier) : (e.wrapAlong S payload route key).1 ≠ .error (.targetKeyUnknown id) := by
  intro failed
  rcases wrap_along_fault failed with same | ⟨reason, same⟩ <;> cases same

theorem send_direct_keyed (orderly : e.Orderly) (id : Identifier) :
    (e.sendDirect S now target payload).1 ≠ .error (.targetKeyUnknown id) := by
  intro failed
  cases found : (e.table.lookup target now).1 with
  | none =>
      rw [send_direct_missing found] at failed
      cases failed
  | some route =>
      obtain ⟨next, rest, key, rfl, _, _, result⟩ := send_direct_found orderly found
      rw [result] at failed
      cases sealing : (e.wrapAlong S payload (e.id :: next :: rest) key).1 with
      | ok bytes =>
          rw [sealing] at failed
          cases failed
      | error fault =>
          rw [sealing] at failed
          cases failed
          exact wrap_along_keyed id sealing

theorem send_inter_zone_keyed (orderly : e.Orderly) (id : Identifier) :
    (e.sendInterZone S now target payload).1 ≠ .error (.targetKeyUnknown id) := by
  intro failed
  cases found : (e.cache.lookup target now).1 with
  | none =>
      rw [send_inter_zone_missing found] at failed
      cases failed
  | some route =>
      obtain ⟨border, rest, key, rfl, _, _, ⟨fault, sealing, result⟩ | ⟨inner, e₁, _, settles, result⟩⟩ :=
        send_inter_zone_found S payload orderly found
      · cases result.symm.trans failed
        exact wrap_along_keyed id sealing
      · rw [result] at failed
        exact send_direct_keyed (orderly_settles orderly settles) id failed

theorem relay_found (orderly : e.Orderly) (m : Message) (found : (e.table.lookup next now).1 = some route) :
    ∃ first rest key, route = e.id :: first :: rest ∧ e.keyring.find? next = some key ∧
      (e.relay S now m next).1 = match Wire.encode (.message m) with
        | .error _ => []
        | .ok bytes =>
          if rest = [] then [Packet.single next bytes]
          else posted ((e.wrapAlong S bytes route key).1.map fun outer => [Packet.single first outer]) := by
  obtain ⟨proper, key, known⟩ := zone_route_known orderly found
  obtain ⟨first, rest, rfl⟩ := proper.hops
  refine ⟨first, rest, key, rfl, known, ?_⟩
  rw [relay]
  rcases looked : e.table.lookup next now with ⟨answer, table⟩
  rw [looked] at found
  cases found
  dsimp only
  rw [known]
  cases Wire.encode (.message m) with
  | error fault => rfl
  | ok bytes =>
      dsimp only
      cases rest with
      | nil => rfl
      | cons second rest =>
          have still := wrap_along_result S bytes (e.id :: first :: second :: rest) key { e with table }
          rw [← wrap_along_result S bytes (e.id :: first :: second :: rest) key e] at still
          rw [if_neg (List.cons_ne_nil second rest), ← still]
          dsimp only
          rcases Engine.wrapAlong S bytes (e.id :: first :: second :: rest) key { e with table } with ⟨_ | outer, e₁⟩ <;> rfl

theorem relay_dropped_iff (orderly : e.Orderly) (m : Message) (found : (e.table.lookup next now).1 = some route) :
    ∃ key, e.keyring.find? next = some key ∧
      ((e.relay S now m next).1 = [] ↔ (∃ fault, Wire.encode (.message m) = .error fault) ∨
        2 < route.length ∧ ∃ bytes fault, Wire.encode (.message m) = .ok bytes ∧
          (e.wrapAlong S bytes route key).1 = .error fault) := by
  obtain ⟨first, rest, key, rfl, known, result⟩ := relay_found (S := S) orderly m found
  refine ⟨key, known, ?_⟩
  rw [result]
  cases written : Wire.encode (.message m) with
  | error fault => simp
  | ok bytes =>
      cases rest with
      | nil => simp
      | cons second rest =>
          cases sealing : (e.wrapAlong S bytes (e.id :: first :: second :: rest) key).1 with
          | error fault => simp [sealing, posted, Except.map]
          | ok outer => simp [sealing, posted, Except.map]

-- The key of a device is recorded with the first route to it, and stays when the routes are gone.
theorem routes_keyed (reachable : e₀.Reachable S) (changes : Changes S e₀ e) :
    (∀ d routes, e.table.book.buckets.find? d = some routes ∨ e.cache.book.buckets.find? d = some routes →
      ∃ key, e.keyring.find? d = some key) ∧
    (∀ now target payload id, (e.sendDirect S now target payload).1 ≠ .error (.targetKeyUnknown id)) ∧
    (∀ now target payload id, (e.sendInterZone S now target payload).1 ≠ .error (.targetKeyUnknown id)) ∧
    ∀ now m next route, Route.LoopFree m.route → Route.after? e.id m.route = some next →
      (e.table.lookup next now).1 = some route → ∃ key, e.keyring.find? next = some key ∧
        ((e.handleMessage S now m).1 = [] ↔ (∃ fault, Wire.encode (.message m) = .error fault) ∨
          2 < route.length ∧ ∃ bytes fault, Wire.encode (.message m) = .ok bytes ∧
            (e.wrapAlong S bytes route key).1 = .error fault) := by
  have orderly := orderly_changes changes (reachable_orderly reachable)
  have tidy := changes_tidy changes (reachable_tidy reachable)
  refine ⟨fun d routes entry => ?_, fun now target payload => send_direct_keyed orderly,
    fun now target payload => send_inter_zone_keyed orderly, fun now m next route loopFree onward found => ?_⟩
  · rcases entry with zone | discovered
    · exact orderly.zoneKeys d (tidy.zone.entered zone)
    · exact orderly.discoveredKeys d (tidy.discovered.entered discovered)
  · rw [handleMessage, if_pos loopFree, onward]
    exact relay_dropped_iff orderly m found

-- A neighbour announces itself, and another one passes it on with a key of their own.
def forged (now : UInt64) (u : Fin 4) : Input :=
  .receive now (octetsOf (.advertisement
    { origin := (numbered u).id, key := (numbered (1 : Fin 4)).publicKey Suite.plain, route := [(numbered (1 : Fin 4)).id],
      interval := 100000 }))

-- A device that has heard both: it keeps the forged route, but not the forged key.
def contested : Engine := (lone.takeAll Suite.plain [announced 0 2, forged 0 2]).2

def passing : Message where
  route := [(numbered (1 : Fin 4)).id, (numbered (0 : Fin 4)).id, (numbered (2 : Fin 4)).id]
  payload := []
  signature := List.replicate 64 0

theorem routes_keyed_contested :
    contested.table.book.hopsTo (numbered (2 : Fin 4)).id =
      [[(numbered (0 : Fin 4)).id, (numbered (2 : Fin 4)).id],
        [(numbered (0 : Fin 4)).id, (numbered (1 : Fin 4)).id, (numbered (2 : Fin 4)).id]] ∧
    (∃ key, contested.keyring.find? (numbered (2 : Fin 4)).id = some key) ∧
    (contested.sendDirect Suite.plain 0 (numbered (2 : Fin 4)).id [1, 2, 3]).1 ≠
      .error (.targetKeyUnknown (numbered (2 : Fin 4)).id) ∧
    (contested.handleMessage Suite.plain 0 passing).1 ≠ [] := by
  have reachable : lone.Reachable Suite.plain := .start _ _ _
  have changes : Changes Suite.plain lone contested := take_all_changes (reachable_orderly reachable) _
  have runs : contested.id = (numbered (0 : Fin 4)).id ∧
      contested.table.book.hopsTo (numbered (2 : Fin 4)).id =
        [[(numbered (0 : Fin 4)).id, (numbered (2 : Fin 4)).id],
          [(numbered (0 : Fin 4)).id, (numbered (1 : Fin 4)).id, (numbered (2 : Fin 4)).id]] ∧
      (contested.table.lookup (numbered (2 : Fin 4)).id 0).1 =
        some [(numbered (0 : Fin 4)).id, (numbered (2 : Fin 4)).id] ∧
      (Wire.encode (.message passing)).isOk = true := by decide +kernel
  obtain ⟨own, routes, found, written⟩ := runs
  obtain ⟨_, direct, _, relays⟩ := routes_keyed reachable changes
  obtain ⟨key, known, dropped⟩ := relays 0 passing _ _ (by decide) (own ▸ rfl) found
  refine ⟨routes, ⟨key, known⟩, direct 0 _ _ _, fun silent => ?_⟩
  rcases dropped.mp silent with ⟨fault, failed⟩ | ⟨long, _⟩
  · rw [failed] at written
    cases written
  · exact absurd long (by decide)

end Engine
end ZoneRouting
