import ZoneRouting.Proofs.Engine.Drops

set_option autoImplicit false

namespace ZoneRouting

theorem Route.after_index {route : Route} {id next : Identifier} {i : Nat} (loopFree : LoopFree route)
    (here : route[i]? = some id) (onward : route[i + 1]? = some next) : after? id route = some next := by
  obtain ⟨within, rfl⟩ := List.getElem?_eq_some_iff.mp here
  obtain ⟨within', rfl⟩ := List.getElem?_eq_some_iff.mp onward
  have whole : route.take i ++ route[i] :: route[i + 1] :: route.drop (i + 1 + 1) = route := by
    rw [← List.drop_eq_getElem_cons within', ← List.drop_eq_getElem_cons within, List.take_append_drop]
  have absent : route[i] ∉ route.take i := by
    intro before
    have apart := (List.nodup_append.mp (whole ▸ loopFree : (route.take i ++ _).Nodup)).2.2
    exact apart _ before _ List.mem_cons_self rfl
  have found : after? route[i] (route.take i ++ route[i] :: route[i + 1] :: route.drop (i + 1 + 1)) = some route[i + 1] :=
    after?_append _ _ absent
  rwa [whole] at found

namespace Engine

-- What comes of octets that are a message for another device, and that this one relays to the next hop. They are dropped if the
-- message goes in circles, if there is no route to the next hop, or if they cannot be sealed for it. They go to a neighbour as
-- they are, and to a device further away in a message that it opens to them.
inductive Relays (S : Suite) (now : UInt64) (e : Engine) (m : Message) (bytes : Bytes) (next : Identifier) : List Packet → Prop
  | looping (loops : ¬ Route.LoopFree m.route) : Relays S now e m bytes next []
  | unreachable (none : ∀ r ∈ e.table.book.bucket next, ¬ TimedRoute.Live now r) : Relays S now e m bytes next []
  | unsealed (route : Route) (shortest : e.table.book.Shortest now next route) (far : 2 < route.length)
      (shut : ¬ e.Sealable S next bytes.length route.length) : Relays S now e m bytes next []
  | plain (shortest : e.table.book.Shortest now next [e.id, next]) : Relays S now e m bytes next [Packet.single next bytes]
  | wrapped (first second : Identifier) (rest : List Identifier) (key : PublicKey) (outer : Message) (g : Random) (packed : Bytes)
      (shortest : e.table.book.Shortest now next (e.id :: first :: second :: rest))
      (known : e.keyring.find? next = some key)
      (sealing : Message.wrap S e.random bytes (e.id :: first :: second :: rest) key e.identity.keys = (.ok outer, g))
      (read : Wire.decode packed = .ok (.message outer))
      (opens : S.Opens → ∀ keys : KeyPair, key = keys.publicKey S →
        outer.unwrap S keys (e.identity.publicKey S) = .ok bytes) :
      Relays S now e m bytes next [Packet.single first packed]

-- Nothing but the random numbers of the device has changed, and that some routes of its zone are gone which could not be used.
structure Sheds (now : UInt64) (e e' : Engine) : Prop where
  rest : e' = { e with random := e'.random, table := { e.table with book := e'.table.book } }
  stored : ∀ d, ∀ r ∈ e'.table.book.bucket d, r ∈ e.table.book.bucket d
  kept : ∀ d, ∀ r ∈ e.table.book.bucket d, TimedRoute.Live now r → r ∈ e'.table.book.bucket d

variable {S : Suite} {now : UInt64} {e e' : Engine} {m : Message} {bytes : Bytes} {i : Nat} {next : Identifier}

theorem sheds_refl (now : UInt64) (e : Engine) : e.Sheds now e := ⟨rfl, fun _ _ member => member, fun _ _ member _ => member⟩

theorem sheds_lookup (now : UInt64) (e : Engine) (d : Identifier) :
    e.Sheds now { e with table := (e.table.lookup d now).2 } := by
  have prunes := RouteBook.prunes_lookup now e.table.book d
  exact ⟨rfl, fun _ _ member => prunes.subset member, fun _ _ member live => prunes.live member live⟩

theorem Sheds.wrap (sheds : e.Sheds now e') (S : Suite) (payload : Bytes) (route : Route) (key : PublicKey) :
    e.Sheds now (e'.wrapAlong S payload route key).2 := by
  have drawn : ∀ random, e.Sheds now { e' with random } := by
    intro random
    refine ⟨?_, sheds.stored, sheds.kept⟩
    rw [sheds.rest]
  unfold wrapAlong
  rcases Message.wrap S e'.random payload route key e'.identity.keys with ⟨fault | m, random⟩
  · exact drawn random
  · dsimp only
    cases Wire.encode (.message m) <;> exact drawn random

theorem relay_sheds (S : Suite) (now : UInt64) (m : Message) (next : Identifier) (e : Engine) :
    e.Sheds now (e.relay S now m next).2 := by
  have looked := sheds_lookup now e next
  rw [relay]
  rcases found : e.table.lookup next now with ⟨_ | route, table⟩ <;> rw [found] at looked
  · exact looked
  · dsimp only
    split
    · rename_i key bytes _ _
      split
      · exact looked
      · rename_i own first rest _
        have sealed := looked.wrap S bytes (own :: first :: rest) key
        split <;> (rename_i made; rw [made] at sealed; exact sealed)
      · exact looked
    · exact looked

theorem handle_message_sheds (S : Suite) (now : UInt64) (m : Message) (e : Engine) : e.Sheds now (e.handleMessage S now m).2 := by
  rw [handleMessage]
  split
  · split
    · exact relay_sheds S now m _ e
    · exact sheds_refl now e
  · exact sheds_refl now e

theorem relay_relays (sized : S.Sized) (orderly : e.Orderly) (clean : e.Clean) (now : UInt64) (next : Identifier)
    (written : Wire.encode (.message m) = .ok bytes) : e.Relays S now m bytes next (e.relay S now m next).1 := by
  cases found : (e.table.lookup next now).1 with
  | none =>
      have hit : (e.table.book.lookup next now).1 = none := ZoneTable.lookup_route e.table next now ▸ found
      have silent : (e.relay S now m next).1 = [] := by
        rw [relay]
        rcases looked : e.table.lookup next now with ⟨answer, table⟩
        rw [looked] at found
        cases found
        rfl
      rw [silent]
      exact .unreachable (RouteBook.lookup_none hit)
  | some route =>
      have shortest : e.table.book.Shortest now next route :=
        RouteBook.lookup_some (ZoneTable.lookup_route e.table next now ▸ found)
      obtain ⟨first, rest, key, rfl, known, result⟩ := relay_found (S := S) orderly m found
      obtain ⟨proper, _⟩ := zone_route_known orderly found
      rw [written] at result
      dsimp only at result
      rw [result]
      cases rest with
      | nil =>
          obtain rfl : first = next := Option.some.inj proper.joins.2
          exact .plain shortest
      | cons second rest =>
          rw [if_neg (List.cons_ne_nil second rest)]
          cases made : (e.wrapAlong S bytes (e.id :: first :: second :: rest) key).1 with
          | error fault =>
              refine .unsealed _ shortest (Nat.le_add_left 3 rest.length) fun able => ?_
              obtain ⟨packed, sealed⟩ := (wrap_along_ok_iff bytes _ sized known).mpr able
              cases made.symm.trans sealed
          | ok packed =>
              obtain ⟨outer, g, sealing, packing⟩ := wrap_along_made made
              obtain ⟨r, member, same, _⟩ := shortest.1
              have read := sealed_read sized sealing packing (List.cons_ne_nil _ _) (same ▸ clean.zone next r member)
              refine .wrapped first second rest key outer g packed shortest known sealing read fun opens keys own => ?_
              exact opens _ _ _ _ _ _ _ (own ▸ sealing)

theorem receive_onward (read : Wire.decode bytes = .ok (.message m)) (here : m.route[i]? = some e.id)
    (onward : m.route[i + 1]? = some next) : e.receive S now bytes = e.handleMessage S now m := by
  have closed : e.unwrap? S (.message m) = none := by
    refine Option.eq_none_iff_forall_ne_some.mpr fun inner opened => ?_
    obtain ⟨_, _, _, same, loopFree, last, _⟩ := unwrap_some_iff.mp opened
    cases same
    cases (Route.after_last loopFree last).symm.trans (Route.after_index loopFree here onward)
  rw [receive_content, content?, innermost_read S e read, closed]
  rfl

theorem message_named (checked : Wire.check (.message m) = .ok ()) : Identifier.nil ∉ m.route := by
  rw [Wire.check] at checked
  split at checked
  · cases checked
  · split at checked
    · cases checked
    · exact (Wire.check_identifiers_iff m.route).mp checked

-- Looking up a route drops those to the same device that are past their deadline, so the table may get smaller.
theorem relaying_transparent (sized : S.Sized) (reachable : e.Reachable S) (read : Wire.decode bytes = .ok (.message m))
    (here : m.route[i]? = some e.id) (onward : m.route[i + 1]? = some next) (now : UInt64) :
    e.Relays S now m bytes next (e.receive S now bytes).1 ∧ e.Sheds now (e.receive S now bytes).2 := by
  obtain ⟨checked, written⟩ := Wire.encode_of_decode read
  rw [receive_onward read here onward]
  refine ⟨?_, handle_message_sheds S now m e⟩
  rw [handleMessage]
  by_cases loopFree : Route.LoopFree m.route
  · rw [if_pos loopFree, Route.after_index loopFree here onward]
    have named : e.id ≠ Identifier.nil := fun none => message_named checked (none ▸ List.mem_of_getElem? here)
    exact relay_relays sized (reachable_orderly reachable) (reachable_clean reachable named) now next written
  · rw [if_neg loopFree]
    exact .looping loopFree

-- A message on its way to the last device, which the one that relays it knows by way of both others.
def transit : Message := { passing with route := [(numbered (1 : Fin 4)).id, (numbered (0 : Fin 4)).id, far] }

theorem relaying_transparent_surrounded :
    (∃ outer packed,
      (surrounded.receive Suite.plain 0 (octetsOf (.message transit))).1 = [Packet.single (numbered (1 : Fin 4)).id packed] ∧
      Wire.decode packed = .ok (.message outer) ∧
      outer.unwrap Suite.plain (numbered (3 : Fin 4)).keys (surrounded.identity.publicKey Suite.plain) =
        .ok (octetsOf (.message transit))) ∧
    surrounded.Sheds 0 (surrounded.receive Suite.plain 0 (octetsOf (.message transit))).2 := by
  have reachable : surrounded.Reachable Suite.plain := take_all_reachable (.start _ _ _) _
  have runs : Wire.decode (octetsOf (.message transit)) = .ok (.message transit) ∧
      transit.route[1]? = some surrounded.id ∧
      surrounded.keyring.find? far = some ((numbered (3 : Fin 4)).keys.publicKey Suite.plain) ∧
      (surrounded.receive Suite.plain 0 (octetsOf (.message transit))).1.map Packet.neighbour? =
        [some (numbered (1 : Fin 4)).id] := by decide +kernel
  obtain ⟨read, here, recorded, out⟩ := runs
  obtain ⟨relays, sheds⟩ := relaying_transparent plain_lawful.sized reachable read here rfl 0
  refine ⟨?_, sheds⟩
  generalize (surrounded.receive Suite.plain 0 (octetsOf (.message transit))).1 = packets at relays out
  cases relays with
  | looping | unreachable | unsealed => cases out
  | plain => exact absurd out (by decide)
  | wrapped first second rest key outer g packed _ known _ read opens =>
      cases known.symm.trans recorded
      cases out
      exact ⟨outer, packed, rfl, read, opens plain_usable.opens _ rfl⟩

end Engine
end ZoneRouting
