import ZoneRouting.Proofs.Engine.Parking

set_option autoImplicit false

namespace ZoneRouting.Engine

-- A reply that is made of errands and leaves the parked payloads alone.
structure Attends (S : Suite) (heard : List Bytes) (e : Engine) (reply : List Packet × Engine) : Prop where
  errands : ∀ packet ∈ reply.1, Errand S heard reply.2 packet
  parked : reply.2.parked = e.parked

variable {S : Suite} {now : UInt64} {e e' : Engine} {target : Identifier} {bytes : Bytes} {heard : List Bytes}

theorem attends_nothing (S : Suite) (heard : List Bytes) (e : Engine) : e.Attends S heard ([], e) := ⟨nofun, rfl⟩

theorem Attends.after {reply : List Packet × Engine} (attends : e'.Attends S heard reply) (parked : e'.parked = e.parked) :
    e.Attends S heard reply := ⟨attends.errands, attends.parked.trans parked⟩

theorem handle_advertisement_attends (heard : List Bytes) (now : UInt64) (a : Advertisement) (e : Engine) :
    e.Attends S heard (e.handleAdvertisement now a) := by
  unfold handleAdvertisement
  split
  · exact attends_nothing S heard e
  · dsimp only
    cases e.keyring.record a.origin a.key with
    | error fault => exact ⟨nofun, rfl⟩
    | ok ring =>
        dsimp only
        split
        · exact ⟨nofun, rfl⟩
        · cases written : Wire.encode (.advertisement { a with route := a.route ++ [e.id] }) with
          | error fault => exact ⟨nofun, rfl⟩
          | ok bytes =>
              refine ⟨fun packet sent => ?_, rfl⟩
              cases List.mem_singleton.mp sent
              exact .announcement _ bytes written

theorem forward_attends (now : UInt64) (target : Identifier) {d : Datagram} (passable : Passable S heard e d)
    (orderly : e.Orderly) : e.Attends S heard (sent (e.forward S now target d)) := by
  have settles := forward_settles S now target d e
  have ships : ∀ bytes packet, Wire.encode d = .ok bytes → (e.forward S now target d).1 = .ok packet →
      e.Ships S target bytes packet := by
    intro bytes packet written sent
    unfold forward at sent
    rw [written] at sent
    exact send_direct_ships orderly sent
  rcases passed : e.forward S now target d with ⟨fault | packet, e₁⟩ <;> rw [passed] at settles ships
  · exact ⟨nofun, settles.parked⟩
  · refine ⟨fun other sent => ?_, settles.parked⟩
    cases List.mem_singleton.mp sent
    cases written : Wire.encode d with
    | error fault =>
        unfold forward at passed
        rw [written] at passed
        cases passed
    | ok bytes =>
        exact .wrapped d target bytes packet (passable.keeps settles.keeps) written
          ((ships bytes packet written rfl).keeps settles.keeps)

theorem answer_attends (heard : List Bytes) (now : UInt64) (d : Discovery) (orderly : e.Orderly) :
    e.Attends S heard (e.answer S now d) := by
  unfold answer
  split
  · rename_i requester previous first _
    cases recorded : e.keyring.record requester d.origin with
    | error fault => exact attends_nothing S heard e
    | ok ring =>
        have ready := orderly_change (Change.answer (S := S) now d requester ring first recorded) orderly
        dsimp only
        exact (forward_attends now previous (.acknowledgement _) ready).after rfl
  · exact attends_nothing S heard e

theorem spread_attends (heard : List Bytes) (now : UInt64) (d : Discovery) (orderly : e.Orderly) :
    e.Attends S heard (e.spread S now d) := by
  have swept := settles_border_nodes now e (d.covered ++ d.route)
  unfold spread
  split
  · exact attends_nothing S heard e
  · rcases found : e.borderNodes now (d.covered ++ d.route) with ⟨targets, e₁⟩
    rw [found] at swept
    cases targets with
    | nil => exact ⟨nofun, swept.parked⟩
    | cons target targets =>
        dsimp only
        split
        · exact ⟨nofun, swept.parked⟩
        · rename_i bytes written
          have settles := send_each_settles S now bytes (target :: targets) e₁
          have errands : ∀ packet ∈ (e₁.sendEach S now bytes (target :: targets)).1, Errand S heard e₁ packet :=
            send_each_errands now (.discovery _) written (target :: targets) (orderly_settles orderly swept)
          exact ⟨fun packet sent => (errands packet sent).keeps settles.keeps, settles.parked.trans swept.parked⟩

theorem handle_discovery_attends (heard : List Bytes) (now : UInt64) (d : Discovery) (orderly : e.Orderly) :
    e.Attends S heard (e.handleDiscovery S now d) := by
  unfold handleDiscovery
  split
  · exact attends_nothing S heard e
  · split
    · exact answer_attends heard now d orderly
    · have looked := settles_lookup now e d.destination
      dsimp only
      rcases found : e.table.lookup d.destination now with ⟨_ | route, table⟩ <;> rw [found] at looked
      · exact (spread_attends heard now _ (orderly_settles orderly looked)).after looked.parked
      · have passable : Passable S heard { e with table } (.discovery { d with route := d.route ++ [e.id] }) := .discovery _
        have settles := forward_settles S now d.destination (.discovery { d with route := d.route ++ [e.id] }) { e with table }
        have attends := forward_attends now d.destination passable (orderly_settles orderly looked)
        dsimp only
        split <;> (rename_i same; rw [same] at settles attends)
        · exact attends.after looked.parked
        · have tried := looked.trans settles
          exact (spread_attends heard now _ (orderly_settles orderly tried)).after tried.parked

theorem relay_attends (now : UInt64) {m : Message} (passable : Passable S heard e (.message m)) (next : Identifier)
    (orderly : e.Orderly) : e.Attends S heard (e.relay S now m next) := by
  have looked := settles_lookup now e next
  unfold relay
  rcases found : e.table.lookup next now with ⟨_ | route, table⟩ <;> rw [found] at looked
  · exact ⟨nofun, looked.parked⟩
  · have proper := (zone_route_known orderly (congrArg Prod.fst found)).1
    obtain ⟨first, rest, rfl⟩ := proper.hops
    dsimp only
    split
    · rename_i key bytes known written
      split
      · refine ⟨fun packet sent => ?_, rfl⟩
        cases List.mem_singleton.mp sent
        exact .plain m next bytes (passable.keeps looked.keeps) written
      · rename_i own first rest _ hops
        cases hops
        have settles := wrap_along_settles S now bytes (e.id :: first :: rest) key { e with table }
        have wraps : ∀ outer, (Engine.wrapAlong S bytes (e.id :: first :: rest) key { e with table }).1 = .ok outer →
            Wraps S { e with table } next bytes (e.id :: first :: rest) outer := fun _ => wrap_along_wraps proper known
        split <;> (rename_i made; rw [made] at settles wraps)
        · rename_i outer e₁
          refine ⟨fun packet sent => ?_, settles.parked⟩
          cases List.mem_singleton.mp sent
          have ships : Ships S { e with table } next bytes (Packet.single first outer) :=
            ⟨first, rest, outer, rfl, wraps outer rfl⟩
          have carried := passable.keeps (looked.trans settles).keeps
          exact .wrapped (.message m) next bytes _ carried written (ships.keeps settles.keeps)
        · exact ⟨nofun, settles.parked⟩
      · exact ⟨nofun, rfl⟩
    · exact ⟨nofun, rfl⟩

theorem handle_message_attends (now : UInt64) {m : Message} (passable : Passable S heard e (.message m))
    (orderly : e.Orderly) : e.Attends S heard (e.handleMessage S now m) := by
  unfold handleMessage
  split
  · split
    · exact relay_attends now passable _ orderly
    · exact attends_nothing S heard e
  · exact attends_nothing S heard e

theorem receive_cases (S : Suite) (now : UInt64) (bytes : Bytes) (orderly : e.Orderly) :
    e.Attends S [bytes] (e.receive S now bytes) ∨
      ∃ a target ring, e.content? S bytes = some (.datagram (.acknowledgement a)) ∧ e.Accepts S a target ring ∧
        ∃ labels sent kept, Ledger S [bytes] now (e.accepted now a target ring) target (e.parkedFor target) labels sent kept
          (e.receive S now bytes) := by
  rw [receive_content]
  rcases found : e.content? S bytes with _ | payload | d
  · exact Or.inl (attends_nothing S _ e)
  · exact Or.inl ⟨nofun, rfl⟩
  · cases d with
    | advertisement a => exact Or.inl (handle_advertisement_attends _ now a e)
    | discovery d => exact Or.inl (handle_discovery_attends _ now d orderly)
    | failure _ => exact Or.inl (attends_nothing S _ e)
    | message m =>
        have passable : Passable S [bytes] e (.message m) := .message m bytes List.mem_cons_self e (keeps_refl e) found
        exact Or.inl (handle_message_attends now passable orderly)
    | acknowledgement a =>
        dsimp only [handle]
        rcases acknowledgement_cases S now a e with ⟨target, ring, accepts, taken⟩ | ⟨previous, _, passed⟩ | dropped
        · obtain ⟨labels, sent, kept, ledger⟩ := route_all_ledger (S := S) now target [bytes]
            (e.parkedFor target) (orderly_accepted orderly now accepts) (orderly.untagged target)
          rw [taken]
          exact Or.inr ⟨a, target, ring, rfl, accepts, labels, sent, kept, ledger⟩
        · rw [passed]
          exact Or.inl (forward_attends now previous (.acknowledgement a) orderly)
        · rw [dropped]
          exact Or.inl (attends_nothing S _ e)

end ZoneRouting.Engine
