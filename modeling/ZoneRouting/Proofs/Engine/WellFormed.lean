import ZoneRouting.Proofs.Engine.Learning

set_option autoImplicit false

namespace ZoneRouting

theorem Wire.check_identifiers_iff (ids : List Identifier) :
    checkIdentifiers ids = .ok () ↔ Identifier.nil ∉ ids := by
  have named : ids.any Identifier.isNil = true ↔ Identifier.nil ∈ ids := by
    simp [Identifier.isNil]
  rw [checkIdentifiers, ← named]
  split <;> simp_all

-- What a device may put into the air: for everybody, an announcement that has come from its origin to this device
-- without a loop; for one neighbour, a message along a loop-free route on which that neighbour comes next.
def WellFormed (id : Identifier) (packet : Packet) : Prop :=
  match packet.target with
  | .broadcast => ∃ a, Wire.decode packet.payload = .ok (.advertisement a) ∧ (a.origin :: a.route).Nodup ∧
      (a.route = [] ∧ a.origin = id ∨ a.route.getLast? = some id)
  | .single next => ∃ m before rest, Wire.decode packet.payload = .ok (.message m) ∧ Route.LoopFree m.route ∧
      m.route = before ++ id :: next :: rest

theorem WellFormed.away {id : Identifier} {packet : Packet} (formed : WellFormed id packet) : packet.target ≠ .single id := by
  intro own
  rw [WellFormed, own] at formed
  obtain ⟨m, before, rest, _, loopFree, hops⟩ := formed
  rw [hops] at loopFree
  exact (List.nodup_cons.mp (List.nodup_append.mp loopFree).2.1).1 List.mem_cons_self

namespace Engine

variable {S : Suite} {now : UInt64} {e : Engine} {target : Identifier} {payload bytes : Bytes} {packet : Packet}

-- No route inside the zone leads through the identifier that no device has.
def Clean (e : Engine) : Prop := e.Knows (fun _ route => Identifier.nil ∉ route) fun _ _ => True

theorem announced_clean (named : e.id ≠ Identifier.nil) {d : Datagram} (content : e.content? S bytes = some (.datagram d))
    {id : Identifier} {route : Route} (announces : e.Announces d id route) : Identifier.nil ∉ route := by
  cases announces with
  | announcement a fresh =>
      have checked := (Wire.check_identifiers_iff _).mp (content_checked content)
      simp only [ZoneTable.routeTo, List.mem_append, List.mem_reverse, List.mem_singleton]
      rintro ((inside | own) | origin)
      · exact checked (List.mem_cons_of_mem _ inside)
      · exact named own.symm
      · exact checked (origin ▸ List.mem_cons_self)

theorem found_clean (named : e.id ≠ Identifier.nil) {d : Datagram} (content : e.content? S bytes = some (.datagram d))
    {id : Identifier} {route : Route} (finds : e.Finds S d id route) : Identifier.nil ∉ route := by
  have checked := content_checked content
  cases finds with
  | asked d requester own first loopFree =>
      have some : d.route ≠ [] := by
        rintro none
        simp [Discovery.requester?, none] at first
      rw [Wire.check, if_neg some, Wire.check_identifiers_iff] at checked
      simp only [List.mem_append, List.mem_cons, not_or] at checked
      simp only [List.mem_reverse, List.mem_append, List.mem_singleton, not_or]
      exact ⟨checked.1.2, Ne.symm named⟩
  | answered a target ring accepts =>
      rw [Wire.check] at checked
      split at checked
      · cases checked
      · exact (Wire.check_identifiers_iff a.route).mp checked

theorem reachable_named (reachable : e.Reachable S) (named : e.id ≠ Identifier.nil) :
    e.Knows (fun _ route => Identifier.nil ∉ route) fun _ route => Identifier.nil ∉ route := by
  induction reachable with
  | start settings identity random => exact start_knows S settings identity random
  | call e c reachable clean =>
      have orderly := reachable_orderly reachable
      rw [(changes_keeps (call_changes (S := S) orderly c)).id] at named
      exact call_knows orderly c (clean named) fun now bytes d _ content =>
        ⟨fun _ _ => announced_clean named content, fun _ _ => found_clean named content⟩

theorem reachable_clean (reachable : e.Reachable S) (named : e.id ≠ Identifier.nil) : e.Clean :=
  ⟨(reachable_named reachable named).zone, fun _ _ _ => trivial⟩

theorem sealed_read (sized : S.Sized) {g g' : Random} {route : Route} {key : PublicKey} {sender : KeyPair} {m : Message}
    (sealing : Message.wrap S g payload route key sender = (.ok m, g')) (written : Wire.encode (.message m) = .ok bytes)
    (some : route ≠ []) (clean : Identifier.nil ∉ route) : Wire.decode bytes = .ok (.message m) := by
  obtain ⟨shared, _, rfl, _, signature⟩ := wrap_ok sealing
  have length : m.signature.length = Wire.signatureLength := by
    rw [signature, KeyPair.sign, sized.length_sign]
    rfl
  refine (Wire.decode_ok_iff _ _).mpr ⟨?_, written⟩
  rw [Wire.check, if_neg some, if_neg (not_not_intro length)]
  exact (Wire.check_identifiers_iff m.route).mpr clean

theorem Wraps.read (sized : S.Sized) {route : Route} (wraps : e.Wraps S target payload route bytes)
    (clean : Identifier.nil ∉ route) : ∃ m, Wire.decode bytes = .ok (.message m) ∧ m.route = route := by
  obtain ⟨key, g, g', m, _, sealing, written⟩ := wraps.made
  have some : route ≠ [] := List.ne_nil_of_length_pos (Nat.lt_of_lt_of_le Nat.zero_lt_two wraps.proper.long)
  obtain ⟨_, _, along, _⟩ := wrap_ok sealing
  exact ⟨m, sealed_read sized sealing written some clean, along⟩

theorem Mails.well_formed (sized : S.Sized) {book : RouteBook} (clean : book.All fun _ route => Identifier.nil ∉ route)
    (mails : e.Mails S book target payload packet) : WellFormed e.id packet := by
  obtain ⟨next, rest, bytes, rfl, known, wraps⟩ := mails
  obtain ⟨r, member, same⟩ := List.mem_map.mp known
  obtain ⟨m, read, along⟩ := wraps.read sized (same ▸ clean target r member)
  exact ⟨m, [], rest, read, along ▸ wraps.proper.loopFree, along⟩

theorem Launches.well_formed {after : Engine} (sized : S.Sized) (clean : e.Clean) (launches : Launches S e after packet) :
    WellFormed after.id packet := by
  cases launches with
  | payload _ _ _ mails | layered _ _ _ _ _ _ _ mails => exact mails.well_formed sized clean.zone
  | query _ _ _ _ passes =>
      obtain ⟨_, _, _, _, mails⟩ := passes
      exact mails.well_formed sized clean.zone

theorem advertise_well_formed (named : e.id ≠ Identifier.nil) (made : e.advertise = .ok packet) : WellFormed e.id packet := by
  obtain ⟨bytes, rfl, written⟩ := advertise_written made
  refine ⟨_, (Wire.decode_ok_iff _ _).mpr ⟨?_, written⟩, List.nodup_singleton _, Or.inl ⟨rfl, rfl⟩⟩
  exact (Wire.check_identifiers_iff [e.id]).mpr fun own => named (List.mem_singleton.mp own).symm

theorem announcement_well_formed (named : e.id ≠ Identifier.nil) {a : Advertisement}
    (checked : Wire.check (.advertisement a) = .ok ())
    (fresh : ¬ (a.origin = e.id ∨ e.id ∈ a.route ∨ a.origin ∈ a.route ∨ ¬ Route.LoopFree a.route))
    (written : Wire.encode (.advertisement { a with route := a.route ++ [e.id] }) = .ok bytes) :
    WellFormed e.id (Packet.broadcast bytes) := by
  obtain ⟨foreign, absent, once, loopFree⟩ : a.origin ≠ e.id ∧ e.id ∉ a.route ∧ a.origin ∉ a.route ∧ Route.LoopFree a.route := by
    simpa only [not_or, not_not] using fresh
  have clean := (Wire.check_identifiers_iff _).mp checked
  refine ⟨_, (Wire.decode_ok_iff _ _).mpr ⟨?_, written⟩, ?_, Or.inr List.getLast?_concat⟩
  · refine (Wire.check_identifiers_iff (a.origin :: (a.route ++ [e.id]))).mpr fun inside => ?_
    rcases List.mem_append.mp (List.cons_append ▸ inside : Identifier.nil ∈ (a.origin :: a.route) ++ [e.id]) with before | own
    · exact clean before
    · exact named (List.mem_singleton.mp own).symm
  · refine List.nodup_cons.mpr ⟨fun inside => ?_, Route.loop_free_append loopFree absent⟩
    rcases List.mem_append.mp inside with before | own
    · exact once before
    · exact foreign (List.mem_singleton.mp own)

theorem relayed_well_formed {m : Message} {next : Identifier} (checked : Wire.check (.message m) = .ok ())
    (loopFree : Route.LoopFree m.route) (onward : Route.after? e.id m.route = some next)
    (written : Wire.encode (.message m) = .ok bytes) : WellFormed e.id (Packet.single next bytes) := by
  obtain ⟨before, rest, hops⟩ := Route.exists_append_of_after? onward
  exact ⟨m, before, rest, (Wire.decode_ok_iff _ _).mpr ⟨checked, written⟩, loopFree, hops⟩

theorem Emits.well_formed {after : Engine} {d : Datagram} (sized : S.Sized) (named : e.id ≠ Identifier.nil) (clean : e.Clean)
    (keeps : e.Keeps after) (checked : Wire.check d = .ok ()) (emits : Emits S now e after d packet) :
    WellFormed e.id packet := by
  have mailed : ∀ {target : Identifier} {bytes : Bytes}, after.Mails S e.table.book target bytes packet →
      WellFormed e.id packet := fun mails => keeps.id ▸ mails.well_formed sized clean.zone
  cases emits with
  | announcement a bytes fresh inside written => exact announcement_well_formed named checked fresh written
  | passed d p packet passage passes =>
      obtain ⟨_, _, _, _, mails⟩ := passes
      exact mailed mails
  | answer _ _ _ _ _ _ _ _ _ _ mails | walked _ _ _ _ _ mails | wrapped _ _ _ _ _ _ _ mails => exact mailed mails
  | flushed a packet launches => exact keeps.id ▸ launches.well_formed sized clean
  | relayed m next bytes loopFree onward written => exact relayed_well_formed checked loopFree onward written

theorem receive_well_formed (sized : S.Sized) (reachable : e.Reachable S) (named : e.id ≠ Identifier.nil) (now : UInt64)
    (bytes : Bytes) : ∀ packet ∈ (e.receive S now bytes).1, WellFormed e.id packet := by
  have orderly := reachable_orderly reachable
  intro packet member
  obtain ⟨d, content, emits⟩ := receive_emits now bytes orderly packet member
  exact emits.well_formed sized named (reachable_clean reachable named)
    (changes_keeps (receive_changes (S := S) orderly now bytes)) (content_checked content)

-- A device without a name could put the identifier that no device has on a route.
theorem emissions_well_formed (sized : S.Sized) (reachable : e.Reachable S) (named : e.id ≠ Identifier.nil) :
    (∀ packet, e.advertise = .ok packet → WellFormed e.id packet) ∧
    (∀ now bytes, ∀ packet ∈ (e.receive S now bytes).1, WellFormed e.id packet) ∧
    (∀ now target packets, (e.discover S now target).1 = .ok packets → ∀ packet ∈ packets, WellFormed e.id packet) ∧
    ∀ now target payload, ∃ packets, (e.send S now target payload).2.outgoing = e.outgoing ++ packets ∧
      ∀ packet ∈ packets, WellFormed e.id packet := by
  have orderly := reachable_orderly reachable
  have clean := reachable_clean reachable named
  refine ⟨fun packet => advertise_well_formed named, receive_well_formed sized reachable named,
    fun now target packets searched packet member => ?_, fun now target payload => ?_⟩
  · obtain ⟨_, _, _, _, mails⟩ := discover_passes orderly searched packet member
    exact mails.well_formed sized clean.zone
  · obtain ⟨packets, outgoing, launches⟩ := send_launches (S := S) now target payload orderly
    have keeps := changes_keeps (send_changes (S := S) now target payload e)
    exact ⟨packets, outgoing, fun packet member => keeps.id ▸ (launches packet member).well_formed sized clean⟩

def acquainted : Engine := (lone.take Suite.plain (announced 0 2)).2

theorem emissions_well_formed_acquainted :
    (acquainted.take Suite.plain (announced 0 1)).1 ≠ [] ∧
    (∀ packet ∈ (acquainted.take Suite.plain (announced 0 1)).1, WellFormed acquainted.id packet) ∧
    ∃ packets ≠ [], (acquainted.send Suite.plain 0 (numbered (2 : Fin 4)).id [1, 2, 3]).2.outgoing = packets ∧
      ∀ packet ∈ packets, WellFormed acquainted.id packet := by
  have reachable : acquainted.Reachable Suite.plain := .call lone (announced 0 2).call (.start _ _ _)
  have runs : acquainted.id ≠ Identifier.nil ∧ acquainted.outgoing = [] ∧
      (acquainted.take Suite.plain (announced 0 1)).1 ≠ [] ∧
      (acquainted.send Suite.plain 0 (numbered (2 : Fin 4)).id [1, 2, 3]).2.outgoing ≠ [] := by decide +kernel
  obtain ⟨named, idle, some, some'⟩ := runs
  obtain ⟨_, received, _, sent⟩ := emissions_well_formed plain_lawful.sized reachable named
  obtain ⟨packets, outgoing, formed⟩ := sent 0 (numbered (2 : Fin 4)).id [1, 2, 3]
  rw [idle, List.nil_append] at outgoing
  exact ⟨some, received 0 _, packets, outgoing ▸ some', outgoing, formed⟩

end Engine
end ZoneRouting
