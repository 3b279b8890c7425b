import ZoneRouting.Proofs.Engine.States
import ZoneRouting.Proofs.Size

set_option autoImplicit false

namespace ZoneRouting.Engine

-- The octets are a message that seals a payload for a device, along a route to it and under its recorded key.
structure Wraps (S : Suite) (e : Engine) (target : Identifier) (payload : Bytes) (route : Route) (bytes : Bytes) : Prop where
  proper : Route.Proper e.id target route
  made : ∃ key g g' m, e.keyring.find? target = some key ∧
    Message.wrap S g payload route key e.identity.keys = (.ok m, g') ∧ Wire.encode (.message m) = .ok bytes

def Ships (S : Suite) (e : Engine) (target : Identifier) (payload : Bytes) (packet : Packet) : Prop :=
  ∃ next rest bytes, packet = Packet.single next bytes ∧ e.Wraps S target payload (e.id :: next :: rest) bytes

-- The packet takes a payload to a device, sealed once or, beyond the zone, once more for the border node.
inductive Carries (S : Suite) (e : Engine) (target : Identifier) (payload : Bytes) (packet : Packet) : Prop
  | direct (ships : e.Ships S target payload packet)
  | layered (border : Identifier) (rest : List Identifier) (inner : Bytes)
      (wraps : e.Wraps S target payload (e.id :: border :: rest) inner) (ships : e.Ships S border inner packet)

structure Sealable (S : Suite) (e : Engine) (target : Identifier) (octets hops : Nat) : Prop where
  shared : ∃ key, e.keyring.find? target = some key ∧ S.agree e.identity.keys.exchange key.exchange ≠ Octets.zero
  fits : Message.sealedLength octets hops ≤ Wire.maxBody

def Inside (S : Suite) (now : UInt64) (e : Engine) (target : Identifier) (octets : Nat) : Prop :=
  ∃ route, (e.table.lookup target now).1 = some route ∧ e.Sealable S target octets route.length

def Beyond (S : Suite) (now : UInt64) (e : Engine) (target : Identifier) (octets : Nat) : Prop :=
  ∃ own border rest, (e.cache.lookup target now).1 = some (own :: border :: rest) ∧
    e.Sealable S target octets (own :: border :: rest).length ∧
    e.Inside S now border (Message.sealedLength octets (own :: border :: rest).length + 8)

def Open (S : Suite) (now : UInt64) (e : Engine) (target : Identifier) (octets : Nat) : Prop :=
  e.Inside S now target octets ∨ e.Beyond S now target octets

-- What a device sends besides payloads: announcements, queries, answers, and messages that it passes on.
inductive Passable (S : Suite) (heard : List Bytes) (e : Engine) : Datagram → Prop
  | discovery (d : Discovery) : Passable S heard e (.discovery d)
  | acknowledgement (a : Acknowledgement) : Passable S heard e (.acknowledgement a)
  | message (m : Message) (octets : Bytes) (member : octets ∈ heard) (before : Engine) (keeps : before.Keeps e)
      (content : before.content? S octets = some (.datagram (.message m))) : Passable S heard e (.message m)

inductive Errand (S : Suite) (heard : List Bytes) (e : Engine) : Packet → Prop
  | announcement (a : Advertisement) (bytes : Bytes) (written : Wire.encode (.advertisement a) = .ok bytes) :
      Errand S heard e (Packet.broadcast bytes)
  | plain (m : Message) (next : Identifier) (bytes : Bytes) (passable : Passable S heard e (.message m))
      (written : Wire.encode (.message m) = .ok bytes) : Errand S heard e (Packet.single next bytes)
  | wrapped (d : Datagram) (target : Identifier) (bytes : Bytes) (packet : Packet) (passable : Passable S heard e d)
      (written : Wire.encode d = .ok bytes) (ships : e.Ships S target bytes packet) : Errand S heard e packet

variable {S : Suite} {now : UInt64} {e e' : Engine} {target : Identifier} {payload bytes : Bytes} {route : Route}
  {key : PublicKey} {packet : Packet} {octets less : Nat} {heard : List Bytes}

theorem Settles.keeps (settles : e.Settles now e') : e.Keeps e' :=
  ⟨settles.identity, settles.settings, fun _ _ found => settles.keyring ▸ found⟩

theorem Settles.kept (settles : e.Settles now e') : e'.Keeps e :=
  ⟨settles.identity.symm, settles.settings.symm, fun _ _ found => settles.keyring ▸ found⟩

theorem Keeps.id (keeps : e.Keeps e') : e'.id = e.id := congrArg Identity.id keeps.identity

theorem Wraps.keeps (wraps : e.Wraps S target payload route bytes) (keeps : e.Keeps e') :
    e'.Wraps S target payload route bytes := by
  obtain ⟨proper, key, g, g', m, known, sealed, written⟩ := wraps
  refine ⟨keeps.id ▸ proper, key, g, g', m, keeps.keys _ _ known, ?_, written⟩
  rw [keeps.identity]
  exact sealed

theorem Ships.keeps (ships : e.Ships S target payload packet) (keeps : e.Keeps e') : e'.Ships S target payload packet := by
  obtain ⟨next, rest, bytes, same, wraps⟩ := ships
  refine ⟨next, rest, bytes, same, ?_⟩
  rw [keeps.id]
  exact wraps.keeps keeps

theorem Carries.keeps (carries : e.Carries S target payload packet) (keeps : e.Keeps e') :
    e'.Carries S target payload packet := by
  cases carries with
  | direct ships => exact .direct (ships.keeps keeps)
  | layered border rest inner wraps ships =>
      refine .layered border rest inner ?_ (ships.keeps keeps)
      rw [keeps.id]
      exact wraps.keeps keeps

theorem Passable.keeps {d : Datagram} (passable : Passable S heard e d) (keeps : e.Keeps e') : Passable S heard e' d := by
  cases passable with
  | discovery d => exact .discovery d
  | acknowledgement a => exact .acknowledgement a
  | message m octets member before earlier content => exact .message m octets member before (earlier.trans keeps) content

theorem Errand.keeps (errand : Errand S heard e packet) (keeps : e.Keeps e') : Errand S heard e' packet := by
  cases errand with
  | announcement a bytes written => exact .announcement a bytes written
  | plain m next bytes passable written => exact .plain m next bytes (passable.keeps keeps) written
  | wrapped d target bytes _ passable written ships =>
      exact .wrapped d target bytes packet (passable.keeps keeps) written (ships.keeps keeps)

theorem Errand.more {more : List Bytes} (errand : Errand S heard e packet) (subset : ∀ b ∈ heard, b ∈ more) :
    Errand S more e packet := by
  have passes : ∀ {d : Datagram}, Passable S heard e d → Passable S more e d := by
    intro d passable
    cases passable with
    | discovery d => exact .discovery d
    | acknowledgement a => exact .acknowledgement a
    | message m octets member before keeps content => exact .message m octets (subset _ member) before keeps content
  cases errand with
  | announcement a bytes written => exact .announcement a bytes written
  | plain m next bytes passable written => exact .plain m next bytes (passes passable) written
  | wrapped d target bytes _ passable written ships => exact .wrapped d target bytes packet (passes passable) written ships

theorem Sealable.keeps {hops : Nat} (able : e.Sealable S target octets hops) (keeps : e.Keeps e') :
    e'.Sealable S target octets hops := by
  obtain ⟨⟨key, known, shared⟩, fits⟩ := able
  exact ⟨⟨key, keeps.keys _ _ known, keeps.identity ▸ shared⟩, fits⟩

theorem inside_congr (keeps : e.Keeps e') (kept : e'.Keeps e)
    (zone : ∀ d, (e'.table.lookup d now).1 = (e.table.lookup d now).1) :
    e'.Inside S now target octets ↔ e.Inside S now target octets := by
  unfold Inside
  rw [zone target]
  exact exists_congr fun _ => and_congr_right fun _ => ⟨fun able => able.keeps kept, fun able => able.keeps keeps⟩

theorem open_congr (keeps : e.Keeps e') (kept : e'.Keeps e)
    (zone : ∀ d, (e'.table.lookup d now).1 = (e.table.lookup d now).1)
    (cached : ∀ d, (e'.cache.lookup d now).1 = (e.cache.lookup d now).1) :
    e'.Open S now target octets ↔ e.Open S now target octets := by
  unfold Open Beyond
  rw [cached target, inside_congr keeps kept zone]
  refine or_congr_right (exists_congr fun own => exists_congr fun border => exists_congr fun rest => and_congr_right fun _ => ?_)
  rw [inside_congr keeps kept zone]
  exact and_congr_left fun _ => ⟨fun able => able.keeps kept, fun able => able.keeps keeps⟩

theorem sealed_length_mono {octets octets' hops hops' : Nat} (less : octets ≤ octets') (shorter : hops ≤ hops') :
    Message.sealedLength octets hops ≤ Message.sealedLength octets' hops' := by
  unfold Message.sealedLength
  omega

theorem Sealable.mono {octets' hops hops' : Nat} (able : e.Sealable S target octets' hops') (less : octets ≤ octets')
    (shorter : hops ≤ hops') : e.Sealable S target octets hops :=
  ⟨able.shared, Nat.le_trans (sealed_length_mono less shorter) able.fits⟩

theorem Inside.mono {octets' : Nat} (inside : e.Inside S now target octets') (less : octets ≤ octets') :
    e.Inside S now target octets := by
  obtain ⟨route, found, able⟩ := inside
  exact ⟨route, found, able.mono less (Nat.le_refl _)⟩

theorem Open.mono {octets' : Nat} (sendable : e.Open S now target octets') (less : octets ≤ octets') :
    e.Open S now target octets := by
  rcases sendable with inside | ⟨own, border, rest, found, able, inside⟩
  · exact Or.inl (inside.mono less)
  · have wrapped := Nat.add_le_add_right (sealed_length_mono less (Nat.le_refl (own :: border :: rest).length)) 8
    exact Or.inr ⟨own, border, rest, found, able.mono less (Nat.le_refl _), inside.mono wrapped⟩

theorem wrap_along_result (S : Suite) (payload : Bytes) (route : Route) (key : PublicKey) (e : Engine) :
    (e.wrapAlong S payload route key).1 = match (Message.wrap S e.random payload route key e.identity.keys).1 with
      | .error fault => .error fault
      | .ok m => match Wire.encode (.message m) with
        | .error fault => .error (.wire fault)
        | .ok bytes => .ok bytes := by
  unfold wrapAlong
  rcases Message.wrap S e.random payload route key e.identity.keys with ⟨fault | m, random⟩
  · rfl
  · dsimp only
    cases Wire.encode (.message m) <;> rfl

theorem wrap_along_made (made : (e.wrapAlong S payload route key).1 = .ok bytes) :
    ∃ m g, Message.wrap S e.random payload route key e.identity.keys = (.ok m, g) ∧ Wire.encode (.message m) = .ok bytes := by
  rw [wrap_along_result] at made
  rcases sealing : Message.wrap S e.random payload route key e.identity.keys with ⟨fault | m, g⟩ <;> rw [sealing] at made
  · cases made
  · refine ⟨m, g, rfl, ?_⟩
    dsimp only at made
    cases written : Wire.encode (.message m) with
    | error fault =>
        rw [written] at made
        cases made
    | ok octets =>
        rw [written] at made
        cases made
        rfl

theorem wrap_along_wraps (proper : Route.Proper e.id target route) (known : e.keyring.find? target = some key)
    (made : (e.wrapAlong S payload route key).1 = .ok bytes) : e.Wraps S target payload route bytes := by
  obtain ⟨m, g, sealing, written⟩ := wrap_along_made made
  exact ⟨proper, key, e.random, g, m, known, sealing, written⟩

theorem wrap_along_length (sized : S.Sized) (made : (e.wrapAlong S payload route key).1 = .ok bytes) :
    bytes.length = Message.sealedLength payload.length route.length + 8 := by
  obtain ⟨m, g, sealing, written⟩ := wrap_along_made made
  exact length_encode_wrap sized sealing written

theorem wrap_along_ok_iff (payload : Bytes) (route : Route) (sized : S.Sized) (known : e.keyring.find? target = some key) :
    (∃ bytes, (e.wrapAlong S payload route key).1 = .ok bytes) ↔ e.Sealable S target payload.length route.length := by
  constructor
  · rintro ⟨bytes, made⟩
    obtain ⟨m, g, sealing, written⟩ := wrap_along_made made
    obtain ⟨shared, agreed, _⟩ := wrap_ok sealing
    refine ⟨⟨key, known, fun zero => ?_⟩, length_body_wrap sized sealing ▸ (Wire.encode_ok written).1⟩
    have failed : e.identity.keys.sharedKey S key = .error (.crypto .lowOrderKey) := if_pos zero
    cases failed.symm.trans agreed
  · rintro ⟨⟨key', known', shared⟩, fits⟩
    cases known.symm.trans known'
    obtain ⟨m, g, sealing⟩ := wrap_made e.random payload route shared
    rw [wrap_along_result, sealing]
    dsimp only
    rw [Wire.encode_small (length_body_wrap sized sealing ▸ fits)]
    exact ⟨_, rfl⟩

theorem zone_route_known (orderly : e.Orderly) (found : (e.table.lookup target now).1 = some route) :
    Route.Proper e.id target route ∧ ∃ key, e.keyring.find? target = some key := by
  obtain ⟨⟨r, member, rfl, _⟩, _⟩ := RouteBook.lookup_some (ZoneTable.lookup_route e.table target now ▸ found)
  exact ⟨orderly.zone target r member, orderly.zoneKeys target (List.ne_nil_of_mem member)⟩

theorem discovered_route_known (orderly : e.Orderly) (found : (e.cache.lookup target now).1 = some route) :
    Route.Proper e.id target route ∧ ∃ key, e.keyring.find? target = some key := by
  have hit : (e.cache.book.lookup target now).1 = some route := found
  obtain ⟨⟨r, member, rfl, _⟩, _⟩ := RouteBook.lookup_some hit
  exact ⟨orderly.discovered target r member, orderly.discoveredKeys target (List.ne_nil_of_mem member)⟩

theorem send_direct_missing (missing : (e.table.lookup target now).1 = none) :
    (e.sendDirect S now target payload).1 = .error (.unreachable target) := by
  have looked : e.table.lookup target now = (none, (e.table.lookup target now).2) := Prod.ext missing rfl
  unfold sendDirect
  rw [looked]

theorem send_direct_found (orderly : e.Orderly) (found : (e.table.lookup target now).1 = some route) :
    ∃ next rest key, route = e.id :: next :: rest ∧ Route.Proper e.id target route ∧ e.keyring.find? target = some key ∧
      (e.sendDirect S now target payload).1 = (e.wrapAlong S payload route key).1.map (Packet.single next) := by
  obtain ⟨proper, key, known⟩ := zone_route_known orderly found
  obtain ⟨next, rest, rfl⟩ := proper.hops
  refine ⟨next, rest, key, rfl, proper, known, ?_⟩
  unfold sendDirect
  rcases looked : e.table.lookup target now with ⟨answer, table⟩
  rw [looked] at found
  cases found
  have still := wrap_along_result S payload (e.id :: next :: rest) key { e with table }
  rw [← wrap_along_result S payload (e.id :: next :: rest) key e] at still
  dsimp only
  rw [known]
  dsimp only
  rw [← still]
  rcases Engine.wrapAlong S payload (e.id :: next :: rest) key { e with table } with ⟨_ | bytes, e₁⟩ <;> rfl

theorem send_direct_ships (orderly : e.Orderly) (sent : (e.sendDirect S now target payload).1 = .ok packet) :
    e.Ships S target payload packet := by
  cases found : (e.table.lookup target now).1 with
  | none =>
      rw [send_direct_missing found] at sent
      cases sent
  | some route =>
      obtain ⟨next, rest, key, rfl, proper, known, result⟩ := send_direct_found orderly found
      rw [result] at sent
      cases made : (e.wrapAlong S payload (e.id :: next :: rest) key).1 with
      | error fault =>
          rw [made] at sent
          cases sent
      | ok bytes =>
          rw [made] at sent
          cases sent
          exact ⟨next, rest, bytes, rfl, wrap_along_wraps proper known made⟩

theorem send_direct_ok_iff (sized : S.Sized) (orderly : e.Orderly) :
    (∃ packet, (e.sendDirect S now target payload).1 = .ok packet) ↔ e.Inside S now target payload.length := by
  cases found : (e.table.lookup target now).1 with
  | none =>
      rw [send_direct_missing found]
      refine ⟨nofun, fun ⟨route, here, _⟩ => ?_⟩
      rw [found] at here
      cases here
  | some route =>
      obtain ⟨next, rest, key, rfl, proper, known, result⟩ := send_direct_found orderly found
      have iff := wrap_along_ok_iff payload (e.id :: next :: rest) sized known
      rw [result]
      constructor
      · rintro ⟨packet, sent⟩
        refine ⟨_, found, iff.mp ?_⟩
        cases made : (e.wrapAlong S payload (e.id :: next :: rest) key).1 with
        | error fault =>
            rw [made] at sent
            cases sent
        | ok bytes => exact ⟨bytes, rfl⟩
      · rintro ⟨route, here, able⟩
        cases found.symm.trans here
        obtain ⟨bytes, made⟩ := iff.mpr able
        rw [made]
        exact ⟨_, rfl⟩

theorem send_inter_zone_missing (missing : (e.cache.lookup target now).1 = none) :
    (e.sendInterZone S now target payload).1 = .error (.noRoute target) := by
  have looked : e.cache.lookup target now = (none, (e.cache.lookup target now).2) := Prod.ext missing rfl
  unfold sendInterZone
  rw [looked]

theorem send_inter_zone_found (S : Suite) (payload : Bytes) (orderly : e.Orderly)
    (found : (e.cache.lookup target now).1 = some route) :
    ∃ border rest key, route = e.id :: border :: rest ∧ Route.Proper e.id target route ∧ e.keyring.find? target = some key ∧
      ((∃ fault, (e.wrapAlong S payload route key).1 = .error fault ∧
          (e.sendInterZone S now target payload).1 = .error fault) ∨
        ∃ inner e₁, (e.wrapAlong S payload route key).1 = .ok inner ∧ e.Settles now e₁ ∧
          e.sendInterZone S now target payload = e₁.sendDirect S now border inner) := by
  obtain ⟨proper, key, known⟩ := discovered_route_known orderly found
  obtain ⟨border, rest, rfl⟩ := proper.hops
  refine ⟨border, rest, key, rfl, proper, known, ?_⟩
  have settled := settles_cached now e target
  unfold sendInterZone
  rcases looked : e.cache.lookup target now with ⟨answer, cache⟩
  rw [looked] at found settled
  cases found
  have still := wrap_along_result S payload (e.id :: border :: rest) key { e with cache }
  have wrapped := settled.trans (wrap_along_settles S now payload (e.id :: border :: rest) key { e with cache })
  rw [← wrap_along_result S payload (e.id :: border :: rest) key e] at still
  dsimp only
  rw [known]
  dsimp only
  rw [← still]
  rcases sealing : Engine.wrapAlong S payload (e.id :: border :: rest) key { e with cache } with ⟨fault | inner, e₁⟩ <;>
    rw [sealing] at wrapped
  · exact Or.inl ⟨fault, rfl, rfl⟩
  · exact Or.inr ⟨inner, e₁, rfl, wrapped, rfl⟩

theorem send_inter_zone_carries (orderly : e.Orderly) (sent : (e.sendInterZone S now target payload).1 = .ok packet) :
    e.Carries S target payload packet := by
  cases found : (e.cache.lookup target now).1 with
  | none =>
      rw [send_inter_zone_missing found] at sent
      cases sent
  | some route =>
      obtain ⟨border, rest, key, rfl, proper, known, ⟨fault, _, failed⟩ | ⟨inner, e₁, made, settles, result⟩⟩ :=
        send_inter_zone_found S payload orderly found
      · rw [failed] at sent
        cases sent
      · rw [result] at sent
        have ships := send_direct_ships (orderly_settles orderly settles) sent
        exact .layered border rest inner (wrap_along_wraps proper known made) (ships.keeps settles.kept)

theorem send_inter_zone_ok_iff (sized : S.Sized) (orderly : e.Orderly) :
    (∃ packet, (e.sendInterZone S now target payload).1 = .ok packet) ↔ e.Beyond S now target payload.length := by
  cases found : (e.cache.lookup target now).1 with
  | none =>
      rw [send_inter_zone_missing found]
      refine ⟨nofun, fun ⟨own, border, rest, here, _⟩ => ?_⟩
      rw [found] at here
      cases here
  | some route =>
      obtain ⟨border, rest, key, rfl, proper, known, ⟨fault, failed, result⟩ | ⟨inner, e₁, made, settles, result⟩⟩ :=
        send_inter_zone_found S payload orderly found
      all_goals
        have iff := wrap_along_ok_iff payload (e.id :: border :: rest) sized known
        rw [result]
      · refine ⟨nofun, fun ⟨own, border', rest', here, able, _⟩ => ?_⟩
        cases found.symm.trans here
        obtain ⟨bytes, made⟩ := iff.mpr able
        cases failed.symm.trans made
      · have length := wrap_along_length sized made
        rw [send_direct_ok_iff sized (orderly_settles orderly settles), length,
          inside_congr settles.keeps settles.kept settles.table.book.lookup]
        constructor
        · exact fun inside => ⟨_, border, rest, found, iff.mp ⟨inner, made⟩, inside⟩
        · rintro ⟨own, border', rest', here, able, inside⟩
          cases found.symm.trans here
          exact inside

end ZoneRouting.Engine
