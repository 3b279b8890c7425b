import ZoneRouting.Proofs.Engine.Bordercast

set_option autoImplicit false

namespace ZoneRouting.Engine

def queryLength (now : UInt64) (e : Engine) : Nat := 160 + 24 * (e.borderNodes now [e.id]).1.length

-- How a call to send ends that has parked its payload, and the searches that are under way then: one was before, or no border
-- node could be asked, or some were asked, or the query was too long to be written.
inductive Awaits (now : UInt64) (target : Identifier) (e : Engine) :
    Except Fault (SendOutcome × List Packet) → Directory UInt64 → Prop
  | joined (searching : e.searching now target = true) : Awaits now target e (.ok (.queued, [])) e.pending
  | alone (idle : e.searching now target = false) (fits : e.queryLength now ≤ Wire.maxBody) :
      Awaits now target e (.ok (.queued, [])) e.pending
  | asked (packets : List Packet) (idle : e.searching now target = false) (fits : e.queryLength now ≤ Wire.maxBody)
      (some : packets ≠ []) : Awaits now target e (.ok (.queued, packets)) (e.pending.insert target now)
  | refused (idle : e.searching now target = false) (large : Wire.maxBody < e.queryLength now) :
      Awaits now target e (.error (.wire (.tooLarge (e.queryLength now)))) e.pending

variable {S : Suite} {now : UInt64} {e e' : Engine} {target : Identifier} {payload : Bytes} {route : Route} {packet : Packet}
  {fault : Fault}

theorem discover_cases (S : Suite) (now : UInt64) (target : Identifier) (e : Engine) :
    (Wire.maxBody < e.queryLength now ∧ ∃ e₁, e.Settles now e₁ ∧
        e.discover S now target = (.error (.wire (.tooLarge (e.queryLength now))), e₁)) ∨
      e.queryLength now ≤ Wire.maxBody ∧ ∃ packets e₁, e.Settles now e₁ ∧ e.discover S now target =
        (.ok packets, if packets = [] then e₁ else { e₁ with pending := e₁.pending.insert target now }) := by
  have swept := settles_border_nodes now e [e.id]
  unfold discover queryLength
  rcases found : e.borderNodes now [e.id] with ⟨border, e₁⟩
  rw [found] at swept
  dsimp only
  have length : (Wire.body (.discovery
      { origin := e₁.publicKey, destination := target, sent := now, route := [e₁.id], covered := e₁.id :: border })).length =
      160 + 24 * border.length := by
    rw [Wire.length_body_discovery, List.length_singleton, List.length_cons]
    omega
  by_cases fits : 160 + 24 * border.length ≤ Wire.maxBody
  · obtain ⟨bytes, written⟩ : ∃ bytes, Wire.encode (.discovery _) = .ok bytes := ⟨_, Wire.encode_small (length ▸ fits)⟩
    have whole := swept.trans (send_each_settles S now bytes border e₁)
    rw [written]
    rcases queries : e₁.sendEach S now bytes border with ⟨packets, e₂⟩
    rw [queries] at whole
    refine Or.inr ⟨fits, packets, e₂, whole, ?_⟩
    dsimp only
    rw [queries]
    dsimp only
    by_cases none : packets = []
    · rw [if_pos none, if_pos none, none]
    · rw [if_neg none, if_neg none]
  · have large := Nat.lt_of_not_le fits
    rw [Wire.encode_large (length ▸ large), length]
    exact Or.inl ⟨large, e₁, swept, rfl⟩

theorem route_direct (sent : (e.sendDirect S now target payload).1 = .ok packet) :
    e.route S now target payload = (.ok (.direct, [packet]), (e.sendDirect S now target payload).2) := by
  unfold Engine.route
  rcases tried : e.sendDirect S now target payload with ⟨fault | other, e₁⟩ <;> rw [tried] at sent <;> cases sent
  rfl

theorem route_indirect (failed : (e.sendDirect S now target payload).1 = .error fault) (packets : List Packet) :
    (e.route S now target payload).1 ≠ .ok (.direct, packets) := by
  have routed := route_routed S now target payload e
  generalize e.route S now target payload = result at routed ⊢
  cases routed with
  | direct packet e₁ direct first => cases failed.symm.trans (congrArg Prod.fst first)
  | interZone | joined => exact nofun
  | searched e₁ e₂ direct zone first second idle found e₃ third => cases found <;> exact nofun

theorem Calm.searching (calm : e.Calm now e') (pending : e'.pending = e.pending) (target : Identifier) :
    e'.searching now target = e.searching now target := by
  have settings : e'.settings = e.settings := calm.settles.settings
  rw [Engine.searching, pending, settings, Engine.searching]

theorem Calm.query_length (calm : e.Calm now e') (tidy : e.Tidy) : e'.queryLength now = e.queryLength now := by
  have id : e'.id = e.id := calm.settles.id
  rw [queryLength, id, calm.border_nodes tidy, queryLength]

theorem route_awaits (sized : S.Sized) (orderly : e.Orderly) (tidy : e.Tidy) (shut : ¬ e.Open S now target payload.length) :
    e.Awaits now target (e.route S now target payload).1 (e.route S now target payload).2.pending := by
  have parks : ∀ {e₂ : Engine}, e.Settles now e₂ → e.Calm now (e₂.park target payload) ∧
      (e₂.park target payload).pending = e.pending :=
    fun settles => ⟨(calm_settles settles).trans (calm_park now _ target payload), settles.pending⟩
  have routed := route_routed S now target payload e
  generalize e.route S now target payload = result at routed ⊢
  cases routed with
  | direct packet e₁ direct first =>
      exact absurd (Or.inl ((send_direct_ok_iff sized orderly).mp ⟨packet, congrArg Prod.fst first⟩)) shut
  | interZone packet e₁ e₂ direct zone first second =>
      have beyond := (send_inter_zone_ok_iff sized (orderly_settles orderly direct)).mp ⟨packet, congrArg Prod.fst second⟩
      exact absurd ((calm_open (calm_settles direct)).mp (Or.inr beyond)) shut
  | joined e₁ e₂ direct zone first second busy =>
      obtain ⟨stays, pending⟩ := parks (direct.trans zone)
      rw [stays.searching pending target] at busy
      rw [pending]
      exact .joined busy
  | searched e₁ e₂ direct zone first second idle found e₃ third =>
      obtain ⟨stays, pending⟩ := parks (direct.trans zone)
      have length := stays.query_length tidy
      rw [stays.searching pending target] at idle
      rcases discover_cases S now target (e₂.park target payload) with
        ⟨large, e₄, settles, result⟩ | ⟨fits, packets, e₄, settles, result⟩ <;> cases third.symm.trans result
      · dsimp only
        rw [settles.pending, pending, length]
        exact .refused idle (length ▸ large)
      · rw [length] at fits
        by_cases none : packets = []
        · rw [if_pos none, none, settles.pending, pending]
          exact .alone idle fits
        · rw [if_neg none]
          dsimp only
          rw [settles.pending, pending]
          exact .asked packets idle fits none

theorem inside_found {octets : Nat} (found : (e.table.lookup target now).1 = some route) :
    e.Inside S now target octets ↔ e.Sealable S target octets route.length := by
  refine ⟨fun ⟨other, here, able⟩ => ?_, fun able => ⟨route, found, able⟩⟩
  cases found.symm.trans here
  exact able

theorem send_direct_along (sized : S.Sized) (orderly : e.Orderly) (found : (e.table.lookup target now).1 = some route)
    (able : e.Sealable S target payload.length route.length) :
    ∃ next rest bytes, route = e.id :: next :: rest ∧ e.Wraps S target payload route bytes ∧
      (e.sendDirect S now target payload).1 = .ok (Packet.single next bytes) := by
  obtain ⟨next, rest, key, rfl, proper, known, result⟩ := @send_direct_found S now e target payload route orderly found
  obtain ⟨bytes, made⟩ := (wrap_along_ok_iff payload _ sized known).mpr able
  refine ⟨next, rest, bytes, rfl, wrap_along_wraps proper known made, ?_⟩
  rw [result, made]
  rfl

theorem send_sealed (sized : S.Sized) (orderly : e.Orderly) (found : (e.table.lookup target now).1 = some route)
    (untagged : Kind.ofBytes? payload = none) (able : e.Sealable S target payload.length route.length) :
    ∃ next rest bytes, route = e.id :: next :: rest ∧ e.Wraps S target payload route bytes ∧
      (e.send S now target payload).1 = .ok .direct ∧
      (e.send S now target payload).2.outgoing = e.outgoing ++ [Packet.single next bytes] ∧
      (e.send S now target payload).2.parked = e.parked ∧ (e.send S now target payload).2.pending = e.pending := by
  obtain ⟨next, rest, bytes, hops, wraps, sent⟩ := send_direct_along sized orderly found able
  have settles := send_direct_settles S now target payload e
  rw [send_route S now target untagged e, route_direct sent]
  exact ⟨next, rest, bytes, hops, wraps, rfl, congrArg (· ++ _) settles.outgoing, settles.parked, settles.pending⟩

theorem send_beyond (sized : S.Sized) (orderly : e.Orderly) (untagged : Kind.ofBytes? payload = none)
    (outside : ¬ e.Inside S now target payload.length) (beyond : e.Beyond S now target payload.length) :
    ∃ packet, e.Carries S target payload packet ∧ (e.send S now target payload).1 = .ok .interZone ∧
      (e.send S now target payload).2.outgoing = e.outgoing ++ [packet] ∧
      (e.send S now target payload).2.parked = e.parked ∧ (e.send S now target payload).2.pending = e.pending := by
  rcases sent_or_parks (S := S) now target [] orderly untagged with
    ⟨⟨⟨outcome, packet, unparked, result, carries⟩, settles⟩, _⟩ | ⟨_, shut⟩
  · have only : outcome = .interZone := by
      cases outcome with
      | interZone => rfl
      | queued => exact absurd rfl unparked
      | direct =>
          cases tried : (e.sendDirect S now target payload).1 with
          | ok other => exact absurd ((send_direct_ok_iff sized orderly).mp ⟨other, tried⟩) outside
          | error fault => exact absurd result (route_indirect tried [packet])
    rw [send_route S now target untagged e, result, only]
    exact ⟨packet, carries, rfl, congrArg (· ++ _) settles.outgoing, settles.parked, settles.pending⟩
  · exact absurd (Or.inr beyond) (shut sized)

theorem Calm.unsent (calm : e.Calm now e') : e.Calm now { e' with outgoing := e.outgoing } := by
  rw [← calm.outgoing]
  exact calm

theorem send_awaits (sized : S.Sized) (reachable : e.Reachable S) (untagged : Kind.ofBytes? payload = none)
    (shut : ¬ e.Open S now target payload.length) :
    ∃ result pending, e.Awaits now target result pending ∧
      (e.send S now target payload).1 = result.map Prod.fst ∧ (e.send S now target payload).2.pending = pending ∧
      (e.send S now target payload).2.outgoing = e.outgoing ++ posted (result.map Prod.snd) ∧
      (∀ packet ∈ posted (result.map Prod.snd), Errand S [] e packet) ∧
      e.Calm now { (e.send S now target payload).2 with outgoing := e.outgoing } ∧
      ∀ k, (e.send S now target payload).2.parkedFor k = if k = target then e.parkedFor target ++ [payload] else e.parkedFor k := by
  have orderly := reachable_orderly reachable
  have awaits := route_awaits sized orderly (reachable_tidy reachable) shut
  rcases sent_or_parks (S := S) now target [] orderly untagged with ⟨_, way⟩ | ⟨parks, _⟩
  · exact absurd (way sized) shut
  · rw [send_route S now target untagged e]
    refine ⟨_, _, awaits, rfl, rfl, congrArg (· ++ _) parks.calm.outgoing, ?_, parks.calm.unsent, parks.parked⟩
    cases result : (e.route S now target payload).1 with
    | error fault => exact fun packet none => absurd none List.not_mem_nil
    | ok reply => exact (parks.errands reply.1 reply.2 result).2

-- Nothing but its size and a key that cannot be shared keeps a payload from a route inside the zone.
theorem reachable_target_sent (sized : S.Sized) (reachable : e.Reachable S)
    (found : (e.table.lookup target now).1 = some route) (untagged : Kind.ofBytes? payload = none) :
    (e.Sealable S target payload.length route.length →
      ∃ next rest bytes, route = e.id :: next :: rest ∧ e.Wraps S target payload route bytes ∧
        (e.send S now target payload).1 = .ok .direct ∧
        (e.send S now target payload).2.outgoing = e.outgoing ++ [Packet.single next bytes] ∧
        (e.send S now target payload).2.parked = e.parked ∧ (e.send S now target payload).2.pending = e.pending) ∧
    (¬ e.Sealable S target payload.length route.length →
      (e.send S now target payload).1 ≠ .ok .direct ∧
      (e.Beyond S now target payload.length →
        ∃ packet, e.Carries S target payload packet ∧ (e.send S now target payload).1 = .ok .interZone ∧
          (e.send S now target payload).2.outgoing = e.outgoing ++ [packet] ∧
          (e.send S now target payload).2.parked = e.parked ∧ (e.send S now target payload).2.pending = e.pending) ∧
      (¬ e.Beyond S now target payload.length → e.searching now target = true ∨ e.queryLength now ≤ Wire.maxBody →
        (e.send S now target payload).1 = .ok .queued ∧
        (∀ k, (e.send S now target payload).2.parkedFor k =
          if k = target then e.parkedFor target ++ [payload] else e.parkedFor k) ∧
        ∃ packets, (e.send S now target payload).2.outgoing = e.outgoing ++ packets ∧
          (∀ packet ∈ packets, Errand S [] e packet) ∧ (e.searching now target = true → packets = []) ∧
          (e.send S now target payload).2.pending = if packets = [] then e.pending else e.pending.insert target now)) := by
  have orderly := reachable_orderly reachable
  refine ⟨send_sealed sized orderly found untagged, fun unable => ?_⟩
  have outside := mt (inside_found (S := S) found).mp unable
  have waits := fun closed : ¬ e.Beyond S now target payload.length =>
    send_awaits sized reachable untagged (not_or.mpr ⟨outside, closed⟩)
  refine ⟨fun direct => ?_, send_beyond sized orderly untagged outside, fun closed startable => ?_⟩
  · by_cases beyond : e.Beyond S now target payload.length
    · obtain ⟨_, _, sent, _⟩ := send_beyond sized orderly untagged outside beyond
      cases direct.symm.trans sent
    · obtain ⟨result, pending, awaits, answer, _⟩ := waits beyond
      rw [answer] at direct
      cases awaits <;> cases direct
  · obtain ⟨result, pending, awaits, answer, searches, outgoing, errands, _, parked⟩ := waits closed
    rw [answer, searches]
    cases awaits with
    | joined searching => exact ⟨rfl, parked, [], outgoing, errands, fun _ => rfl, (if_pos rfl).symm⟩
    | alone idle fits => exact ⟨rfl, parked, [], outgoing, errands, fun _ => rfl, (if_pos rfl).symm⟩
    | asked packets idle fits some =>
        refine ⟨rfl, parked, packets, outgoing, errands, fun searching => ?_, (if_neg some).symm⟩
        cases idle.symm.trans searching
    | refused idle large =>
        rcases startable with searching | fits
        · cases idle.symm.trans searching
        · exact absurd fits (Nat.not_le.mpr large)

def beside : Engine := (lone.take Suite.plain (announced 0 3)).2

theorem reachable_target_sent_beside :
    (beside.table.lookup far 0).1 = some [(numbered (0 : Fin 4)).id, far] ∧
    (beside.send Suite.plain 0 far [1, 2, 3]).1 = .ok .direct ∧
    ∃ bytes, beside.Wraps Suite.plain far [1, 2, 3] [(numbered (0 : Fin 4)).id, far] bytes ∧
      (beside.send Suite.plain 0 far [1, 2, 3]).2.outgoing = beside.outgoing ++ [Packet.single far bytes] ∧
      (beside.send Suite.plain 0 far [1, 2, 3]).2.parked = beside.parked ∧
      (beside.send Suite.plain 0 far [1, 2, 3]).2.pending = beside.pending := by
  have reachable : beside.Reachable Suite.plain := .call lone (announced 0 3).call (.start _ _ _)
  have runs : (beside.table.lookup far 0).1 = some [(numbered (0 : Fin 4)).id, far] ∧
      beside.keyring.find? far = some ((numbered (3 : Fin 4)).publicKey Suite.plain) := by decide +kernel
  obtain ⟨found, known⟩ := runs
  have able : beside.Sealable Suite.plain far 3 2 :=
    ⟨⟨_, known, plain_usable.contributory _ (numbered (3 : Fin 4)).keys.exchange⟩, by decide⟩
  obtain ⟨next, rest, bytes, hops, wraps, sent, outgoing, parked, pending⟩ :=
    (reachable_target_sent plain_lawful.sized reachable found (rfl : Kind.ofBytes? [1, 2, 3] = none)).1 able
  obtain ⟨rfl, rfl⟩ := List.cons.inj (List.cons.inj hops).2
  exact ⟨found, sent, bytes, wraps, outgoing, parked, pending⟩

def oversized : Bytes := List.replicate 65400 1

theorem oversized_untagged : Kind.ofBytes? oversized = none := by
  rw [oversized, Kind.ofBytes?, List.take_replicate]
  decide

theorem oversized_long : Wire.maxBody < Message.sealedLength oversized.length 2 := by
  rw [oversized, List.length_replicate]
  decide

-- The device that the payload is for is a neighbour.
theorem oversized_parked :
    beside.Reachable Suite.plain ∧ (beside.table.lookup far 0).1 = some [(numbered (0 : Fin 4)).id, far] ∧
    Kind.ofBytes? oversized = none ∧ (beside.send Suite.plain 0 far oversized).1 = .ok .queued ∧
    beside.parkedFor far = [] ∧ (beside.send Suite.plain 0 far oversized).2.parkedFor far = [oversized] := by
  have reachable : beside.Reachable Suite.plain := .call lone (announced 0 3).call (.start _ _ _)
  have runs : (beside.table.lookup far 0).1 = some [(numbered (0 : Fin 4)).id, far] ∧ (beside.cache.lookup far 0).1 = none ∧
      beside.searching 0 far = false ∧ beside.queryLength 0 ≤ Wire.maxBody ∧ beside.parkedFor far = [] := by decide +kernel
  obtain ⟨found, unknown, idle, fits, empty⟩ := runs
  have shut : ¬ beside.Open Suite.plain 0 far oversized.length := by
    rintro (inside | ⟨_, _, _, cached, _⟩)
    · exact absurd ((inside_found found).mp inside).fits (Nat.not_le.mpr oversized_long)
    · cases unknown.symm.trans cached
  obtain ⟨result, _, awaits, answer, _, _, _, _, parked⟩ := send_awaits plain_lawful.sized reachable oversized_untagged shut
  refine ⟨reachable, found, oversized_untagged, ?_, empty, ?_⟩
  · rw [answer]
    cases awaits with
    | joined | alone | asked => rfl
    | refused _ large => exact absurd fits (Nat.not_le.mpr large)
  · rw [parked, if_pos rfl, empty]
    rfl

end ZoneRouting.Engine
