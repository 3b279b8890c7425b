import ZoneRouting.Proofs.Engine.Sending
import Mathlib.Data.List.Forall2
import Mathlib.Data.List.ReduceOption

set_option autoImplicit false

namespace ZoneRouting

inductive Interleaves {α : Type} : List α → List α → List α → Prop
  | nil : Interleaves [] [] []
  | left (a : α) {l r whole : List α} (rest : Interleaves l r whole) : Interleaves (a :: l) r (a :: whole)
  | right (a : α) {l r whole : List α} (rest : Interleaves l r whole) : Interleaves l (a :: r) (a :: whole)

section

variable {α : Type} {l r whole : List α}

theorem Interleaves.append {l' r' whole' : List α} (merged : Interleaves l r whole) (merged' : Interleaves l' r' whole') :
    Interleaves (l ++ l') (r ++ r') (whole ++ whole') := by
  induction merged with
  | nil => exact merged'
  | left a _ ih => exact ih.left a
  | right a _ ih => exact ih.right a

theorem Interleaves.perm (merged : Interleaves l r whole) : (l ++ r).Perm whole := by
  induction merged with
  | nil => exact .refl _
  | left a _ ih => exact ih.cons a
  | right a _ ih => exact List.perm_middle.trans (ih.cons a)

theorem Interleaves.sublist (merged : Interleaves l r whole) : r.Sublist whole := by
  induction merged with
  | nil => exact .refl _
  | left a _ ih => exact ih.cons a
  | right a _ ih => exact ih.cons_cons a

end

namespace Engine

-- Nothing but the parked payloads and the searches has changed since, as far as can be seen at that time.
def Calm (now : UInt64) (e e' : Engine) : Prop := e.Settles now { e' with parked := e.parked, pending := e.pending }

-- How a packet is accounted for: by the payload that it takes to a device, or as an errand.
def Tells (S : Suite) (heard : List Bytes) (e : Engine) (packet : Packet) : Option (Identifier × Bytes) → Prop
  | some (target, payload) => e.Carries S target payload packet
  | none => Errand S heard e packet

structure Sent (S : Suite) (now : UInt64) (e : Engine) (target : Identifier) (payload : Bytes)
    (result : Except Fault (SendOutcome × List Packet) × Engine) : Prop where
  packet : ∃ outcome packet, outcome ≠ .queued ∧ result.1 = .ok (outcome, [packet]) ∧ e.Carries S target payload packet
  settles : e.Settles now result.2

-- The payload is parked, and perhaps its destination is being searched for.
structure Parks (S : Suite) (heard : List Bytes) (now : UInt64) (e : Engine) (target : Identifier) (payload : Bytes)
    (result : Except Fault (SendOutcome × List Packet) × Engine) : Prop where
  errands : ∀ outcome packets, result.1 = .ok (outcome, packets) →
    outcome = .queued ∧ ∀ packet ∈ packets, Errand S heard e packet
  calm : e.Calm now result.2
  parked : ∀ k, result.2.parkedFor k = if k = target then e.parkedFor target ++ [payload] else e.parkedFor k

-- How payloads that were sent to a device one after the other are accounted for: those that went out, one
-- packet each, and those that were parked anew.
structure Ledger (S : Suite) (heard : List Bytes) (now : UInt64) (e : Engine) (target : Identifier) (payloads : List Bytes)
    (labels : List (Option (Identifier × Bytes))) (sent kept : List Bytes) (result : List Packet × Engine) : Prop where
  tells : List.Forall₂ (Tells S heard e) result.1 labels
  cargo : labels.reduceOption = sent.map (Prod.mk target)
  merged : Interleaves sent kept payloads
  calm : e.Calm now result.2
  parked : ∀ k, result.2.parkedFor k = if k = target then e.parkedFor target ++ kept else e.parkedFor k
  decided : S.Sized → (∀ p ∈ sent, e.Open S now target p.length) ∧ ∀ p ∈ kept, ¬ e.Open S now target p.length

variable {S : Suite} {now : UInt64} {e e' e'' : Engine} {target : Identifier} {payload bytes : Bytes} {packet : Packet}
  {octets : Nat} {heard : List Bytes}

theorem settles_shelf (settles : e.Settles now e') (parked : Directory (List Bytes)) (pending : Directory UInt64) :
    ({ e with parked, pending } : Engine).Settles now { e' with parked, pending } where
  rest := by rw [settles.rest]
  table := settles.table
  lifetime := settles.lifetime
  cache := settles.cache

theorem calm_settles (settles : e.Settles now e') : e.Calm now e' := by
  have same : ({ e' with parked := e.parked, pending := e.pending } : Engine) = e' := by rw [settles.rest]
  rw [Calm, same]
  exact settles

theorem Calm.trans (first : e.Calm now e') (second : e'.Calm now e'') : e.Calm now e'' :=
  Settles.trans first (settles_shelf second e.parked e.pending)

theorem calm_park (now : UInt64) (e : Engine) (target : Identifier) (payload : Bytes) : e.Calm now (e.park target payload) :=
  settles_refl now e

theorem calm_search (now : UInt64) (e : Engine) (pending : Directory UInt64) : e.Calm now { e with pending } :=
  settles_refl now e

theorem Calm.settles (calm : e.Calm now e') : e.Settles now { e' with parked := e.parked, pending := e.pending } := calm

theorem Calm.keeps (calm : e.Calm now e') : e.Keeps e' :=
  ⟨calm.settles.identity, calm.settles.settings, calm.settles.keeps.keys⟩

theorem Calm.kept (calm : e.Calm now e') : e'.Keeps e :=
  ⟨calm.settles.identity.symm, calm.settles.settings.symm, calm.settles.kept.keys⟩

theorem Calm.keyring (calm : e.Calm now e') : e'.keyring = e.keyring := calm.settles.keyring

theorem calm_open (calm : e.Calm now e') : e'.Open S now target octets ↔ e.Open S now target octets :=
  open_congr calm.keeps calm.kept calm.settles.table.book.lookup calm.settles.cache.lookup

theorem send_each_errands (now : UInt64) {d : Datagram} (passable : Passable S heard e d) (written : Wire.encode d = .ok bytes)
    (targets : List Identifier) (orderly : e.Orderly) :
    ∀ packet ∈ (e.sendEach S now bytes targets).1, Errand S heard e packet := by
  induction targets generalizing e with
  | nil => exact nofun
  | cons target targets ih =>
      have settles := send_direct_settles S now target bytes e
      have ships : ∀ packet, (e.sendDirect S now target bytes).1 = .ok packet → e.Ships S target bytes packet :=
        fun _ => send_direct_ships orderly
      rw [sendEach]
      rcases tried : e.sendDirect S now target bytes with ⟨fault | packet, e₁⟩ <;> rw [tried] at settles ships
      all_goals have rest := ih (passable.keeps settles.keeps) (orderly_settles orderly settles)
      · exact fun packet sent => (rest packet sent).keeps settles.kept
      · intro other sent
        rcases List.mem_cons.mp sent with rfl | later
        · exact .wrapped d target bytes other passable written (ships other rfl)
        · exact (rest other later).keeps settles.kept

theorem discover_errands (orderly : e.Orderly) {packets : List Packet} (searched : (e.discover S now target).1 = .ok packets) :
    ∀ packet ∈ packets, Errand S heard e packet := by
  have settles := settles_border_nodes now e [e.id]
  unfold discover at searched
  rcases found : e.borderNodes now [e.id] with ⟨border, e₁⟩
  rw [found] at searched settles
  dsimp only at searched
  split at searched
  · cases searched
  · rename_i bytes written
    have errands : ∀ packet ∈ (e₁.sendEach S now bytes border).1, Errand S heard e₁ packet :=
      send_each_errands now (.discovery _) written border (orderly_settles orderly settles)
    rcases queries : Engine.sendEach S now bytes border e₁ with ⟨queries, e₂⟩
    rw [queries] at searched errands
    dsimp only at searched
    split at searched <;> cases searched
    · exact nofun
    · exact fun packet sent => (errands packet sent).keeps settles.kept

theorem discover_calm (now : UInt64) (target : Identifier) (e : Engine) :
    e.Calm now (e.discover S now target).2 ∧ (e.discover S now target).2.parked = e.parked := by
  obtain ⟨e₁, settles, same | searching⟩ := discover_settles S now target e
  · rw [same]
    exact ⟨calm_settles settles, settles.parked⟩
  · rw [searching]
    exact ⟨(calm_settles settles).trans (calm_search now e₁ _), settles.parked⟩

theorem route_calm (now : UInt64) (target : Identifier) (payload : Bytes) (e : Engine) :
    e.Calm now (e.route S now target payload).2 := by
  have parks : ∀ {e₂ : Engine}, e.Settles now e₂ → e.Calm now (e₂.park target payload) :=
    fun settles => (calm_settles settles).trans (calm_park now _ target payload)
  have routed := route_routed S now target payload e
  generalize e.route S now target payload = result at routed ⊢
  cases routed with
  | direct packet e₁ direct first => exact calm_settles direct
  | interZone packet e₁ e₂ direct zone first second => exact calm_settles (direct.trans zone)
  | joined e₁ e₂ direct zone first second busy => exact parks (direct.trans zone)
  | searched e₁ e₂ direct zone first second idle found e₃ third =>
      have searched := (discover_calm (S := S) now target (e₂.park target payload)).1
      rw [third] at searched
      exact (parks (direct.trans zone)).trans searched

theorem route_cases (heard : List Bytes) (orderly : e.Orderly) (untagged : Kind.ofBytes? payload = none) :
    e.Sent S now target payload (e.route S now target payload) ∧
        ((∃ packet, (e.sendDirect S now target payload).1 = .ok packet) ∨
          ∃ e₁, e.Settles now e₁ ∧ ∃ packet, (e₁.sendInterZone S now target payload).1 = .ok packet) ∨
      e.Parks S heard now target payload (e.route S now target payload) ∧
        (∃ fault, (e.sendDirect S now target payload).1 = .error fault) ∧
        ∃ e₁, e.Settles now e₁ ∧ ∃ fault, (e₁.sendInterZone S now target payload).1 = .error fault := by
  have parks : ∀ {e₂ : Engine}, e.Settles now e₂ → e.Calm now (e₂.park target payload) ∧ ∀ k,
      (e₂.park target payload).parkedFor k = if k = target then e.parkedFor target ++ [payload] else e.parkedFor k := by
    refine fun settles => ⟨(calm_settles settles).trans (calm_park now _ target payload), fun k => ?_⟩
    rw [parked_for_park, settles.parked_for, settles.parked_for]
  have routed := route_routed S now target payload e
  generalize e.route S now target payload = result at routed ⊢
  cases routed with
  | direct packet e₁ direct first =>
      have ships := send_direct_ships orderly (congrArg Prod.fst first)
      exact Or.inl ⟨⟨⟨.direct, packet, nofun, rfl, .direct ships⟩, direct⟩, Or.inl ⟨packet, congrArg Prod.fst first⟩⟩
  | interZone packet e₁ e₂ direct zone first second =>
      have carries := send_inter_zone_carries (orderly_settles orderly direct) (congrArg Prod.fst second)
      exact Or.inl ⟨⟨⟨.interZone, packet, nofun, rfl, carries.keeps direct.kept⟩, direct.trans zone⟩,
        Or.inr ⟨e₁, direct, packet, congrArg Prod.fst second⟩⟩
  | joined e₁ e₂ direct zone first second busy =>
      obtain ⟨stays, shelf⟩ := parks (direct.trans zone)
      refine Or.inr ⟨⟨fun outcome packets same => ?_, stays, shelf⟩, ⟨_, congrArg Prod.fst first⟩, e₁, direct, _,
        congrArg Prod.fst second⟩
      cases same
      exact ⟨rfl, nofun⟩
  | searched e₁ e₂ direct zone first second idle found e₃ third =>
      have tried := direct.trans zone
      obtain ⟨stays, shelf⟩ := parks tried
      obtain ⟨calm, parked⟩ := discover_calm (S := S) now target (e₂.park target payload)
      rw [third] at calm parked
      have kept := fun k => (congrArg (fun parked => (parked.find? k).getD []) parked).trans (shelf k)
      refine Or.inr ⟨⟨fun outcome packets same => ?_, stays.trans calm, kept⟩, ⟨_, congrArg Prod.fst first⟩, e₁, direct, _,
        congrArg Prod.fst second⟩
      cases found with
      | error fault => cases same
      | ok queries =>
          cases same
          have ready := orderly_park (orderly_settles orderly tried) target untagged
          have errands : ∀ packet ∈ packets, Errand S heard (e₂.park target payload) packet :=
            discover_errands ready (congrArg Prod.fst third)
          exact ⟨rfl, fun packet sent => (errands packet sent).keeps stays.kept⟩

theorem sent_or_parks (now : UInt64) (target : Identifier) (heard : List Bytes) (orderly : e.Orderly)
    (untagged : Kind.ofBytes? payload = none) :
    e.Sent S now target payload (e.route S now target payload) ∧ (S.Sized → e.Open S now target payload.length) ∨
      e.Parks S heard now target payload (e.route S now target payload) ∧
        (S.Sized → ¬ e.Open S now target payload.length) := by
  have same : ∀ {e₁ : Engine}, e.Settles now e₁ →
      (e₁.Open S now target payload.length ↔ e.Open S now target payload.length) :=
    fun settles => calm_open (calm_settles settles)
  rcases route_cases heard orderly untagged with ⟨sent, way⟩ | ⟨parks, ⟨fault, inside⟩, e₁, settles, fault', beyond⟩
  · refine Or.inl ⟨sent, fun sized => ?_⟩
    rcases way with direct | ⟨e₁, settles, discovered⟩
    · exact Or.inl ((send_direct_ok_iff sized orderly).mp direct)
    · exact (same settles).mp (Or.inr ((send_inter_zone_ok_iff sized (orderly_settles orderly settles)).mp discovered))
  · refine Or.inr ⟨parks, fun sized sendable => ?_⟩
    rcases (same settles).mpr sendable with here | there
    · have zone := (inside_congr settles.keeps settles.kept settles.table.book.lookup).mp here
      obtain ⟨packet, sent⟩ := (send_direct_ok_iff sized orderly).mpr zone
      cases inside.symm.trans sent
    · obtain ⟨packet, sent⟩ := (send_inter_zone_ok_iff sized (orderly_settles orderly settles)).mpr there
      cases beyond.symm.trans sent

theorem Tells.keeps {label : Option (Identifier × Bytes)} (tells : e.Tells S heard packet label) (keeps : e.Keeps e') :
    e'.Tells S heard packet label := by
  cases label with
  | none => exact Errand.keeps tells keeps
  | some load => exact Carries.keeps tells keeps

theorem Tells.more {label : Option (Identifier × Bytes)} {more : List Bytes} (tells : e.Tells S heard packet label)
    (subset : ∀ b ∈ heard, b ∈ more) : e.Tells S more packet label := by
  cases label with
  | none => exact Errand.more tells subset
  | some load => exact tells

theorem errands_tell {packets : List Packet} (errands : ∀ packet ∈ packets, Errand S heard e packet) :
    List.Forall₂ (e.Tells S heard) packets (packets.map fun _ => none) := by
  rw [List.forall₂_map_right_iff]
  exact List.forall₂_same.mpr errands

theorem errands_reduce (packets : List Packet) :
    (packets.map fun _ => (none : Option (Identifier × Bytes))).reduceOption = [] := by
  rw [List.map_const', List.reduceOption_replicate_none]

theorem ledger_nil (S : Suite) (heard : List Bytes) (now : UInt64) (e : Engine) (target : Identifier) :
    Ledger S heard now e target [] [] [] [] ([], e) where
  tells := .nil
  cargo := rfl
  merged := .nil
  calm := calm_settles (settles_refl now e)
  parked k := by
    split
    · rename_i same
      rw [List.append_nil, same]
    · rfl
  decided _ := ⟨nofun, nofun⟩

theorem Ledger.append {payloads payloads' sent sent' kept kept' : List Bytes} {packets packets' : List Packet}
    {labels labels' : List (Option (Identifier × Bytes))}
    (first : Ledger S heard now e target payloads labels sent kept (packets, e'))
    (second : Ledger S heard now e' target payloads' labels' sent' kept' (packets', e'')) :
    Ledger S heard now e target (payloads ++ payloads') (labels ++ labels') (sent ++ sent') (kept ++ kept')
      (packets ++ packets', e'') where
  tells := List.rel_append first.tells (second.tells.imp fun _ _ tells => tells.keeps first.calm.kept)
  cargo := by rw [List.reduceOption_append, first.cargo, second.cargo, List.map_append]
  merged := first.merged.append second.merged
  calm := first.calm.trans second.calm
  parked k := by
    have before := first.parked k
    have after := second.parked k
    dsimp only at before after ⊢
    rw [after]
    split
    · rename_i same
      rw [← same, before, if_pos same, List.append_assoc, same]
    · rename_i other
      rw [before, if_neg other]
  decided sized := by
    obtain ⟨sent, kept⟩ := first.decided sized
    obtain ⟨sent', kept'⟩ := second.decided sized
    have same : ∀ p : Bytes, e'.Open S now target p.length ↔ e.Open S now target p.length := fun p => calm_open first.calm
    refine ⟨fun p member => ?_, fun p member => ?_⟩
    · exact (List.mem_append.mp member).elim (sent p) fun later => (same p).mp (sent' p later)
    · exact (List.mem_append.mp member).elim (kept p) fun later sendable => kept' p later ((same p).mpr sendable)

theorem route_ledger (now : UInt64) (target : Identifier) (heard : List Bytes) (orderly : e.Orderly)
    (untagged : Kind.ofBytes? payload = none) :
    ∃ labels sent kept, Ledger S heard now e target [payload] labels sent kept
      (posted ((e.route S now target payload).1.map Prod.snd), (e.route S now target payload).2) := by
  rcases sent_or_parks now target heard orderly untagged with
    ⟨⟨⟨_, packet, _, result, carries⟩, settles⟩, decided⟩ | ⟨parks, decided⟩
  · refine ⟨[some (target, payload)], [payload], [], ?_⟩
    rw [result]
    refine ⟨.cons carries .nil, rfl, .left payload .nil, calm_settles settles, fun k => ?_, fun sized => ⟨?_, nofun⟩⟩
    · rw [List.append_nil, settles.parked_for]
      split
      · rename_i same
        rw [same]
      · rfl
    · exact fun p member => List.mem_singleton.mp member ▸ decided sized
  · have errands : ∀ packet ∈ posted ((e.route S now target payload).1.map Prod.snd), Errand S heard e packet := by
      cases result : (e.route S now target payload).1 with
      | error fault => exact nofun
      | ok reply => exact (parks.errands reply.1 reply.2 result).2
    refine ⟨_, [], [payload], errands_tell errands, errands_reduce _, .right payload .nil, parks.calm, parks.parked, ?_⟩
    exact fun sized => ⟨nofun, fun p member => List.mem_singleton.mp member ▸ decided sized⟩

theorem route_all_cons (S : Suite) (now : UInt64) (target : Identifier) (payload : Bytes) (payloads : List Bytes)
    (e : Engine) :
    e.routeAll S now target (payload :: payloads) =
      (posted ((e.route S now target payload).1.map Prod.snd) ++
        ((e.route S now target payload).2.routeAll S now target payloads).1,
        ((e.route S now target payload).2.routeAll S now target payloads).2) := by
  rw [routeAll]
  rcases e.route S now target payload with ⟨fault | reply, e₁⟩ <;> rfl

theorem route_all_calm (now : UInt64) (target : Identifier) (payloads : List Bytes) (e : Engine) :
    e.Calm now (e.routeAll S now target payloads).2 := by
  induction payloads generalizing e with
  | nil => exact calm_settles (settles_refl now e)
  | cons payload payloads ih =>
      rw [route_all_cons]
      exact (route_calm now target payload e).trans (ih _)

theorem route_all_ledger (now : UInt64) (target : Identifier) (heard payloads : List Bytes) (orderly : e.Orderly)
    (untagged : ∀ payload ∈ payloads, Kind.ofBytes? payload = none) :
    ∃ labels sent kept, Ledger S heard now e target payloads labels sent kept (e.routeAll S now target payloads) := by
  induction payloads generalizing e with
  | nil => exact ⟨[], [], [], ledger_nil S heard now e target⟩
  | cons payload payloads ih =>
      have plain := untagged payload List.mem_cons_self
      have next := orderly_changes (route_changes (S := S) now target plain e) orderly
      obtain ⟨labels, sent, kept, first⟩ := route_ledger (S := S) now target heard orderly plain
      obtain ⟨labels', sent', kept', rest⟩ := ih next fun p member => untagged p (List.mem_cons_of_mem _ member)
      rw [route_all_cons]
      exact ⟨_, _, _, first.append rest⟩

end Engine
end ZoneRouting
