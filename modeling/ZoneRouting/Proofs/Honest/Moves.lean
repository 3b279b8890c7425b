import ZoneRouting.Proofs.Engine.Pruning
import ZoneRouting.Proofs.Honest.Genuine
import Mathlib.Algebra.BigOperators.Group.Multiset.Basic
import Mathlib.Algebra.Order.Group.Multiset

set_option autoImplicit false

namespace ZoneRouting

variable {n : Nat} (S : Suite) (who : Fin n → Identity)

-- Only advertisements are for everybody, and they carry nothing.
structure Sound (packet : Packet) : Prop where
  genuine : ∃ load, Genuine S who packet.payload load
  broadcast : packet.target = .broadcast → Genuine S who packet.payload none

structure Honest (u : Fin n) (e : Engine) : Prop where
  identity : e.identity = who u
  publicKey : e.publicKey = (who u).publicKey S
  keys : ∀ id key, e.keyring.find? id = some key → Owns S who id key
  owner : e.table.owner = (who u).id
  routes : e.table.book.All (Joins (who u).id)
  discovered : e.cache.book.All (Joins (who u).id)
  parked : ∀ target, ∀ payload ∈ e.parkedFor target, Kind.ofBytes? payload = none
  outgoing : ∀ packet ∈ e.outgoing, Sound S who packet

def share (target : Identifier) : Option (Identifier × Bytes) → Multiset Bytes
  | some (id, payload) => if id = target then {payload} else 0
  | none => 0

def Engine.held (target : Identifier) (e : Engine) : Multiset Bytes :=
  (e.parkedFor target : Multiset Bytes) + if e.id = target then (e.incoming : Multiset Bytes) else 0

open Classical in
noncomputable def loadOf (bytes : Bytes) : Option (Identifier × Bytes) :=
  if h : ∃ load, Genuine S who bytes load then h.choose else none

noncomputable def freight (target : Identifier) (packets : List Packet) : Multiset Bytes :=
  (packets.map fun packet => share target (loadOf S who packet.payload)).sum

-- What an operation of an honest device does: it stays honest, sends nothing but sound packets, and
-- for every device it passes on, parks and delivers no more than it was given and held before.
structure Moves (u : Fin n) (inflow : Identifier → Multiset Bytes) (e : Engine) (packets : List Packet)
    (e' : Engine) : Prop where
  honest : Honest S who u e'
  sound : ∀ packet ∈ packets, Sound S who packet
  balance : ∀ target, freight S who target packets + e'.held target ≤ inflow target + e.held target
  outgoing : e'.outgoing = e.outgoing

variable {S} {who}

theorem load_of_genuine (opens : S.Opens) (distinct : Function.Injective fun u => (who u).id) {bytes : Bytes}
    {load : Option (Identifier × Bytes)} (genuine : Genuine S who bytes load) : loadOf S who bytes = load := by
  have known : ∃ load, Genuine S who bytes load := ⟨load, genuine⟩
  rw [loadOf, dif_pos known]
  exact genuine_unique opens distinct known.choose_spec genuine

theorem freight_nil (target : Identifier) : freight S who target [] = 0 := rfl

theorem freight_append (target : Identifier) (a b : List Packet) :
    freight S who target (a ++ b) = freight S who target a + freight S who target b := by
  rw [freight, List.map_append, List.sum_append]
  rfl

theorem freight_singleton (opens : S.Opens) (distinct : Function.Injective fun u => (who u).id) (target : Identifier)
    {packet : Packet} {load : Option (Identifier × Bytes)} (genuine : Genuine S who packet.payload load) :
    freight S who target [packet] = share target load := by
  rw [freight, List.map_singleton, List.sum_singleton, load_of_genuine opens distinct genuine]

theorem sound_single {neighbour : Identifier} {bytes : Bytes} {load : Option (Identifier × Bytes)}
    (genuine : Genuine S who bytes load) : Sound S who (Packet.single neighbour bytes) :=
  ⟨⟨load, genuine⟩, nofun⟩

section

variable {u : Fin n} {e e' e'' : Engine} {packets packets' : List Packet} {inflow inflow' : Identifier → Multiset Bytes}

theorem moves_append (first : Moves S who u inflow e packets e') (second : Moves S who u inflow' e' packets' e'') :
    Moves S who u (inflow + inflow') e (packets ++ packets') e'' := by
  refine ⟨second.honest, ?_, ?_, second.outgoing.trans first.outgoing⟩
  · intro packet member
    exact (List.mem_append.mp member).elim (first.sound packet) (second.sound packet)
  · intro target
    calc freight S who target (packets ++ packets') + e''.held target
        = freight S who target packets + (freight S who target packets' + e''.held target) := by
          rw [freight_append, add_assoc]
      _ ≤ freight S who target packets + (inflow' target + e'.held target) :=
          add_le_add_right (second.balance target) _
      _ = inflow' target + (freight S who target packets + e'.held target) := by rw [add_left_comm]
      _ ≤ inflow' target + (inflow target + e.held target) := add_le_add_right (first.balance target) _
      _ = (inflow + inflow') target + e.held target := by
          rw [Pi.add_apply, ← add_assoc, add_comm (inflow' target)]

theorem moves_more (moves : Moves S who u inflow e packets e') (more : ∀ target, inflow target ≤ inflow' target) :
    Moves S who u inflow' e packets e' :=
  ⟨moves.honest, moves.sound, fun target => (moves.balance target).trans (add_le_add_left (more target) _),
    moves.outgoing⟩

theorem moves_after (first : Moves S who u 0 e [] e') (second : Moves S who u inflow e' packets e'') :
    Moves S who u inflow e packets e'' :=
  moves_more (moves_append first second) fun target => by rw [Pi.add_apply, Pi.zero_apply, zero_add]

theorem moves_then (first : Moves S who u inflow e packets e') (second : Moves S who u 0 e' packets' e'') :
    Moves S who u inflow e (packets ++ packets') e'' :=
  moves_more (moves_append first second) fun target => by rw [Pi.add_apply, Pi.zero_apply, add_zero]

theorem moves_still (honest : Honest S who u e') (parked : e'.parked = e.parked) (incoming : e'.incoming = e.incoming)
    (identity : e'.identity = e.identity) (outgoing : e'.outgoing = e.outgoing) : Moves S who u inflow e [] e' := by
  refine ⟨honest, nofun, fun target => ?_, outgoing⟩
  have same : e'.held target = e.held target := by
    unfold Engine.held Engine.parkedFor Engine.id
    rw [parked, incoming, identity]
  rw [freight_nil, zero_add, same]
  exact Multiset.le_add_left _ _

theorem moves_refl (honest : Honest S who u e) : Moves S who u inflow e [] e := moves_still honest rfl rfl rfl rfl

theorem moves_packet (opens : S.Opens) (distinct : Function.Injective fun u => (who u).id) {packet : Packet}
    {load : Option (Identifier × Bytes)} (moves : Moves S who u 0 e [] e') (sound : Sound S who packet)
    (genuine : Genuine S who packet.payload load) : Moves S who u (fun target => share target load) e [packet] e' := by
  refine ⟨moves.honest, fun p member => List.mem_singleton.mp member ▸ sound, fun target => ?_, moves.outgoing⟩
  rw [freight_singleton opens distinct target genuine]
  have rest := moves.balance target
  rw [freight_nil, zero_add, Pi.zero_apply, zero_add] at rest
  exact add_le_add_right rest _

theorem honest_id (honest : Honest S who u e) : e.id = (who u).id := by rw [Engine.id, honest.identity]

theorem honest_table (honest : Honest S who u e) (table : ZoneTable) (owner : table.owner = e.table.owner)
    (routes : table.book.All (Joins (who u).id)) : Honest S who u { e with table } :=
  { honest with owner := owner.trans honest.owner, routes }

theorem honest_random (honest : Honest S who u e) (random : Random) : Honest S who u { e with random } :=
  { honest with }

theorem honest_cache (honest : Honest S who u e) (cache : RouteCache)
    (discovered : cache.book.All (Joins (who u).id)) : Honest S who u { e with cache } :=
  { honest with discovered }

theorem honest_keyring (honest : Honest S who u e) {id : Identifier} {key : PublicKey} {keyring : Keyring}
    (recorded : e.keyring.record id key = .ok keyring) (owned : Owns S who id key) :
    Honest S who u { e with keyring } := by
  refine { honest with keys := ?_ }
  intro id' key' found
  unfold Keyring.record at recorded
  cases known : e.keyring.find? id with
  | some old =>
      rw [known] at recorded
      dsimp only at recorded
      split at recorded
      · cases recorded
        exact honest.keys id' key' found
      · cases recorded
  | none =>
      rw [known] at recorded
      cases recorded
      rw [Directory.find?_insert] at found
      by_cases same : id' = id
      · rw [if_pos same] at found
        cases found
        exact same ▸ owned
      · rw [if_neg same] at found
        exact honest.keys id' key' found

theorem honest_lookup (honest : Honest S who u e) (target : Identifier) (now : UInt64) :
    Honest S who u { e with table := (e.table.lookup target now).2 } :=
  honest_table honest _ rfl (RouteBook.all_lookup honest.routes target now)

theorem honest_cached (honest : Honest S who u e) (target : Identifier) (now : UInt64) :
    Honest S who u { e with cache := (e.cache.lookup target now).2 } :=
  honest_cache honest _ (RouteBook.all_lookup honest.discovered target now)

end
end ZoneRouting
