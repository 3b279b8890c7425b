import ZoneRouting.Proofs.Honest.Receiving
import ZoneRouting.Proofs.Swarm
import Mathlib.Algebra.BigOperators.Fin
import Mathlib.Algebra.Order.BigOperators.Group.Finset

set_option autoImplicit false

namespace ZoneRouting

variable {n : Nat}

def Event.handed (target : Identifier) : Event n → Multiset Bytes
  | .send _ _ id payload => if id = target then {payload} else 0
  | .advertise .. | .collect .. | .hear .. | .lose _ | .echo _ => 0

def handed (target : Identifier) (events : List (Event n)) : Multiset Bytes :=
  (events.map (Event.handed target)).sum

theorem handed_append (target : Identifier) (events events' : List (Event n)) :
    handed target (events ++ events') = handed target events + handed target events' := by
  rw [handed, handed, handed, List.map_append, List.sum_append]

theorem handed_none {target : Identifier} {events : List (Event n)} (none : ∀ event ∈ events, event.handed target = 0) :
    handed target events = 0 := by
  rw [handed, List.map_congr_left none, List.map_const', List.sum_replicate, nsmul_zero]

-- An event after which the air may hold a copy more than was transmitted.
def Event.Echoes : Event n → Prop
  | .echo _ => True
  | _ => False

instance (event : Event n) : Decidable event.Echoes := by
  cases event <;> unfold Event.Echoes <;> infer_instance

namespace Swarm

variable (S : Suite) (who : Fin n → Identity)

structure Trustworthy (f : Swarm n) : Prop where
  honest : ∀ u, Honest S who u (f.device u)
  genuine : ∀ copy ∈ f.air, ∃ load, Genuine S who copy.bytes load

-- What a device has for another one: parked or delivered, and on the outgoing queue.
noncomputable def keeps (target : Identifier) (e : Engine) : Multiset Bytes :=
  e.held target + freight S who target e.outgoing

noncomputable def afloat (target : Identifier) (air : List (Copy n)) : Multiset Bytes :=
  (air.map fun copy => share target (loadOf S who copy.bytes)).sum

-- Everything for one device that has not been lost.
noncomputable def stock (target : Identifier) (f : Swarm n) : Multiset Bytes :=
  afloat S who target f.air + ∑ u, keeps S who target (f.device u)

variable {S} {who} {f : Swarm n}

theorem start_trustworthy (settings : Fin n → Settings) (random : Fin n → Random) :
    Trustworthy S who (start S settings who random) := by
  refine ⟨fun u => ⟨rfl, rfl, nofun, rfl, ?_, ?_, nofun, nofun⟩, nofun⟩
  · exact RouteBook.all_empty _
  · exact RouteBook.all_empty _

theorem put_trustworthy (trust : Trustworthy S who f) {u : Fin n} {e : Engine} (honest : Honest S who u e) :
    Trustworthy S who (f.put u e) :=
  ⟨device_put_each (fun v e => Honest S who v e) trust.honest honest, trust.genuine⟩

theorem fewer_trustworthy (trust : Trustworthy S who f) (copy : Copy n) :
    Trustworthy S who { f with air := f.air.erase copy } :=
  ⟨trust.honest, fun c member => trust.genuine c (List.mem_of_mem_erase member)⟩

theorem transmit_trustworthy (trust : Trustworthy S who f) (links : Links (Fin n)) (u : Fin n) {packets : List Packet}
    (sound : ∀ packet ∈ packets, Sound S who packet) : Trustworthy S who (f.transmit links u packets) := by
  refine ⟨trust.honest, fun copy member => ?_⟩
  rcases List.mem_append.mp member with old | fresh
  · exact trust.genuine copy old
  · obtain ⟨packet, among, made⟩ := List.mem_flatMap.mp fresh
    obtain ⟨v, _, rfl⟩ := List.mem_map.mp made
    exact (sound packet among).genuine

theorem stock_put (target : Identifier) (u : Fin n) (e : Engine) (outflow inflow : Multiset Bytes)
    (balance : outflow + keeps S who target e ≤ inflow + keeps S who target (f.device u)) :
    outflow + stock S who target (f.put u e) ≤ inflow + stock S who target f := by
  have split : ∀ d : Fin n → Engine, ∑ v, keeps S who target (d v) =
      keeps S who target (d u) + ∑ v ∈ Finset.univ.erase u, keeps S who target (d v) :=
    fun d => (Finset.add_sum_erase Finset.univ _ (Finset.mem_univ u)).symm
  have others : ∑ v ∈ Finset.univ.erase u, keeps S who target ((f.put u e).device v) =
      ∑ v ∈ Finset.univ.erase u, keeps S who target (f.device v) := by
    refine Finset.sum_congr rfl fun v member => ?_
    rw [device_put_other f e (Finset.ne_of_mem_erase member)]
  have air : (f.put u e).air = f.air := rfl
  rw [stock, stock, split (f.put u e).device, split f.device, others, device_put, air]
  rw [add_left_comm outflow, add_left_comm inflow, ← add_assoc outflow, ← add_assoc inflow]
  exact add_le_add_right (add_le_add_left balance _) _

-- A packet for one neighbour is heard once at most, since no other device has the neighbour's identifier.
theorem copies_single (distinct : Function.Injective fun u => (who u).id) (trust : Trustworthy S who f)
    (links : Links (Fin n)) (u : Fin n) (neighbour : Identifier) (bytes : Bytes) :
    (f.copies links u (Packet.single neighbour bytes)).length ≤ 1 := by
  rw [copies, List.length_map]
  have once : ∀ v ∈ f.hearers links u (Packet.single neighbour bytes), (who v).id = neighbour := by
    intro v member
    obtain ⟨_, heard⟩ := List.mem_filter.mp member
    obtain ⟨_, named⟩ := Bool.and_eq_true_iff.mp heard
    rw [← honest_id (trust.honest v)]
    exact of_decide_eq_true named
  have nodup : (f.hearers links u (Packet.single neighbour bytes)).Nodup := (List.nodup_finRange n).filter _
  cases hearers : f.hearers links u (Packet.single neighbour bytes) with
  | nil => exact Nat.zero_le 1
  | cons a rest =>
      cases rest with
      | nil => exact Nat.le_refl 1
      | cons b rest =>
          rw [hearers] at once nodup
          have same : a = b := distinct ((once a (by simp)).trans (once b (by simp)).symm)
          simp [same] at nodup

theorem afloat_copies (opens : S.Opens) (distinct : Function.Injective fun u => (who u).id) (trust : Trustworthy S who f)
    (links : Links (Fin n)) (u : Fin n) (target : Identifier) {packet : Packet} (sound : Sound S who packet) :
    afloat S who target (f.copies links u packet) ≤ freight S who target [packet] := by
  obtain ⟨load, genuine⟩ := sound.genuine
  have shares : afloat S who target (f.copies links u packet) =
      (f.copies links u packet).length • share target load := by
    have same : ∀ copy ∈ f.copies links u packet, share target (loadOf S who copy.bytes) = share target load := by
      intro copy member
      obtain ⟨v, _, rfl⟩ := List.mem_map.mp member
      rw [load_of_genuine opens distinct genuine]
    rw [afloat, List.map_congr_left same, List.map_const', List.sum_replicate]
  rw [shares, freight_singleton opens distinct target genuine]
  obtain ⟨target', bytes⟩ := packet
  cases target' with
  | broadcast =>
      cases genuine_unique opens distinct genuine (sound.broadcast rfl)
      rw [share, nsmul_zero]
  | single neighbour =>
      have once := copies_single distinct trust links u neighbour bytes
      calc (f.copies links u (Packet.single neighbour bytes)).length • share target load
          ≤ 1 • share target load := nsmul_le_nsmul_left (Multiset.zero_le _) once
        _ = share target load := one_nsmul _

theorem afloat_append (target : Identifier) (a b : List (Copy n)) :
    afloat S who target (a ++ b) = afloat S who target a + afloat S who target b := by
  rw [afloat, List.map_append, List.sum_append]
  rfl

theorem stock_transmit (opens : S.Opens) (distinct : Function.Injective fun u => (who u).id)
    (trust : Trustworthy S who f) (links : Links (Fin n)) (u : Fin n) (target : Identifier) {packets : List Packet}
    (sound : ∀ packet ∈ packets, Sound S who packet) :
    stock S who target (f.transmit links u packets) ≤ freight S who target packets + stock S who target f := by
  have heard : afloat S who target (packets.flatMap fun packet => f.copies links u packet) ≤
      freight S who target packets := by
    induction packets with
    | nil => exact Multiset.zero_le _
    | cons packet packets ih =>
        have first := afloat_copies opens distinct trust links u target (sound packet List.mem_cons_self)
        have rest := ih fun p member => sound p (List.mem_cons_of_mem _ member)
        rw [List.flatMap_cons, afloat_append, ← List.singleton_append, freight_append]
        exact add_le_add first rest
  rw [stock, stock, transmit, afloat_append, add_comm (freight _ _ _ _), add_right_comm]
  exact add_le_add_right heard _

theorem stock_erase (target : Identifier) {copy : Copy n} (member : copy ∈ f.air) :
    stock S who target f = share target (loadOf S who copy.bytes) +
      stock S who target { f with air := f.air.erase copy } := by
  have air : afloat S who target f.air =
      share target (loadOf S who copy.bytes) + afloat S who target (f.air.erase copy) := by
    rw [afloat, ((List.perm_cons_erase member).map _).sum_eq]
    rfl
  rw [stock, stock, air, add_assoc]

theorem advertise_sound {u : Fin n} {e : Engine} (honest : Honest S who u e) {packet : Packet}
    (made : e.advertise = .ok packet) : Genuine S who packet.payload none := by
  unfold Engine.advertise at made
  split at made
  · rename_i bytes written
    cases made
    refine .advertisement _ bytes ?_ written
    exact ⟨u, (honest_id honest).symm, honest.publicKey⟩
  · cases made

theorem advertise_trustworthy (trust : Trustworthy S who f) (links : Links (Fin n)) (u : Fin n) :
    Trustworthy S who (f.advertise links u) := by
  unfold advertise
  cases made : (f.device u).advertise with
  | error fault => exact trust
  | ok packet =>
      have genuine := advertise_sound (trust.honest u) made
      exact transmit_trustworthy trust links u
        fun p member => List.mem_singleton.mp member ▸ ⟨⟨none, genuine⟩, fun _ => genuine⟩

theorem send_trustworthy (opens : S.Opens) (distinct : Function.Injective fun u => (who u).id)
    (trust : Trustworthy S who f) (now : UInt64) (u : Fin n) (target : Identifier) (payload : Bytes) :
    Trustworthy S who (f.send S now u target payload) := by
  obtain ⟨_, _, honest, _⟩ := send_moves opens distinct (trust.honest u) now target payload
  exact put_trustworthy trust honest

theorem collect_trustworthy (trust : Trustworthy S who f) (links : Links (Fin n)) (u : Fin n) :
    Trustworthy S who (f.collect links u) := by
  have honest := trust.honest u
  have emptied : Honest S who u (f.device u).takeOutgoing.2 := { honest with outgoing := fun _ none => nomatch none }
  exact transmit_trustworthy (put_trustworthy trust emptied) links u honest.outgoing

theorem hear_trustworthy (opens : S.Opens) (distinct : Function.Injective fun u => (who u).id)
    (trust : Trustworthy S who f) (now : UInt64) (links : Links (Fin n)) {copy : Copy n} (member : copy ∈ f.air) :
    Trustworthy S who (f.hear S now links copy) := by
  obtain ⟨load, genuine⟩ := trust.genuine copy member
  have moves := receive_moves opens distinct (trust.honest copy.receiver) now genuine
  exact transmit_trustworthy (put_trustworthy (fewer_trustworthy trust copy) moves.honest) links _ moves.sound

theorem apply_trustworthy (opens : S.Opens) (distinct : Function.Injective fun u => (who u).id)
    (trust : Trustworthy S who f) (event : Event n) : Trustworthy S who (f.apply S event) := by
  cases event with
  | advertise links u => exact advertise_trustworthy trust links u
  | send now u target payload => exact send_trustworthy opens distinct trust now u target payload
  | collect links u => exact collect_trustworthy trust links u
  | hear now links copy =>
      rw [apply]
      split
      · rename_i member
        exact hear_trustworthy opens distinct trust now links member
      · exact trust
  | lose copy => exact fewer_trustworthy trust copy
  | echo copy =>
      rw [apply]
      split
      · rename_i member
        exact ⟨trust.honest, List.forall_mem_cons.mpr ⟨trust.genuine copy member, trust.genuine⟩⟩
      · exact trust

theorem run_trustworthy (opens : S.Opens) (distinct : Function.Injective fun u => (who u).id) (events : List (Event n))
    (trust : Trustworthy S who f) : Trustworthy S who (f.run S events) := by
  induction events generalizing f with
  | nil => exact trust
  | cons event events ih => exact ih (apply_trustworthy opens distinct trust event)

theorem apply_stock (opens : S.Opens) (distinct : Function.Injective fun u => (who u).id)
    (trust : Trustworthy S who f) (target : Identifier) (event : Event n) (plain : ¬ event.Echoes) :
    stock S who target (f.apply S event) ≤ event.handed target + stock S who target f := by
  cases event with
  | advertise links u =>
      rw [apply, advertise]
      cases made : (f.device u).advertise with
      | error fault => exact Multiset.le_add_left _ _
      | ok packet =>
          have genuine := advertise_sound (trust.honest u) made
          have sound : ∀ p ∈ [packet], Sound S who p :=
            fun p member => List.mem_singleton.mp member ▸ ⟨⟨none, genuine⟩, fun _ => genuine⟩
          have bound := stock_transmit opens distinct trust links u target sound
          rw [freight_singleton opens distinct target genuine] at bound
          exact bound
  | send now u id payload =>
      obtain ⟨packets, outgoing, _, balance⟩ := send_moves opens distinct (trust.honest u) now id payload
      have kept : 0 + keeps S who target ((f.device u).send S now id payload).2 ≤
          Event.handed target (.send now u id payload) + keeps S who target (f.device u) := by
        rw [zero_add, keeps, keeps, outgoing, freight_append, Event.handed, ← add_assoc, add_right_comm,
          add_comm (Engine.held _ _), ← add_assoc]
        exact add_le_add_left (balance target) _
      have bound := stock_put target u _ _ _ kept
      rw [zero_add] at bound
      exact bound
  | collect links u =>
      have honest := trust.honest u
      have kept : freight S who target (f.device u).outgoing + keeps S who target (f.device u).takeOutgoing.2 ≤
          0 + keeps S who target (f.device u) := by
        have emptied : keeps S who target (f.device u).takeOutgoing.2 = (f.device u).held target + 0 := rfl
        rw [emptied, add_zero, zero_add, keeps, add_comm]
      have emptied : Honest S who u (f.device u).takeOutgoing.2 := { honest with outgoing := fun _ none => nomatch none }
      have sending := stock_transmit opens distinct (put_trustworthy trust emptied) links u target honest.outgoing
      exact sending.trans (stock_put target u _ _ _ kept)
  | hear now links copy =>
      rw [apply]
      split
      · rename_i member
        obtain ⟨load, genuine⟩ := trust.genuine copy member
        have moves := receive_moves opens distinct (trust.honest copy.receiver) now genuine
        have fewer := fewer_trustworthy trust copy
        have sending := stock_transmit opens distinct (put_trustworthy fewer moves.honest) links copy.receiver target
          moves.sound
        have kept : freight S who target ((f.device copy.receiver).receive S now copy.bytes).1 +
            keeps S who target ((f.device copy.receiver).receive S now copy.bytes).2 ≤
            share target load + keeps S who target (f.device copy.receiver) := by
          rw [keeps, keeps, moves.outgoing, ← add_assoc, ← add_assoc]
          exact add_le_add_left (moves.balance target) _
        rw [stock_erase target member, load_of_genuine opens distinct genuine, Event.handed, zero_add]
        exact sending.trans (stock_put (f := { f with air := f.air.erase copy }) target _ _ _ _ kept)
      · exact Multiset.le_add_left _ _
  | lose copy =>
      rw [apply]
      by_cases member : copy ∈ f.air
      · rw [stock_erase target member]
        exact le_add_left (Multiset.le_add_left _ _)
      · rw [List.erase_of_not_mem member]
        exact Multiset.le_add_left _ _
  | echo copy => exact absurd trivial plain

theorem start_stock (target : Identifier) (settings : Fin n → Settings) (random : Fin n → Random) :
    stock S who target (start S settings who random) = 0 := by
  have empty : ∀ u, keeps S who target ((start S settings who random).device u) = 0 := by
    intro u
    have incoming : ((start S settings who random).device u).incoming = [] := rfl
    have parked : ((start S settings who random).device u).parkedFor target = [] := rfl
    have outgoing : ((start S settings who random).device u).outgoing = [] := rfl
    rw [keeps, Engine.held, parked, incoming, outgoing, freight_nil, Multiset.coe_nil, ite_self, add_zero, add_zero]
  rw [stock, Finset.sum_congr rfl fun u _ => empty u, Finset.sum_const_zero, add_zero]
  rfl

theorem run_stock (opens : S.Opens) (distinct : Function.Injective fun u => (who u).id) (target : Identifier)
    (events : List (Event n)) (plain : ∀ event ∈ events, ¬ event.Echoes) (trust : Trustworthy S who f) :
    stock S who target (f.run S events) ≤ handed target events + stock S who target f := by
  induction events generalizing f with
  | nil => exact Multiset.le_add_left _ _
  | cons event events ih =>
      have first := apply_stock opens distinct trust target event (plain event List.mem_cons_self)
      have rest := ih (fun e member => plain e (List.mem_cons_of_mem _ member))
        (apply_trustworthy opens distinct trust event)
      calc stock S who target (f.run S (event :: events))
          ≤ handed target events + stock S who target (f.apply S event) := rest
        _ ≤ handed target events + (event.handed target + stock S who target f) := add_le_add_right first _
        _ = handed target (event :: events) + stock S who target f := by
            rw [handed, handed, List.map_cons, List.sum_cons, add_left_comm, add_assoc]

theorem delivered_stock (trust : Trustworthy S who f) (u : Fin n) :
    ((f.device u).incoming : Multiset Bytes) ≤ stock S who (who u).id f := by
  have delivered : ((f.device u).incoming : Multiset Bytes) ≤ keeps S who (who u).id (f.device u) := by
    rw [keeps, Engine.held, if_pos (honest_id (trust.honest u))]
    exact le_add_right (Multiset.le_add_left _ _)
  have part : keeps S who (who u).id (f.device u) ≤ ∑ v, keeps S who (who u).id (f.device v) :=
    Finset.single_le_sum_of_canonicallyOrdered (f := fun v => keeps S who (who u).id (f.device v)) (Finset.mem_univ u)
  exact delivered.trans (part.trans (Multiset.le_add_left _ _))

-- Two devices in range of each other announce themselves, and the first sends the second three octets.
def greeted : Swarm 2 := start Suite.plain (fun _ => {}) numbered fun _ => Random.ofSeed 0

@[irreducible] def greeting : List (Event 2) :=
  let links := Links.join [] 0 1
  let announced := [.advertise links 0, .advertise links 1]
  let sent := announced ++ (inOrder Suite.plain 0 links 4 (greeted.run Suite.plain announced)).map (.hear 0 links) ++
    [.send 0 0 (numbered (1 : Fin 2)).id [1, 2, 3], .collect links 0]
  sent ++ (inOrder Suite.plain 0 links 1 (greeted.run Suite.plain sent)).map (.hear 0 links)

theorem recorded_keys_authentic (S : Suite) (who : Fin n → Identity) (settings : Fin n → Settings)
    (random : Fin n → Random) (opens : S.Opens) (distinct : Function.Injective fun u => (who u).id)
    (events : List (Event n)) (u : Fin n) (id : Identifier) (key : PublicKey)
    (found : (((start S settings who random).run S events).device u).keyring.find? id = some key) :
    ∃ v, (who v).id = id ∧ key = (who v).publicKey S :=
  ((run_trustworthy opens distinct events (start_trustworthy settings random)).honest u).keys id key found

theorem recorded_keys_authentic_greeting :
    ((greeted.run Suite.plain greeting).device 0).keyring.find? (numbered (1 : Fin 2)).id =
      some ((numbered (1 : Fin 2)).publicKey Suite.plain) := by
  have distinct : Function.Injective fun u : Fin 2 => (numbered u).id := by decide
  have recorded : (((greeted.run Suite.plain greeting).device 0).keyring.find? (numbered (1 : Fin 2)).id).isSome = true := by
    decide +kernel
  obtain ⟨key, found⟩ := Option.isSome_iff_exists.mp recorded
  obtain ⟨v, own, authentic⟩ := recorded_keys_authentic Suite.plain numbered (fun _ => {}) (fun _ => Random.ofSeed 0)
    (lawful_opens plain_lawful) distinct greeting 0 _ key found
  obtain rfl : v = 1 := distinct own
  rw [found, authentic]

-- An echoed copy could be delivered twice.
theorem delivery_safe (S : Suite) (who : Fin n → Identity) (settings : Fin n → Settings) (random : Fin n → Random)
    (opens : S.Opens) (distinct : Function.Injective fun u => (who u).id) (events : List (Event n))
    (plain : ∀ event ∈ events, ¬ event.Echoes) (u : Fin n) :
    ((((start S settings who random).run S events).device u).incoming : Multiset Bytes) ≤
      handed (who u).id events := by
  have begun : Trustworthy S who (start S settings who random) := start_trustworthy settings random
  have delivered := delivered_stock (run_trustworthy opens distinct events begun) u
  have bound := run_stock opens distinct (who u).id events plain begun
  rw [start_stock, add_zero] at bound
  exact delivered.trans bound

theorem delivery_safe_greeting :
    ((greeted.run Suite.plain greeting).device 1).incoming = [[1, 2, 3]] ∧
      (((greeted.run Suite.plain greeting).device 1).incoming : Multiset Bytes) ≤
        handed (numbered (1 : Fin 2)).id greeting :=
  ⟨by decide +kernel, delivery_safe Suite.plain numbered (fun _ => {}) (fun _ => Random.ofSeed 0)
    (lawful_opens plain_lawful) (by decide) greeting (by decide +kernel) 1⟩

end Swarm
end ZoneRouting
