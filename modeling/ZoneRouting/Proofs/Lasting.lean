import ZoneRouting.Proofs.Swarm
import Mathlib.Algebra.BigOperators.Group.List.Basic
import Mathlib.Algebra.Ring.Nat

set_option autoImplicit false

namespace ZoneRouting.Swarm

variable {n : Nat}

-- If hearing a copy puts at most n others into the air, and the number that `left` bounds goes down from
-- the copy to those, the copies in the air are heard, with all that come of them, in at most `total` events.
def Lasting (left : Copy n → Nat → Prop) (air : List (Copy n)) (total : Nat) : Prop :=
  ∃ bounds, List.Forall₂ left air bounds ∧ (bounds.map fun bound => (n + 1) ^ bound).sum = total

variable {left left' : Copy n → Nat → Prop} {air fresh : List (Copy n)} {copy : Copy n} {total bound : Nat}

theorem lasting_append {more : List (Copy n)} {extra : Nat} (lasting : Lasting left air total)
    (lasting' : Lasting left more extra) : Lasting left (air ++ more) (total + extra) := by
  obtain ⟨bounds, each, rfl⟩ := lasting
  obtain ⟨bounds', each', rfl⟩ := lasting'
  exact ⟨bounds ++ bounds', List.rel_append each each', by rw [List.map_append, List.sum_append]⟩

theorem lasting_imp (keeps : ∀ copy bound, left copy bound → left' copy bound) (lasting : Lasting left air total) :
    Lasting left' air total := by
  obtain ⟨bounds, each, sum⟩ := lasting
  exact ⟨bounds, each.imp keeps, sum⟩

theorem lasting_erase (member : copy ∈ air) (lasting : Lasting left air total) :
    ∃ bound rest, left copy bound ∧ Lasting left (air.erase copy) rest ∧ (n + 1) ^ bound + rest = total := by
  obtain ⟨bounds, each, rfl⟩ := lasting
  induction each with
  | nil => cases member
  | @cons c bound air bounds first rest ih =>
      by_cases same : c = copy
      · subst same
        rw [List.erase_cons_head]
        exact ⟨bound, _, first, ⟨bounds, rest, rfl⟩, rfl⟩
      · obtain ⟨bound', rest', here, lasting, sum⟩ := ih ((List.mem_cons.mp member).resolve_left (Ne.symm same))
        obtain ⟨bounds', each', rfl⟩ := lasting
        rw [List.erase_cons_tail (by simpa using same)]
        refine ⟨bound', _, here, ⟨bound :: bounds', .cons first each', rfl⟩, ?_⟩
        rw [List.map_cons, List.map_cons, List.sum_cons, List.sum_cons, ← sum]
        exact Nat.add_left_comm ..

theorem lasting_fresh (few : fresh.length ≤ n) (lower : ∀ c ∈ fresh, ∃ less < bound, left c less) :
    ∃ extra < (n + 1) ^ bound, Lasting left fresh extra := by
  have each : ∃ extra, Lasting left fresh extra ∧ extra * (n + 1) ≤ fresh.length * (n + 1) ^ bound := by
    clear few
    induction fresh with
    | nil => exact ⟨0, ⟨[], .nil, rfl⟩, by rw [Nat.zero_mul]; exact Nat.zero_le _⟩
    | cons c fresh ih =>
        obtain ⟨extra, ⟨bounds, each, sum⟩, short⟩ := ih fun c' member => lower c' (List.mem_cons_of_mem _ member)
        obtain ⟨less, lt, first⟩ := lower c List.mem_cons_self
        have step : (n + 1) ^ less * (n + 1) ≤ (n + 1) ^ bound := by
          rw [← Nat.pow_succ]
          exact Nat.pow_le_pow_right (Nat.succ_pos n) lt
        refine ⟨(n + 1) ^ less + extra, ⟨less :: bounds, .cons first each, by rw [List.map_cons, List.sum_cons, sum]⟩, ?_⟩
        rw [Nat.add_mul, List.length_cons, Nat.add_mul, Nat.one_mul, Nat.add_comm]
        exact Nat.add_le_add short step
  obtain ⟨extra, lasting, short⟩ := each
  refine ⟨extra, Nat.lt_of_mul_lt_mul_right (a := n + 1) (Nat.lt_of_le_of_lt short ?_), lasting⟩
  rw [Nat.mul_comm]
  exact Nat.mul_lt_mul_of_pos_left (Nat.lt_succ_of_le few) (Nat.pow_pos (Nat.succ_pos n))

theorem lasting_hear {air' : List (Copy n)} (lasting : Lasting left air total) (member : copy ∈ air)
    (keeps : ∀ copy bound, left copy bound → left' copy bound)
    (spends : ∀ bound, left copy bound →
      ∃ fresh, air' = air.erase copy ++ fresh ∧ fresh.length ≤ n ∧ ∀ c ∈ fresh, ∃ less < bound, left' c less) :
    ∃ rest < total, Lasting left' air' rest := by
  obtain ⟨bound, rest, here, others, rfl⟩ := lasting_erase member lasting
  obtain ⟨fresh, rfl, few, lower⟩ := spends bound here
  obtain ⟨extra, short, lasting'⟩ := lasting_fresh few lower
  exact ⟨rest + extra, by omega, lasting_append (lasting_imp keeps others) lasting'⟩

end ZoneRouting.Swarm
