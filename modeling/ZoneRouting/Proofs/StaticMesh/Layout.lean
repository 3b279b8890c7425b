import ZoneRouting.Proofs.Writes
import ZoneRouting.Proofs.Sealing
import Mathlib.Combinatorics.SimpleGraph.Metric
import Mathlib.Data.List.Chain

set_option autoImplicit false

namespace ZoneRouting

-- Honest devices under the same settings, whose links and clock stay as they are.
structure StaticMesh (n : Nat) where
  suite : Suite
  usable : suite.Usable
  who : Fin n → Identity
  distinct : Function.Injective fun u => (who u).id
  named : ∀ u, (who u).id ≠ Identifier.nil
  settings : Settings
  nesting : 2 ≤ settings.maxNestingDepth
  long : n ≤ settings.maxRouteLength
  random : Fin n → Random
  links : Links (Fin n)
  symmetric : links.Symmetric
  now : UInt64

namespace StaticMesh

variable {n : Nat} (M : StaticMesh n)

def name (u : Fin n) : Identifier := (M.who u).id

def names (p : List (Fin n)) : List Identifier := p.map M.name

def key (u : Fin n) : PublicKey := (M.who u).publicKey M.suite

def reach : Nat := M.settings.zoneRadius + 1

def graph : SimpleGraph (Fin n) := SimpleGraph.fromRel fun u v => (u, v) ∈ M.links

def start : Swarm n := Swarm.start M.suite (fun _ => M.settings) M.who M.random

structure Near (u v : Fin n) : Prop where
  other : u ≠ v
  reachable : M.graph.Reachable u v
  within : M.graph.dist u v ≤ M.reach

structure Trail (u v : Fin n) (p : List (Fin n)) : Prop where
  nodup : p.Nodup
  chain : p.IsChain M.graph.Adj
  first : p.head? = some u
  last : p.getLast? = some v

structure Shortest (u v : Fin n) (p : List (Fin n)) : Prop extends M.Trail u v p where
  length : p.length = M.graph.dist u v + 1

variable {M}

theorem name_injective : Function.Injective M.name := M.distinct

theorem mem_names {u : Fin n} {p : List (Fin n)} : M.name u ∈ M.names p ↔ u ∈ p :=
  List.mem_map_of_injective name_injective

theorem names_nodup {p : List (Fin n)} : (M.names p).Nodup ↔ p.Nodup := List.nodup_map_iff name_injective

theorem names_append (p q : List (Fin n)) : M.names (p ++ q) = M.names p ++ M.names q := List.map_append

theorem length_names (p : List (Fin n)) : (M.names p).length = p.length := List.length_map M.name

theorem names_valid (p : List (Fin n)) : Wire.checkIdentifiers (M.names p) = .ok () := by
  have none : (M.names p).any Identifier.isNil = false := by
    rw [List.any_eq_false]
    intro id member
    obtain ⟨u, _, rfl⟩ := List.mem_map.mp member
    exact fun same => M.named u (of_decide_eq_true same)
  rw [Wire.checkIdentifiers, none]
  rfl

theorem adj_iff {u v : Fin n} : M.graph.Adj u v ↔ u ≠ v ∧ (u, v) ∈ M.links := by
  rw [graph, SimpleGraph.fromRel_adj]
  exact ⟨fun ⟨other, linked⟩ => ⟨other, linked.elim id (M.symmetric v u)⟩, fun ⟨other, linked⟩ => ⟨other, Or.inl linked⟩⟩

theorem Near.symm {u v : Fin n} (near : M.Near u v) : M.Near v u :=
  ⟨near.other.symm, near.reachable.symm, SimpleGraph.dist_comm (G := M.graph) ▸ near.within⟩

theorem near_of_adj {u v : Fin n} (adj : M.graph.Adj u v) : M.Near u v :=
  ⟨adj.ne, adj.reachable, by rw [SimpleGraph.dist_eq_one_iff_adj.mpr adj]; exact Nat.le_add_left 1 _⟩

theorem Trail.path {u v : Fin n} {p : List (Fin n)} (trail : M.Trail u v p) :
    ∃ w : M.graph.Walk u v, w.IsPath ∧ w.support = p := by
  have nonempty : p ≠ [] := fun empty => by simpa [empty] using trail.first
  have head : p.head nonempty = u := Option.some.inj ((List.head?_eq_some_head nonempty).symm.trans trail.first)
  have last : p.getLast nonempty = v := Option.some.inj ((List.getLast?_eq_some_getLast nonempty).symm.trans trail.last)
  subst head last
  have support := SimpleGraph.Walk.support_ofSupport nonempty trail.chain
  exact ⟨.ofSupport p nonempty trail.chain, .mk' (support.symm ▸ trail.nodup), support⟩

theorem trail_of_path {u v : Fin n} {w : M.graph.Walk u v} (path : w.IsPath) : M.Trail u v w.support := by
  refine ⟨path.support_nodup, w.isChain_adj_support, ?_, ?_⟩
  · rw [List.head?_eq_some_head w.support_ne_nil, SimpleGraph.Walk.head_support]
  · rw [List.getLast?_eq_some_getLast w.support_ne_nil, SimpleGraph.Walk.getLast_support]

theorem Trail.walk {u v : Fin n} {p : List (Fin n)} (trail : M.Trail u v p) :
    ∃ w : M.graph.Walk u v, w.length + 1 = p.length := by
  obtain ⟨w, _, rfl⟩ := trail.path
  exact ⟨w, w.length_support.symm⟩

theorem Trail.reachable {u v : Fin n} {p : List (Fin n)} (trail : M.Trail u v p) : M.graph.Reachable u v := by
  obtain ⟨w, _⟩ := trail.walk
  exact ⟨w⟩

theorem Trail.dist_lt {u v : Fin n} {p : List (Fin n)} (trail : M.Trail u v p) : M.graph.dist u v < p.length := by
  obtain ⟨w, length⟩ := trail.walk
  have bound := SimpleGraph.dist_le w
  omega

theorem Trail.reverse {u v : Fin n} {p : List (Fin n)} (trail : M.Trail u v p) : M.Trail v u p.reverse where
  nodup := List.nodup_reverse.mpr trail.nodup
  chain := List.isChain_reverse.mpr (trail.chain.imp fun _ _ adj => adj.symm)
  first := List.head?_reverse.trans trail.last
  last := List.getLast?_reverse.trans trail.first

theorem exists_shortest {u v : Fin n} (reachable : M.graph.Reachable u v) : ∃ p, M.Shortest u v p := by
  obtain ⟨w, path, length⟩ := reachable.exists_path_of_dist
  exact ⟨w.support, trail_of_path path, by rw [SimpleGraph.Walk.length_support, length]⟩

theorem Trail.cut {u v w : Fin n} {a b : List (Fin n)} (trail : M.Trail u v (a ++ w :: b)) :
    M.Trail u w (a ++ [w]) ∧ M.Trail w v (w :: b) := by
  have whole : a ++ w :: b = (a ++ [w]) ++ b := by rw [List.append_assoc, List.singleton_append]
  have nodup := trail.nodup
  have chain := trail.chain
  refine ⟨⟨?_, ?_, ?_, List.getLast?_concat⟩, ⟨nodup.of_append_right, chain.right_of_append, rfl, ?_⟩⟩
  · rw [whole] at nodup
    exact nodup.of_append_left
  · rw [whole] at chain
    exact chain.left_of_append
  · rw [← trail.first]
    cases a with
    | nil => rfl
    | cons x a => rfl
  · rw [← trail.last, List.getLast?_append_of_ne_nil _ (by simp)]

theorem exists_border {u v : Fin n} (reachable : M.graph.Reachable u v) (far : M.reach < M.graph.dist u v) :
    ∃ w, M.Near u w ∧ M.graph.dist u w = M.reach ∧ M.graph.Reachable w v ∧
      M.graph.dist w v + M.reach = M.graph.dist u v := by
  obtain ⟨p, shortest⟩ := exists_shortest reachable
  have length := shortest.length
  have inside : M.reach < p.length := by omega
  have split : p = p.take M.reach ++ p[M.reach] :: p.drop (M.reach + 1) := by
    rw [← List.drop_eq_getElem_cons inside, List.take_append_drop]
  have trail := shortest.toTrail
  rw [split] at trail
  obtain ⟨near, rest⟩ := trail.cut
  have short := near.dist_lt
  have long := rest.dist_lt
  rw [List.length_append, List.length_take, List.length_singleton] at short
  rw [List.length_cons, List.length_drop] at long
  have triangle := near.reachable.dist_triangle_left v
  have exactly : M.graph.dist u p[M.reach] = M.reach := by omega
  refine ⟨p[M.reach], ⟨?_, near.reachable, exactly.le⟩, exactly, rest.reachable, by omega⟩
  intro same
  rw [← same, SimpleGraph.dist_self] at exactly
  exact absurd exactly (Nat.succ_ne_zero _).symm

end StaticMesh
end ZoneRouting
