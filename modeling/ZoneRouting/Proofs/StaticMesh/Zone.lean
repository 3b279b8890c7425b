import ZoneRouting.Proofs.Routes
import ZoneRouting.Proofs.StaticMesh.Layout

set_option autoImplicit false

namespace ZoneRouting.StaticMesh

variable {n : Nat} (M : StaticMesh n)

-- The table of a device while advertisements spread: it holds trails inside the zone and nothing else.
structure Mapping (u : Fin n) (table : ZoneTable) : Prop where
  owner : table.owner = M.name u
  hops : table.borderHops = M.reach
  fresh : table.book.Fresh M.now
  trails : ∀ d, ∀ route ∈ table.book.hopsTo d,
    ∃ v p, M.name v = d ∧ route = M.names p ∧ M.Trail u v p ∧ 2 ≤ p.length ∧ p.length ≤ M.reach + 1
  candidates : ∀ d, d ∈ table.candidates ↔ ∃ route ∈ table.book.hopsTo d, route.length = M.reach + 1
  nodup : table.candidates.Nodup

-- The table of a device that knows its zone: it finds the shortest ways to the devices in it and on its
-- border, knows which ones are on the border, and is not changed by being asked.
structure Charted (u : Fin n) (table : ZoneTable) : Prop where
  settled : ∀ d, (table.lookup d M.now).2 = table
  near : ∀ v, M.Near u v → ∃ p, M.Shortest u v p ∧ (table.lookup (M.name v) M.now).1 = some (M.names p)
  far : ∀ d, (∀ v, M.Near u v → M.name v ≠ d) → (table.lookup d M.now).1 = none
  border : ∀ excluded, ∃ b, table.borderNodes excluded M.now = (M.names b, table) ∧ b.Nodup ∧
    ∀ v, v ∈ b ↔ M.Near u v ∧ M.graph.dist u v = M.reach ∧ M.name v ∉ excluded

variable {M}

theorem mapping_empty (u : Fin n) : M.Mapping u (ZoneTable.empty (M.name u) M.settings.zoneRadius) where
  owner := rfl
  hops := rfl
  fresh := RouteBook.fresh_empty M.now
  trails := nofun
  candidates _ := ⟨nofun, fun ⟨_, member, _⟩ => nomatch member⟩
  nodup := List.nodup_nil

theorem route_to_names (o : Fin n) (q : List (Fin n)) (key : PublicKey) (interval : UInt64) :
    ZoneTable.routeTo { origin := M.name o, key, route := M.names q, interval } = M.names (o :: q).reverse := by
  rw [ZoneTable.routeTo, names, names, List.map_reverse, List.map_cons, List.reverse_cons]

theorem learn_trail {u o : Fin n} {q : List (Fin n)} {table : ZoneTable} (mapping : M.Mapping u table)
    (trail : M.Trail o u (o :: q)) (short : q.length ≤ M.reach) (passed : q ≠ []) (key : PublicKey) (interval : UInt64) :
    M.Mapping u (table.learn { origin := M.name o, key, route := M.names q, interval } M.now).2 ∧
      ∀ d route, route ∈ (table.learn { origin := M.name o, key, route := M.names q, interval } M.now).2.book.hopsTo d ↔
        (d = M.name o ∧ route = M.names (o :: q).reverse) ∨ route ∈ table.book.hopsTo d := by
  have length : (o :: q).reverse.length = q.length + 1 := by rw [List.length_reverse, List.length_cons]
  have positive : 0 < q.length := List.length_pos_iff.mpr passed
  have last : (M.names q).getLast? = some table.owner := by
    have own := trail.last
    rw [List.getLast?_cons, Option.some.injEq] at own
    rw [mapping.owner, names, List.getLast?_map, List.getLast?_eq_some_getLast passed]
    rw [List.getLast?_eq_some_getLast passed, Option.getD_some] at own
    rw [Option.map_some, own]
  have loopFree : Route.LoopFree (M.names (o :: q).reverse) := names_nodup.mpr trail.reverse.nodup
  unfold ZoneTable.learn
  dsimp only
  rw [route_to_names, if_pos ⟨last, loopFree⟩]
  refine ⟨⟨mapping.owner, mapping.hops, ?_, ?_, ?_, ?_⟩, fun d route => RouteBook.mem_hops_store⟩
  · exact RouteBook.fresh_store mapping.fresh _ _ (le_deadline _ _)
  · intro d route member
    rcases RouteBook.mem_hops_store.mp member with ⟨rfl, rfl⟩ | known
    · exact ⟨o, _, rfl, rfl, trail.reverse, by omega, by omega⟩
    · exact mapping.trails d route known
  · intro d
    have whole : (M.names (o :: q).reverse).length = M.reach + 1 ↔ q.length = M.reach := by
      rw [length_names, length]
      omega
    have split : d ∈ (if (M.names (o :: q).reverse).length = table.borderHops + 1 ∧ M.name o ∉ table.candidates then
        table.candidates ++ [M.name o] else table.candidates) ↔
        (d = M.name o ∧ q.length = M.reach) ∨ d ∈ table.candidates := by
      rw [mapping.hops]
      by_cases fits : (M.names (o :: q).reverse).length = M.reach + 1 ∧ M.name o ∉ table.candidates
      · rw [if_pos fits, List.mem_append, List.mem_singleton]
        exact ⟨fun member => member.elim Or.inr fun here => Or.inl ⟨here, whole.mp fits.1⟩,
          fun member => member.elim (fun here => Or.inr here.1) Or.inl⟩
      · rw [if_neg fits]
        refine ⟨Or.inr, fun member => member.elim (fun here => ?_) id⟩
        rw [here.1]
        exact Classical.not_not.mp fun absent => fits ⟨whole.mpr here.2, absent⟩
    rw [split, mapping.candidates]
    constructor
    · rintro (⟨rfl, full⟩ | ⟨route, known, full⟩)
      · exact ⟨_, RouteBook.mem_hops_store.mpr (Or.inl ⟨rfl, rfl⟩), whole.mpr full⟩
      · exact ⟨route, RouteBook.mem_hops_store.mpr (Or.inr known), full⟩
    · rintro ⟨route, member, full⟩
      rcases RouteBook.mem_hops_store.mp member with ⟨rfl, rfl⟩ | known
      · exact Or.inl ⟨rfl, whole.mp full⟩
      · exact Or.inr ⟨route, known, full⟩
  · split
    · rename_i fits
      exact List.nodup_append.mpr ⟨mapping.nodup, List.nodup_singleton _,
        fun a member b here same => fits.2 (List.mem_singleton.mp here ▸ same ▸ member)⟩
    · exact mapping.nodup

theorem Trail.near {u v : Fin n} {p : List (Fin n)} (trail : M.Trail u v p) (long : 2 ≤ p.length)
    (short : p.length ≤ M.reach + 1) : M.Near u v := by
  have bound := trail.dist_lt
  refine ⟨?_, trail.reachable, by omega⟩
  intro same
  have first := trail.first
  have last := trail.last
  have nodup := trail.nodup
  match p, long with
  | a :: b :: rest, _ =>
      rw [List.head?_cons, Option.some.injEq] at first
      rw [List.getLast?_cons_cons] at last
      have again : a ∈ b :: rest := by
        rw [first, same]
        exact List.mem_of_getLast? last
      exact (List.nodup_cons.mp nodup).1 again

theorem Shortest.long {u v : Fin n} {p : List (Fin n)} (shortest : M.Shortest u v p) (near : M.Near u v) :
    2 ≤ p.length ∧ p.length ≤ M.reach + 1 := by
  have positive := near.reachable.pos_dist_of_ne near.other
  have within := near.within
  rw [shortest.length]
  exact ⟨by omega, by omega⟩

theorem names_surjective (ids : List Identifier) (known : ∀ id ∈ ids, ∃ v, M.name v = id) : ∃ b, M.names b = ids := by
  induction ids with
  | nil => exact ⟨[], rfl⟩
  | cons id ids ih =>
      obtain ⟨v, rfl⟩ := known id List.mem_cons_self
      obtain ⟨b, rfl⟩ := ih fun k member => known k (List.mem_cons_of_mem _ member)
      exact ⟨v :: b, rfl⟩

theorem charted_of_mapping {u : Fin n} {table : ZoneTable} (mapping : M.Mapping u table)
    (complete : ∀ v p, M.Trail u v p → 2 ≤ p.length → p.length ≤ M.reach + 1 → M.names p ∈ table.book.hopsTo (M.name v)) :
    M.Charted u table := by
  have found : ∀ v, M.Near u v → ∃ p, M.Shortest u v p ∧ (table.lookup (M.name v) M.now).1 = some (M.names p) := by
    intro v near
    obtain ⟨p, shortest⟩ := exists_shortest near.reachable
    have long := shortest.long near
    have stored := complete v p shortest.toTrail long.1 long.2
    obtain ⟨route, hit, known, least⟩ := RouteBook.fresh_found mapping.fresh stored
    obtain ⟨w, q, named, rfl, trail, _, _⟩ := mapping.trails _ _ known
    cases name_injective named
    refine ⟨q, ⟨trail, ?_⟩, hit⟩
    have lower := trail.dist_lt
    have upper := least _ stored
    rw [length_names, length_names, shortest.length] at upper
    omega
  have near_of_known : ∀ d route, route ∈ table.book.hopsTo d → ∃ v, M.name v = d ∧ M.Near u v := by
    intro d route known
    obtain ⟨v, p, named, _, trail, long, short⟩ := mapping.trails d route known
    exact ⟨v, named, trail.near long short⟩
  refine ⟨fun d => ?_, found, fun d far => ?_, fun excluded => ?_⟩
  · rw [ZoneTable.lookup_book, RouteBook.fresh_lookup mapping.fresh]
  · refine RouteBook.fresh_missing (List.eq_nil_iff_forall_not_mem.mpr fun route known => ?_)
    obtain ⟨v, named, near⟩ := near_of_known d route known
    exact far v near named
  · have filled : ∀ d ∈ table.candidates, table.book.hopsTo d ≠ [] := by
      intro d member empty
      obtain ⟨route, known, _⟩ := (mapping.candidates d).mp member
      rw [empty] at known
      cases known
    obtain ⟨border, swept, inside, members⟩ :=
      ZoneTable.sweep_fresh table.borderHops excluded mapping.fresh table.candidates filled
    have devices : ∀ d ∈ border, ∃ v, M.name v = d := by
      intro d member
      obtain ⟨route, known, _⟩ := (mapping.candidates d).mp (inside.subset member)
      obtain ⟨v, named, _⟩ := near_of_known d route known
      exact ⟨v, named⟩
    obtain ⟨b, rfl⟩ := names_surjective border devices
    refine ⟨b, ?_, names_nodup.mp (inside.nodup mapping.nodup), fun v => ?_⟩
    · unfold ZoneTable.borderNodes
      rw [swept]
    · rw [← mem_names (M := M), members, mapping.candidates, mapping.hops]
      constructor
      · rintro ⟨⟨route, known, _⟩, out, hit, same, full⟩
        obtain ⟨w, named, near⟩ := near_of_known _ _ known
        cases name_injective named
        obtain ⟨p, shortest, hit'⟩ := found v near
        rw [ZoneTable.lookup_route, same] at hit'
        rw [Option.some.inj hit', length_names, shortest.length] at full
        exact ⟨near, by omega, out⟩
      · rintro ⟨near, full, out⟩
        obtain ⟨p, shortest, hit⟩ := found v near
        have long := shortest.long near
        have length : (M.names p).length = M.reach + 1 := by rw [length_names, shortest.length, full]
        exact ⟨⟨M.names p, complete v p shortest.toTrail long.1 long.2, length⟩, out, M.names p, hit, length⟩

end ZoneRouting.StaticMesh
