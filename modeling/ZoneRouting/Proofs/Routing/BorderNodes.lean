import ZoneRouting.Proofs.Engine.Bordercast
import ZoneRouting.Proofs.Routing.History

set_option autoImplicit false

namespace ZoneRouting

namespace RouteBook

variable {now : UInt64} {book book' : RouteBook} {d : Identifier} {route route' : Route}

theorem Shortest.length (shortest : book.Shortest now d route) (shortest' : book.Shortest now d route') :
    route.length = route'.length := by
  obtain ⟨⟨r, member, rfl, live⟩, least⟩ := shortest
  obtain ⟨⟨r', member', rfl, live'⟩, least'⟩ := shortest'
  exact Nat.le_antisymm (least r' member' live') (least' r member live)

theorem Shortest.found (shortest : book.Shortest now d route) :
    ∃ found, (book.lookup d now).1 = some found ∧ found.length = route.length := by
  cases answer : (book.lookup d now).1 with
  | none =>
      obtain ⟨⟨r, member, _, live⟩, _⟩ := shortest
      exact absurd live (lookup_none answer r member)
  | some found =>
      have shortest' : book.Shortest now d found := lookup_some answer
      exact ⟨found, rfl, shortest'.length shortest⟩

end RouteBook

namespace ZoneTable

variable {now : UInt64} {table table' : ZoneTable} {excluded : List Identifier}

theorem asked_iff {borderHops : Nat} {book : RouteBook} {node : Identifier} :
    asked excluded now borderHops book node = true ↔
      node ∉ excluded ∧ ∃ route, book.Shortest now node route ∧ route.length = borderHops + 1 := by
  rw [asked, Option.any_eq_true]
  constructor
  · rintro ⟨route, answer, passes⟩
    obtain ⟨length, outside⟩ := of_decide_eq_true passes
    exact ⟨outside, route, RouteBook.lookup_some answer, length⟩
  · rintro ⟨outside, route, shortest, length⟩
    obtain ⟨found, answer, same⟩ := shortest.found
    exact ⟨found, answer, decide_eq_true ⟨same.trans length, outside⟩⟩

theorem Ranked.border_nodes_iff (ranked : table.Ranked) (excluded : List Identifier) (now : UInt64) (d : Identifier) :
    d ∈ (table.borderNodes excluded now).1 ↔
      d ∉ excluded ∧ ∃ route, table.book.Shortest now d route ∧ route.length = table.borderHops + 1 := by
  rw [border_nodes_asked, List.mem_filter, asked_iff]
  refine ⟨And.right, fun border => ⟨?_, border⟩⟩
  obtain ⟨_, route, ⟨⟨r, member, same, _⟩, _⟩, length⟩ := border
  exact ranked.listed d route (List.mem_map.mpr ⟨r, member, same⟩) length

theorem use_border_hops (table : ZoneTable) (u : Use) : (table.use u).borderHops = table.borderHops := by
  cases u with
  | learn a now => exact learn_border_hops table a now
  | lookup d now | borderNodes excluded now => rfl

theorem Ranked.use (ranked : table.Ranked) (u : Use) : (table.use u).Ranked := by
  cases u with
  | learn a now => exact ranked.learn a now
  | lookup d now | borderNodes excluded now => exact ranked.prunes (use_prunes rfl table)

theorem use_all_ranked (ranked : table.Ranked) (uses : List Use) :
    (table.useAll uses).Ranked ∧ (table.useAll uses).borderHops = table.borderHops := by
  induction uses generalizing table with
  | nil => exact ⟨ranked, rfl⟩
  | cons u uses ih =>
      obtain ⟨ranked', same⟩ := ih (ranked.use u)
      exact ⟨ranked', same.trans (use_border_hops table u)⟩

theorem use_all_prunes {reads : List Use} (only : ∀ u ∈ reads, u.stores = false ∧ u.time = now) (table : ZoneTable) :
    table.Prunes now (table.useAll reads) := by
  induction reads generalizing table with
  | nil => exact prunes_refl now table
  | cons u reads ih =>
      obtain ⟨quiet, rfl⟩ := only u List.mem_cons_self
      exact (use_prunes quiet table).trans (ih (fun u' later => only u' (List.mem_cons_of_mem u later)) (table.use u))

-- Asking drops routes past their deadline only, and those do not count.
theorem border_nodes_exact (owner : Identifier) (zoneRadius : Nat) (uses : List Use) (excluded : List Identifier) (now : UInt64) :
    let table := (empty owner zoneRadius).useAll uses
    let border := (table.borderNodes excluded now).1
    let after := (table.borderNodes excluded now).2
    border.Nodup ∧
    (∀ d, d ∈ border ↔ d ∉ excluded ∧ ∃ route, table.book.Shortest now d route ∧ route.length = zoneRadius + 2) ∧
    (∀ d, ∀ r ∈ table.book.bucket d, TimedRoute.Live now r → r ∈ after.book.bucket d) ∧
    ∀ reads : List Use, (∀ u ∈ reads, u.stores = false ∧ u.time = now) →
      (∀ d, ((after.useAll reads).lookup d now).1 = (table.lookup d now).1) ∧
      ∀ excluded', ((after.useAll reads).borderNodes excluded' now).1 = (table.borderNodes excluded' now).1 := by
  intro table border after
  have bare : (empty owner zoneRadius).Ranked := ⟨List.nodup_nil, nofun⟩
  obtain ⟨ranked, hops⟩ : table.Ranked ∧ table.borderHops = zoneRadius + 1 := use_all_ranked bare uses
  have prunes : table.Prunes now after := prunes_border_nodes now table excluded
  refine ⟨?_, fun d => ?_, fun d r member live => prunes.book.live member live, fun reads only => ?_⟩
  · have passes : border = table.candidates.filter _ := border_nodes_asked table excluded now
    exact passes ▸ ranked.once.filter _
  · rw [ranked.border_nodes_iff, hops]
  · have prunes' := prunes.trans (use_all_prunes only after)
    exact ⟨prunes'.book.lookup, prunes'.border_nodes ranked.once⟩

theorem border_nodes_exact_waning :
    let table := (empty (station 0) 1).useAll waning
    let reads : List Use := [.lookup (station 3) 9, .borderNodes [station 3] 9]
    (table.borderNodes [] 9).1 = [station 3] ∧
    table.book.Shortest 9 (station 3) [station 0, station 1, station 3] ∧
    (((table.borderNodes [] 9).2.useAll reads).borderNodes [] 9).1 = [station 3] := by
  intro table reads
  have runs : (table.borderNodes [] 9).1 = [station 3] ∧
      (table.lookup (station 3) 9).1 = some [station 0, station 1, station 3] := by decide +kernel
  obtain ⟨border, answer⟩ := runs
  obtain ⟨_, _, _, same⟩ := border_nodes_exact (station 0) 1 waning [] 9
  have only : ∀ u ∈ reads, u.stores = false ∧ u.time = 9 :=
    List.forall_mem_cons.mpr ⟨⟨rfl, rfl⟩, List.forall_mem_cons.mpr ⟨⟨rfl, rfl⟩, nofun⟩⟩
  exact ⟨border, RouteBook.lookup_some answer, ((same reads only).2 []).trans border⟩

end ZoneTable
end ZoneRouting
