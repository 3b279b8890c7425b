import ZoneRouting.ZoneTable
import ZoneRouting.RouteCache

set_option autoImplicit false

namespace ZoneRouting

def Joins (owner d : Identifier) (route : Route) : Prop := route.head? = some owner ∧ route.getLast? = some d

theorem Directory.put_found {α : Type} {id : Identifier} {a : α} {entries : List (Identifier × α)}
    (found : lookup id entries = some a) : put id a entries = entries := by
  induction entries with
  | nil => cases found
  | cons entry rest ih =>
      obtain ⟨k, b⟩ := entry
      by_cases same : k = id
      · rw [lookup, if_pos same] at found
        rw [put, if_pos same, same, Option.some.inj found]
      · rw [lookup, if_neg same] at found
        rw [put, if_neg same, ih found]

theorem Directory.insert_found {α : Type} {id : Identifier} {a : α} {d : Directory α} (found : d.find? id = some a) :
    d.insert id a = d := by
  obtain ⟨entries, nodup⟩ := d
  have same : put id a entries = entries := put_found found
  unfold insert
  simp only [same]

theorem le_deadline (now duration : UInt64) : now ≤ deadline now duration := by
  have bound := now.toNat_lt
  have last : latest.toNat = 18446744073709551615 := rfl
  rw [UInt64.le_iff_toNat_le, to_nat_deadline, last]
  omega

namespace TimedRoute

theorem later_deadline (a b : UInt64) : a ≤ b ∧ max a b = b ∨ b ≤ a ∧ max a b = a := by
  change a ≤ b ∧ (if a ≤ b then b else a) = b ∨ b ≤ a ∧ (if a ≤ b then b else a) = a
  by_cases earlier : a ≤ b
  · exact Or.inl ⟨earlier, if_pos earlier⟩
  · exact Or.inr ⟨UInt64.le_of_lt (UInt64.not_le.mp earlier), if_neg earlier⟩

theorem mem_enter {hops : Route} {validUntil : UInt64} {routes : List TimedRoute} {r : TimedRoute}
    (member : r ∈ enter hops validUntil routes) : r = ⟨hops, validUntil⟩ ∨ r ∈ routes := by
  induction routes with
  | nil => exact Or.inl (List.mem_singleton.mp member)
  | cons first rest ih =>
      by_cases same : first.hops = hops
      · rw [enter, if_pos same] at member
        rcases List.mem_cons.mp member with here | later
        · rcases later_deadline first.validUntil validUntil with ⟨_, new⟩ | ⟨_, old⟩
          · exact Or.inl (new ▸ here)
          · rw [old, ← same] at here
            exact Or.inr (here ▸ List.mem_cons_self)
        · exact Or.inr (List.mem_cons_of_mem _ later)
      · rw [enter, if_neg same] at member
        rcases List.mem_cons.mp member with here | later
        · exact Or.inr (here ▸ List.mem_cons_self)
        · exact (ih later).imp_right (List.mem_cons_of_mem _)

theorem entered (hops : Route) (validUntil : UInt64) (routes : List TimedRoute) :
    ∃ r ∈ enter hops validUntil routes, r.hops = hops ∧ validUntil ≤ r.validUntil := by
  induction routes with
  | nil => exact ⟨_, List.mem_singleton_self _, rfl, UInt64.le_refl _⟩
  | cons first rest ih =>
      by_cases same : first.hops = hops
      · rw [enter, if_pos same]
        refine ⟨_, List.mem_cons_self, rfl, ?_⟩
        rcases later_deadline first.validUntil validUntil with ⟨_, new⟩ | ⟨later, old⟩
        · exact new.symm ▸ UInt64.le_refl _
        · exact old.symm ▸ later
      · obtain ⟨r, member, rest⟩ := ih
        rw [enter, if_neg same]
        exact ⟨r, List.mem_cons_of_mem _ member, rest⟩

theorem enter_kept (hops : Route) (validUntil : UInt64) {routes : List TimedRoute} {r : TimedRoute} (member : r ∈ routes) :
    ∃ r' ∈ enter hops validUntil routes, r'.hops = r.hops ∧ r.validUntil ≤ r'.validUntil := by
  induction routes with
  | nil => cases member
  | cons first rest ih =>
      by_cases same : first.hops = hops
      · rw [enter, if_pos same]
        rcases List.mem_cons.mp member with rfl | later
        · refine ⟨_, List.mem_cons_self, same.symm, ?_⟩
          rcases later_deadline r.validUntil validUntil with ⟨earlier, new⟩ | ⟨_, old⟩
          · exact new.symm ▸ earlier
          · exact old.symm ▸ UInt64.le_refl _
        · exact ⟨r, List.mem_cons_of_mem _ later, rfl, UInt64.le_refl _⟩
      · rw [enter, if_neg same]
        rcases List.mem_cons.mp member with rfl | later
        · exact ⟨r, List.mem_cons_self, rfl, UInt64.le_refl _⟩
        · obtain ⟨r', member', rest⟩ := ih later
          exact ⟨r', List.mem_cons_of_mem _ member', rest⟩

theorem shortest_none {routes : List TimedRoute} (found : shortest? routes = none) : routes = [] := by
  cases routes with
  | nil => rfl
  | cons first rest =>
      rw [shortest?] at found
      cases tail : shortest? rest with
      | none => rw [tail] at found; cases found
      | some other =>
          rw [tail] at found
          dsimp only at found
          split at found <;> cases found

theorem shortest_some {routes : List TimedRoute} {best : TimedRoute} (found : shortest? routes = some best) :
    best ∈ routes ∧ ∀ r ∈ routes, best.hops.length ≤ r.hops.length := by
  induction routes generalizing best with
  | nil => cases found
  | cons first rest ih =>
      rw [shortest?] at found
      cases tail : shortest? rest with
      | none =>
          have empty := shortest_none tail
          rw [tail] at found
          cases found
          subst empty
          exact ⟨List.mem_cons_self, fun r member => List.mem_singleton.mp member ▸ Nat.le_refl _⟩
      | some other =>
          obtain ⟨member, least⟩ := ih tail
          rw [tail] at found
          dsimp only at found
          by_cases less : other.hops.length < first.hops.length
          · rw [if_pos less] at found
            cases found
            refine ⟨List.mem_cons_of_mem _ member, fun r later => ?_⟩
            rcases List.mem_cons.mp later with here | later
            · rw [here]
              exact Nat.le_of_lt less
            · exact least r later
          · rw [if_neg less] at found
            cases found
            refine ⟨List.mem_cons_self, fun r later => ?_⟩
            rcases List.mem_cons.mp later with here | later
            · exact here ▸ Nat.le_refl _
            · exact Nat.le_trans (Nat.not_lt.mp less) (least r later)

theorem hops_enter (hops : Route) (validUntil : UInt64) (routes : List TimedRoute) :
    (enter hops validUntil routes).map TimedRoute.hops =
      if hops ∈ routes.map TimedRoute.hops then routes.map TimedRoute.hops
      else routes.map TimedRoute.hops ++ [hops] := by
  induction routes with
  | nil => rfl
  | cons first rest ih =>
      by_cases same : first.hops = hops
      · rw [enter, if_pos same, List.map_cons, List.map_cons, if_pos (same ▸ List.mem_cons_self), same]
      · rw [enter, if_neg same, List.map_cons, List.map_cons, ih]
        by_cases later : hops ∈ rest.map TimedRoute.hops
        · rw [if_pos later, if_pos (List.mem_cons_of_mem _ later)]
        · have absent : hops ∉ first.hops :: rest.map TimedRoute.hops :=
            fun member => (List.mem_cons.mp member).elim (fun here => same here.symm) later
          rw [if_neg later, if_neg absent, List.cons_append]

theorem live_enter {now validUntil : UInt64} {routes : List TimedRoute} (hops : Route)
    (live : ∀ r ∈ routes, Live now r) (valid : now ≤ validUntil) : ∀ r ∈ enter hops validUntil routes, Live now r := by
  intro r member
  rcases mem_enter member with rfl | kept
  · exact valid
  · exact live r kept

end TimedRoute

namespace RouteBook

theorem bucket_store (book : RouteBook) (d k : Identifier) (hops : Route) (validUntil : UInt64) :
    (book.store d hops validUntil).bucket k =
      if k = d then TimedRoute.enter hops validUntil (book.bucket d) else book.bucket k := by
  unfold bucket store
  dsimp only
  rw [Directory.find?_insert]
  by_cases same : k = d
  · rw [if_pos same, if_pos same]
    rfl
  · rw [if_neg same, if_neg same]

theorem bucket_lookup (book : RouteBook) (d k : Identifier) (now : UInt64) :
    (book.lookup d now).2.bucket k =
      if k = d then (book.bucket d).filter (TimedRoute.Live now ·) else book.bucket k := by
  unfold lookup
  cases found : book.buckets.find? d with
  | none =>
      have none : book.bucket d = [] := by rw [bucket, found]; rfl
      by_cases same : k = d
      · rw [if_pos same, none, same]
        exact none
      · rw [if_neg same]
  | some routes =>
      have some : book.bucket d = routes := by rw [bucket, found]; rfl
      dsimp only
      cases best : TimedRoute.shortest? (routes.filter (TimedRoute.Live now ·)) with
      | none =>
          have empty := TimedRoute.shortest_none best
          dsimp only [bucket]
          rw [Directory.find?_erase]
          by_cases same : k = d
          · rw [if_pos same, if_pos same, ← bucket, some, empty]
            rfl
          · rw [if_neg same, if_neg same]
      | some r =>
          dsimp only [bucket]
          rw [Directory.find?_insert]
          by_cases same : k = d
          · rw [if_pos same, if_pos same, ← bucket, some]
            rfl
          · rw [if_neg same, if_neg same]

def Shortest (now : UInt64) (book : RouteBook) (d : Identifier) (route : Route) : Prop :=
  (∃ r ∈ book.bucket d, r.hops = route ∧ TimedRoute.Live now r) ∧
    ∀ r ∈ book.bucket d, TimedRoute.Live now r → route.length ≤ r.hops.length

theorem lookup_some {book : RouteBook} {d : Identifier} {now : UInt64} {route : Route}
    (found : (book.lookup d now).1 = some route) : book.Shortest now d route := by
  unfold lookup at found
  cases entry : book.buckets.find? d with
  | none =>
      rw [entry] at found
      cases found
  | some routes =>
      have some : book.bucket d = routes := by rw [bucket, entry]; rfl
      rw [entry] at found
      dsimp only at found
      cases best : TimedRoute.shortest? (routes.filter (TimedRoute.Live now ·)) with
      | none =>
          rw [best] at found
          cases found
      | some r =>
          rw [best] at found
          cases found
          obtain ⟨member, least⟩ := TimedRoute.shortest_some best
          obtain ⟨inside, live⟩ := List.mem_filter.mp member
          rw [Shortest, some]
          exact ⟨⟨r, inside, rfl, of_decide_eq_true live⟩,
            fun other member alive => least other (List.mem_filter.mpr ⟨member, decide_eq_true alive⟩)⟩

theorem lookup_none {book : RouteBook} {d : Identifier} {now : UInt64} (found : (book.lookup d now).1 = none) :
    ∀ r ∈ book.bucket d, ¬ TimedRoute.Live now r := by
  unfold lookup at found
  cases entry : book.buckets.find? d with
  | none =>
      have none : book.bucket d = [] := by rw [bucket, entry]; rfl
      rw [none]
      simp
  | some routes =>
      have some : book.bucket d = routes := by rw [bucket, entry]; rfl
      rw [entry] at found
      dsimp only at found
      cases best : TimedRoute.shortest? (routes.filter (TimedRoute.Live now ·)) with
      | none =>
          intro r member alive
          have kept : r ∈ routes.filter (TimedRoute.Live now ·) :=
            List.mem_filter.mpr ⟨some ▸ member, decide_eq_true alive⟩
          rw [TimedRoute.shortest_none best] at kept
          cases kept
      | some r =>
          rw [best] at found
          cases found

def All (property : Identifier → Route → Prop) (book : RouteBook) : Prop :=
  ∀ d, ∀ r ∈ book.bucket d, property d r.hops

theorem all_empty (property : Identifier → Route → Prop) : All property empty := by
  intro d r member
  cases member

theorem all_store {property : Identifier → Route → Prop} {book : RouteBook} (all : All property book)
    (d : Identifier) (hops : Route) (validUntil : UInt64) (holds : property d hops) :
    All property (book.store d hops validUntil) := by
  intro k r member
  rw [bucket_store] at member
  by_cases same : k = d
  · rw [if_pos same] at member
    rcases TimedRoute.mem_enter member with entered | kept
    · rw [same, entered]
      exact holds
    · rw [same]
      exact all d r kept
  · rw [if_neg same] at member
    exact all k r member

theorem all_lookup {property : Identifier → Route → Prop} {book : RouteBook} (all : All property book)
    (d : Identifier) (now : UInt64) : All property (book.lookup d now).2 := by
  intro k r member
  rw [bucket_lookup] at member
  by_cases same : k = d
  · rw [if_pos same] at member
    rw [same]
    exact all d r (List.mem_filter.mp member).1
  · rw [if_neg same] at member
    exact all k r member

def hopsTo (book : RouteBook) (d : Identifier) : List Route := (book.bucket d).map TimedRoute.hops

theorem mem_hops_store {book : RouteBook} {d k : Identifier} {hops route : Route} {validUntil : UInt64} :
    route ∈ (book.store d hops validUntil).hopsTo k ↔ (k = d ∧ route = hops) ∨ route ∈ book.hopsTo k := by
  unfold hopsTo
  rw [bucket_store]
  by_cases same : k = d
  · subst same
    rw [if_pos rfl, TimedRoute.hops_enter]
    by_cases known : hops ∈ (book.bucket k).map TimedRoute.hops
    · rw [if_pos known]
      exact ⟨Or.inr, fun member => member.elim (fun fresh => fresh.2 ▸ known) id⟩
    · rw [if_neg known, List.mem_append, List.mem_singleton]
      exact ⟨fun member => member.elim Or.inr fun fresh => Or.inl ⟨rfl, fresh⟩,
        fun member => member.elim (fun fresh => Or.inr fresh.2) Or.inl⟩
  · rw [if_neg same]
    exact ⟨Or.inr, fun member => member.elim (fun fresh => absurd fresh.1 same) id⟩

structure Fresh (now : UInt64) (book : RouteBook) : Prop where
  live : ∀ d, ∀ r ∈ book.bucket d, TimedRoute.Live now r
  filled : ∀ d, book.buckets.find? d ≠ some []

theorem fresh_empty (now : UInt64) : Fresh now empty := ⟨nofun, nofun⟩

theorem filled_store {book : RouteBook} (filled : ∀ d, book.buckets.find? d ≠ some []) (d : Identifier) (hops : Route)
    (validUntil : UInt64) : ∀ k, (book.store d hops validUntil).buckets.find? k ≠ some [] := by
  intro k empty
  rw [store, Directory.find?_insert] at empty
  by_cases same : k = d
  · rw [if_pos same] at empty
    have none := congrArg (List.map TimedRoute.hops) (Option.some.inj empty)
    rw [TimedRoute.hops_enter] at none
    split at none
    · rename_i known
      rw [none] at known
      cases known
    · simp at none
  · rw [if_neg same] at empty
    exact filled k empty

theorem fresh_store {now validUntil : UInt64} {book : RouteBook} (fresh : Fresh now book) (d : Identifier) (hops : Route)
    (valid : now ≤ validUntil) : Fresh now (book.store d hops validUntil) := by
  refine ⟨fun k r member => ?_, filled_store fresh.filled d hops validUntil⟩
  rw [bucket_store] at member
  by_cases same : k = d
  · rw [if_pos same] at member
    exact TimedRoute.live_enter hops (fresh.live d) valid r member
  · rw [if_neg same] at member
    exact fresh.live k r member

theorem fresh_lookup {now : UInt64} {book : RouteBook} (fresh : Fresh now book) (d : Identifier) :
    (book.lookup d now).2 = book := by
  unfold lookup
  cases entry : book.buckets.find? d with
  | none => rfl
  | some routes =>
      have bucket : book.bucket d = routes := by rw [RouteBook.bucket, entry]; rfl
      have kept : routes.filter (TimedRoute.Live now ·) = routes :=
        List.filter_eq_self.mpr fun r member => decide_eq_true (fresh.live d r (bucket ▸ member))
      dsimp only
      rw [kept]
      cases best : TimedRoute.shortest? routes with
      | none =>
          rw [TimedRoute.shortest_none best] at entry
          exact absurd entry (fresh.filled d)
      | some r =>
          dsimp only
          rw [Directory.insert_found entry]

theorem fresh_found {now : UInt64} {book : RouteBook} (fresh : Fresh now book) {d : Identifier} {hops : Route}
    (known : hops ∈ book.hopsTo d) :
    ∃ route, (book.lookup d now).1 = some route ∧ route ∈ book.hopsTo d ∧ ∀ r ∈ book.hopsTo d, route.length ≤ r.length := by
  cases found : (book.lookup d now).1 with
  | none =>
      obtain ⟨r, member, _⟩ := List.mem_map.mp known
      exact absurd (fresh.live d r member) (lookup_none found r member)
  | some route =>
      obtain ⟨⟨r, member, same, _⟩, least⟩ := lookup_some found
      refine ⟨route, rfl, List.mem_map.mpr ⟨r, member, same⟩, fun other known => ?_⟩
      obtain ⟨r', member', rfl⟩ := List.mem_map.mp known
      exact least r' member' (fresh.live d r' member')

theorem fresh_missing {now : UInt64} {book : RouteBook} {d : Identifier} (missing : book.hopsTo d = []) :
    (book.lookup d now).1 = none := by
  cases found : (book.lookup d now).1 with
  | none => rfl
  | some route =>
      obtain ⟨⟨r, member, _, _⟩, _⟩ := lookup_some found
      rw [List.map_eq_nil_iff.mp missing] at member
      cases member

end RouteBook

namespace ZoneTable

theorem sweep_fresh (borderHops : Nat) (excluded : List Identifier) {now : UInt64} {book : RouteBook}
    (fresh : book.Fresh now) (nodes : List Identifier) (known : ∀ node ∈ nodes, book.hopsTo node ≠ []) :
    ∃ border, sweep borderHops excluded now nodes book = (border, nodes, book) ∧ border.Sublist nodes ∧
      ∀ node, node ∈ border ↔ node ∈ nodes ∧ node ∉ excluded ∧
        ∃ route, (book.lookup node now).1 = some route ∧ route.length = borderHops + 1 := by
  induction nodes with
  | nil => exact ⟨[], rfl, List.Sublist.refl _, by simp⟩
  | cons node nodes ih =>
      obtain ⟨border, swept, inside, members⟩ := ih fun k member => known k (List.mem_cons_of_mem _ member)
      obtain ⟨hops, some⟩ := List.exists_mem_of_ne_nil _ (known node List.mem_cons_self)
      obtain ⟨route, found, _⟩ := RouteBook.fresh_found fresh some
      have looked : book.lookup node now = (Option.some route, book) :=
        Prod.ext found (RouteBook.fresh_lookup fresh node)
      rw [sweep, looked]
      dsimp only
      rw [swept]
      dsimp only
      by_cases on : route.length = borderHops + 1 ∧ node ∉ excluded
      · rw [if_pos on]
        refine ⟨node :: border, rfl, inside.cons_cons _, fun k => ?_⟩
        rw [List.mem_cons, List.mem_cons, members]
        constructor
        · rintro (rfl | ⟨later, rest⟩)
          · exact ⟨Or.inl rfl, on.2, route, found, on.1⟩
          · exact ⟨Or.inr later, rest⟩
        · rintro ⟨rfl | later, rest⟩
          · exact Or.inl rfl
          · exact Or.inr ⟨later, rest⟩
      · rw [if_neg on]
        refine ⟨border, rfl, inside.cons _, fun k => ?_⟩
        rw [List.mem_cons, members]
        constructor
        · rintro ⟨later, rest⟩
          exact ⟨Or.inr later, rest⟩
        · rintro ⟨rfl | later, out, other, found', length⟩
          · rw [found] at found'
            cases found'
            exact absurd ⟨length, out⟩ on
          · exact ⟨later, out, other, found', length⟩

theorem lookup_book (table : ZoneTable) (d : Identifier) (now : UInt64) :
    (table.lookup d now).2 = { table with book := (table.book.lookup d now).2 } := rfl

theorem lookup_route (table : ZoneTable) (d : Identifier) (now : UInt64) :
    (table.lookup d now).1 = (table.book.lookup d now).1 := rfl

theorem all_sweep {property : Identifier → Route → Prop} (borderHops : Nat) (excluded : List Identifier) (now : UInt64)
    (nodes : List Identifier) {book : RouteBook} (all : book.All property) :
    (sweep borderHops excluded now nodes book).2.2.All property := by
  induction nodes generalizing book with
  | nil => exact all
  | cons node nodes ih =>
      have pruned := RouteBook.all_lookup all node now
      rw [sweep]
      cases found : book.lookup node now with
      | mk route rest =>
          rw [found] at pruned
          cases route with
          | none => exact ih pruned
          | some route =>
              dsimp only
              split <;> exact ih pruned

theorem route_to_head (a : Advertisement) (owner : Identifier) (last : a.route.getLast? = some owner) :
    (routeTo a).head? = some owner := by
  rw [routeTo, List.head?_append, List.head?_reverse, last]
  rfl

theorem route_to_last (a : Advertisement) : (routeTo a).getLast? = some a.origin := by
  rw [routeTo, List.getLast?_append]
  rfl

end ZoneTable
end ZoneRouting
