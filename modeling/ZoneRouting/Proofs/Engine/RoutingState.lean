import ZoneRouting.Proofs.Engine.Passages
import ZoneRouting.Proofs.Engine.WellFormed

set_option autoImplicit false

namespace ZoneRouting

theorem Route.Proper.away {owner d : Identifier} {route : Route} (proper : Proper owner d route) : d ≠ owner := by
  obtain ⟨next, rest, rfl⟩ := proper.hops
  rintro rfl
  have last : (next :: rest).getLast? = some d := by simpa using proper.joins.2
  exact (List.nodup_cons.mp proper.loopFree).1 (List.mem_of_getLast? last)

namespace RouteBook

variable {now : UInt64} {book book' : RouteBook} {owner d : Identifier}

structure Tidy (book : RouteBook) : Prop where
  filled : ∀ d, book.buckets.find? d ≠ some []
  distinct : ∀ d, (book.hopsTo d).Nodup

-- A tidy book whose routes lead from its owner to their destinations without a loop, over devices that have a name.
structure Sound (owner : Identifier) (book : RouteBook) : Prop extends book.Tidy where
  proper : book.All (Route.Proper owner)
  named : book.All fun _ route => Identifier.nil ∉ route

theorem tidy_empty : empty.Tidy := ⟨nofun, fun _ => List.nodup_nil⟩

theorem Tidy.store (tidy : book.Tidy) (d : Identifier) (hops : Route) (validUntil : UInt64) :
    (book.store d hops validUntil).Tidy := by
  refine ⟨filled_store tidy.filled d hops validUntil, fun k => ?_⟩
  rw [hopsTo, bucket_store]
  by_cases same : k = d
  · rw [if_pos same, TimedRoute.hops_enter]
    by_cases known : hops ∈ (book.bucket d).map TimedRoute.hops
    · rw [if_pos known]
      exact tidy.distinct d
    · rw [if_neg known, ← List.concat_eq_append]
      exact (tidy.distinct d).concat known
  · rw [if_neg same]
    exact tidy.distinct k

theorem Tidy.prunes (tidy : book.Tidy) (prunes : book.Prunes now book') : book'.Tidy := by
  refine ⟨fun d => ?_, fun d => ?_⟩
  · rcases prunes d with kept | gone
    · exact kept ▸ tidy.filled d
    · rw [gone]
      intro empty
      simpa using (Option.filter_eq_some_iff.mp empty).2
  · rw [hopsTo]
    rcases prunes.bucket d with kept | gone
    · exact kept ▸ tidy.distinct d
    · exact (tidy.distinct d).sublist (gone ▸ List.filter_sublist.map _)

theorem Tidy.entered (tidy : book.Tidy) {routes : List TimedRoute} (entry : book.buckets.find? d = some routes) :
    book.bucket d ≠ [] := by
  rw [bucket, entry]
  rintro rfl
  exact tidy.filled d entry

theorem Sound.foreign (sound : book.Sound owner) : book.buckets.find? owner = none := by
  cases entry : book.buckets.find? owner with
  | none => rfl
  | some routes =>
      obtain ⟨r, member⟩ := List.exists_mem_of_ne_nil _ (sound.entered entry)
      exact absurd rfl (sound.proper owner r member).away

end RouteBook

theorem RouteCache.tidy_learn {cache : RouteCache} (tidy : cache.book.Tidy) (d : Identifier) (route : Route) (now : UInt64) :
    (cache.learn d route now).2.book.Tidy := by
  rw [learn]
  split
  · exact tidy.store d route _
  · exact tidy

namespace ZoneTable

variable {now : UInt64} {table table' : ZoneTable}

-- The candidates are listed once each, and with them every device to which a route as long as to a border node is kept.
structure Ranked (table : ZoneTable) : Prop where
  once : table.candidates.Nodup
  listed : ∀ d, ∀ route ∈ table.book.hopsTo d, route.length = table.borderHops + 1 → d ∈ table.candidates

theorem learn_taken (now : UInt64) {a : Advertisement} (taken : a.route.getLast? = some table.owner ∧ Route.LoopFree (routeTo a)) :
    (table.learn a now).2.book = table.book.store a.origin (routeTo a) (deadline now a.interval) ∧
      (table.learn a now).2.candidates =
        if (routeTo a).length = table.borderHops + 1 ∧ a.origin ∉ table.candidates then table.candidates ++ [a.origin]
        else table.candidates := by
  rw [learn]
  dsimp only
  rw [if_pos taken]
  exact ⟨rfl, rfl⟩

theorem learn_dropped {a : Advertisement} (dropped : ¬ (a.route.getLast? = some table.owner ∧ Route.LoopFree (routeTo a))) :
    (table.learn a now).2 = table := by
  rw [learn]
  dsimp only
  rw [if_neg dropped]

theorem learn_border_hops (table : ZoneTable) (a : Advertisement) (now : UInt64) :
    (table.learn a now).2.borderHops = table.borderHops := by
  rw [learn]
  dsimp only
  split <;> rfl

theorem tidy_learn (tidy : table.book.Tidy) (a : Advertisement) (now : UInt64) : (table.learn a now).2.book.Tidy := by
  by_cases taken : a.route.getLast? = some table.owner ∧ Route.LoopFree (routeTo a)
  · rw [(learn_taken now taken).1]
    exact tidy.store a.origin (routeTo a) _
  · rwa [learn_dropped taken]

theorem Ranked.learn (ranked : table.Ranked) (a : Advertisement) (now : UInt64) : (table.learn a now).2.Ranked := by
  refine ⟨candidates_learn ranked.once a now, fun d route known border => ?_⟩
  rw [learn_border_hops] at border
  by_cases taken : a.route.getLast? = some table.owner ∧ Route.LoopFree (routeTo a)
  · obtain ⟨book, candidates⟩ := learn_taken now taken
    rw [book] at known
    rw [candidates]
    rcases RouteBook.mem_hops_store.mp known with ⟨rfl, rfl⟩ | before
    · by_cases listed : a.origin ∈ table.candidates
      · simp [listed]
      · simp [border, listed]
    · have listed := ranked.listed d route before border
      split
      · exact List.mem_append_left _ listed
      · exact listed
  · rw [learn_dropped taken] at known ⊢
    exact ranked.listed d route known border

theorem Ranked.prunes (ranked : table.Ranked) (prunes : table.Prunes now table') : table'.Ranked := by
  refine ⟨ranked.once.sublist prunes.candidates, fun d route known border => ?_⟩
  by_contra forgotten
  have listed := ranked.listed d route (prunes.book.hops known) (prunes.borderHops ▸ border)
  rw [RouteBook.hopsTo, RouteBook.bucket, prunes.dropped d listed forgotten] at known
  cases known

end ZoneTable

namespace Engine

variable {S : Suite} {now : UInt64} {e e' : Engine}

structure Tidy (e : Engine) : Prop where
  zone : e.table.book.Tidy
  discovered : e.cache.book.Tidy
  ranked : e.table.Ranked
  border : e.table.borderHops = e.settings.borderHops

theorem start_tidy (S : Suite) (settings : Settings) (identity : Identity) (random : Random) :
    (Engine.start S settings identity random).Tidy :=
  ⟨RouteBook.tidy_empty, RouteBook.tidy_empty, ⟨List.nodup_nil, nofun⟩, rfl⟩

theorem change_tidy (change : Change S e e') (tidy : e.Tidy) : e'.Tidy := by
  cases change with
  | settle settles =>
      refine ⟨tidy.zone.prunes settles.table.book, tidy.discovered.prunes settles.cache, tidy.ranked.prunes settles.table, ?_⟩
      rw [settles.table.borderHops, settles.settings, tidy.border]
  | search | park | deliver | outgoing | collect => exact { tidy with }
  | announce now a ring _ _ =>
      exact { tidy with
        zone := ZoneTable.tidy_learn tidy.zone _ now
        ranked := tidy.ranked.learn _ now
        border := (ZoneTable.learn_border_hops _ _ now).trans tidy.border }
  | answer now d requester ring _ _ =>
      exact { tidy with discovered := RouteCache.tidy_learn tidy.discovered requester _ now }
  | accept now a target ring _ => exact { tidy with discovered := RouteCache.tidy_learn tidy.discovered target _ now }

theorem changes_tidy (changes : Changes S e e') (tidy : e.Tidy) : e'.Tidy := by
  induction changes with
  | refl => exact tidy
  | tail _ change ih => exact change_tidy change ih

theorem reachable_tidy (reachable : e.Reachable S) : e.Tidy := by
  induction reachable with
  | start settings identity random => exact start_tidy S settings identity random
  | call e c reachable tidy => exact changes_tidy (call_changes (S := S) (reachable_orderly reachable) c) tidy

-- Hostile octets and clocks that go back are included. What a device checks before it keeps a route is all that this rests on.
theorem routing_state_sound (reachable : e.Reachable S) (named : e.id ≠ Identifier.nil) :
    e.table.book.Sound e.id ∧ e.cache.book.Sound e.id ∧
    e.table.book.buckets.find? e.id = none ∧ e.cache.book.buckets.find? e.id = none ∧
    e.table.candidates.Nodup ∧
    ∀ d, ∀ route ∈ e.table.book.hopsTo d, route.length = e.settings.zoneRadius + 2 → d ∈ e.table.candidates := by
  have orderly := reachable_orderly reachable
  have tidy := reachable_tidy reachable
  have names := reachable_named reachable named
  have zone : e.table.book.Sound e.id := ⟨tidy.zone, orderly.zone, names.zone⟩
  have discovered : e.cache.book.Sound e.id := ⟨tidy.discovered, orderly.discovered, names.discovered⟩
  refine ⟨zone, discovered, zone.foreign, discovered.foreign, tidy.ranked.once, fun d route known border => ?_⟩
  exact tidy.ranked.listed d route known (border.trans (congrArg (· + 1) tidy.border.symm))

-- A device that has heard of the last one by way of both others, and found another way to it in an answer.
def surrounded : Engine :=
  (lone.takeAll Suite.plain
    [.receive 0 (octetsOf (.advertisement
      { origin := far, key := (numbered (3 : Fin 4)).publicKey Suite.plain,
        route := [(numbered (2 : Fin 4)).id, (numbered (1 : Fin 4)).id], interval := 100000 })), answered 0 2]).2

theorem routing_state_sound_surrounded :
    surrounded.table.book.hopsTo far = [[(numbered (0 : Fin 4)).id, (numbered (1 : Fin 4)).id, (numbered (2 : Fin 4)).id, far]] ∧
    surrounded.cache.book.hopsTo far = [(answerBy 2).route] ∧
    surrounded.table.book.Sound surrounded.id ∧ surrounded.cache.book.Sound surrounded.id ∧
    far ∈ surrounded.table.candidates := by
  have reachable : surrounded.Reachable Suite.plain := take_all_reachable (.start _ _ _) _
  have runs : surrounded.id ≠ Identifier.nil ∧ surrounded.settings.zoneRadius = 2 ∧
      surrounded.table.book.hopsTo far =
        [[(numbered (0 : Fin 4)).id, (numbered (1 : Fin 4)).id, (numbered (2 : Fin 4)).id, far]] ∧
      surrounded.cache.book.hopsTo far = [(answerBy 2).route] := by decide +kernel
  obtain ⟨named, radius, zone, discovered⟩ := runs
  obtain ⟨sound, sound', _, _, _, listed⟩ := routing_state_sound reachable named
  refine ⟨zone, discovered, sound, sound', listed far _ (zone ▸ List.mem_singleton_self _) ?_⟩
  rw [radius]
  rfl

end Engine
end ZoneRouting
