import ZoneRouting.Proofs.Engine.Pruning
import ZoneRouting.Proofs.Swarm

set_option autoImplicit false

namespace ZoneRouting

structure Learned where
  destination : Identifier
  route : Route
  time : UInt64
  duration : UInt64
deriving DecidableEq

namespace Learned

def validUntil (l : Learned) : UInt64 := deadline l.time l.duration

-- Whether a route that was taken in may still be used. No deadline is later than the latest time that can be told.
def Valid (now : UInt64) (l : Learned) : Prop := now.toNat ≤ min (l.time.toNat + l.duration.toNat) (UInt64.size - 1)

theorem valid_iff {now : UInt64} {l : Learned} : l.Valid now ↔ now ≤ l.validUntil := by
  have last : latest.toNat = UInt64.size - 1 := rfl
  rw [Valid, validUntil, UInt64.le_iff_toNat_le, to_nat_deadline, last]

end Learned

-- The answer to the question for a route is what the routes that were taken in for its destination say: there is one if
-- any of them may still be used, and then it is one of these and none of them is shorter.
structure Recalls (history : List Learned) (now : UInt64) (d : Identifier) (answer : Option Route) : Prop where
  found_iff : (∃ route, answer = some route) ↔ ∃ l ∈ history, l.destination = d ∧ l.Valid now
  learned : ∀ route, answer = some route → ∃ l ∈ history, l.destination = d ∧ l.Valid now ∧ l.route = route
  shortest : ∀ route, answer = some route → ∀ l ∈ history, l.destination = d → l.Valid now → route.length ≤ l.route.length

theorem Recalls.length {history : List Learned} {now : UInt64} {d : Identifier} {answer answer' : Option Route}
    (recalls : Recalls history now d answer) (recalls' : Recalls history now d answer') :
    answer.map List.length = answer'.map List.length := by
  have iff := recalls.found_iff.trans recalls'.found_iff.symm
  cases answer with
  | none =>
      cases answer' with
      | none => rfl
      | some route' => exact absurd (iff.mpr ⟨route', rfl⟩) nofun
  | some route =>
      obtain ⟨route', rfl⟩ := iff.mp ⟨route, rfl⟩
      obtain ⟨l, member, here, valid, same⟩ := recalls.learned route rfl
      obtain ⟨l', member', here', valid', same'⟩ := recalls'.learned route' rfl
      have below := same' ▸ recalls.shortest route rfl l' member' here' valid'
      have above := same ▸ recalls'.shortest route' rfl l member here valid
      exact congrArg some (Nat.le_antisymm below above)

namespace RouteBook

-- The book holds nothing that was not taken in, and of that all that may be used at some time from then on: the same route,
-- with a deadline that is no earlier.
structure Remembers (history : List Learned) (since : UInt64) (book : RouteBook) : Prop where
  told : ∀ d, ∀ r ∈ book.bucket d, ∃ l ∈ history, l.destination = d ∧ l.route = r.hops ∧ l.validUntil = r.validUntil
  kept : ∀ l ∈ history, since ≤ l.validUntil →
    ∃ r ∈ book.bucket l.destination, r.hops = l.route ∧ l.validUntil ≤ r.validUntil

variable {history : List Learned} {since now : UInt64} {book book' : RouteBook}

theorem remembers_empty (since : UInt64) : empty.Remembers [] since := ⟨nofun, nofun⟩

theorem Remembers.later (remembers : book.Remembers history since) (later : since ≤ now) : book.Remembers history now :=
  ⟨remembers.told, fun l member valid => remembers.kept l member (UInt64.le_trans later valid)⟩

theorem Remembers.store (remembers : book.Remembers history since) (l : Learned) :
    (book.store l.destination l.route l.validUntil).Remembers (history ++ [l]) since := by
  refine ⟨fun d r member => ?_, fun l' member valid => ?_⟩
  · have before : ∀ r ∈ book.bucket d,
        ∃ l' ∈ history ++ [l], l'.destination = d ∧ l'.route = r.hops ∧ l'.validUntil = r.validUntil := by
      intro r member
      obtain ⟨l', earlier, rest⟩ := remembers.told d r member
      exact ⟨l', List.mem_append_left _ earlier, rest⟩
    rw [bucket_store] at member
    by_cases same : d = l.destination
    · subst same
      rw [if_pos rfl] at member
      rcases TimedRoute.mem_enter member with rfl | old
      · exact ⟨l, List.mem_append_right _ (List.mem_singleton_self l), rfl, rfl, rfl⟩
      · exact before r old
    · rw [if_neg same] at member
      exact before r member
  · rw [bucket_store]
    rcases List.mem_append.mp member with earlier | here
    · obtain ⟨r, stored, same, until'⟩ := remembers.kept l' earlier valid
      by_cases here : l'.destination = l.destination
      · rw [if_pos here]
        obtain ⟨r', stored', same', longer⟩ := TimedRoute.enter_kept l.route l.validUntil (here ▸ stored)
        exact ⟨r', stored', same'.trans same, UInt64.le_trans until' longer⟩
      · rw [if_neg here]
        exact ⟨r, stored, same, until'⟩
    · cases List.mem_singleton.mp here
      rw [if_pos rfl]
      exact TimedRoute.entered l.route l.validUntil _

theorem Remembers.prunes (remembers : book.Remembers history now) (prunes : book.Prunes now book') :
    book'.Remembers history now := by
  refine ⟨fun d r member => remembers.told d r (prunes.subset member), fun l member valid => ?_⟩
  obtain ⟨r, stored, same, until'⟩ := remembers.kept l member valid
  exact ⟨r, prunes.live stored (UInt64.le_trans valid until'), same, until'⟩

theorem Remembers.recalls (remembers : book.Remembers history now) (d : Identifier) :
    Recalls history now d (book.lookup d now).1 := by
  have live : ∀ r ∈ book.bucket d, TimedRoute.Live now r → ∃ l ∈ history, l.destination = d ∧ l.Valid now ∧ l.route = r.hops := by
    intro r member live
    obtain ⟨l, told, here, same, until'⟩ := remembers.told d r member
    exact ⟨l, told, here, Learned.valid_iff.mpr (until' ▸ live), same⟩
  have kept : ∀ l ∈ history, l.destination = d → l.Valid now →
      ∃ r ∈ book.bucket d, r.hops = l.route ∧ TimedRoute.Live now r := by
    rintro l member rfl valid
    obtain ⟨r, stored, same, until'⟩ := remembers.kept l member (Learned.valid_iff.mp valid)
    exact ⟨r, stored, same, UInt64.le_trans (Learned.valid_iff.mp valid) until'⟩
  cases answer : (book.lookup d now).1 with
  | none =>
      refine ⟨⟨nofun, ?_⟩, nofun, nofun⟩
      rintro ⟨l, member, here, valid⟩
      obtain ⟨r, stored, _, alive⟩ := kept l member here valid
      exact absurd alive (lookup_none answer r stored)
  | some route =>
      obtain ⟨⟨r, stored, rfl, alive⟩, least⟩ := lookup_some answer
      obtain ⟨l, member, here, valid, same⟩ := live r stored alive
      refine ⟨⟨fun _ => ⟨l, member, here, valid⟩, fun _ => ⟨_, rfl⟩⟩, ?_, ?_⟩
      · rintro _ ⟨⟩
        exact ⟨l, member, here, valid, same⟩
      · rintro _ ⟨⟩ l' member' here' valid'
        obtain ⟨r', stored', same', alive'⟩ := kept l' member' here' valid'
        exact same' ▸ least r' stored' alive'

end RouteBook

section

variable {State Use : Type} {use : State → Use → State} {taught : State → Use → List Learned} {time : Use → UInt64}
  {stores : Use → Bool}

def historyOf (use : State → Use → State) (taught : State → Use → List Learned) : List Use → State → List Learned
  | [], _ => []
  | u :: uses, s => taught s u ++ historyOf use taught uses (use s u)

theorem history_first (steady : ∀ s u u', taught (use s u) u' = taught s u') (uses : List Use) (s : State) :
    historyOf use taught uses s = uses.flatMap (taught s) := by
  induction uses generalizing s with
  | nil => rfl
  | cons u uses ih =>
      have after : taught (use s u) = taught s := funext (steady s u)
      rw [historyOf, ih, after, List.flatMap_cons]

theorem flat_map_filter {α β : Type} {p : α → Bool} {f : α → List β} (silent : ∀ a, p a = false → f a = []) (l : List α) :
    (l.filter p).flatMap f = l.flatMap f := by
  induction l with
  | nil => rfl
  | cons a l ih =>
      rw [List.filter_cons, List.flatMap_cons]
      cases passes : p a with
      | true => rw [if_pos rfl, List.flatMap_cons, ih]
      | false => rw [if_neg Bool.false_ne_true, ih, silent a passes, List.nil_append]

theorem run_remembers (book : State → RouteBook) (each : ∀ s u history, (book s).Remembers history (time u) →
      (book (use s u)).Remembers (history ++ taught s u) (time u)) {uses : List Use} {s : State} {history : List Learned}
    {since now : UInt64} (ordered : (since :: (uses.map time ++ [now])).Pairwise (· ≤ ·))
    (remembers : (book s).Remembers history since) :
    (book (uses.foldl use s)).Remembers (history ++ historyOf use taught uses s) now := by
  induction uses generalizing s history since with
  | nil =>
      rw [historyOf, List.append_nil]
      exact remembers.later ((List.pairwise_cons.mp ordered).1 now (List.mem_singleton_self now))
  | cons u uses ih =>
      obtain ⟨first, rest⟩ := List.pairwise_cons.mp ordered
      have step := each s u history (remembers.later (first (time u) List.mem_cons_self))
      rw [historyOf, ← List.append_assoc]
      exact ih rest step

theorem run_recalls (book : State → RouteBook) (each : ∀ s u history, (book s).Remembers history (time u) →
      (book (use s u)).Remembers (history ++ taught s u) (time u))
    (steady : ∀ s u u', taught (use s u) u' = taught s u') (silent : ∀ s u, stores u = false → taught s u = [])
    {uses : List Use} {s : State} {now : UInt64} (fresh : book s = RouteBook.empty)
    (ordered : (uses.map time ++ [now]).Pairwise (· ≤ ·)) (d : Identifier) :
    Recalls (historyOf use taught uses s) now d ((book (uses.foldl use s)).lookup d now).1 ∧
      ((book ((uses.filter stores).foldl use s)).lookup d now).1.map List.length =
        ((book (uses.foldl use s)).lookup d now).1.map List.length := by
  have recalls : ∀ uses : List Use, (uses.map time ++ [now]).Pairwise (· ≤ ·) →
      Recalls (historyOf use taught uses s) now d ((book (uses.foldl use s)).lookup d now).1 := by
    intro uses ordered
    have from_zero := List.pairwise_cons.mpr ⟨fun t _ => UInt64.zero_le, ordered⟩
    have remembers := run_remembers book each from_zero (fresh ▸ RouteBook.remembers_empty 0)
    exact remembers.recalls d
  have fewer : ((uses.filter stores).map time ++ [now]).Pairwise (· ≤ ·) :=
    ordered.sublist ((List.filter_sublist.map time).append (List.Sublist.refl [now]))
  have stored := recalls (uses.filter stores) fewer
  rw [history_first steady, flat_map_filter (silent s), ← history_first steady] at stored
  exact ⟨recalls uses ordered, stored.length (recalls uses ordered)⟩

end

namespace ZoneTable

inductive Use where
  | learn (a : Advertisement) (now : UInt64)
  | lookup (destination : Identifier) (now : UInt64)
  | borderNodes (excluded : List Identifier) (now : UInt64)

def Use.time : Use → UInt64
  | learn _ now | lookup _ now | borderNodes _ now => now

def Use.stores : Use → Bool
  | learn .. => true
  | lookup .. | borderNodes .. => false

def use (table : ZoneTable) : Use → ZoneTable
  | .learn a now => (table.learn a now).2
  | .lookup d now => (table.lookup d now).2
  | .borderNodes excluded now => (table.borderNodes excluded now).2

def useAll (table : ZoneTable) (uses : List Use) : ZoneTable := uses.foldl use table

-- The route of an advertisement, if the table tells that it has taken it in.
def taught (table : ZoneTable) : Use → List Learned
  | .learn a now => if (table.learn a now).1 then [⟨a.origin, routeTo a, now, a.interval⟩] else []
  | .lookup .. | .borderNodes .. => []

def history (table : ZoneTable) (uses : List Use) : List Learned := historyOf use taught uses table

theorem use_prunes {u : Use} (reads : u.stores = false) (table : ZoneTable) : table.Prunes u.time (table.use u) := by
  cases u with
  | learn a now => cases reads
  | lookup d now => exact prunes_lookup now table d
  | borderNodes excluded now => exact prunes_border_nodes now table excluded

theorem use_owner (table : ZoneTable) (u : Use) : (table.use u).owner = table.owner := by
  cases u with
  | learn a now =>
      rw [use, learn]
      dsimp only
      split <;> rfl
  | lookup d now => rfl
  | borderNodes excluded now => rfl

theorem taught_use (table : ZoneTable) (u u' : Use) : (table.use u).taught u' = table.taught u' := by
  cases u' with
  | learn a now =>
      rw [taught, taught, learn, learn, use_owner]
      dsimp only
      split <;> rfl
  | lookup | borderNodes => rfl

theorem taught_reads (table : ZoneTable) (u : Use) (reads : u.stores = false) : table.taught u = [] := by
  cases u with
  | learn a now => cases reads
  | lookup | borderNodes => rfl

theorem use_remembers (table : ZoneTable) (u : Use) (history : List Learned) (remembers : table.book.Remembers history u.time) :
    (table.use u).book.Remembers (history ++ table.taught u) u.time := by
  cases u with
  | learn a now =>
      rw [use, taught, learn]
      dsimp only
      split
      · exact remembers.store ⟨a.origin, routeTo a, now, a.interval⟩
      · rw [if_neg Bool.false_ne_true, List.append_nil]
        exact remembers
  | lookup d now | borderNodes excluded now =>
      rw [taught, List.append_nil]
      exact remembers.prunes (use_prunes rfl table).book

end ZoneTable

namespace RouteCache

inductive Use where
  | learn (destination : Identifier) (route : Route) (now : UInt64)
  | lookup (destination : Identifier) (now : UInt64)

def Use.time : Use → UInt64
  | learn _ _ now | lookup _ now => now

def Use.stores : Use → Bool
  | learn .. => true
  | lookup .. => false

def use (cache : RouteCache) : Use → RouteCache
  | .learn d route now => (cache.learn d route now).2
  | .lookup d now => (cache.lookup d now).2

def useAll (cache : RouteCache) (uses : List Use) : RouteCache := uses.foldl use cache

def taught (cache : RouteCache) : Use → List Learned
  | .learn d route now => if (cache.learn d route now).1 then [⟨d, route, now, cache.lifetime⟩] else []
  | .lookup .. => []

def history (cache : RouteCache) (uses : List Use) : List Learned := historyOf use taught uses cache

theorem use_lifetime (cache : RouteCache) (u : Use) : (cache.use u).lifetime = cache.lifetime := by
  cases u with
  | learn d route now =>
      rw [use, learn]
      split <;> rfl
  | lookup d now => rfl

theorem taught_use (cache : RouteCache) (u u' : Use) : (cache.use u).taught u' = cache.taught u' := by
  cases u' with
  | learn d route now =>
      rw [taught, taught, use_lifetime, learn, learn]
      split <;> rfl
  | lookup d now => rfl

theorem taught_reads (cache : RouteCache) (u : Use) (reads : u.stores = false) : cache.taught u = [] := by
  cases u with
  | learn d route now => cases reads
  | lookup d now => rfl

theorem use_remembers (cache : RouteCache) (u : Use) (history : List Learned) (remembers : cache.book.Remembers history u.time) :
    (cache.use u).book.Remembers (history ++ cache.taught u) u.time := by
  cases u with
  | learn d route now =>
      rw [use, taught, learn]
      split
      · exact remembers.store ⟨d, route, now, cache.lifetime⟩
      · rw [if_neg Bool.false_ne_true, List.append_nil]
        exact remembers
  | lookup d now =>
      rw [taught, List.append_nil]
      exact remembers.prunes (RouteBook.prunes_lookup now cache.book d)

end RouteCache

-- The time must not go back, because a route that was dropped for its deadline does not return.
theorem lookup_recalls :
    (∀ owner zoneRadius (uses : List ZoneTable.Use) now, (uses.map ZoneTable.Use.time ++ [now]).Pairwise (· ≤ ·) → ∀ d,
      Recalls ((ZoneTable.empty owner zoneRadius).history uses) now d
        (((ZoneTable.empty owner zoneRadius).useAll uses).lookup d now).1 ∧
      (((ZoneTable.empty owner zoneRadius).useAll (uses.filter ZoneTable.Use.stores)).lookup d now).1.map List.length =
        (((ZoneTable.empty owner zoneRadius).useAll uses).lookup d now).1.map List.length) ∧
    ∀ lifetime (uses : List RouteCache.Use) now, (uses.map RouteCache.Use.time ++ [now]).Pairwise (· ≤ ·) → ∀ d,
      Recalls ((RouteCache.empty lifetime).history uses) now d
        (((RouteCache.empty lifetime).useAll uses).lookup d now).1 ∧
      (((RouteCache.empty lifetime).useAll (uses.filter RouteCache.Use.stores)).lookup d now).1.map List.length =
        (((RouteCache.empty lifetime).useAll uses).lookup d now).1.map List.length := by
  refine ⟨fun owner zoneRadius uses now ordered d => ?_, fun lifetime uses now ordered d => ?_⟩
  · exact run_recalls ZoneTable.book ZoneTable.use_remembers ZoneTable.taught_use ZoneTable.taught_reads rfl ordered d
  · exact run_recalls RouteCache.book RouteCache.use_remembers RouteCache.taught_use RouteCache.taught_reads rfl ordered d

def station (u : Fin 4) : Identifier := (numbered u).id

-- The first of four devices hears of the last by way of the second, then again for a shorter time, and for a moment directly.
def waning : List ZoneTable.Use :=
  let heard (relays : Route) (interval : UInt64) : Advertisement :=
    { origin := station 3, key := default, route := relays ++ [station 0], interval }
  [.learn (heard [station 1] 10) 0, .lookup (station 3) 5, .learn (heard [station 1] 2) 6, .learn (heard [] 1) 7,
    .borderNodes [] 9, .lookup (station 3) 9]

def renewed : List RouteCache.Use :=
  let route : Route := [station 0, station 1, station 3]
  [.learn (station 3) route 0, .lookup (station 3) 8, .learn (station 3) route 9]

theorem lookup_recalls_waning :
    Recalls ((ZoneTable.empty (station 0) 2).history waning) 10 (station 3) (some [station 0, station 1, station 3]) ∧
    Recalls ((RouteCache.empty 7).history renewed) 16 (station 3) (some [station 0, station 1, station 3]) := by
  obtain ⟨table, cache⟩ := lookup_recalls
  have recalls := (table (station 0) 2 waning 10 (by decide) (station 3)).1
  have recalls' := (cache 7 renewed 16 (by decide) (station 3)).1
  have answers : (((ZoneTable.empty (station 0) 2).useAll waning).lookup (station 3) 10).1 =
        some [station 0, station 1, station 3] ∧
      (((RouteCache.empty 7).useAll renewed).lookup (station 3) 16).1 = some [station 0, station 1, station 3] := by
    decide +kernel
  rw [answers.1] at recalls
  rw [answers.2] at recalls'
  exact ⟨recalls, recalls'⟩

end ZoneRouting
