import ZoneRouting.Proofs.Engine.Passages
import ZoneRouting.Proofs.Honest.Rules
import Mathlib.Combinatorics.SimpleGraph.Metric
import Mathlib.Data.List.Chain

set_option autoImplicit false

namespace ZoneRouting

variable {n : Nat}

def Links.graph (links : Links (Fin n)) : SimpleGraph (Fin n) := SimpleGraph.fromRel fun u v => (u, v) ∈ links

def Event.Over (links : Links (Fin n)) : Event n → Prop
  | .advertise links' _ | .collect links' _ | .hear _ links' _ => links' = links
  | .send .. | .lose _ | .echo _ => True

instance (links : Links (Fin n)) : (event : Event n) → Decidable (event.Over links)
  | .advertise links' _ | .collect links' _ | .hear _ links' _ => inferInstanceAs (Decidable (links' = links))
  | .send .. | .lose _ | .echo _ => inferInstanceAs (Decidable True)

def namesOf (who : Fin n → Identity) (p : List (Fin n)) : Route := p.map fun u => (who u).id

-- So far apart as a device and the border of its zone, at most.
def Close (links : Links (Fin n)) (radius : Nat) (u v : Fin n) : Prop := links.graph.edist u v ≤ (radius + 1 : Nat)

-- A route of a device to a destination that follows a path of the links, no longer than a zone is wide.
def FollowsPath (links : Links (Fin n)) (radius : Nat) (who : Fin n → Identity) (u : Fin n) (d : Identifier) (route : Route) :
    Prop :=
  ∃ v, ∃ w : links.graph.Walk u v, (who v).id = d ∧ w.IsPath ∧ w.length ≤ radius + 1 ∧ route = namesOf who w.support

def CrossesZones (links : Links (Fin n)) (radius : Nat) (who : Fin n → Identity) (u : Fin n) (d : Identifier) (route : Route) :
    Prop :=
  ∃ p v, p.head? = some u ∧ p.getLast? = some v ∧ (who v).id = d ∧ p.Nodup ∧ p.IsChain (Close links radius) ∧
    route = namesOf who p

-- What devices tell each other of routes: announcements have come along a path, queries from zone to zone, and the
-- way back from an answer is known to the device that gave it.
def genuine (links : Links (Fin n)) (radius : Nat) (who : Fin n → Identity) (known : Fin n → Identifier → Route → Prop) : Rule n
  | v, u, .advertisement a => (v, u) ∈ links ∧ a.route.length ≤ radius ∧
      ∃ o, ∃ w : links.graph.Walk v o, (who o).id = a.origin ∧ w.IsPath ∧ ZoneTable.routeTo a = namesOf who w.support
  | v, u, .discovery d => Close links radius v u ∧
      ∃ p, d.route = namesOf who (p ++ [v]) ∧ (p ++ [v]).IsChain (Close links radius)
  | _, _, .acknowledgement a => ∃ p s t, p.head? = some s ∧ p.getLast? = some t ∧ p.IsChain (Close links radius) ∧
      a.route = namesOf who p ∧ known t (who s).id a.route.reverse
  | _, _, _ => False

section

variable {S : Suite} {links : Links (Fin n)} {radius : Nat} {who : Fin n → Identity} {u v : Fin n} {e e' : Engine}
  {known known' : Fin n → Identifier → Route → Prop} {now : UInt64}

theorem names_onward (who : Fin n → Identity) (p : List (Fin n)) (u : Fin n) :
    namesOf who (p ++ [u]) = namesOf who p ++ [(who u).id] := by
  rw [namesOf, namesOf, List.map_append]
  rfl

theorem close_symm (close : Close links radius u v) : Close links radius v u := by
  rw [Close, SimpleGraph.edist_comm]
  exact close

theorem follows_close (distinct : Function.Injective fun u => (who u).id) {route : Route}
    (follows : FollowsPath links radius who u (who v).id route) : Close links radius u v := by
  obtain ⟨x, w, same, _, short, _⟩ := follows
  cases distinct same
  exact w.edist_le.trans (Nat.cast_le.mpr short)

theorem zone_close (distinct : Function.Injective fun u => (who u).id) {discovered : Identifier → Route → Prop}
    (knows : e.Knows (FollowsPath links radius who u) discovered) (filled : e.table.book.hopsTo (who v).id ≠ []) :
    Close links radius u v := by
  obtain ⟨route, member⟩ := List.exists_mem_of_ne_nil _ filled
  exact follows_close distinct (knows.table member)

theorem heard_path (symmetric : links.Symmetric) {a : Advertisement} (told : genuine links radius who known v u (.advertisement a))
    (fresh : ¬ (a.origin = (who u).id ∨ (who u).id ∈ a.route ∨ a.origin ∈ a.route ∨ ¬ Route.LoopFree a.route)) :
    ∃ o, ∃ w : links.graph.Walk u o, (who o).id = a.origin ∧ w.IsPath ∧ w.length ≤ radius + 1 ∧
      ZoneTable.routeTo { a with route := a.route ++ [(who u).id] } = namesOf who w.support := by
  obtain ⟨linked, short, o, w, named, path, along⟩ := told
  have absent : u ∉ w.support := by
    intro member
    have inside : (who u).id ∈ ZoneTable.routeTo a := along ▸ List.mem_map_of_mem member
    rcases List.mem_append.mp inside with before | origin
    · exact fresh (Or.inr (Or.inl (List.mem_reverse.mp before)))
    · exact fresh (Or.inl (List.mem_singleton.mp origin).symm)
  have adj : links.graph.Adj u v := by
    rw [Links.graph, SimpleGraph.fromRel_adj]
    exact ⟨fun same => absent (same ▸ w.start_mem_support), Or.inl (symmetric v u linked)⟩
  have whole : ZoneTable.routeTo { a with route := a.route ++ [(who u).id] } = (who u).id :: ZoneTable.routeTo a := by
    rw [ZoneTable.routeTo, ZoneTable.routeTo, List.reverse_append]
    rfl
  have length : w.length = a.route.length := by
    have count := congrArg List.length along
    rw [ZoneTable.routeTo, List.length_append, List.length_reverse, namesOf, List.length_map, SimpleGraph.Walk.length_support]
      at count
    exact (Nat.succ.inj count).symm
  refine ⟨o, .cons adj w, named, (SimpleGraph.Walk.cons_isPath_iff adj w).mpr ⟨path, absent⟩, ?_, ?_⟩
  · rw [SimpleGraph.Walk.length_cons, length]
    exact Nat.succ_le_succ short
  · rw [whole, along, SimpleGraph.Walk.support_cons]
    rfl

theorem chain_onward {p : List (Fin n)} (chain : (p ++ [v]).IsChain (Close links radius)) (close : Close links radius v u) :
    (p ++ [v] ++ [u]).IsChain (Close links radius) := by
  refine List.isChain_append.mpr ⟨chain, .singleton u, fun x last y first => ?_⟩
  rw [List.getLast?_concat] at last
  cases last
  cases first
  exact close

theorem way_back {d : Discovery} {requester : Identifier}
    (told : genuine links radius who known v u (.discovery d)) (first : d.requester? = some requester)
    (loopFree : Route.LoopFree (d.route ++ [(who u).id])) :
    ∃ p s, p.head? = some s ∧ (who s).id = requester ∧ p.getLast? = some u ∧ p.Nodup ∧ p.IsChain (Close links radius) ∧
      d.route ++ [(who u).id] = namesOf who p := by
  obtain ⟨close, p, along, chain⟩ := told
  have whole : d.route ++ [(who u).id] = namesOf who (p ++ [v] ++ [u]) := by
    rw [along, ← names_onward]
  have front : (namesOf who (p ++ [v])).head? = some requester := along ▸ first
  rw [namesOf, List.head?_map, Option.map_eq_some_iff] at front
  obtain ⟨s, head, named⟩ := front
  refine ⟨p ++ [v] ++ [u], s, ?_, named, List.getLast?_concat, ?_, chain_onward chain close, whole⟩
  · rw [List.head?_append, head]
    rfl
  · rw [whole] at loopFree
    exact List.Nodup.of_map _ loopFree

theorem crosses_back {d : Discovery} {requester : Identifier}
    (told : genuine links radius who known v u (.discovery d)) (first : d.requester? = some requester)
    (loopFree : Route.LoopFree (d.route ++ [(who u).id])) :
    CrossesZones links radius who u requester (d.route ++ [(who u).id]).reverse := by
  obtain ⟨p, s, head, named, last, nodup, chain, whole⟩ := way_back told first loopFree
  refine ⟨p.reverse, s, ?_, ?_, named, List.nodup_reverse.mpr nodup, ?_, ?_⟩
  · rw [List.head?_reverse, last]
  · rw [List.getLast?_reverse, head]
  · exact List.isChain_reverse.mpr (chain.imp fun _ _ => close_symm)
  · rw [whole, namesOf, ← List.map_reverse]
    rfl

theorem accepted_known (distinct : Function.Injective fun u => (who u).id) (id : e.id = (who u).id) {a : Acknowledgement}
    {target : Identifier} {ring : Keyring} (told : genuine links radius who known v u (.acknowledgement a))
    (accepts : e.Accepts S a target ring) :
    ∃ t, (who t).id = target ∧ known t (who u).id a.route.reverse ∧ CrossesZones links radius who u target a.route := by
  obtain ⟨p, s, t, head, last, chain, along, back⟩ := told
  have own : s = u := by
    have first := accepts.first
    rw [along, namesOf, List.head?_map, head, id] at first
    exact distinct (Option.some.inj first)
  have named : (who t).id = target := by
    have final := accepts.last
    rw [Acknowledgement.target?, along, namesOf, List.getLast?_map, last] at final
    exact Option.some.inj final
  subst own
  have nodup : p.Nodup := List.Nodup.of_map _ (along ▸ accepts.loopFree)
  exact ⟨t, named, back, p, t, head, last, named, nodup, chain, along⟩

theorem genuine_taught (distinct : Function.Injective fun u => (who u).id) (symmetric : links.Symmetric) (id : e.id = (who u).id)
    {d : Datagram} (heard : Heard S who (genuine links radius who known) u d) :
    (∀ k route, e.Announces d k route → FollowsPath links radius who u k route) ∧
      ∀ k route, e.Finds S d k route → CrossesZones links radius who u k route := by
  refine ⟨fun k route announces => ?_, fun k route finds => ?_⟩
  · cases announces with
    | announcement a fresh =>
        obtain ⟨v, told⟩ := heard
        rw [id] at fresh ⊢
        obtain ⟨o, w, named, path, short, along⟩ := heard_path symmetric told fresh
        exact ⟨o, w, named, path, short, along⟩
  · cases finds with
    | asked d requester own first loopFree =>
        obtain ⟨v, told⟩ := heard
        rw [id] at loopFree ⊢
        exact crosses_back told first loopFree
    | answered a target ring accepts =>
        obtain ⟨v, told⟩ := heard
        obtain ⟨_, _, _, crosses⟩ := accepted_known distinct id told accepts
        exact crosses

theorem genuine_mono (more : ∀ t k route, known t k route → known' t k route) {d : Datagram}
    (told : genuine links radius who known v u d) : genuine links radius who known' v u d := by
  cases d with
  | advertisement | discovery | failure | message => exact told
  | acknowledgement a =>
      obtain ⟨p, s, t, head, last, chain, along, back⟩ := told
      exact ⟨p, s, t, head, last, chain, along, more _ _ _ back⟩

theorem genuine_searches (distinct : Function.Injective fun u => (who u).id) (id : e.id = (who u).id)
    {discovered : Identifier → Route → Prop} (knows : e.Knows (FollowsPath links radius who u) discovered) :
    Searches S who (genuine links radius who known) u e := by
  intro now target searching x changes reaches filled
  refine ⟨zone_close distinct knows filled, [], ?_, .singleton u⟩
  have own : searching.id = (who u).id := (Engine.changes_keeps changes).id.trans id
  exact congrArg (fun name => [name]) own

theorem genuine_obeys (distinct : Function.Injective fun u => (who u).id) (symmetric : links.Symmetric) (id : e.id = (who u).id)
    (zone : e.settings.zoneRadius = radius) {discovered : Identifier → Route → Prop}
    (knows : e.Knows (FollowsPath links radius who u) discovered) (more : ∀ t k route, known t k route → known' t k route)
    (kept : ∀ k, ∀ route ∈ e'.cache.book.hopsTo k, known' u k route) :
    Obeys S who links (genuine links radius who known) (genuine links radius who known') u now e e' where
  announces v a x told fresh inside linked := by
    rw [id] at fresh ⊢
    obtain ⟨o, w, named, path, _, along⟩ := heard_path symmetric told fresh
    refine ⟨linked, ?_, o, w, named, path, along⟩
    rw [List.length_append]
    exact zone ▸ inside
  passes v d p x told passage reaches filled := by
    obtain ⟨close, q, along, chain⟩ := told
    refine ⟨zone_close distinct knows filled, q ++ [v], ?_, chain_onward chain close⟩
    obtain ⟨_, _, _, passes⟩ := Engine.passage_cases passage
    rw [passes.route, along, id, ← names_onward]
  answers v d requester x told asked loopFree first back := by
    rw [id] at loopFree back ⊢
    obtain ⟨p, s, head, named, last, _, chain, along⟩ := way_back told first loopFree
    exact ⟨p, s, u, head, last, chain, along, named.symm ▸ kept _ _ back⟩
  walks v a x told := genuine_mono more told
  searches := genuine_searches distinct id knows

end

namespace Swarm

variable {S : Suite} {who : Fin n → Identity} {links : Links (Fin n)} {radius : Nat} {settings : Fin n → Settings}
  {random : Fin n → Random} {rule : Rule n} {f : Swarm n}

def Cached (S : Suite) (settings : Fin n → Settings) (who : Fin n → Identity) (random : Fin n → Random) (events : List (Event n))
    (t : Fin n) (d : Identifier) (route : Route) : Prop :=
  ∃ before, before <+: events ∧ route ∈ (((start S settings who random).run S before).device t).cache.book.hopsTo d

theorem apply_knows (opens : S.Opens) (distinct : Function.Injective fun u => (who u).id) (follows : Follows S who rule f)
    {zone discovered : Fin n → Identifier → Route → Prop} (knows : ∀ u, (f.device u).Knows (zone u) (discovered u))
    (taught : ∀ u d, Heard S who rule u d → (∀ k route, (f.device u).Announces d k route → zone u k route) ∧
      ∀ k route, (f.device u).Finds S d k route → discovered u k route) (event : Event n) (u : Fin n) :
    ((f.apply S event).device u).Knows (zone u) (discovered u) := by
  have put : ∀ {v : Fin n} {e : Engine}, e.Knows (zone v) (discovered v) →
      ((f.put v e).device u).Knows (zone u) (discovered u) :=
    fun learned => device_put_each (fun w e => e.Knows (zone w) (discovered w)) knows learned u
  cases event with
  | advertise links v =>
      rw [apply, advertise]
      split <;> exact knows u
  | send now v target payload => exact put (Engine.send_knows now target payload (follows.orderly v) (knows v))
  | collect links v => exact put ⟨(knows v).zone, (knows v).discovered⟩
  | hear now links copy =>
      rw [apply]
      split
      · rename_i member
        refine put (Engine.receive_knows now copy.bytes (follows.orderly _) (knows _) fun d content => taught _ d ?_)
        exact innermost_heard opens distinct (follows.trust.honest _) (follows.air copy member) content
      · exact knows u
  | lose copy => exact knows u
  | echo copy =>
      rw [apply]
      split <;> exact knows u

theorem Cached.later {events : List (Event n)} {t : Fin n} {d : Identifier} {route : Route}
    (cached : Cached S settings who random events t d route) (event : Event n) :
    Cached S settings who random (events ++ [event]) t d route := by
  obtain ⟨before, inside, stored⟩ := cached
  exact ⟨before, inside.trans (List.prefix_append _ _), stored⟩

theorem cached_now (events : List (Event n)) (t : Fin n) (d : Identifier) :
    ∀ route ∈ (((start S settings who random).run S events).device t).cache.book.hopsTo d,
      Cached S settings who random events t d route :=
  fun _ stored => ⟨events, List.prefix_refl _, stored⟩

structure Learned (S : Suite) (links : Links (Fin n)) (radius : Nat) (settings : Fin n → Settings) (who : Fin n → Identity)
    (random : Fin n → Random) (events : List (Event n)) : Prop where
  follows : Follows S who (genuine links radius who (Cached S settings who random events))
    ((start S settings who random).run S events)
  knows : ∀ u, (((start S settings who random).run S events).device u).Knows (FollowsPath links radius who u)
    (CrossesZones links radius who u)

theorem start_keeps (S : Suite) (settings : Fin n → Settings) (who : Fin n → Identity) (random : Fin n → Random)
    (events : List (Event n)) (u : Fin n) :
    (((start S settings who random).run S events).device u).id = (who u).id ∧
      (((start S settings who random).run S events).device u).settings = settings u :=
  have keeps := Engine.changes_keeps (start_changes S settings who random events u)
  ⟨keeps.id, keeps.settings⟩

-- An answer goes out only after the way back is on record, so the event itself counts for what is known then.
theorem learned_obeys (distinct : Function.Injective fun u => (who u).id) (symmetric : links.Symmetric)
    (common : ∀ u, (settings u).zoneRadius = radius) {events : List (Event n)} {event : Event n} (unmoved : event.Over links)
    (learned : Learned S links radius settings who random events) :
    event.Obeys S who (genuine links radius who (Cached S settings who random events))
      (genuine links radius who (Cached S settings who random (events ++ [event])))
      ((start S settings who random).run S events) := by
  have id := fun u => (start_keeps S settings who random events u).1
  cases event with
  | advertise links' u =>
      cases unmoved
      exact fun x linked => ⟨linked, Nat.zero_le _, u, .nil, (id u).symm, .nil, congrArg (fun name => [name]) (id u)⟩
  | send now u target payload => exact genuine_searches distinct (id u) (learned.knows u)
  | hear now links' copy =>
      cases unmoved
      intro member
      have zone := (congrArg Settings.zoneRadius (start_keeps S settings who random events copy.receiver).2).trans
        (common copy.receiver)
      refine genuine_obeys distinct symmetric (id _) zone (learned.knows _) (fun t k route cached => cached.later _) ?_
      intro k route stored
      refine cached_now _ _ _ _ ?_
      rw [run_append]
      change route ∈ ((((start S settings who random).run S events).apply S (.hear now links copy)).device
        copy.receiver).cache.book.hopsTo k
      rw [apply_hear member, (hear_hearing S now links copy _).own]
      exact stored
  | collect | lose | echo => trivial

theorem run_learned (random : Fin n → Random) (opens : S.Opens) (distinct : Function.Injective fun u => (who u).id)
    (symmetric : links.Symmetric) (common : ∀ u, (settings u).zoneRadius = radius) (events : List (Event n))
    (still : ∀ event ∈ events, event.Over links) :
    Learned S links radius settings who random events := by
  induction events using List.reverseRecOn with
  | nil => exact ⟨follows_start settings random, fun u => Engine.start_knows S (settings u) (who u) (random u)⟩
  | append_singleton events event ih =>
      have learned := ih fun e member => still e (List.mem_append_left _ member)
      have unmoved := still event (List.mem_append_right _ (List.mem_singleton_self _))
      have id := fun u => (start_keeps S settings who random events u).1
      refine ⟨?_, ?_⟩
      · rw [run_append]
        refine apply_follows opens distinct learned.follows (fun v w d told => ?_)
          (learned_obeys distinct symmetric common unmoved learned)
        exact genuine_mono (fun _ _ _ cached => cached.later event) told
      · rw [run_append]
        exact apply_knows opens distinct learned.follows learned.knows
          (fun u _ heard => genuine_taught distinct symmetric (id u) heard) event

-- Routes that devices learn from answers: each one that is new to a device is the way back that the device at its other
-- end had discovered before.
structure Answered (S : Suite) (settings : Fin n → Settings) (who : Fin n → Identity) (random : Fin n → Random)
    (events : List (Event n)) (copy : Copy n) (a : Acknowledgement) : Prop where
  accepted : ∀ target ring,
    (((start S settings who random).run S events).device copy.receiver).Accepts S a target ring →
      ∃ t, (who t).id = target ∧ Cached S settings who random events t (who copy.receiver).id a.route.reverse
  fresh : ∀ now d, ∀ route ∈
      ((((start S settings who random).run S events).device copy.receiver).receive S now copy.bytes).2.cache.book.hopsTo d,
    route ∈ (((start S settings who random).run S events).device copy.receiver).cache.book.hopsTo d ∨
      ∃ t, (who t).id = d ∧ Cached S settings who random events t (who copy.receiver).id route.reverse

theorem run_answered (opens : S.Opens) (distinct : Function.Injective fun u => (who u).id) {events : List (Event n)}
    (learned : Learned S links radius settings who random events) {copy : Copy n}
    (member : copy ∈ ((start S settings who random).run S events).air) {a : Acknowledgement}
    (content : (((start S settings who random).run S events).device copy.receiver).content? S copy.bytes =
      some (.datagram (.acknowledgement a))) : Answered S settings who random events copy a := by
  have id := (start_keeps S settings who random events copy.receiver).1
  obtain ⟨v, told⟩ := innermost_heard opens distinct (learned.follows.trust.honest copy.receiver)
    (learned.follows.air copy member) content
  have accepted : ∀ target ring,
      (((start S settings who random).run S events).device copy.receiver).Accepts S a target ring →
        ∃ t, (who t).id = target ∧ Cached S settings who random events t (who copy.receiver).id a.route.reverse := by
    intro target ring accepts
    obtain ⟨t, named, back, _⟩ := accepted_known distinct id told accepts
    exact ⟨t, named, back⟩
  refine ⟨accepted, fun now d route stored => ?_⟩
  have old : (((start S settings who random).run S events).device copy.receiver).Knows (fun _ _ => True) fun d route =>
      route ∈ (((start S settings who random).run S events).device copy.receiver).cache.book.hopsTo d ∨
        ∃ t, (who t).id = d ∧ Cached S settings who random events t (who copy.receiver).id route.reverse :=
    ⟨fun _ _ _ => trivial, fun d r known => Or.inl (List.mem_map_of_mem known)⟩
  have new := Engine.receive_knows now copy.bytes (learned.follows.orderly copy.receiver) old fun d content' => by
    cases content.symm.trans content'
    refine ⟨fun _ _ _ => trivial, fun target route finds => Or.inr ?_⟩
    obtain _ | ⟨_, _, ring, accepts⟩ := finds
    exact accepted target ring accepts
  obtain ⟨r, known, rfl⟩ := List.mem_map.mp stored
  exact new.discovered d r known

-- Links must not change, because a route may be kept for longer than a link lasts.
theorem learned_routes_genuine (S : Suite) (who : Fin n → Identity) (settings : Fin n → Settings) (random : Fin n → Random)
    (opens : S.Opens) (distinct : Function.Injective fun u => (who u).id) (symmetric : links.Symmetric)
    (common : ∀ u, (settings u).zoneRadius = radius) (events : List (Event n)) (still : ∀ event ∈ events, event.Over links) :
    (∀ u d, ∀ route ∈ (((start S settings who random).run S events).device u).table.book.hopsTo d,
      FollowsPath links radius who u d route) ∧
    (∀ u d, ∀ route ∈ (((start S settings who random).run S events).device u).cache.book.hopsTo d,
      CrossesZones links radius who u d route) ∧
    ∀ copy a, copy ∈ ((start S settings who random).run S events).air →
      (((start S settings who random).run S events).device copy.receiver).content? S copy.bytes =
        some (.datagram (.acknowledgement a)) →
      Answered S settings who random events copy a := by
  have learned := run_learned random opens distinct symmetric common events still
  refine ⟨fun u d route known => (learned.knows u).table known, fun u d route known => ?_, fun copy a member content => ?_⟩
  · obtain ⟨r, member, rfl⟩ := List.mem_map.mp known
    exact (learned.knows u).discovered d r member
  · exact run_answered opens distinct learned member content

-- Three devices in a row, each of whose zones holds its neighbours only, of which the first looks for the last.
def row : Links (Fin 3) := Links.join (Links.join [] 0 1) 1 2

def tight : Fin 3 → Settings := fun _ => { zoneRadius := 0 }

def rowed : Swarm 3 := start Suite.plain tight numbered fun _ => Random.ofSeed 0

@[irreducible] def asking : List (Event 3) :=
  let announced := [.advertise row 0, .advertise row 1, .advertise row 2]
  let sent := announced ++ (inOrder Suite.plain 0 row 4 (rowed.run Suite.plain announced)).map (.hear 0 row) ++
    [.send 0 0 (numbered (2 : Fin 3)).id [1, 2, 3], .collect row 0]
  sent ++ (inOrder Suite.plain 0 row 3 (rowed.run Suite.plain sent)).map (.hear 0 row)

def reply : Acknowledgement where
  route := [(numbered (0 : Fin 3)).id, (numbered (1 : Fin 3)).id, (numbered (2 : Fin 3)).id]
  targetKey := (numbered (2 : Fin 3)).publicKey Suite.plain

theorem learned_routes_genuine_row :
    FollowsPath row 0 numbered 1 (numbered (2 : Fin 3)).id [(numbered (1 : Fin 3)).id, (numbered (2 : Fin 3)).id] ∧
      CrossesZones row 0 numbered 2 (numbered (0 : Fin 3)).id reply.route.reverse ∧
      ∃ copy, ((rowed.run Suite.plain asking).device copy.receiver).content? Suite.plain copy.bytes =
          some (.datagram (.acknowledgement reply)) ∧
        Answered Suite.plain tight numbered (fun _ => Random.ofSeed 0) asking copy reply := by
  have symmetric : row.Symmetric := Links.symmetric_join (Links.symmetric_join nofun 0 1) 1 2
  have runs : (∀ event ∈ asking, event.Over row) ∧
      [(numbered (1 : Fin 3)).id, (numbered (2 : Fin 3)).id] ∈
        ((rowed.run Suite.plain asking).device 1).table.book.hopsTo (numbered (2 : Fin 3)).id ∧
      reply.route.reverse ∈ ((rowed.run Suite.plain asking).device 2).cache.book.hopsTo (numbered (0 : Fin 3)).id ∧
      some (.datagram (.acknowledgement reply)) ∈ (rowed.run Suite.plain asking).air.map fun copy =>
        ((rowed.run Suite.plain asking).device copy.receiver).content? Suite.plain copy.bytes := by
    decide +kernel
  obtain ⟨still, near, far, coming⟩ := runs
  have common : ∀ u, (tight u).zoneRadius = 0 := fun _ => rfl
  obtain ⟨paths, crossings, answers⟩ := learned_routes_genuine Suite.plain numbered tight (fun _ => Random.ofSeed 0)
    (lawful_opens plain_lawful) (by decide) symmetric common asking still
  obtain ⟨copy, member, content⟩ := List.mem_map.mp coming
  exact ⟨paths 1 _ _ near, crossings 2 _ _ far, copy, content, answers copy _ member content⟩

end Swarm
end ZoneRouting
