import ZoneRouting.Proofs.Engine.Passages
import ZoneRouting.Proofs.Honest.Rules

set_option autoImplicit false

namespace ZoneRouting

variable {n : Nat}

-- The passages of a query from device to device, the latest one first. A search begins it, and a device that it has
-- reached passes it on.
inductive Lineage (S : Suite) (settings : Fin n → Settings) (who : Fin n → Identity) (random : Fin n → Random) :
    List (Fin n × Passage) → Prop
  | issued (u : Fin n) (e : Engine) (now : UInt64) (target : Identifier)
      (changes : Engine.Changes S (Engine.start S (settings u) (who u) (random u)) e) :
      Lineage S settings who random [(u, e.search now target)]
  | passed (u v : Fin n) (e : Engine) (now : UInt64) (p p' : Passage) (steps : List (Fin n × Passage))
      (before : Lineage S settings who random ((v, p) :: steps))
      (changes : Engine.Changes S (Engine.start S (settings u) (who u) (random u)) e) (reached : p.Reaches (who u).id)
      (passage : e.passage? S now p.query = some p') : Lineage S settings who random ((u, p') :: (v, p) :: steps)

-- A query spreads under control: it goes to no device twice, and its route stays short and without a loop.
structure Contained (who : Fin n → Identity) (limit : Nat) (steps : List (Fin n × Passage)) : Prop where
  loopFree : ∀ step ∈ steps, Route.LoopFree step.2.query.route
  extended : steps.IsChain fun later earlier => later.2.query.route = earlier.2.query.route ++ [(who later.1).id]
  grows : steps.IsChain fun later earlier => earlier.2.query.covered <+: later.2.query.covered
  once : ∀ step ∈ steps, step.2.query.covered.Nodup
  covers : steps.Pairwise fun later earlier => ∀ target ∈ earlier.2.targets, target ∈ later.2.query.covered
  marks : ∀ step ∈ steps, ∀ target ∈ step.2.targets, target ∈ step.2.query.covered
  targets : (steps.flatMap fun step => step.2.targets).Nodup
  -- The route names every device that the query has been at.
  spared : ∀ step ∈ steps, ∀ target ∈ step.2.targets, target ∉ step.2.query.route
  short : ∀ u query targets, (u, Passage.bordercast query targets) ∈ steps → query.route.length ≤ limit
  length : ∀ step ∈ steps, step.2.query.route.length ≤ limit + 1

variable {S : Suite} {settings : Fin n → Settings} {who : Fin n → Identity} {random : Fin n → Random} {limit : Nat}
  {u v : Fin n} {e : Engine} {p p' : Passage} {steps : List (Fin n × Passage)}

theorem start_candidates (changes : Engine.Changes S (Engine.start S (settings u) (who u) (random u)) e) :
    e.id = (who u).id ∧ e.settings = settings u ∧ e.table.candidates.Nodup :=
  have keeps := Engine.changes_keeps changes
  ⟨keeps.id, keeps.settings, Engine.changes_candidates changes List.nodup_nil⟩

theorem contained_search (now : UInt64) (target : Identifier) (once : e.table.candidates.Nodup) (positive : 1 ≤ limit) :
    Contained who limit [(u, e.search now target)] := by
  obtain ⟨among, spared⟩ := Engine.border_nodes_spared now [e.id] e
  have apart : e.id ∉ (e.borderNodes now [e.id]).1 := fun member => spared _ member (List.mem_singleton_self _)
  refine ⟨?_, .singleton _, .singleton _, ?_, List.pairwise_singleton _ _, ?_, ?_, ?_, ?_, ?_⟩
  · exact List.forall_mem_singleton.mpr (List.nodup_singleton e.id)
  · exact List.forall_mem_singleton.mpr (List.nodup_cons.mpr ⟨apart, once.sublist among⟩)
  · exact List.forall_mem_singleton.mpr fun node member => List.mem_cons_of_mem _ member
  · rw [List.flatMap_cons, List.flatMap_nil, List.append_nil]
    exact once.sublist among
  · exact List.forall_mem_singleton.mpr spared
  · intro v query targets member
    cases List.mem_singleton.mp member
    exact positive
  · exact List.forall_mem_singleton.mpr (Nat.le_add_left 1 limit)

theorem Contained.covered (contained : Contained who limit ((v, p) :: steps)) :
    ∀ target ∈ ((v, p) :: steps).flatMap fun step => step.2.targets, target ∈ p.query.covered := by
  intro target member
  obtain ⟨step, among, here⟩ := List.mem_flatMap.mp member
  rcases List.mem_cons.mp among with rfl | earlier
  · exact contained.marks _ List.mem_cons_self target here
  · exact (List.pairwise_cons.mp contained.covers).1 step earlier target here

theorem contained_passed (contained : Contained who limit ((v, p) :: steps)) (id : e.id = (who u).id)
    (once : e.table.candidates.Nodup) (limited : e.settings.maxRouteLength = limit) (loopFree : Route.LoopFree p.query.route)
    (absent : e.id ∉ p.query.route) (within : p.query.route.length ≤ limit) (passes : e.PassesOn p.query p') :
    Contained who limit ((u, p') :: (v, p) :: steps) := by
  have route := passes.route
  have covered := passes.covered
  have grows : p.query.covered <+: p'.query.covered := covered ▸ List.prefix_append _ _
  have marks : ∀ target ∈ p'.targets, target ∈ p'.query.covered :=
    fun target member => covered ▸ List.mem_append_right _ member
  refine ⟨?_, ?_, ?_, ?_, ?_, ?_, ?_, ?_, ?_, ?_⟩
  · exact List.forall_mem_cons.mpr ⟨route ▸ Route.loop_free_append loopFree absent, contained.loopFree⟩
  · exact contained.extended.cons_cons (id ▸ route)
  · exact contained.grows.cons_cons grows
  · refine List.forall_mem_cons.mpr ⟨?_, contained.once⟩
    rw [covered]
    refine List.nodup_append.mpr ⟨contained.once _ List.mem_cons_self, passes.once once, ?_⟩
    rintro target before _ member rfl
    exact (passes.spared target member).1 before
  · refine List.pairwise_cons.mpr ⟨fun step among target member => ?_, contained.covers⟩
    exact grows.subset (contained.covered target (List.mem_flatMap.mpr ⟨step, among, member⟩))
  · exact List.forall_mem_cons.mpr ⟨marks, contained.marks⟩
  · rw [List.flatMap_cons]
    refine List.nodup_append.mpr ⟨passes.once once, contained.targets, ?_⟩
    rintro target member _ before rfl
    exact (passes.spared target member).1 (contained.covered target before)
  · exact List.forall_mem_cons.mpr ⟨fun target member => (passes.spared target member).2, contained.spared⟩
  · intro w query targets member
    rcases List.mem_cons.mp member with same | earlier
    · cases same
      exact limited ▸ passes.short
    · exact contained.short w query targets earlier
  · refine List.forall_mem_cons.mpr ⟨?_, contained.length⟩
    rw [route, List.length_append]
    exact Nat.succ_le_succ within

theorem lineage_contained (positive : 1 ≤ limit) (common : ∀ u, (settings u).maxRouteLength = limit)
    (lineage : Lineage S settings who random steps) : Contained who limit steps := by
  induction lineage with
  | issued u e now target changes =>
      obtain ⟨_, _, once⟩ := start_candidates changes
      exact contained_search now target once positive
  | passed u v e now p p' steps _ changes reached passage ih =>
      obtain ⟨id, set, once⟩ := start_candidates changes
      obtain ⟨loopFree, absent, foreign, passes⟩ := Engine.passage_cases passage
      have within : p.query.route.length ≤ limit := by
        cases p with
        | bordercast query targets => exact ih.short v query targets List.mem_cons_self
        | straight query => exact absurd (reached.symm.trans id.symm) foreign
      exact contained_passed ih id once (by rw [set, common]) loopFree absent within passes

def descent (S : Suite) (settings : Fin n → Settings) (who : Fin n → Identity) (random : Fin n → Random) : Rule n
  | v, u, .discovery d => ∃ p steps, Lineage S settings who random ((v, p) :: steps) ∧ p.query = d ∧ p.Reaches (who u).id
  | _, _, .acknowledgement a => ∃ v p steps t, Lineage S settings who random ((v, p) :: steps) ∧ p.Reaches (who t).id ∧
      a.route = p.query.route ++ [(who t).id]
  | _, _, .advertisement _ => True
  | _, _, _ => False

theorem descent_searches (changes : Engine.Changes S (Engine.start S (settings u) (who u) (random u)) e) :
    Searches S who (descent S settings who random) u e :=
  fun now target searching _ later reaches _ => ⟨_, [], .issued u searching now target (changes.trans later), rfl, reaches⟩

theorem descent_obeys (links : Links (Fin n)) (now : UInt64) (e' : Engine)
    (changes : Engine.Changes S (Engine.start S (settings u) (who u) (random u)) e) :
    Obeys S who links (descent S settings who random) (descent S settings who random) u now e e' where
  announces _ _ _ _ _ _ _ := trivial
  passes := by
    rintro v d p _ ⟨p₀, steps, lineage, rfl, reached⟩ passage reaches _
    exact ⟨p, _, .passed u v e now p₀ p steps lineage changes reached passage, rfl, reaches⟩
  answers := by
    rintro v d requester _ ⟨p, steps, lineage, rfl, reached⟩ _ _ _ _
    exact ⟨v, p, steps, u, lineage, reached, congrArg (p.query.route ++ [·]) (start_candidates changes).1⟩
  walks _ _ _ told := told
  searches := descent_searches changes

namespace Swarm

theorem run_descends (settings : Fin n → Settings) (random : Fin n → Random) (opens : S.Opens)
    (distinct : Function.Injective fun u => (who u).id) (events : List (Event n)) :
    Follows S who (descent S settings who random) ((start S settings who random).run S events) := by
  induction events using List.reverseRecOn with
  | nil => exact follows_start settings random
  | append_singleton events event ih =>
      have changes := start_changes S settings who random events
      rw [run_append]
      refine apply_follows opens distinct ih (fun _ _ _ told => told) ?_
      cases event with
      | advertise => exact fun _ _ => trivial
      | send now u target payload => exact descent_searches (changes u)
      | hear now links copy => exact fun _ => descent_obeys links now _ (changes copy.receiver)
      | collect | lose | echo => trivial

end Swarm

-- How queries and answers come to a device: a query is the last passage of a lineage and goes on as the next one, and an
-- answer follows one.
structure Traced (S : Suite) (settings : Fin n → Settings) (who : Fin n → Identity) (random : Fin n → Random) (limit : Nat)
    (u : Fin n) (e : Engine) (bytes : Bytes) : Prop where
  query : ∀ d, e.content? S bytes = some (.datagram (.discovery d)) →
    ∃ v p steps, Lineage S settings who random ((v, p) :: steps) ∧ p.query = d ∧ p.Reaches (who u).id
  onward : ∀ d now, e.content? S bytes = some (.datagram (.discovery d)) → d.destination ≠ e.id →
    ∀ packet ∈ (e.receive S now bytes).1,
      ∃ p, e.passage? S now d = some p ∧ (e.receive S now bytes).2.Passes S e.table.book p packet
  answer : ∀ a, e.content? S bytes = some (.datagram (.acknowledgement a)) → a.route.length ≤ limit + 2 ∧
    ∃ v p steps t, Lineage S settings who random ((v, p) :: steps) ∧ p.Reaches (who t).id ∧
      a.route = p.query.route ++ [(who t).id]

-- Topology and order do not matter, because a query takes the list of the devices that it has covered along.
theorem discovery_contained (opens : S.Opens) (distinct : Function.Injective fun u => (who u).id) (positive : 1 ≤ limit)
    (common : ∀ u, (settings u).maxRouteLength = limit) :
    (∀ steps, Lineage S settings who random steps → Contained who limit steps) ∧
    (∀ events u now target packets,
      ((((Swarm.start S settings who random).run S events).device u).discover S now target).1 = .ok packets →
        ∀ packet ∈ packets, (((Swarm.start S settings who random).run S events).device u).Passes S
          (((Swarm.start S settings who random).run S events).device u).table.book
          ((((Swarm.start S settings who random).run S events).device u).search now target) packet) ∧
    ∀ events copy, copy ∈ ((Swarm.start S settings who random).run S events).air →
      Traced S settings who random limit copy.receiver
        (((Swarm.start S settings who random).run S events).device copy.receiver) copy.bytes := by
  have contained : ∀ {steps}, Lineage S settings who random steps → Contained who limit steps := lineage_contained positive common
  refine ⟨fun _ => contained, fun events u now target packets searched => ?_, fun events copy member => ?_⟩
  · have follows := Swarm.run_descends settings random opens distinct events
    exact Engine.discover_passes (follows.orderly u) searched
  · have follows := Swarm.run_descends settings random opens distinct events
    have heard : ∀ d, (((Swarm.start S settings who random).run S events).device copy.receiver).content? S copy.bytes =
        some (.datagram d) → Heard S who (descent S settings who random) copy.receiver d :=
      fun d => innermost_heard opens distinct (follows.trust.honest copy.receiver) (follows.air copy member)
    refine ⟨fun d content => ?_, fun d now content foreign packet sent => ?_, fun a content => ?_⟩
    · obtain ⟨v, told⟩ := heard _ content
      exact ⟨v, told⟩
    · obtain ⟨_, content', emits⟩ := Engine.receive_emits now copy.bytes (follows.orderly copy.receiver) packet sent
      cases content.symm.trans content'
      cases emits with
      | passed _ p _ passage passes => exact ⟨p, passage, passes⟩
      | answer _ _ _ _ _ asked => exact absurd asked foreign
    · obtain ⟨_, v, p, steps, t, lineage, reached, along⟩ := heard _ content
      refine ⟨?_, v, p, steps, t, lineage, reached, along⟩
      rw [along, List.length_append]
      exact Nat.succ_le_succ ((contained lineage).length _ List.mem_cons_self)

-- Four devices in a row, each of whose zones holds nobody else, so that its neighbours are its border nodes.
def bare : Fin 4 → Settings := fun _ => { zoneRadius := 0 }

def inRow (u : Fin 4) (neighbours : List (Fin 4)) : Engine :=
  ((Engine.start Suite.plain (bare u) (numbered u) (Random.ofSeed 0)).takeAll Suite.plain
    (neighbours.map fun v => Engine.announced 0 v)).2

def quest (route covered : List (Fin 4)) : Discovery where
  origin := (numbered (0 : Fin 4)).publicKey Suite.plain
  destination := Engine.far
  sent := 0
  route := route.map fun u => (numbered u).id
  covered := covered.map fun u => (numbered u).id

def questing : List (Fin 4 × Passage) :=
  [(2, .straight (quest [0, 1, 2] [0, 1, 2])), (1, .bordercast (quest [0, 1] [0, 1, 2]) [(numbered (2 : Fin 4)).id]),
    (0, .bordercast (quest [0] [0, 1]) [(numbered (1 : Fin 4)).id])]

theorem discovery_contained_row :
    Lineage Suite.plain bare numbered (fun _ => Random.ofSeed 0) questing ∧ Contained numbered 16 questing := by
  have runs : (inRow 0 [1]).search 0 Engine.far = .bordercast (quest [0] [0, 1]) [(numbered (1 : Fin 4)).id] ∧
      (inRow 1 [0, 2]).passage? Suite.plain 0 (quest [0] [0, 1]) =
        some (.bordercast (quest [0, 1] [0, 1, 2]) [(numbered (2 : Fin 4)).id]) ∧
      (inRow 2 [1, 3]).passage? Suite.plain 0 (quest [0, 1] [0, 1, 2]) = some (.straight (quest [0, 1, 2] [0, 1, 2])) := by
    decide +kernel
  have changes : ∀ u neighbours, Engine.Changes Suite.plain
      (Engine.start Suite.plain (bare u) (numbered u) (Random.ofSeed 0)) (inRow u neighbours) :=
    fun u neighbours => Engine.take_all_changes (Engine.orderly_start _ _ _ _) _
  have lineage : Lineage Suite.plain bare numbered (fun _ => Random.ofSeed 0) questing := by
    refine .passed 2 1 _ 0 _ _ _ (.passed 1 0 _ 0 _ _ _ ?_ (changes 1 [0, 2]) (List.mem_singleton_self _) runs.2.1)
      (changes 2 [1, 3]) (List.mem_singleton_self _) runs.2.2
    rw [← runs.1]
    exact .issued 0 _ 0 Engine.far (changes 0 [1])
  exact ⟨lineage, (discovery_contained (lawful_opens plain_lawful) (by decide) (by decide) fun _ => rfl).1 questing lineage⟩

end ZoneRouting
