import ZoneRouting.Proofs.StaticMesh.Delivery

set_option autoImplicit false

namespace ZoneRouting.StaticMesh.Dispatch

variable {n : Nat} {M : StaticMesh n} (D : M.Dispatch)

-- More than is left to be done when the payload is handed over.
def effort (n : Nat) : Nat := (3 * n + 2) * (n + 2)

-- The source once it has been given the payload: it has packets for its neighbours that begin a search which
-- will find the target, or one that holds the payload.
structure Departure (e : Engine) : Prop where
  ready : M.Ready D.source e
  cached : D.Cached e
  few : e.outgoing.length ≤ n
  onward : ∀ packet ∈ e.outgoing, D.Leads D.source (effort n) False (fun _ _ => True) packet
  stage : (e.parkedFor (M.name D.target) = [D.payload] ∧
      ∃ packet ∈ e.outgoing, D.Leads D.source (effort n) False D.Hopeful packet) ∨
    (e.parkedFor (M.name D.target) = [] ∧
      ∃ packet ∈ e.outgoing, D.Leads D.source (effort n) False (fun task _ => task.Final) packet)

structure Idle (e : Engine) : Prop where
  outgoing : e.outgoing = []
  parked : e.parked = Directory.empty
  pending : e.pending = Directory.empty
  cache : e.cache.book = RouteBook.empty

variable {D} {e : Engine} {u : Fin n} {f : Swarm n}

theorem idle_listening (listening : M.Listening u e) : Idle e := by
  obtain ⟨table, keyring, rfl⟩ := listening.plain
  exact ⟨rfl, rfl, rfl, rfl⟩

theorem Idle.cached (idle : Idle e) (D : M.Dispatch) : D.Cached e := by
  refine ⟨?_, fun route member => ?_⟩
  · rw [idle.cache]
    exact RouteBook.fresh_empty M.now
  · rw [idle.cache] at member
    cases member

theorem Idle.unparked (idle : Idle e) (id : Identifier) : e.parkedFor id = [] := by
  rw [Engine.parkedFor, idle.parked]
  rfl

theorem payload_lighter : (Task.payload : Task n).weight < (Task.query [] [] : Task n).weight := by
  rw [Task.weight, Task.weight]
  omega

theorem query_effort : (Task.query [] [] : Task n).weight * (n + 2) = effort n := by
  have weight : (Task.query [] [] : Task n).weight = 3 * n + 2 := by
    rw [Task.weight, List.length_nil]
    omega
  rw [weight, effort]

theorem departs_near (ready : M.Ready D.source e) (idle : Idle e) (near : M.Near D.source D.target)
    (fits : ∀ d ∈ e.sendWrites M.suite M.now (M.name D.target) D.payload, Wire.Fits d) :
    (e.send M.suite M.now (M.name D.target) D.payload).1 = .ok .direct ∧
      D.Departure (e.send M.suite M.now (M.name D.target) D.payload).2 := by
  unfold Engine.sendWrites at fits
  rw [D.untagged] at fits
  obtain ⟨packet, random, sent, posted⟩ := send_direct_near ready near fun d inside => fits d (List.mem_append_left _ inside)
  have routed : e.route M.suite M.now (M.name D.target) D.payload = (.ok (.direct, [packet]), { e with random }) := by
    unfold Engine.route
    rw [sent]
  have whole : e.send M.suite M.now (M.name D.target) D.payload =
      (.ok .direct, { e with random, outgoing := [packet] }) := by
    unfold Engine.send
    rw [D.untagged]
    dsimp only
    rw [routed]
    dsimp only
    rw [idle.outgoing, List.nil_append]
  have leads : ∀ good : Task n → Fin n → Prop, good .payload D.target → D.Leads D.source (effort n) False good packet :=
    fun good holds => posted_leads near posted .payload payload_lighter query_effort.le id holds
  have cached := idle.cached D
  rw [whole]
  refine ⟨rfl, { ready.random random with }, ⟨cached.fresh, cached.chains⟩, Fin.pos D.source, ?_,
    Or.inr ⟨idle.unparked _, packet, List.mem_singleton_self _, leads _ trivial⟩⟩
  exact fun p only => List.mem_singleton.mp only ▸ leads _ trivial

theorem discover_spreads (ready : M.Ready D.source e) (far : ¬ M.Near D.source D.target)
    (fits : ∀ d ∈ e.discoverWrites M.suite M.now (M.name D.target), Wire.Fits d) :
    ∃ packets random pending, e.discover M.suite M.now (M.name D.target) = (.ok packets, { e with random, pending }) ∧
      packets.length ≤ n ∧ (∀ packet ∈ packets, D.Leads D.source (effort n) False (fun _ _ => True) packet) ∧
      ∃ packet ∈ packets, D.Leads D.source (effort n) False D.Hopeful packet := by
  obtain ⟨b, border, distinct, members⟩ := ready.charted.border (M.names [D.source])
  have asked : e.borderNodes M.now [e.id] = (M.names b, e) := by
    rw [ready.id]
    change e.borderNodes M.now (M.names [D.source]) = (M.names b, e)
    rw [Engine.borderNodes, border]
  have outer : ∀ w ∈ b, M.Near D.source w ∧ M.graph.dist D.source w = M.reach :=
    fun w member => ⟨((members w).mp member).1, ((members w).mp member).2.1⟩
  have closest : ∀ x ∈ [D.source] ++ [],
      M.graph.Reachable x D.target ∧ M.graph.dist D.source D.target ≤ M.graph.dist x D.target := by
    intro x member
    cases List.mem_singleton.mp member
    exact ⟨D.connected, Nat.le_refl _⟩
  obtain ⟨w, near, full, fresh, hopeful⟩ := hopeful_border D.connected far D.different closest
  have known : w ∈ b := (members w).mpr ⟨near, full, fun seen => fresh (List.mem_append_left _ (mem_names.mp seen))⟩
  have asks : (⟨e.publicKey, M.name D.target, M.now, [e.id], e.id :: M.names b⟩ : Discovery) =
      D.query (D.source :: b) [D.source] := by
    rw [ready.id, ready.publicKey]
    rfl
  unfold Engine.discoverWrites at fits
  rw [asked] at fits
  dsimp only at fits
  rw [asks] at fits
  obtain ⟨bytes, written⟩ := Wire.encode_fits (fits _ List.mem_cons_self)
  rw [written] at fits
  obtain ⟨packets, random, sent, length, onward, serves⟩ := query_spreads [] [] b ready
    (fun w member => (outer w member).1) far (List.nodup_singleton _) rfl
    (fun member => D.different (List.mem_singleton.mp member).symm) (List.isChain_singleton _) query_effort.le written
    fun d inside => fits d (List.mem_cons_of_mem _ inside)
  obtain ⟨packet, inside, leads⟩ := serves w known
  refine ⟨packets, random, e.pending.insert (M.name D.target) M.now, ?_, length ▸ length_le_of_nodup distinct,
    fun packet inside => ?_, packet, inside, leads _ _ (hopeful b outer)⟩
  · unfold Engine.discover
    rw [asked]
    dsimp only
    rw [asks, written]
    dsimp only
    rw [sent]
    dsimp only
    rw [if_neg (List.ne_nil_of_mem inside)]
  · obtain ⟨w, _, leads⟩ := onward packet inside
    exact leads _ _ trivial

theorem no_route (ready : M.Ready D.source e) (idle : Idle e) (far : ¬ M.Near D.source D.target) :
    e.sendDirect M.suite M.now (M.name D.target) D.payload = (.error (.unreachable (M.name D.target)), e) ∧
      e.sendInterZone M.suite M.now (M.name D.target) D.payload = (.error (.noRoute (M.name D.target)), e) := by
  refine ⟨send_direct_far ready D.payload fun w near same => far (name_injective same ▸ near), ?_⟩
  have looked : e.cache.lookup (M.name D.target) M.now = (none, e.cache) := by
    have pair : e.cache.book.lookup (M.name D.target) M.now = (none, e.cache.book) := by
      rw [idle.cache]
      rfl
    rw [RouteCache.lookup, pair]
  unfold Engine.sendInterZone
  rw [looked]

theorem route_parks (ready : M.Ready D.source e) (idle : Idle e) (far : ¬ M.Near D.source D.target) {e' : Engine}
    (parked : e' = e.park (M.name D.target) D.payload) :
    (∀ packets e'', e'.discover M.suite M.now (M.name D.target) = (.ok packets, e'') →
        e.route M.suite M.now (M.name D.target) D.payload = (.ok (.queued, packets), e'')) ∧
      ∀ d ∈ e'.discoverWrites M.suite M.now (M.name D.target), d ∈ e.routeWrites M.suite M.now (M.name D.target) D.payload := by
  obtain ⟨direct, interZone⟩ := no_route ready idle far
  have silent : ¬ e'.searching M.now (M.name D.target) = true := by
    have none : e'.pending = Directory.empty := by
      rw [parked]
      exact idle.pending
    rw [Engine.searching, none]
    exact Bool.false_ne_true
  constructor
  · intro packets e'' sent
    unfold Engine.route
    rw [direct]
    dsimp only
    rw [interZone]
    dsimp only
    rw [← parked, if_neg silent, sent]
  · intro d inside
    unfold Engine.routeWrites
    rw [direct]
    dsimp only
    rw [interZone]
    dsimp only
    rw [← parked, if_neg silent]
    exact List.mem_append_right _ (List.mem_append_right _ inside)

theorem departs_far (ready : M.Ready D.source e) (idle : Idle e) (far : ¬ M.Near D.source D.target)
    (fits : ∀ d ∈ e.sendWrites M.suite M.now (M.name D.target) D.payload, Wire.Fits d) :
    (e.send M.suite M.now (M.name D.target) D.payload).1 = .ok .queued ∧
      D.Departure (e.send M.suite M.now (M.name D.target) D.payload).2 := by
  obtain ⟨e', parked⟩ : ∃ e', e' = e.park (M.name D.target) D.payload := ⟨_, rfl⟩
  obtain ⟨routes, writes⟩ := route_parks ready idle far parked
  have ready' : M.Ready D.source e' := by
    rw [parked]
    exact { ready with }
  have cached : D.Cached e' := by
    rw [parked]
    exact ⟨(idle.cached D).fresh, (idle.cached D).chains⟩
  have outgoing : e'.outgoing = [] := by
    rw [parked]
    exact idle.outgoing
  have shelf : e'.parkedFor (M.name D.target) = [D.payload] := by
    rw [parked, parked_for_park, if_pos rfl, idle.unparked, List.nil_append]
  unfold Engine.sendWrites at fits
  rw [D.untagged] at fits
  obtain ⟨packets, random, pending, sent, few, onward, hopeful⟩ := discover_spreads ready' far
    fun d inside => fits d (writes d inside)
  have whole : e.send M.suite M.now (M.name D.target) D.payload =
      (.ok .queued, { e' with random, pending, outgoing := packets }) := by
    unfold Engine.send
    rw [D.untagged]
    dsimp only
    rw [routes packets _ sent]
    dsimp only
    rw [outgoing, List.nil_append]
  rw [whole]
  exact ⟨rfl, { ready'.random random with }, ⟨cached.fresh, cached.chains⟩, few, onward, Or.inl ⟨shelf, hopeful⟩⟩

theorem departed (ready : ∀ u, M.Ready u (f.device u)) (quiet : f.air = [])
    (departure : D.Departure ((f.device D.source).send M.suite M.now (M.name D.target) D.payload).2) {f' : Swarm n}
    (collected : f' = (f.send M.suite M.now D.source (M.name D.target) D.payload).collect M.links D.source) :
    D.Delivering f' ∧ ∃ total < (n + 1) ^ effort n, Swarm.Lasting (D.Left f') f'.air total := by
  unfold Swarm.send at collected
  generalize ((f.device D.source).send M.suite M.now (M.name D.target) D.payload).2 = e' at departure collected
  rw [Swarm.collect, Swarm.device_put, Engine.takeOutgoing] at collected
  dsimp only at collected
  obtain ⟨g, put⟩ : ∃ g, g = (f.put D.source e').put D.source { e' with outgoing := [] } := ⟨_, rfl⟩
  have own : g.device D.source = { e' with outgoing := [] } := by rw [put, Swarm.device_put]
  have others : ∀ v, v ≠ D.source → g.device v = f.device v := by
    intro v other
    rw [put, Swarm.device_put_other _ _ other, Swarm.device_put_other _ _ other]
  have ready' : ∀ w, M.Ready w (g.device w) := by
    intro w
    by_cases same : w = D.source
    · subst same
      rw [own]
      exact { departure.ready with }
    · rw [others w same]
      exact ready w
  have ids : ∀ w, (g.device w).id = M.name w := fun w => (ready' w).id
  obtain ⟨length, onward⟩ := leads_transmitted ids departure.onward
  have air : f'.air = e'.outgoing.flatMap fun packet => g.copies M.links D.source packet := by
    have before : f'.air = f.air ++ e'.outgoing.flatMap fun packet => g.copies M.links D.source packet := by
      rw [collected, put]
      rfl
    rw [before, quiet, List.nil_append]
  have device : f'.device = g.device := by rw [collected, put]; rfl
  have fresh : ∀ c ∈ f'.air, ∃ less < effort n, D.Left f' c less := by
    intro c member
    obtain ⟨task, v, less, lt, flight, late⟩ := onward c (air ▸ member)
    exact ⟨less, lt, task, v, flight, fun is => (late is).elim⟩
  have aloft : ∀ good, (∃ packet ∈ e'.outgoing, D.Leads D.source (effort n) False good packet) →
      ∃ c ∈ f'.air, D.Aloft f' good c := by
    intro good sent
    obtain ⟨c, inside, task, v, less, flight, late, holds⟩ := leads_aloft ids sent
    exact ⟨c, air ▸ inside, task, v, less, flight, fun is => (late is).elim, holds⟩
  have few : f'.air.length ≤ n := by
    rw [air, length]
    exact departure.few
  refine ⟨⟨device ▸ ready', ?_, fun c inside => ?_, ?_⟩, Swarm.lasting_fresh few fresh⟩
  · rw [device, own]
    exact ⟨departure.cached.fresh, departure.cached.chains⟩
  · obtain ⟨less, _, task, v, flight, late⟩ := fresh c inside
    exact ⟨task, v, less, flight, late, trivial⟩
  · have shelf : D.waiting f' = e'.parkedFor (M.name D.target) := by
      rw [waiting, device, own]
      rfl
    rw [shelf]
    exact departure.stage.imp (fun ⟨waits, hope⟩ => ⟨waits, aloft _ hope⟩) fun ⟨left, final⟩ => ⟨left, Or.inl (aloft _ final)⟩

end ZoneRouting.StaticMesh.Dispatch
