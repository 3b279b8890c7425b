import ZoneRouting.Proofs.StaticMesh.Arrivals

set_option autoImplicit false

namespace ZoneRouting.StaticMesh.Dispatch

variable {n : Nat} {M : StaticMesh n} (D : M.Dispatch)

def Aloft (f : Swarm n) (good : Task n → Fin n → Prop) (copy : Copy n) : Prop :=
  ∃ task v bound, D.Flight task v bound copy ∧ (task.Late → D.Knows (f.device D.target)) ∧ good task v

def Left (f : Swarm n) (copy : Copy n) (bound : Nat) : Prop :=
  ∃ task v, D.Flight task v bound copy ∧ (task.Late → D.Knows (f.device D.target))

def waiting (f : Swarm n) : List Bytes := (f.device D.source).parkedFor (M.name D.target)

-- The payload waits at the source while a search that will find the target is under way, or it has left the
-- source and is on its way to the target or there.
structure Delivering (f : Swarm n) : Prop where
  ready : ∀ u, M.Ready u (f.device u)
  cached : D.Cached (f.device D.source)
  flights : ∀ copy ∈ f.air, D.Aloft f (fun _ _ => True) copy
  stage : (D.waiting f = [D.payload] ∧ ∃ copy ∈ f.air, D.Aloft f D.Hopeful copy) ∨
    (D.waiting f = [] ∧ ((∃ copy ∈ f.air, D.Aloft f (fun task _ => task.Final) copy) ∨ (f.device D.target).incoming ≠ []))

structure After (f : Swarm n) (copy : Copy n) (task : Task n) (v : Fin n) (bound : Nat) (f' : Swarm n) : Prop where
  ready : ∀ u, M.Ready u (f'.device u)
  cached : D.Cached (f'.device D.source)
  keeps : D.Knows (f.device D.target) → D.Knows (f'.device D.target)
  air : ∃ fresh, f'.air = f.air.erase copy ++ fresh ∧ fresh.length ≤ n ∧
    ∀ c ∈ fresh, ∃ less < bound, D.Left f' c less
  shelf : D.waiting f = [] → D.waiting f' = []
  flush : D.waiting f = [D.payload] → D.waiting f' = [D.payload] ∨
    D.waiting f' = [] ∧ ∃ c ∈ f'.air, D.Aloft f' (fun task _ => task.Final) c
  hopeful : D.Hopeful task v → (∃ c ∈ f'.air, D.Aloft f' D.Hopeful c) ∨ D.waiting f' = []
  final : task.Final → (∃ c ∈ f'.air, D.Aloft f' (fun task _ => task.Final) c) ∨ (f'.device D.target).incoming ≠ []
  delivered : (f.device D.target).incoming ≠ [] → (f'.device D.target).incoming ≠ []

variable {D} {f : Swarm n} {copy : Copy n} {task : Task n} {u v : Fin n} {bound : Nat}

theorem leads_copies {known : Prop} {good : Task n → Fin n → Prop} {packet : Packet}
    (ids : ∀ w, (f.device w).id = M.name w) (leads : D.Leads u bound known good packet) :
    ∃ c, f.copies M.links u packet = [c] ∧
      ∃ task v, ∃ less < bound, D.Flight task v less c ∧ (task.Late → known) ∧ good task v := by
  obtain ⟨task, v, less, lt, ⟨x, bytes, adj, rfl, flight⟩, late, holds⟩ := leads
  have alone : ∀ w, (f.device w).id = M.name x ↔ w = x := by
    intro w
    rw [ids]
    exact ⟨fun same => name_injective same, congrArg M.name⟩
  exact ⟨_, Swarm.copies_single_linked alone (adj_iff.mp adj).2 bytes, task, v, less, lt, flight, late, holds⟩

theorem leads_transmitted {known : Prop} {packets : List Packet} (ids : ∀ w, (f.device w).id = M.name w)
    (onward : ∀ packet ∈ packets, D.Leads u bound known (fun _ _ => True) packet) :
    (packets.flatMap fun packet => f.copies M.links u packet).length = packets.length ∧
      ∀ c ∈ packets.flatMap fun packet => f.copies M.links u packet,
        ∃ task v, ∃ less < bound, D.Flight task v less c ∧ (task.Late → known) := by
  constructor
  · have single : ∀ packet ∈ packets, (f.copies M.links u packet).length = 1 := by
      intro packet sent
      obtain ⟨c, heard, _⟩ := leads_copies ids (onward packet sent)
      rw [heard]
      rfl
    rw [List.length_flatMap, List.map_congr_left single, List.map_const', List.sum_replicate, smul_eq_mul, mul_one]
  · intro c member
    obtain ⟨packet, sent, heard⟩ := List.mem_flatMap.mp member
    obtain ⟨c', only, task, v, less, lt, flight, late, _⟩ := leads_copies ids (onward packet sent)
    rw [only] at heard
    cases List.mem_singleton.mp heard
    exact ⟨task, v, less, lt, flight, late⟩

theorem leads_aloft {known : Prop} {good : Task n → Fin n → Prop} {packets : List Packet}
    (ids : ∀ w, (f.device w).id = M.name w) (leads : ∃ packet ∈ packets, D.Leads u bound known good packet) :
    ∃ c ∈ packets.flatMap fun packet => f.copies M.links u packet,
      ∃ task v less, D.Flight task v less c ∧ (task.Late → known) ∧ good task v := by
  obtain ⟨packet, sent, leads⟩ := leads
  obtain ⟨c, heard, task, v, less, _, flight, late, holds⟩ := leads_copies ids leads
  refine ⟨c, List.mem_flatMap.mpr ⟨packet, sent, ?_⟩, task, v, less, flight, late, holds⟩
  rw [heard]
  exact List.mem_singleton_self c

theorem hear_after (ready : ∀ u, M.Ready u (f.device u)) (cached : D.Cached (f.device D.source))
    (held : D.waiting f = [] ∨ D.waiting f = [D.payload]) (flight : D.Flight task v bound copy)
    (late : task.Late → D.Knows (f.device D.target))
    (fits : ∀ d ∈ f.writes M.suite (.hear M.now M.links copy), Wire.Fits d) :
    D.After f copy task v bound (f.hear M.suite M.now M.links copy) := by
  have reaction := flight_reaction (ready copy.receiver) (fun same => same ▸ cached) (fun same => same ▸ held)
    (fun is same => same ▸ late is) flight fits
  have hearing := Swarm.hear_hearing M.suite M.now M.links copy f
  generalize (f.device copy.receiver).receive M.suite M.now copy.bytes = reply at reaction hearing
  generalize f.hear M.suite M.now M.links copy = f' at hearing ⊢
  obtain ⟨packets, e'⟩ := reply
  have ready' : ∀ w, M.Ready w (f'.device w) :=
    fun w => hearing.at (M.Ready w) (fun same => same ▸ reaction.ready) fun _ => ready w
  have keeps : D.Knows (f.device D.target) → D.Knows (f'.device D.target) :=
    fun knows => hearing.at D.Knows (fun same => reaction.keeps (same ▸ knows)) fun _ => knows
  have known : task.Late ∨ copy.receiver = D.target ∧ D.Knows e' → D.Knows (f'.device D.target) := by
    rintro (is | ⟨same, knows⟩)
    · exact keeps (late is)
    · exact hearing.at D.Knows (fun _ => knows) fun other => absurd same other
  have ids : ∀ w, (f'.device w).id = M.name w := fun w => (ready' w).id
  obtain ⟨length, onward⟩ := leads_transmitted ids reaction.onward
  have aloft : ∀ good, (∃ packet ∈ packets,
      D.Leads copy.receiver bound (task.Late ∨ copy.receiver = D.target ∧ D.Knows e') good packet) →
      ∃ c ∈ f'.air, D.Aloft f' good c := by
    intro good sent
    obtain ⟨c, inside, task', v', less, flight', late', holds⟩ := leads_aloft ids sent
    refine ⟨c, ?_, task', v', less, flight', fun is => known (late' is), holds⟩
    rw [hearing.air]
    exact List.mem_append_right _ inside
  refine ⟨ready', hearing.at D.Cached reaction.cached fun _ => cached, keeps, ⟨_, hearing.air, length ▸ reaction.few, ?_⟩,
    ?_, ?_, ?_, ?_, ?_⟩
  · intro c member
    obtain ⟨task', v', less, lt, flight', late'⟩ := onward c member
    exact ⟨less, lt, task', v', flight', fun is => known (late' is)⟩
  · intro none
    exact hearing.at (fun e => e.parkedFor (M.name D.target) = []) (fun same => reaction.shelf (same ▸ none)) fun _ => none
  · intro some
    refine hearing.at (fun e => e.parkedFor (M.name D.target) = [D.payload] ∨ e.parkedFor (M.name D.target) = [] ∧
      ∃ c ∈ f'.air, D.Aloft f' (fun task _ => task.Final) c) (fun same => ?_) fun _ => Or.inl some
    exact (reaction.flush same (same ▸ some)).imp id fun gone => ⟨gone.1, aloft _ gone.2⟩
  · intro hope
    refine (reaction.hopeful hope).imp (aloft _) fun ⟨same, gone⟩ => ?_
    exact hearing.at (fun e => e.parkedFor (M.name D.target) = []) (fun _ => gone) fun other => absurd same other
  · intro last
    refine (reaction.final last).imp (aloft _) fun ⟨same, there⟩ => ?_
    exact hearing.at (fun e => e.incoming ≠ []) (fun _ => there) fun other => absurd same other
  · intro there
    exact hearing.at (fun e => e.incoming ≠ []) (fun same => reaction.delivered (same ▸ there)) fun _ => there

theorem aloft_after {good : Task n → Fin n → Prop} {c : Copy n} {f' : Swarm n}
    (keeps : D.Knows (f.device D.target) → D.Knows (f'.device D.target)) (aloft : D.Aloft f good c) : D.Aloft f' good c := by
  obtain ⟨task, v, bound, flight, late, holds⟩ := aloft
  exact ⟨task, v, bound, flight, fun is => keeps (late is), holds⟩

theorem Delivering.held (delivering : D.Delivering f) : D.waiting f = [] ∨ D.waiting f = [D.payload] :=
  delivering.stage.elim (fun waits => Or.inr waits.1) fun left => Or.inl left.1

theorem delivering_hear (delivering : D.Delivering f) (member : copy ∈ f.air)
    (fits : ∀ d ∈ f.writes M.suite (.hear M.now M.links copy), Wire.Fits d) :
    D.Delivering (f.hear M.suite M.now M.links copy) := by
  have act : ∀ {task v bound}, D.Flight task v bound copy → (task.Late → D.Knows (f.device D.target)) →
      D.After f copy task v bound (f.hear M.suite M.now M.links copy) :=
    fun flight late => hear_after delivering.ready delivering.cached delivering.held flight late fits
  obtain ⟨task, v, bound, flight, late, _⟩ := delivering.flights copy member
  have after := act flight late
  obtain ⟨fresh, air, _, flights⟩ := after.air
  have stays : ∀ {good c}, c ≠ copy → c ∈ f.air → D.Aloft f good c →
      ∃ c ∈ (f.hear M.suite M.now M.links copy).air, D.Aloft (f.hear M.suite M.now M.links copy) good c := by
    intro good c other inside aloft
    refine ⟨c, ?_, aloft_after after.keeps aloft⟩
    rw [air]
    exact List.mem_append_left _ ((List.mem_erase_of_ne other).mpr inside)
  refine ⟨after.ready, after.cached, fun c inside => ?_, ?_⟩
  · rw [air] at inside
    rcases List.mem_append.mp inside with old | new
    · exact aloft_after after.keeps (delivering.flights c (List.mem_of_mem_erase old))
    · obtain ⟨less, _, task', v', flight', late'⟩ := flights c new
      exact ⟨task', v', less, flight', late', trivial⟩
  · rcases delivering.stage with ⟨waits, c, inside, hope⟩ | ⟨left, way⟩
    · have lives : (∃ c ∈ (f.hear M.suite M.now M.links copy).air, D.Aloft (f.hear M.suite M.now M.links copy) D.Hopeful c) ∨
          D.waiting (f.hear M.suite M.now M.links copy) = [] := by
        by_cases same : c = copy
        · subst same
          obtain ⟨task', v', bound', flight', late', hopeful⟩ := hope
          exact (act flight' late').hopeful hopeful
        · exact Or.inl (stays same inside hope)
      rcases after.flush waits with still | ⟨gone, final⟩
      · rcases lives with hope' | gone
        · exact Or.inl ⟨still, hope'⟩
        · rw [gone] at still
          cases still
      · exact Or.inr ⟨gone, Or.inl final⟩
    · refine Or.inr ⟨after.shelf left, ?_⟩
      rcases way with ⟨c, inside, final⟩ | there
      · by_cases same : c = copy
        · subst same
          obtain ⟨task', v', bound', flight', late', last⟩ := final
          exact (act flight' late').final last
        · exact Or.inl (stays same inside final)
      · exact Or.inr (after.delivered there)

theorem delivering_fresh (delivering : D.Delivering f)
    (fits : ∀ d ∈ f.writes M.suite (.hear M.now M.links copy), Wire.Fits d) (left : D.Left f copy bound) :
    ∃ fresh, (f.hear M.suite M.now M.links copy).air = f.air.erase copy ++ fresh ∧ fresh.length ≤ n ∧
      ∀ c ∈ fresh, ∃ less < bound, D.Left (f.hear M.suite M.now M.links copy) c less := by
  obtain ⟨task, v, flight, late⟩ := left
  exact (hear_after delivering.ready delivering.cached delivering.held flight late fits).air

theorem left_kept (delivering : D.Delivering f) (member : copy ∈ f.air)
    (fits : ∀ d ∈ f.writes M.suite (.hear M.now M.links copy), Wire.Fits d) (c : Copy n) (bound : Nat)
    (left : D.Left f c bound) : D.Left (f.hear M.suite M.now M.links copy) c bound := by
  obtain ⟨task, v, bound', flight, late, _⟩ := delivering.flights copy member
  have after := hear_after delivering.ready delivering.cached delivering.held flight late fits
  obtain ⟨task', v', flight', late'⟩ := left
  exact ⟨task', v', flight', fun is => after.keeps (late' is)⟩

theorem delivering_run (replies : List (Copy n)) (delivering : D.Delivering f)
    (smooth : Swarm.Smooth M.suite (replies.map (.hear M.now M.links)) f) {total : Nat}
    (lasting : Swarm.Lasting (D.Left f) f.air total) :
    D.Delivering (f.run M.suite (replies.map (.hear M.now M.links))) ∧ replies.length ≤ total := by
  induction replies generalizing f total with
  | nil => exact ⟨delivering, Nat.zero_le total⟩
  | cons copy replies ih =>
      obtain ⟨possible, fits, rest⟩ := smooth
      have step : f.run M.suite ((copy :: replies).map (.hear M.now M.links)) =
          (f.hear M.suite M.now M.links copy).run M.suite (replies.map (.hear M.now M.links)) := by
        rw [← Swarm.apply_hear possible]
        rfl
      rw [Swarm.apply_hear possible] at rest
      obtain ⟨total', less, lasting'⟩ := Swarm.lasting_hear lasting possible (left_kept delivering possible fits)
        fun bound left => delivering_fresh delivering fits left
      obtain ⟨delivering', short⟩ := ih (delivering_hear delivering possible fits) rest lasting'
      rw [step]
      exact ⟨delivering', short.trans_lt less⟩

theorem delivering_quiet (delivering : D.Delivering f) (quiet : f.air = []) :
    D.waiting f = [] ∧ (f.device D.target).incoming ≠ [] := by
  rcases delivering.stage with ⟨_, copy, inside, _⟩ | ⟨left, ⟨copy, inside, _⟩ | there⟩
  · rw [quiet] at inside
    cases inside
  · rw [quiet] at inside
    cases inside
  · exact ⟨left, there⟩

end ZoneRouting.StaticMesh.Dispatch
