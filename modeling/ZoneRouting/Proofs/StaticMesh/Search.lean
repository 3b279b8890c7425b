import ZoneRouting.Proofs.StaticMesh.Tasks

set_option autoImplicit false

namespace ZoneRouting.StaticMesh.Dispatch

variable {n : Nat} {M : StaticMesh n} (D : M.Dispatch)

structure Cached (e : Engine) : Prop where
  fresh : e.cache.book.Fresh M.now
  chains : ∀ route ∈ e.cache.book.hopsTo (M.name D.target), ∃ c, route = M.names c ∧ D.Chain c

def Knows (e : Engine) : Prop := e.keyring.find? (M.name D.source) = some (M.key D.source)

def Leads (u : Fin n) (bound : Nat) (known : Prop) (good : Task n → Fin n → Prop) (packet : Packet) : Prop :=
  ∃ task v, ∃ less < bound, D.Onward u task v less packet ∧ (task.Late → known) ∧ good task v

-- What a device does when a copy that serves a task reaches it: all that it sends serves a task and is closer
-- to the end, a search that will find the target stays one until the payload leaves the source, and a payload
-- that has left it stays on its way until it is delivered.
structure Reaction (task : Task n) (v : Fin n) (bound : Nat) (u : Fin n) (e : Engine) (packets : List Packet)
    (e' : Engine) : Prop where
  ready : M.Ready u e'
  cached : u = D.source → D.Cached e'
  keeps : D.Knows e → D.Knows e'
  few : packets.length ≤ n
  onward : ∀ packet ∈ packets, D.Leads u bound (task.Late ∨ u = D.target ∧ D.Knows e') (fun _ _ => True) packet
  shelf : e.parkedFor (M.name D.target) = [] → e'.parkedFor (M.name D.target) = []
  flush : u = D.source → e.parkedFor (M.name D.target) = [D.payload] →
    e'.parkedFor (M.name D.target) = [D.payload] ∨ e'.parkedFor (M.name D.target) = [] ∧
      ∃ packet ∈ packets, D.Leads u bound (task.Late ∨ u = D.target ∧ D.Knows e') (fun task _ => task.Final) packet
  hopeful : D.Hopeful task v →
    (∃ packet ∈ packets, D.Leads u bound (task.Late ∨ u = D.target ∧ D.Knows e') D.Hopeful packet) ∨
      u = D.source ∧ e'.parkedFor (M.name D.target) = []
  final : task.Final →
    (∃ packet ∈ packets, D.Leads u bound (task.Late ∨ u = D.target ∧ D.Knows e') (fun task _ => task.Final) packet) ∨
      u = D.target ∧ e'.incoming ≠ []
  delivered : e.incoming ≠ [] → e'.incoming ≠ []

variable {D} {task : Task n} {u v w z : Fin n} {bound : Nat} {e : Engine} {packets : List Packet}
variable {covered trace before after c : List (Fin n)} {content bytes : Bytes}

theorem reaction_random (ready : M.Ready u e) (cached : u = D.source → D.Cached e) (random : Random)
    (few : packets.length ≤ n) (onward : ∀ packet ∈ packets, D.Leads u bound task.Late (fun _ _ => True) packet)
    (hopeful : D.Hopeful task v → ∃ packet ∈ packets, D.Leads u bound task.Late D.Hopeful packet)
    (final : task.Final → ∃ packet ∈ packets, D.Leads u bound task.Late (fun task _ => task.Final) packet) :
    D.Reaction task v bound u e packets { e with random } := by
  have weaker : ∀ good packet, D.Leads u bound task.Late good packet →
      D.Leads u bound (task.Late ∨ u = D.target ∧ D.Knows e) good packet := by
    rintro good packet ⟨task', v', less, lt, onward, late, holds⟩
    exact ⟨task', v', less, lt, onward, fun is => Or.inl (late is), holds⟩
  refine ⟨ready.random random, fun own => ⟨(cached own).fresh, (cached own).chains⟩, id, few,
    fun packet sent => weaker _ _ (onward packet sent), id, fun _ => Or.inl, fun hope => Or.inl ?_,
    fun last => Or.inl ?_, id⟩
  · obtain ⟨packet, sent, leads⟩ := hopeful hope
    exact ⟨packet, sent, weaker _ _ leads⟩
  · obtain ⟨packet, sent, leads⟩ := final last
    exact ⟨packet, sent, weaker _ _ leads⟩

theorem reaction_nothing (ready : M.Ready u e) (cached : u = D.source → D.Cached e) (hopeless : ¬ D.Hopeful task v)
    (open' : ¬ task.Final) : D.Reaction task v bound u e [] e :=
  reaction_random ready cached e.random (Nat.zero_le n) (List.forall_mem_nil _) (fun hope => absurd hope hopeless)
    fun last => absurd last open'

theorem Chain.near (chain : D.Chain (before ++ v :: w :: after)) : M.Near v w :=
  chain.hops.right_of_append.rel

theorem Chain.head (chain : D.Chain (v :: after)) : v = D.source := Option.some.inj chain.first

theorem Chain.ends (chain : D.Chain (before ++ [v])) : v = D.target := by
  have last := chain.last
  rw [List.getLast?_concat] at last
  exact Option.some.inj last

theorem Chain.split (chain : D.Chain c) : ∃ z rest, c = D.source :: z :: rest := by
  cases c with
  | nil => cases chain.first
  | cons x c =>
      cases chain.head
      cases c with
      | nil => exact absurd (Option.some.inj chain.last) D.different
      | cons z rest => exact ⟨z, rest, rfl⟩

theorem Chain.long (chain : D.Chain c) : 2 ≤ (M.names c).length := by
  obtain ⟨z, rest, rfl⟩ := chain.split
  exact Nat.le_add_left 2 _

theorem Chain.away (chain : D.Chain (before ++ v :: after)) (inside : before ≠ []) : v ≠ D.source := by
  intro same
  obtain ⟨x, rest, rfl⟩ := List.exists_cons_of_ne_nil inside
  have first : x = D.source := Option.some.inj chain.first
  have nodup := chain.nodup
  rw [List.cons_append, List.nodup_cons] at nodup
  exact nodup.1 (List.mem_append_right _ (List.mem_cons.mpr (Or.inl (first.trans same.symm))))

theorem Chain.inner (chain : D.Chain (before ++ v :: after)) (inside : after ≠ []) : v ≠ D.target := by
  intro same
  have nodup := chain.nodup.of_append_right
  have last := chain.last
  rw [List.getLast?_append_of_ne_nil _ (by simp), List.getLast?_cons, Option.some.injEq] at last
  rw [List.getLast?_eq_some_getLast inside, Option.getD_some] at last
  exact (List.nodup_cons.mp nodup).1 (same.trans last.symm ▸ List.getLast_mem inside)

theorem query_checked (nonempty : trace ≠ []) : Wire.check (.discovery (D.query covered trace)) = .ok () := by
  have route : M.names trace ≠ [] := fun empty => nonempty (List.map_eq_nil_iff.mp empty)
  have whole : M.name D.target :: M.names trace ++ M.names covered = M.names (D.target :: trace ++ covered) :=
    (names_append (D.target :: trace) covered).symm
  rw [Wire.check, query, if_neg route, whole]
  exact names_valid _

theorem answer_checked (chain : D.Chain c) : Wire.check (.acknowledgement (D.answer c)) = .ok () := by
  rw [Wire.check, answer, if_neg (Nat.not_lt.mpr chain.long)]
  exact names_valid c

theorem weight_lower {task' : Task n} (lighter : task'.weight < task.weight) (bounded : task.weight * (n + 2) ≤ bound) :
    (task'.weight + 1) * (n + 2) ≤ bound :=
  (Nat.mul_le_mul_right (n + 2) lighter).trans bounded

theorem posted_leads {task' : Task n} {known : Prop} {good : Task n → Fin n → Prop} {packet : Packet}
    (near : M.Near u v) (posted : M.Posted u v content packet) (errand : D.Errand task' v content)
    (lighter : task'.weight < task.weight) (bounded : task.weight * (n + 2) ≤ bound) (late : task'.Late → known)
    (holds : good task' v) : D.Leads u bound known good packet := by
  obtain ⟨less, lt, onward⟩ := posted_onward near posted errand (weight_lower lighter bounded)
  exact ⟨task', v, less, lt, onward, late, holds⟩

theorem query_lighter (nodup : (trace ++ [v]).Nodup) (covered' : List (Fin n)) :
    (Task.query covered' (trace ++ [v])).weight < (Task.query covered trace).weight := by
  have short := length_le_of_nodup nodup
  rw [List.length_append, List.length_singleton] at short
  rw [Task.weight, Task.weight, List.length_append, List.length_singleton]
  omega

theorem answer_lighter (chain : D.Chain (before ++ v :: after)) (covered trace : List (Fin n)) :
    (Task.answer before after).weight < (Task.query covered trace).weight := by
  have short := length_le_of_nodup chain.nodup
  rw [List.length_append, List.length_cons] at short
  rw [Task.weight, Task.weight]
  omega

theorem extended_query (covered trace : List (Fin n)) (v : Fin n) :
    { D.query covered trace with route := (D.query covered trace).route ++ [M.name v] } = D.query covered (trace ++ [v]) := by
  rw [query, query, names_append]
  rfl

theorem forward_near (ready : M.Ready u e) (near : M.Near u v) {d : Datagram}
    (fits : ∀ d' ∈ e.forwardWrites M.suite M.now (M.name v) d, Wire.Fits d') :
    ∃ bytes packet random, Wire.encode d = .ok bytes ∧
      e.forward M.suite M.now (M.name v) d = (.ok packet, { e with random }) ∧ M.Posted u v bytes packet := by
  obtain ⟨bytes, written⟩ := Wire.encode_fits (fits _ List.mem_cons_self)
  unfold Engine.forwardWrites at fits
  rw [written] at fits
  obtain ⟨packet, random, sent, posted⟩ := send_direct_near ready near fun d' inside => fits d' (List.mem_cons_of_mem _ inside)
  refine ⟨bytes, packet, random, written, ?_, posted⟩
  rw [Engine.forward, written]
  exact sent

theorem ready_record (ready : M.Ready u e) {ring : Keyring}
    (found : ∀ id, ring.find? id = if id = M.name v then some (M.key v) else e.keyring.find? id) :
    M.Ready u { e with keyring := ring } := by
  refine { ready with authentic := fun id key known => ?_, keys := fun w near => ?_ }
  · dsimp only at known
    rw [found] at known
    split at known
    · rename_i same
      exact ⟨v, same.symm, (Option.some.inj known).symm⟩
    · exact ready.authentic id key known
  · dsimp only
    rw [found]
    split
    · rename_i same
      rw [name_injective same]
    · exact ready.keys w near

theorem query_chain (nodup : (before ++ [z]).Nodup) (first : (before ++ [z]).head? = some D.source)
    (open' : D.target ∉ before ++ [z]) (hops : (before ++ [z] ++ [D.target]).IsChain M.Near) :
    D.Chain (before ++ z :: [D.target]) := by
  have whole : before ++ z :: [D.target] = (before ++ [z]) ++ [D.target] := by simp
  rw [whole]
  refine ⟨?_, hops, ?_, List.getLast?_concat⟩
  · exact List.nodup_append.mpr ⟨nodup, List.nodup_singleton _,
      fun a member b here same => open' (List.mem_singleton.mp here ▸ same ▸ member)⟩
  · rw [List.head?_append_of_ne_nil _ (by simp), first]

theorem answered (covered : List (Fin n)) (ready : M.Ready D.target e) (first : (before ++ [z]).head? = some D.source) :
    ∃ e' : Engine, e.answer M.suite M.now (D.query covered (before ++ [z])) =
        Engine.sent (e'.forward M.suite M.now (M.name z) (.acknowledgement (D.answer (before ++ z :: [D.target])))) ∧
      e.answerWrites M.suite M.now (D.query covered (before ++ [z])) =
        e'.forwardWrites M.suite M.now (M.name z) (.acknowledgement (D.answer (before ++ z :: [D.target]))) ∧
      M.Ready D.target e' ∧ D.Knows e' ∧ (∀ id, e'.parkedFor id = e.parkedFor id) ∧ e'.incoming = e.incoming := by
  have requester : (D.query covered (before ++ [z])).requester? = some (M.name D.source) := by
    rw [Discovery.requester?, query, names, List.head?_map, first]
    rfl
  have previous : (D.query covered (before ++ [z])).route.getLast? = some (M.name z) := by
    rw [query, names, List.getLast?_map, List.getLast?_concat]
    rfl
  obtain ⟨ring, recorded, found⟩ := record_authentic ready.authentic D.source
  have recorded' : e.keyring.record (M.name D.source) (D.query covered (before ++ [z])).origin = .ok ring := recorded
  have answer' : ({ route := (D.query covered (before ++ [z])).route ++ [e.id], targetKey := e.publicKey } :
      Acknowledgement) = D.answer (before ++ z :: [D.target]) := by
    have route : M.names (before ++ [z]) ++ [M.name D.target] = M.names (before ++ z :: [D.target]) := by
      rw [names, names, List.map_append, List.map_append, List.append_assoc]
      rfl
    rw [answer, ← route, ready.id, ready.publicKey]
    rfl
  refine ⟨{ e with
      keyring := ring, cache := (e.cache.learn (M.name D.source)
        ((D.query covered (before ++ [z])).route ++ [e.id]).reverse M.now).2 }, ?_, ?_, { ready_record ready found with }, ?_,
    fun id => rfl, rfl⟩
  · rw [← answer', Engine.answer, requester, previous]
    dsimp only
    rw [recorded']
  · rw [← answer', Engine.answerWrites, requester, previous]
    dsimp only
    rw [recorded']
  · dsimp only [Knows]
    rw [found, if_pos rfl]

theorem answer_reaction (ready : M.Ready D.target e) (errand : D.Errand (.query covered trace) D.target content)
    (bounded : (Task.query covered trace).weight * (n + 2) ≤ bound)
    (fits : ∀ d ∈ e.answerWrites M.suite M.now (D.query covered trace), Wire.Fits d) :
    D.Reaction (.query covered trace) D.target bound D.target e (e.answer M.suite M.now (D.query covered trace)).1
      (e.answer M.suite M.now (D.query covered trace)).2 := by
  cases errand with
  | query _ _ _ _ far nodup first open' hops written =>
      have nonempty : trace ≠ [] := fun empty => by rw [empty] at first; cases first
      obtain ⟨before, z, rfl⟩ := (List.eq_nil_or_concat' trace).resolve_left nonempty
      have chain := query_chain nodup first open' hops
      obtain ⟨e', acts, writes, ready', knows, parked, incoming⟩ := answered covered ready first
      rw [writes] at fits
      obtain ⟨bytes, packet, random, written', sent, posted⟩ := forward_near ready' chain.near.symm fits
      rw [acts, sent]
      have leads : ∀ good : Task n → Fin n → Prop, good (.answer before [D.target]) z →
          D.Leads D.target bound ((Task.query covered (before ++ [z])).Late ∨ D.target = D.target ∧
            D.Knows { e' with random }) good packet := fun good holds =>
        posted_leads chain.near.symm posted
          (.answer before [D.target] z bytes far chain (List.cons_ne_nil _ _) written')
          (answer_lighter chain _ _) bounded (fun _ => Or.inr ⟨rfl, knows⟩) holds
      refine ⟨ready'.random random, fun same => absurd same.symm D.different, fun _ => knows, Fin.pos D.target, ?_,
        fun none => (parked _).trans none, fun same => absurd same.symm D.different, fun _ => Or.inl ?_, False.elim, ?_⟩
      · exact fun p only => List.mem_singleton.mp only ▸ leads _ trivial
      · exact ⟨packet, List.mem_singleton_self _, leads _ trivial⟩
      · exact fun some => incoming ▸ some

theorem hopeful_border (reachable : M.graph.Reachable v D.target) (outside : ¬ M.Near v D.target) (other : v ≠ D.target)
    (closest : ∀ x ∈ covered ++ trace, M.graph.Reachable x D.target ∧ M.graph.dist v D.target ≤ M.graph.dist x D.target) :
    ∃ w, M.Near v w ∧ M.graph.dist v w = M.reach ∧ w ∉ covered ++ (trace ++ [v]) ∧
      ∀ b : List (Fin n), (∀ x ∈ b, M.Near v x ∧ M.graph.dist v x = M.reach) →
        D.Hopeful (.query (covered ++ b) (trace ++ [v])) w := by
  have far : M.reach < M.graph.dist v D.target := by
    by_contra within
    exact outside ⟨other, reachable, Nat.le_of_not_lt within⟩
  obtain ⟨w, near, border, onward, split⟩ := exists_border reachable far
  have positive : 0 < M.reach := Nat.succ_pos _
  have fresh : w ∉ covered ++ (trace ++ [v]) := by
    intro member
    rw [← List.append_assoc, List.mem_append, List.mem_singleton] at member
    rcases member with seen | here
    · have bound := (closest w seen).2
      omega
    · exact near.other here.symm
  refine ⟨w, near, border, fresh, fun b outer => ⟨fun member => fresh (List.mem_append_right _ member), onward, ?_⟩⟩
  intro x member
  rw [List.append_assoc, List.mem_append, List.mem_append, ← or_assoc, or_right_comm, ← List.mem_append, ← List.append_assoc,
    List.mem_append, List.mem_singleton] at member
  rcases member with (seen | here) | fresh'
  · obtain ⟨back, bound⟩ := closest x seen
    exact ⟨back, by omega⟩
  · rw [here]
    exact ⟨reachable, by omega⟩
  · obtain ⟨near', border'⟩ := outer x fresh'
    have triangle := near'.reachable.dist_triangle_left D.target
    exact ⟨near'.reachable.symm.trans reachable, by omega⟩

theorem query_spreads (covered trace targets : List (Fin n)) (ready : M.Ready v e) (near : ∀ w ∈ targets, M.Near v w)
    (far : ¬ M.Near D.source D.target) (nodup : (trace ++ [v]).Nodup) (first : (trace ++ [v]).head? = some D.source)
    (open' : D.target ∉ trace ++ [v]) (hops : (trace ++ [v]).IsChain M.Near)
    (bounded : (Task.query covered trace).weight * (n + 2) ≤ bound) {covered' : List (Fin n)}
    (written : Wire.encode (.discovery (D.query covered' (trace ++ [v]))) = .ok bytes)
    (fits : ∀ d ∈ e.sendEachWrites M.suite M.now bytes (M.names targets), Wire.Fits d) :
    ∃ packets random, e.sendEach M.suite M.now bytes (M.names targets) = (packets, { e with random }) ∧
      packets.length = targets.length ∧
      (∀ packet ∈ packets, ∃ w ∈ targets, ∀ known good, good (.query covered' (trace ++ [v])) w →
        D.Leads v bound known good packet) ∧
      ∀ w ∈ targets, ∃ packet ∈ packets, ∀ known good, good (.query covered' (trace ++ [v])) w →
        D.Leads v bound known good packet := by
  obtain ⟨packets, random, sent, each⟩ := send_each_near targets ready near fits
  have leads : ∀ w packet, w ∈ targets → M.Posted v w bytes packet → ∀ known good,
      good (.query covered' (trace ++ [v])) w → D.Leads v bound known good packet := by
    intro w packet member posted known good holds
    refine posted_leads (near w member) posted (.query covered' (trace ++ [v]) w bytes far nodup first open' ?_ written)
      (query_lighter nodup covered') bounded False.elim holds
    refine hops.append (List.isChain_singleton w) fun x last y here => ?_
    rw [List.getLast?_concat] at last
    cases last
    cases here
    exact near w member
  refine ⟨packets, random, sent, each.length_eq.symm, fun packet member => ?_, fun w member => ?_⟩
  · obtain ⟨i, inside, rfl⟩ := List.getElem_of_mem member
    have inside' : i < targets.length := each.length_eq ▸ inside
    exact ⟨targets[i], List.getElem_mem inside', leads _ _ (List.getElem_mem inside') (each.get inside' inside)⟩
  · obtain ⟨i, inside, rfl⟩ := List.getElem_of_mem member
    have inside' : i < packets.length := each.length_eq ▸ inside
    exact ⟨packets[i], List.getElem_mem inside', leads _ _ member (each.get inside inside')⟩

theorem discovery_beyond {d extended : Discovery} (new : ¬ (¬ Route.LoopFree d.route ∨ e.id ∈ d.route))
    (other : d.destination ≠ e.id) (longer : { d with route := d.route ++ [e.id] } = extended)
    (found : e.table.lookup d.destination M.now = (none, e.table)) :
    e.handleDiscovery M.suite M.now d = e.spread M.suite M.now extended ∧
      e.handleDiscoveryWrites M.suite M.now d = e.spreadWrites M.suite M.now extended := by
  subst longer
  constructor
  · unfold Engine.handleDiscovery
    rw [if_neg new, if_neg other]
    dsimp only
    rw [found]
  · unfold Engine.handleDiscoveryWrites
    rw [if_neg new, if_neg other]
    dsimp only
    rw [found]

theorem discovery_inside {d extended : Discovery} (new : ¬ (¬ Route.LoopFree d.route ∨ e.id ∈ d.route))
    (other : d.destination ≠ e.id) (longer : { d with route := d.route ++ [e.id] } = extended) {route : Route}
    (found : e.table.lookup d.destination M.now = (some route, e.table)) :
    (∀ packet e', e.forward M.suite M.now d.destination (.discovery extended) = (.ok packet, e') →
        e.handleDiscovery M.suite M.now d = ([packet], e')) ∧
      ∀ d' ∈ e.forwardWrites M.suite M.now d.destination (.discovery extended),
        d' ∈ e.handleDiscoveryWrites M.suite M.now d := by
  subst longer
  constructor
  · intro packet e' sent
    unfold Engine.handleDiscovery
    rw [if_neg new, if_neg other]
    dsimp only
    rw [found]
    dsimp only
    rw [sent]
  · intro d' inside
    unfold Engine.handleDiscoveryWrites
    rw [if_neg new, if_neg other]
    dsimp only
    rw [found]
    exact List.mem_append_left _ inside

theorem spread_reaction (ready : M.Ready v e) (cached : v = D.source → D.Cached e)
    (outside : ¬ M.Near v D.target) (other : v ≠ D.target) (far : ¬ M.Near D.source D.target)
    (nodup : (trace ++ [v]).Nodup) (first : (trace ++ [v]).head? = some D.source) (open' : D.target ∉ trace ++ [v])
    (hops : (trace ++ [v]).IsChain M.Near) (bounded : (Task.query covered trace).weight * (n + 2) ≤ bound)
    (fits : ∀ d ∈ e.spreadWrites M.suite M.now (D.query covered (trace ++ [v])), Wire.Fits d) :
    D.Reaction (.query covered trace) v bound v e (e.spread M.suite M.now (D.query covered (trace ++ [v]))).1
      (e.spread M.suite M.now (D.query covered (trace ++ [v]))).2 := by
  have short : ¬ (D.query covered (trace ++ [v])).route.length > e.settings.maxRouteLength := by
    have bound := length_le_of_nodup nodup
    have long := M.long
    rw [query, length_names, ready.settings]
    omega
  have excluded : (D.query covered (trace ++ [v])).covered ++ (D.query covered (trace ++ [v])).route =
      M.names (covered ++ (trace ++ [v])) := (names_append _ _).symm
  obtain ⟨b, border, distinct, members⟩ := ready.charted.border (M.names (covered ++ (trace ++ [v])))
  have asked : e.borderNodes M.now ((D.query covered (trace ++ [v])).covered ++ (D.query covered (trace ++ [v])).route) =
      (M.names b, e) := by
    rw [excluded, Engine.borderNodes, border]
  have outer : ∀ w ∈ b, M.Near v w ∧ M.graph.dist v w = M.reach :=
    fun w member => ⟨((members w).mp member).1, ((members w).mp member).2.1⟩
  have lively : D.Hopeful (.query covered trace) v → ∃ w ∈ b, D.Hopeful (.query (covered ++ b) (trace ++ [v])) w := by
    rintro ⟨_, reachable, closest⟩
    obtain ⟨w, near, full, fresh, hopeful⟩ := hopeful_border reachable outside other closest
    exact ⟨w, (members w).mpr ⟨near, full, fun seen => fresh (mem_names.mp seen)⟩, hopeful b outer⟩
  unfold Engine.spreadWrites at fits
  rw [if_neg short, asked] at fits
  unfold Engine.spread
  rw [if_neg short, asked]
  cases b with
  | nil => exact reaction_nothing ready cached (fun hope => (lively hope).elim fun w found => absurd found.1 List.not_mem_nil) id
  | cons x b =>
      have named : M.names (x :: b) = M.name x :: M.names b := rfl
      have extended : { D.query covered (trace ++ [v]) with
          covered := (D.query covered (trace ++ [v])).covered ++ M.name x :: M.names b } =
          D.query (covered ++ x :: b) (trace ++ [v]) := by
        have covers : (D.query covered (trace ++ [v])).covered ++ M.names (x :: b) = M.names (covered ++ x :: b) :=
          (names_append _ _).symm
        rw [← named, covers]
        rfl
      rw [named] at fits ⊢
      dsimp only at fits ⊢
      rw [extended] at fits ⊢
      obtain ⟨bytes, written⟩ := Wire.encode_fits (fits _ List.mem_cons_self)
      rw [written] at fits
      rw [written]
      obtain ⟨packets, random, sent, length, onward, serves⟩ := query_spreads covered trace (x :: b) ready (fun w member => (outer w member).1)
        far nodup first open' hops bounded written fun d inside => fits d (List.mem_cons_of_mem _ inside)
      have sent' : e.sendEach M.suite M.now bytes (M.name x :: M.names b) = (packets, { e with random }) := sent
      dsimp only
      rw [sent']
      refine reaction_random ready cached random (length ▸ length_le_of_nodup distinct) (fun packet member => ?_)
        (fun hope => ?_) False.elim
      · obtain ⟨w, _, leads⟩ := onward packet member
        exact leads _ _ trivial
      · obtain ⟨w, member, hopeful⟩ := lively hope
        obtain ⟨packet, inside, leads⟩ := serves w member
        exact ⟨packet, inside, leads _ _ hopeful⟩

theorem approach_reaction (ready : M.Ready v e) (cached : v = D.source → D.Cached e) (close : M.Near v D.target)
    (far : ¬ M.Near D.source D.target) (nodup : (trace ++ [v]).Nodup) (first : (trace ++ [v]).head? = some D.source)
    (open' : D.target ∉ trace ++ [v]) (hops : (trace ++ [v]).IsChain M.Near)
    (bounded : (Task.query covered trace).weight * (n + 2) ≤ bound)
    (fits : ∀ d ∈ e.forwardWrites M.suite M.now (M.name D.target) (.discovery (D.query covered (trace ++ [v]))), Wire.Fits d) :
    ∃ packet random, e.forward M.suite M.now (M.name D.target) (.discovery (D.query covered (trace ++ [v]))) =
        (.ok packet, { e with random }) ∧
      D.Reaction (.query covered trace) v bound v e [packet] { e with random } := by
  obtain ⟨bytes, packet, random, written, sent, posted⟩ := forward_near ready close fits
  have whole : ((trace ++ [v]) ++ [D.target]).IsChain M.Near := by
    refine hops.append (List.isChain_singleton _) fun x last y here => ?_
    rw [List.getLast?_concat] at last
    cases last
    cases here
    exact close
  have leads : ∀ good : Task n → Fin n → Prop, good (.query covered (trace ++ [v])) D.target →
      D.Leads v bound (Task.query covered trace).Late good packet := fun good holds =>
    posted_leads close posted (.query covered (trace ++ [v]) D.target bytes far nodup first open' whole written)
      (query_lighter nodup covered) bounded False.elim holds
  refine ⟨packet, random, sent, reaction_random ready cached random (Fin.pos v)
    (fun p only => List.mem_singleton.mp only ▸ leads _ trivial) (fun hope => ⟨packet, List.mem_singleton_self _, leads _ ?_⟩)
    False.elim⟩
  obtain ⟨_, reachable, closest⟩ := hope
  refine ⟨open', SimpleGraph.Reachable.refl _, fun x member => ?_⟩
  rw [SimpleGraph.dist_self]
  rw [← List.append_assoc, List.mem_append, List.mem_singleton] at member
  rcases member with seen | here
  · exact ⟨(closest x seen).1, Nat.zero_le _⟩
  · exact ⟨here ▸ reachable, Nat.zero_le _⟩

theorem query_arrives (ready : M.Ready v e) (cached : v = D.source → D.Cached e)
    (errand : D.Errand (.query covered trace) v content) (layers : Nat)
    (bounded : (Task.query covered trace).weight * (n + 2) ≤ bound)
    (fits : ∀ d ∈ e.receiveWithinWrites M.suite M.now (layers + 1) content, Wire.Fits d) :
    D.Reaction (.query covered trace) v bound v e (e.receiveWithin M.suite M.now (layers + 1) content).1
      (e.receiveWithin M.suite M.now (layers + 1) content).2 := by
  have search := errand
  cases search with
  | query _ _ _ _ far nodup first open' hops written =>
      have nonempty : trace ≠ [] := fun empty => by rw [empty] at first; cases first
      obtain ⟨received, writes⟩ := Engine.receive_handle M.suite M.now (e := e) layers written
        (query_checked nonempty) rfl
      have handled : e.receiveWithin M.suite M.now (layers + 1) content =
        e.handleDiscovery M.suite M.now (D.query covered trace) := received
      have writes' : e.receiveWithinWrites M.suite M.now (layers + 1) content =
        e.handleDiscoveryWrites M.suite M.now (D.query covered trace) := writes
      have loopFree : Route.LoopFree (D.query covered trace).route := names_nodup.mpr nodup
      have own : e.id ∈ (D.query covered trace).route ↔ v ∈ trace := by rw [ready.id]; exact mem_names
      have destination : (D.query covered trace).destination = e.id ↔ v = D.target := by
        rw [ready.id]
        exact ⟨fun same => (name_injective same).symm, fun same => congrArg M.name same.symm⟩
      rw [handled]
      rw [writes'] at fits
      by_cases passed : v ∈ trace
      · have dropped : e.handleDiscovery M.suite M.now (D.query covered trace) = ([], e) :=
          if_pos (Or.inr (own.mpr passed))
        rw [dropped]
        exact reaction_nothing ready cached (fun hope => hope.1 passed) id
      · have new : ¬ (¬ Route.LoopFree (D.query covered trace).route ∨ e.id ∈ (D.query covered trace).route) :=
          fun either => either.elim (fun loop => loop loopFree) fun again => passed (own.mp again)
        by_cases home : v = D.target
        · unfold Engine.handleDiscoveryWrites at fits
          unfold Engine.handleDiscovery
          rw [if_neg new, if_pos (destination.mpr home)] at fits ⊢
          subst home
          exact answer_reaction ready errand bounded fits
        · have extended : { D.query covered trace with route := (D.query covered trace).route ++ [e.id] } =
              D.query covered (trace ++ [v]) := by rw [ready.id]; exact extended_query covered trace v
          have fresh : (trace ++ [v]).Nodup := List.nodup_append.mpr ⟨nodup, List.nodup_singleton v,
            fun a member b here same => passed (List.mem_singleton.mp here ▸ same ▸ member)⟩
          have first' : (trace ++ [v]).head? = some D.source := by rw [List.head?_append_of_ne_nil _ nonempty, first]
          have outside : D.target ∉ trace ++ [v] := fun member =>
            (List.mem_append.mp member).elim open' fun here => home (List.mem_singleton.mp here).symm
          have other : (D.query covered trace).destination ≠ e.id := fun same => home (destination.mp same)
          by_cases close : M.Near v D.target
          · obtain ⟨next, rest, _, found⟩ := ready.lookup_near close
            obtain ⟨passing, passing'⟩ := discovery_inside (M := M) new other extended found
            obtain ⟨packet, random, sent, reaction⟩ := approach_reaction ready cached close far fresh first' outside hops
              bounded fun d inside => fits d (passing' d inside)
            rw [passing packet _ sent]
            exact reaction
          · have unknown : ∀ w, M.Near v w → M.name w ≠ M.name D.target :=
              fun w near same => close (name_injective same ▸ near)
            obtain ⟨passing, passing'⟩ := discovery_beyond (M := M) new other extended (ready.lookup_far unknown)
            rw [passing'] at fits
            rw [passing]
            exact spread_reaction ready cached close home far fresh first' outside hops bounded fits

end ZoneRouting.StaticMesh.Dispatch
