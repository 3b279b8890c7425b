import ZoneRouting.Proofs.StaticMesh.Search

set_option autoImplicit false

namespace ZoneRouting.StaticMesh.Dispatch

variable {n : Nat} {M : StaticMesh n} {D : M.Dispatch} {task : Task n} {u v w z : Fin n} {bound : Nat} {e : Engine}
variable {covered trace before after c : List (Fin n)} {content bytes : Bytes}

theorem before_append {id previous : Identifier} (front rest : Route) (fresh : id ∉ front) (other : id ≠ previous) :
    Route.before? id (front ++ previous :: id :: rest) = some previous := by
  induction front with
  | nil => rw [List.nil_append, Route.before?, if_pos rfl]
  | cons a front ih =>
      rw [List.mem_cons, not_or] at fresh
      cases front with
      | nil =>
          change (if previous = id then some a else Route.before? id (previous :: id :: rest)) = some previous
          rw [if_neg (Ne.symm other), Route.before?, if_pos rfl]
      | cons b front =>
          have passed : ¬ b = id := fun same => fresh.2 (List.mem_cons.mpr (Or.inl same.symm))
          change (if b = id then some a else Route.before? id (b :: front ++ previous :: id :: rest)) = some previous
          rw [if_neg passed]
          exact ih fresh.2

theorem answer_walks (ready : M.Ready v e) (chain : D.Chain (before ++ z :: v :: after)) (far : ¬ M.Near D.source D.target)
    (cached : v = D.source → D.Cached e)
    (bounded : (Task.answer (before ++ [z]) after).weight * (n + 2) ≤ bound)
    (fits : ∀ d ∈ e.handleAcknowledgementWrites M.suite M.now (D.answer (before ++ z :: v :: after)), Wire.Fits d) :
    D.Reaction (.answer (before ++ [z]) after) v bound v e
      (e.handleAcknowledgement M.suite M.now (D.answer (before ++ z :: v :: after))).1
      (e.handleAcknowledgement M.suite M.now (D.answer (before ++ z :: v :: after))).2 := by
  have nodup := chain.nodup
  have loopFree : ¬ ¬ Route.LoopFree (D.answer (before ++ z :: v :: after)).route :=
    not_not_intro (names_nodup.mpr nodup)
  rw [List.nodup_append, List.nodup_cons] at nodup
  obtain ⟨_, ⟨behind, _⟩, apart⟩ := nodup
  have away : v ≠ D.source := by
    have whole : before ++ z :: v :: after = (before ++ [z]) ++ v :: after := by simp
    exact Chain.away (whole ▸ chain) (by simp)
  have first : ¬ (D.answer (before ++ z :: v :: after)).route.head? = some e.id := by
    have head : (D.answer (before ++ z :: v :: after)).route.head? = some (M.name D.source) := by
      rw [answer, names, List.head?_map, chain.first]
      rfl
    rw [head, ready.id]
    exact fun same => away (name_injective (Option.some.inj same)).symm
  have back : Route.before? e.id (D.answer (before ++ z :: v :: after)).route = some (M.name z) := by
    have whole : (D.answer (before ++ z :: v :: after)).route =
        M.names before ++ M.name z :: M.name v :: M.names after := names_append before (z :: v :: after)
    rw [whole, ready.id]
    refine before_append _ _ (fun member => ?_) fun same => behind (List.mem_cons.mpr (Or.inl (name_injective same).symm))
    exact apart v (mem_names.mp member) v (by simp) rfl
  unfold Engine.handleAcknowledgementWrites at fits
  rw [if_neg loopFree, if_neg first, back] at fits
  unfold Engine.handleAcknowledgement
  rw [if_neg loopFree, if_neg first, back]
  obtain ⟨bytes, packet, random, written, sent, posted⟩ := forward_near ready chain.near.symm fits
  dsimp only
  rw [sent]
  have lighter : (Task.answer before (v :: after)).weight < (Task.answer (before ++ [z]) after).weight := by
    rw [Task.weight, Task.weight, List.length_append, List.length_singleton]
    omega
  have leads : ∀ good : Task n → Fin n → Prop, good (.answer before (v :: after)) z →
      D.Leads v bound (Task.answer (before ++ [z]) after).Late good packet := fun good holds =>
    posted_leads chain.near.symm posted (.answer before (v :: after) z bytes far chain (List.cons_ne_nil _ _) written)
      lighter bounded (fun _ => trivial) holds
  exact reaction_random ready cached random (Fin.pos v) (fun p only => List.mem_singleton.mp only ▸ leads _ trivial)
    (fun _ => ⟨packet, List.mem_singleton_self _, leads _ trivial⟩) False.elim

theorem cached_lookup (cached : D.Cached e) (known : e.cache.book.hopsTo (M.name D.target) ≠ []) :
    ∃ z rest, D.Chain (D.source :: z :: rest) ∧
      e.cache.lookup (M.name D.target) M.now = (some (M.names (D.source :: z :: rest)), e.cache) := by
  obtain ⟨hops, member⟩ := List.exists_mem_of_ne_nil _ known
  obtain ⟨route, found, inside, _⟩ := RouteBook.fresh_found cached.fresh member
  obtain ⟨c, rfl, chain⟩ := cached.chains route inside
  have looked : e.cache.lookup (M.name D.target) M.now = (some (M.names c), e.cache) := by
    have pair : e.cache.book.lookup (M.name D.target) M.now = (some (M.names c), e.cache.book) :=
      Prod.ext found (RouteBook.fresh_lookup cached.fresh (M.name D.target))
    rw [RouteCache.lookup, pair]
  obtain ⟨z, rest, rfl⟩ := chain.split
  exact ⟨z, rest, chain, looked⟩

theorem parcel_leaves (ready : M.Ready D.source e) (cached : D.Cached e)
    (known : e.cache.book.hopsTo (M.name D.target) ≠ []) (key : e.keyring.find? (M.name D.target) = some (M.key D.target))
    (fits : ∀ d ∈ e.sendInterZoneWrites M.suite M.now (M.name D.target) D.payload, Wire.Fits d) :
    ∃ packet random z rest inner, e.sendInterZone M.suite M.now (M.name D.target) D.payload =
        (.ok packet, { e with random }) ∧ M.Near D.source z ∧ M.Posted D.source z inner packet ∧
      D.Chain (D.source :: z :: rest) ∧ D.Errand (.parcel [D.source] rest) z inner := by
  obtain ⟨z, rest, chain, looked⟩ := cached_lookup cached known
  have near : M.Near D.source z := chain.hops.rel
  have split : M.names (D.source :: z :: rest) = M.name D.source :: M.name z :: M.names rest := rfl
  unfold Engine.sendInterZoneWrites at fits
  rw [looked, key, split] at fits
  dsimp only at fits
  obtain ⟨inner, random, wrapped, letter⟩ := wrap_along_letter ready chain.nodup chain.first chain.last
    fun d inside => fits d (List.mem_append_left _ inside)
  rw [split] at wrapped
  rw [wrapped] at fits
  obtain ⟨packet, random', sent, posted⟩ := send_direct_near (ready.random random) near
    fun d inside => fits d (List.mem_append_right _ inside)
  refine ⟨packet, random', z, rest, inner, ?_, near, posted, chain,
    .parcel [D.source] rest z inner chain (List.cons_ne_nil _ _) letter⟩
  unfold Engine.sendInterZone
  rw [looked, split]
  dsimp only
  rw [key]
  dsimp only
  rw [wrapped]
  exact sent

theorem parcel_routed (ready : M.Ready D.source e) (cached : D.Cached e) (far : ¬ M.Near D.source D.target)
    (known : e.cache.book.hopsTo (M.name D.target) ≠ []) (key : e.keyring.find? (M.name D.target) = some (M.key D.target))
    (fits : ∀ d ∈ e.routeAllWrites M.suite M.now (M.name D.target) [D.payload], Wire.Fits d) :
    ∃ packet random z rest inner, e.routeAll M.suite M.now (M.name D.target) [D.payload] = ([packet], { e with random }) ∧
      M.Near D.source z ∧ M.Posted D.source z inner packet ∧ D.Chain (D.source :: z :: rest) ∧
      D.Errand (.parcel [D.source] rest) z inner := by
  have unknown : ∀ w, M.Near D.source w → M.name w ≠ M.name D.target :=
    fun w near same => far (name_injective same ▸ near)
  have direct := send_direct_far ready D.payload unknown
  unfold Engine.routeAllWrites Engine.routeWrites at fits
  rw [direct] at fits
  obtain ⟨packet, random, z, rest, inner, sent, found⟩ := parcel_leaves ready cached known key
    fun d inside => fits d (List.mem_append_left _ (List.mem_append_right _ (List.mem_append_left _ inside)))
  refine ⟨packet, random, z, rest, inner, ?_, found⟩
  have routed : e.route M.suite M.now (M.name D.target) D.payload = (.ok (.interZone, [packet]), { e with random }) := by
    unfold Engine.route
    rw [direct]
    dsimp only
    rw [sent]
  rw [Engine.routeAll, routed]
  rfl

theorem accepted (ready : M.Ready D.source e) (cached : D.Cached e) (chain : D.Chain c) :
    ∃ e' : Engine, e.accept M.suite M.now (D.answer c) (M.name D.target) =
        e'.routeAll M.suite M.now (M.name D.target) (e.parkedFor (M.name D.target)) ∧
      e.acceptWrites M.suite M.now (D.answer c) (M.name D.target) =
        e'.routeAllWrites M.suite M.now (M.name D.target) (e.parkedFor (M.name D.target)) ∧
      M.Ready D.source e' ∧ D.Cached e' ∧ e'.cache.book.hopsTo (M.name D.target) ≠ [] ∧
      e'.keyring.find? (M.name D.target) = some (M.key D.target) ∧ (D.Knows e → D.Knows e') ∧
      e'.parkedFor (M.name D.target) = [] ∧ e'.incoming = e.incoming := by
  have valid : (D.answer c).targetKey.validate M.suite = .ok (M.key D.target) := if_pos (M.usable.isPoint _)
  obtain ⟨ring, recorded, found⟩ := record_authentic ready.authentic D.target
  have learns : 2 ≤ (D.answer c).route.length ∧ Route.LoopFree (D.answer c).route :=
    ⟨chain.long, names_nodup.mpr chain.nodup⟩
  have learned : (e.cache.learn (M.name D.target) (D.answer c).route M.now).2 = { e.cache with
      book := e.cache.book.store (M.name D.target) (D.answer c).route (deadline M.now e.cache.lifetime) } := by
    rw [RouteCache.learn, if_pos learns]
  refine ⟨{ e with
      keyring := ring, cache := (e.cache.learn (M.name D.target) (D.answer c).route M.now).2
      pending := e.pending.erase (M.name D.target)
      parked := e.parked.erase (M.name D.target) }, ?_, ?_, { ready_record ready found with }, ?_, ?_, ?_, ?_, ?_, rfl⟩
  · unfold Engine.accept
    rw [valid]
    dsimp only
    rw [recorded]
  · unfold Engine.acceptWrites
    rw [valid]
    dsimp only
    rw [recorded]
  · refine ⟨?_, fun route member => ?_⟩
    · dsimp only
      rw [learned]
      exact RouteBook.fresh_store cached.fresh _ _ (le_deadline _ _)
    · dsimp only at member
      rw [learned] at member
      rcases RouteBook.mem_hops_store.mp member with ⟨_, rfl⟩ | old
      · exact ⟨c, rfl, chain⟩
      · exact cached.chains route old
  · dsimp only
    rw [learned]
    exact List.ne_nil_of_mem (RouteBook.mem_hops_store.mpr (Or.inl ⟨rfl, rfl⟩))
  · dsimp only
    rw [found, if_pos rfl]
  · intro knows
    have other : M.name D.source ≠ M.name D.target := fun same => D.different (name_injective same)
    dsimp only [Knows]
    rw [found, if_neg other]
    exact knows
  · have erased := parked_for_erase (M.name D.target) (M.name D.target) e
    rw [if_pos rfl] at erased
    exact erased

theorem answer_accepted (ready : M.Ready D.source e) (cached : D.Cached e) (far : ¬ M.Near D.source D.target)
    (chain : D.Chain (D.source :: after)) (bounded : (Task.answer [] after).weight * (n + 2) ≤ bound)
    (held : e.parkedFor (M.name D.target) = [] ∨ e.parkedFor (M.name D.target) = [D.payload])
    (fits : ∀ d ∈ e.handleAcknowledgementWrites M.suite M.now (D.answer (D.source :: after)), Wire.Fits d) :
    D.Reaction (.answer [] after) D.source bound D.source e
      (e.handleAcknowledgement M.suite M.now (D.answer (D.source :: after))).1
      (e.handleAcknowledgement M.suite M.now (D.answer (D.source :: after))).2 := by
  have loopFree : ¬ ¬ Route.LoopFree (D.answer (D.source :: after)).route :=
    not_not_intro (names_nodup.mpr chain.nodup)
  have first : (D.answer (D.source :: after)).route.head? = some e.id := by
    rw [ready.id]
    rfl
  have last : (D.answer (D.source :: after)).target? = some (M.name D.target) := by
    rw [Acknowledgement.target?, answer, names, List.getLast?_map, chain.last]
    rfl
  obtain ⟨e', acts, writes, ready', cached', route, key, knows, shelf, incoming⟩ := accepted ready cached chain
  unfold Engine.handleAcknowledgementWrites at fits
  rw [if_neg loopFree, if_pos first, last] at fits
  dsimp only at fits
  rw [writes] at fits
  unfold Engine.handleAcknowledgement
  rw [if_neg loopFree, if_pos first, last]
  dsimp only
  rw [acts]
  have delivered : e.incoming ≠ [] → e'.incoming ≠ [] := fun some => incoming ▸ some
  rcases held with none | some
  · rw [none]
    exact ⟨ready', fun _ => cached', knows, Nat.zero_le n, List.forall_mem_nil _, fun _ => shelf,
      fun _ some => absurd (none.symm.trans some) (List.cons_ne_nil _ _).symm, fun _ => Or.inr ⟨rfl, shelf⟩, False.elim,
      delivered⟩
  · rw [some] at fits ⊢
    obtain ⟨packet, random, z, rest, inner, sent, near, posted, chain', errand⟩ :=
      parcel_routed ready' cached' far route key fits
    rw [sent]
    have short := length_le_of_nodup chain'.nodup
    have lighter : (Task.parcel [D.source] rest).weight < (Task.answer [] after).weight := by
      rw [List.length_cons, List.length_cons] at short
      rw [Task.weight, Task.weight, List.length_nil]
      omega
    have leads : ∀ good : Task n → Fin n → Prop, good (.parcel [D.source] rest) z →
        D.Leads D.source bound ((Task.answer [] after).Late ∨ D.source = D.target ∧ D.Knows { e' with random })
          good packet := fun good holds =>
      posted_leads near posted errand lighter bounded (fun _ => Or.inl trivial) holds
    refine ⟨ready'.random random, fun _ => ⟨cached'.fresh, cached'.chains⟩, knows, Fin.pos D.source, ?_, fun _ => shelf,
      fun _ _ => Or.inr ⟨shelf, packet, List.mem_singleton_self _, leads _ trivial⟩, fun _ => Or.inr ⟨rfl, shelf⟩,
      False.elim, delivered⟩
    intro p only
    cases List.mem_singleton.mp only
    exact leads _ trivial

theorem answer_arrives (ready : M.Ready v e) (cached : v = D.source → D.Cached e)
    (held : v = D.source → e.parkedFor (M.name D.target) = [] ∨ e.parkedFor (M.name D.target) = [D.payload])
    (errand : D.Errand (.answer before after) v content) (layers : Nat)
    (bounded : (Task.answer before after).weight * (n + 2) ≤ bound)
    (fits : ∀ d ∈ e.receiveWithinWrites M.suite M.now (layers + 1) content, Wire.Fits d) :
    D.Reaction (.answer before after) v bound v e (e.receiveWithin M.suite M.now (layers + 1) content).1
      (e.receiveWithin M.suite M.now (layers + 1) content).2 := by
  cases errand with
  | answer _ _ _ _ far chain inside written =>
      obtain ⟨received, writes⟩ := Engine.receive_handle M.suite M.now (e := e) layers written
        (answer_checked chain) rfl
      rw [received]
      rw [writes] at fits
      rcases List.eq_nil_or_concat' before with rfl | ⟨before, z, rfl⟩
      · cases chain.head
        exact answer_accepted ready (cached rfl) far chain bounded (held rfl) fits
      · have whole : before ++ [z] ++ v :: after = before ++ z :: v :: after := by simp
        rw [whole] at chain fits ⊢
        exact answer_walks ready chain far cached bounded fits

theorem payload_delivered (ready : M.Ready D.target e) (hopeless : ¬ D.Hopeful task v) (layers : Nat) :
    D.Reaction task v bound D.target e (e.receiveWithin M.suite M.now (layers + 1) D.payload).1
      (e.receiveWithin M.suite M.now (layers + 1) D.payload).2 := by
  have delivered : e.receiveWithin M.suite M.now (layers + 1) D.payload =
      ([], { e with incoming := e.incoming ++ [D.payload] }) := by
    rw [Engine.receiveWithin, D.untagged]
  rw [delivered]
  have some : e.incoming ++ [D.payload] ≠ [] := List.append_ne_nil_of_right_ne_nil _ (List.cons_ne_nil _ _)
  exact ⟨{ ready with }, fun same => absurd same.symm D.different, id, Nat.zero_le n, List.forall_mem_nil _, id,
    fun same => absurd same.symm D.different, fun hope => absurd hope hopeless, fun _ => Or.inr ⟨rfl, some⟩, fun _ => some⟩

theorem parcel_arrives (ready : M.Ready v e) (cached : v = D.source → D.Cached e) (knows : v = D.target → D.Knows e)
    (errand : D.Errand (.parcel before after) v content) (layers : Nat)
    (bounded : (Task.parcel before after).weight * (n + 2) ≤ bound)
    (fits : ∀ d ∈ e.receiveWithinWrites M.suite M.now (layers + 2) content, Wire.Fits d) :
    D.Reaction (.parcel before after) v bound v e (e.receiveWithin M.suite M.now (layers + 2) content).1
      (e.receiveWithin M.suite M.now (layers + 2) content).2 := by
  cases errand with
  | parcel _ _ _ _ chain inside letter =>
      cases after with
      | nil =>
          cases chain.ends
          rw [(letter_opened ready letter (knows rfl) (layers + 1)).1]
          exact payload_delivered ready id layers
      | cons x after =>
          obtain ⟨m, written, received, writes⟩ := letter_passed ready letter (layers + 1)
          rw [writes] at fits
          rw [received]
          have whole : before ++ v :: x :: after = (before ++ [v]) ++ x :: after := by simp
          have errand : D.Errand (.parcel (before ++ [v]) after) x content :=
            .parcel (before ++ [v]) after x content (whole ▸ chain) (by simp) (whole ▸ letter)
          have lighter : (Task.parcel (before ++ [v]) after).weight < (Task.parcel before (x :: after)).weight :=
            Nat.lt_succ_self after.length
          have room := weight_lower lighter bounded
          rcases relay_near ready chain.near written fits with ⟨adj, relayed⟩ | ⟨_, packet, random, relayed, posted⟩
          · have leads : ∀ good : Task n → Fin n → Prop, good (.parcel (before ++ [v]) after) x →
                D.Leads v bound (Task.parcel before (x :: after)).Late good (Packet.single (M.name x) content) := by
              intro good holds
              refine ⟨_, x, (Task.parcel (before ++ [v]) after).weight * (n + 2), ?_, ⟨x, content, adj, rfl, ?_⟩, fun _ => trivial, holds⟩
              · rw [Nat.add_mul] at room
                omega
              · exact .bare _ _ rfl errand rfl (Nat.le_refl _)
            rw [relayed]
            exact reaction_random ready cached e.random (Fin.pos v) (fun p only => List.mem_singleton.mp only ▸ leads _ trivial)
              False.elim fun _ => ⟨_, List.mem_singleton_self _, leads _ trivial⟩
          · have leads : ∀ good : Task n → Fin n → Prop, good (.parcel (before ++ [v]) after) x →
                D.Leads v bound (Task.parcel before (x :: after)).Late good packet := fun good holds =>
              posted_leads chain.near posted errand lighter bounded (fun _ => trivial) holds
            rw [relayed]
            exact reaction_random ready cached random (Fin.pos v) (fun p only => List.mem_singleton.mp only ▸ leads _ trivial)
              False.elim fun _ => ⟨_, List.mem_singleton_self _, leads _ trivial⟩

theorem errand_arrives (ready : M.Ready v e) (cached : v = D.source → D.Cached e)
    (held : v = D.source → e.parkedFor (M.name D.target) = [] ∨ e.parkedFor (M.name D.target) = [D.payload])
    (knows : task.Late → v = D.target → D.Knows e) (errand : D.Errand task v content) (layers : Nat)
    (bounded : task.weight * (n + 2) ≤ bound)
    (fits : ∀ d ∈ e.receiveWithinWrites M.suite M.now (layers + 2) content, Wire.Fits d) :
    D.Reaction task v bound v e (e.receiveWithin M.suite M.now (layers + 2) content).1
      (e.receiveWithin M.suite M.now (layers + 2) content).2 := by
  cases task with
  | query covered trace => exact query_arrives ready cached errand (layers + 1) bounded fits
  | answer before after => exact answer_arrives ready cached held errand (layers + 1) bounded fits
  | parcel before after => exact parcel_arrives ready cached (knows trivial) errand layers bounded fits
  | payload =>
      cases errand
      exact payload_delivered ready id (layers + 1)

theorem flight_reaction {copy : Copy n} (ready : M.Ready copy.receiver e) (cached : copy.receiver = D.source → D.Cached e)
    (held : copy.receiver = D.source →
      e.parkedFor (M.name D.target) = [] ∨ e.parkedFor (M.name D.target) = [D.payload])
    (knows : task.Late → copy.receiver = D.target → D.Knows e) (flight : D.Flight task v bound copy)
    (fits : ∀ d ∈ e.receiveWrites M.suite M.now copy.bytes, Wire.Fits d) :
    D.Reaction task v bound copy.receiver e (e.receive M.suite M.now copy.bytes).1
      (e.receive M.suite M.now copy.bytes).2 := by
  have deep := M.nesting
  obtain ⟨layers, depth⟩ : ∃ layers, M.settings.maxNestingDepth = layers + 2 := ⟨_, (Nat.sub_add_cancel deep).symm⟩
  cases flight with
  | bare before after same errand here bounded =>
      subst here
      have whole : e.receive M.suite M.now copy.bytes =
          e.receiveWithin M.suite M.now (layers + 1 + 2) copy.bytes := by rw [Engine.receive, ready.settings, depth]
      have writes : e.receiveWrites M.suite M.now copy.bytes =
          e.receiveWithinWrites M.suite M.now (layers + 1 + 2) copy.bytes := by
        rw [Engine.receiveWrites, ready.settings, depth]
      rw [writes] at fits
      rw [whole]
      exact errand_arrives ready cached held knows errand (layers + 1) bounded fits
  | carried u content left carried errand bounded =>
      cases left with
      | zero =>
          obtain ⟨home, received, writes⟩ := carried_arrives carried ready
          subst home
          rw [writes, depth] at fits
          rw [received, depth]
          exact errand_arrives ready cached held knows errand layers (by omega) fits
      | succ left =>
          obtain ⟨x, adj, received, carried'⟩ := carried_passes carried ready fits
          have leads : ∀ good : Task n → Fin n → Prop, good task v →
              D.Leads copy.receiver bound task.Late good (Packet.single (M.name x) copy.bytes) := fun good holds =>
            ⟨task, v, task.weight * (n + 2) + (left + 1), by omega,
              ⟨x, copy.bytes, adj, rfl, .carried u content left carried' errand (Nat.le_refl _)⟩, id, holds⟩
          rw [received]
          exact reaction_random ready cached e.random (Fin.pos v)
            (fun p only => List.mem_singleton.mp only ▸ leads _ trivial)
            (fun hope => ⟨_, List.mem_singleton_self _, leads _ hope⟩)
            fun last => ⟨_, List.mem_singleton_self _, leads _ last⟩

end ZoneRouting.StaticMesh.Dispatch
