import ZoneRouting.Proofs.StaticMesh.Flood

set_option autoImplicit false

namespace ZoneRouting.StaticMesh

variable {n : Nat} (M : StaticMesh n)

-- A message that one device has sealed for another and that names the devices of a list as its route.
structure Letter (u v : Fin n) (p : List (Fin n)) (content bytes : Bytes) : Prop where
  message : ∃ m, Wire.encode (.message m) = .ok bytes ∧ m.route = M.names p ∧ m.signature.length = 64 ∧
    m.unwrap M.suite (M.who v).keys (M.key u) = .ok content
  nodup : p.Nodup
  first : p.head? = some u
  last : p.getLast? = some v

-- A packet for the first device on a shortest way to another device, with a letter for that device.
def Posted (u v : Fin n) (content : Bytes) (packet : Packet) : Prop :=
  ∃ next rest bytes, M.Shortest u v (u :: next :: rest) ∧ M.Letter u v (u :: next :: rest) content bytes ∧
    packet = Packet.single (M.name next) bytes

variable {M} {u v w x : Fin n} {e : Engine} {p a b : List (Fin n)} {content bytes : Bytes}

theorem Ready.id (ready : M.Ready u e) : e.id = M.name u := congrArg Identity.id ready.identity

theorem Ready.random (ready : M.Ready u e) (random : Random) : M.Ready u { e with random } :=
  { ready with }

theorem Ready.lookup_near (ready : M.Ready u e) (near : M.Near u v) :
    ∃ next rest, M.Shortest u v (u :: next :: rest) ∧
      e.table.lookup (M.name v) M.now = (some (M.name u :: M.name next :: M.names rest), e.table) := by
  obtain ⟨p, shortest, found⟩ := ready.charted.near v near
  have first := shortest.first
  have long := (shortest.long near).1
  match p, long with
  | y :: next :: rest, _ =>
      cases first
      exact ⟨next, rest, shortest, Prod.ext found (ready.charted.settled _)⟩

theorem Ready.lookup_far (ready : M.Ready u e) {d : Identifier} (far : ∀ v, M.Near u v → M.name v ≠ d) :
    e.table.lookup d M.now = (none, e.table) :=
  Prod.ext (ready.charted.far d far) (ready.charted.settled d)

theorem wrap_along_letter (ready : M.Ready u e) (nodup : p.Nodup) (first : p.head? = some u) (last : p.getLast? = some v)
    (fits : ∀ d ∈ e.wrapAlongWrites M.suite content (M.names p) (M.key v), Wire.Fits d) :
    ∃ bytes random, e.wrapAlong M.suite content (M.names p) (M.key v) = (.ok bytes, { e with random }) ∧
      M.Letter u v p content bytes := by
  have shared : ∃ shared, e.identity.keys.sharedKey M.suite (M.key v) = .ok shared :=
    ⟨_, if_neg (M.usable.contributory _ _)⟩
  obtain ⟨shared, agreed⟩ := shared
  obtain ⟨m, g, made⟩ : ∃ m g, Message.wrap M.suite e.random content (M.names p) (M.key v) e.identity.keys = (.ok m, g) := by
    rw [Message.wrap, agreed]
    exact ⟨_, _, rfl⟩
  obtain ⟨_, _, route, _, signature⟩ := wrap_ok made
  have opened := M.usable.opens _ _ _ _ _ _ _ made
  rw [ready.identity] at opened
  have length : m.signature.length = 64 := by rw [signature]; exact M.usable.length_sign _ _
  unfold Engine.wrapAlongWrites at fits
  rw [made] at fits
  obtain ⟨bytes, written⟩ := Wire.encode_fits (fits _ List.mem_cons_self)
  refine ⟨bytes, g, ?_, ⟨m, written, route, length, opened⟩, nodup, first, last⟩
  unfold Engine.wrapAlong
  rw [made]
  dsimp only
  rw [written]

theorem letter_checked (letter : M.Letter u v p content bytes) :
    ∃ m, Wire.encode (.message m) = .ok bytes ∧ Wire.check (.message m) = .ok () ∧ m.route = M.names p ∧
      m.sender? = some (M.name u) ∧ m.recipient? = some (M.name v) ∧
      m.unwrap M.suite (M.who v).keys (M.key u) = .ok content := by
  obtain ⟨m, written, route, signature, opened⟩ := letter.message
  have nonempty : m.route ≠ [] := by
    intro empty
    have none : p = [] := List.map_eq_nil_iff.mp (route.symm.trans empty)
    have first := letter.first
    rw [none] at first
    cases first
  refine ⟨m, written, ?_, route, ?_, ?_, opened⟩
  · have length : ¬ m.signature.length ≠ Wire.signatureLength := not_not_intro signature
    rw [Wire.check, if_neg nonempty, if_neg length, route]
    exact names_valid p
  · rw [Message.sender?, route, names, List.head?_map, letter.first]
    rfl
  · rw [Message.recipient?, route, names, List.getLast?_map, letter.last]
    rfl

theorem letter_opened (ready : M.Ready v e) (letter : M.Letter u v p content bytes)
    (known : e.keyring.find? (M.name u) = some (M.key u)) (layers : Nat) :
    e.receiveWithin M.suite M.now (layers + 1) bytes = e.receiveWithin M.suite M.now layers content ∧
      e.receiveWithinWrites M.suite M.now (layers + 1) bytes = e.receiveWithinWrites M.suite M.now layers content := by
  obtain ⟨m, written, checked, route, sender, recipient, opened⟩ := letter_checked letter
  have loopFree : Route.LoopFree m.route := route ▸ names_nodup.mpr letter.nodup
  refine Engine.receive_unwrap M.suite M.now layers written checked ?_
  rw [Engine.unwrap?, if_pos ⟨loopFree, recipient.trans (congrArg some ready.id.symm)⟩, sender]
  simp only [Option.bind_eq_bind, Option.bind_some, known, ready.identity, opened, Except.toOption]

theorem letter_passed (ready : M.Ready w e) (letter : M.Letter u v (a ++ w :: x :: b) content bytes) (layers : Nat) :
    ∃ m, Wire.encode (.message m) = .ok bytes ∧
      e.receiveWithin M.suite M.now (layers + 1) bytes = e.relay M.suite M.now m (M.name x) ∧
      e.receiveWithinWrites M.suite M.now (layers + 1) bytes = e.relayWrites M.suite M.now m (M.name x) := by
  obtain ⟨m, written, checked, route, sender, recipient, opened⟩ := letter_checked letter
  have loopFree : Route.LoopFree m.route := route ▸ names_nodup.mpr letter.nodup
  have nodup := letter.nodup
  rw [List.nodup_append, List.nodup_cons] at nodup
  obtain ⟨_, ⟨behind, _⟩, apart⟩ := nodup
  have other : M.name v ≠ e.id := by
    rw [ready.id]
    intro same
    have last := letter.last
    rw [List.getLast?_append_of_ne_nil _ (by simp), List.getLast?_cons_cons, name_injective same] at last
    exact behind (List.mem_of_getLast? last)
  have closed : e.unwrap? M.suite (.message m) = none := by
    refine if_neg fun own => other ?_
    exact Option.some.inj (recipient.symm.trans own.2)
  have next : Route.after? e.id m.route = some (M.name x) := by
    rw [route, ready.id, names_append]
    refine Route.after?_append _ _ fun member => apart w (mem_names.mp member) w List.mem_cons_self rfl
  obtain ⟨received, writes⟩ := Engine.receive_handle M.suite M.now (e := e) layers written checked closed
  refine ⟨m, written, ?_, ?_⟩
  · rw [received, Engine.handle, Engine.handleMessage, if_pos loopFree, next]
  · rw [writes, Engine.handleWrites, Engine.handleMessageWrites, if_pos loopFree, next]

theorem send_direct_near (ready : M.Ready u e) (near : M.Near u v)
    (fits : ∀ d ∈ e.sendDirectWrites M.suite M.now (M.name v) content, Wire.Fits d) :
    ∃ packet random, e.sendDirect M.suite M.now (M.name v) content = (.ok packet, { e with random }) ∧
      M.Posted u v content packet := by
  obtain ⟨next, rest, shortest, found⟩ := ready.lookup_near near
  have known := ready.keys v near
  unfold Engine.sendDirectWrites at fits
  rw [found, known] at fits
  obtain ⟨bytes, random, wrapped, letter⟩ :=
    wrap_along_letter ready shortest.nodup shortest.first shortest.last fits
  refine ⟨Packet.single (M.name next) bytes, random, ?_, next, rest, bytes, shortest, letter, rfl⟩
  unfold Engine.sendDirect
  rw [found]
  dsimp only
  rw [known]
  dsimp only
  have wrapped' : e.wrapAlong M.suite content (M.name u :: M.name next :: M.names rest) (M.key v) =
      (.ok bytes, { e with random }) := wrapped
  rw [wrapped']

theorem send_direct_far (ready : M.Ready u e) (content : Bytes) {d : Identifier} (far : ∀ v, M.Near u v → M.name v ≠ d) :
    e.sendDirect M.suite M.now d content = (.error (.unreachable d), e) := by
  unfold Engine.sendDirect
  rw [ready.lookup_far far]

theorem send_each_near (targets : List (Fin n)) (ready : M.Ready u e) (near : ∀ v ∈ targets, M.Near u v)
    (fits : ∀ d ∈ e.sendEachWrites M.suite M.now content (M.names targets), Wire.Fits d) :
    ∃ packets random, e.sendEach M.suite M.now content (M.names targets) = (packets, { e with random }) ∧
      List.Forall₂ (fun v packet => M.Posted u v content packet) targets packets := by
  induction targets generalizing e with
  | nil => exact ⟨[], e.random, rfl, .nil⟩
  | cons v targets ih =>
      have split : e.sendEachWrites M.suite M.now content (M.names (v :: targets)) =
          e.sendDirectWrites M.suite M.now (M.name v) content ++ Engine.sendEachWrites M.suite M.now content
            (M.names targets) (e.sendDirect M.suite M.now (M.name v) content).2 := rfl
      rw [split] at fits
      obtain ⟨packet, random, sent, posted⟩ := send_direct_near ready (near v List.mem_cons_self)
        fun d written => fits d (List.mem_append_left _ written)
      rw [sent] at fits
      obtain ⟨packets, random', sent', posted'⟩ := ih (ready.random random)
        (fun w member => near w (List.mem_cons_of_mem _ member)) fun d written => fits d (List.mem_append_right _ written)
      refine ⟨packet :: packets, random', ?_, .cons posted posted'⟩
      change e.sendEach M.suite M.now content (M.name v :: M.names targets) = _
      rw [Engine.sendEach, sent]
      dsimp only
      rw [sent']

theorem relay_near (ready : M.Ready w e) (near : M.Near w x) {m : Message}
    (written : Wire.encode (.message m) = .ok bytes)
    (fits : ∀ d ∈ e.relayWrites M.suite M.now m (M.name x), Wire.Fits d) :
    (M.graph.Adj w x ∧ e.relay M.suite M.now m (M.name x) = ([Packet.single (M.name x) bytes], e)) ∨
      ¬ M.graph.Adj w x ∧ ∃ packet random, e.relay M.suite M.now m (M.name x) = ([packet], { e with random }) ∧
        M.Posted w x bytes packet := by
  obtain ⟨next, rest, shortest, found⟩ := ready.lookup_near near
  have known := ready.keys x near
  have length := shortest.length
  unfold Engine.relayWrites at fits
  rw [found] at fits
  dsimp only at fits
  rw [known, written] at fits
  unfold Engine.relay
  rw [found]
  dsimp only
  rw [known, written]
  cases rest with
  | nil =>
      have last := shortest.last
      cases last
      exact Or.inl ⟨SimpleGraph.dist_eq_one_iff_adj.mp (by simpa using length.symm), rfl⟩
  | cons y rest =>
      have far : ¬ M.graph.Adj w x := by
        intro adj
        rw [SimpleGraph.dist_eq_one_iff_adj.mpr adj] at length
        simp at length
      obtain ⟨outer, random, wrapped, letter⟩ := wrap_along_letter ready shortest.nodup shortest.first shortest.last
        fun d inside => fits d (List.mem_cons_of_mem _ inside)
      have wrapped' : e.wrapAlong M.suite bytes (M.name w :: M.name next :: M.name y :: M.names rest) (M.key x) =
        (.ok outer, { e with random }) := wrapped
      refine Or.inr ⟨far, Packet.single (M.name next) outer, random, ?_, next, y :: rest, outer, shortest, letter, rfl⟩
      have split : M.names (y :: rest) = M.name y :: M.names rest := rfl
      rw [split]
      dsimp only
      rw [wrapped']

end ZoneRouting.StaticMesh
