import ZoneRouting.Proofs.Honest.Sending

set_option autoImplicit false

namespace ZoneRouting

variable {n : Nat} {S : Suite} {who : Fin n → Identity} {u : Fin n} {e : Engine}

theorem learn_honest (honest : Honest S who u e) (a : Advertisement) (now : UInt64) :
    Honest S who u { e with table := (e.table.learn a now).2 } := by
  unfold ZoneTable.learn
  dsimp only
  split
  · rename_i fits
    refine honest_table honest _ rfl (RouteBook.all_store honest.routes _ _ _ ⟨?_, ZoneTable.route_to_last a⟩)
    exact ZoneTable.route_to_head a _ (honest.owner ▸ fits.1)
  · exact honest

theorem remember_honest (honest : Honest S who u e) {d : Identifier} {route : Route} (now : UInt64)
    (joins : Joins (who u).id d route) : Honest S who u { e with cache := (e.cache.learn d route now).2 } := by
  unfold RouteCache.learn
  split
  · exact honest_cache honest _ (RouteBook.all_store honest.discovered _ _ _ joins)
  · exact honest

theorem handle_advertisement_moves (honest : Honest S who u e) (now : UInt64) (a : Advertisement)
    (owned : Owns S who a.origin a.key) (opens : S.Opens) (distinct : Function.Injective fun u => (who u).id) :
    Moves S who u 0 e (e.handleAdvertisement now a).1 (e.handleAdvertisement now a).2 := by
  unfold Engine.handleAdvertisement
  split
  · exact moves_refl honest
  · dsimp only
    have learned := learn_honest honest { a with route := a.route ++ [e.id] } now
    cases recorded : e.keyring.record a.origin a.key with
    | error fault => exact moves_still learned rfl rfl rfl rfl
    | ok keyring =>
        have still : Moves S who u 0 e [] { e with
            table := (e.table.learn { a with route := a.route ++ [e.id] } now).2, keyring } :=
          moves_still (honest_keyring learned recorded owned) rfl rfl rfl rfl
        dsimp only
        split
        · exact still
        · cases written : Wire.encode (.advertisement { a with route := a.route ++ [e.id] }) with
          | error fault => exact still
          | ok bytes =>
              have genuine : Genuine S who bytes none :=
                .advertisement { a with route := a.route ++ [e.id] } bytes owned written
              have sound : Sound S who (Packet.broadcast bytes) := ⟨⟨none, genuine⟩, fun _ => genuine⟩
              exact moves_more (moves_packet opens distinct still sound genuine) fun _ => le_rfl

theorem sent_moves (opens : S.Opens) (distinct : Function.Injective fun u => (who u).id)
    {load : Option (Identifier × Bytes)} {result : Except Fault Packet × Engine} (posts : Posts S who u load e result) :
    Moves S who u (fun k => share k load) e (Engine.sent result).1 (Engine.sent result).2 := by
  obtain ⟨outcome, e'⟩ := result
  cases outcome with
  | ok packet => exact posts_packet opens distinct posts rfl
  | error fault => exact moves_more posts.moves fun _ => Multiset.zero_le _

theorem forward_posts (honest : Honest S who u e) (now : UInt64) (target : Identifier) {d : Datagram}
    {load : Option (Identifier × Bytes)} (genuine : ∀ bytes, Wire.encode d = .ok bytes → Genuine S who bytes load) :
    Posts S who u load e (e.forward S now target d) := by
  unfold Engine.forward
  cases written : Wire.encode d with
  | error fault => exact ⟨moves_refl honest, nofun, nofun⟩
  | ok bytes => exact send_direct_posts honest now (.genuine load (genuine bytes written))

theorem answer_moves (opens : S.Opens) (distinct : Function.Injective fun u => (who u).id) (honest : Honest S who u e)
    (now : UInt64) (d : Discovery) (owned : ∀ requester, d.requester? = some requester → Owns S who requester d.origin) :
    Moves S who u 0 e (e.answer S now d).1 (e.answer S now d).2 := by
  unfold Engine.answer
  cases first : d.requester? with
  | none => exact moves_refl honest
  | some requester =>
      cases last : d.route.getLast? with
      | none => exact moves_refl honest
      | some previous =>
          dsimp only
          cases recorded : e.keyring.record requester d.origin with
          | error fault => exact moves_refl honest
          | ok keyring =>
              have joins : Joins (who u).id requester (d.route ++ [e.id]).reverse := by
                have front : d.route.head? = some requester := first
                refine ⟨?_, ?_⟩
                · rw [List.head?_reverse, List.getLast?_append, ← honest_id honest]
                  rfl
                · rw [List.getLast?_reverse, List.head?_append, front]
                  rfl
              have known := honest_keyring honest recorded (owned requester first)
              have ready := remember_honest known now joins
              have still : Moves S who u 0 e [] { e with
                  keyring, cache := (e.cache.learn requester (d.route ++ [e.id]).reverse now).2 } :=
                moves_still ready rfl rfl rfl rfl
              have own : Owns S who e.id e.publicKey := ⟨u, (honest_id honest).symm, honest.publicKey⟩
              have end' : Acknowledgement.target? { route := d.route ++ [e.id], targetKey := e.publicKey } =
                  some e.id := by
                rw [Acknowledgement.target?, List.getLast?_append]
                rfl
              have posts : Posts S who u none _ _ := forward_posts ready now previous
                (d := .acknowledgement { route := d.route ++ [e.id], targetKey := e.publicKey })
                fun bytes written => .acknowledgement _ e.id bytes end' own written
              exact moves_after still (moves_more (sent_moves opens distinct posts) fun _ => le_rfl)

theorem discovery_genuine {d : Discovery} (owned : ∀ requester, d.requester? = some requester → Owns S who requester d.origin)
    {requester : Identifier} (first : d.requester? = some requester) (more covered : List Identifier) (bytes : Bytes)
    (written : Wire.encode (.discovery { d with route := d.route ++ more, covered }) = .ok bytes) :
    Genuine S who bytes none := by
  have front : Discovery.requester? { d with route := d.route ++ more, covered } = some requester := by
    have head : d.route.head? = some requester := first
    rw [Discovery.requester?, List.head?_append, head]
    rfl
  exact .discovery _ requester bytes front (owned requester first) written

theorem spread_moves (opens : S.Opens) (distinct : Function.Injective fun u => (who u).id) (honest : Honest S who u e)
    (now : UInt64) (d : Discovery)
    (genuine : ∀ covered bytes, Wire.encode (.discovery { d with covered }) = .ok bytes → Genuine S who bytes none) :
    Moves S who u 0 e (e.spread S now d).1 (e.spread S now d).2 := by
  unfold Engine.spread
  split
  · exact moves_refl honest
  · have swept := border_nodes_moves honest now (d.covered ++ d.route)
    cases found : e.borderNodes now (d.covered ++ d.route) with
    | mk targets e₁ =>
        rw [found] at swept
        cases targets with
        | nil => exact swept
        | cons target targets =>
            dsimp only
            cases written : Wire.encode (.discovery { d with covered := d.covered ++ target :: targets }) with
            | error fault => exact swept
            | ok bytes =>
                exact moves_after swept
                  (send_each_moves opens distinct now (genuine _ bytes written) (target :: targets) swept.honest)

theorem handle_discovery_moves (opens : S.Opens) (distinct : Function.Injective fun u => (who u).id)
    (honest : Honest S who u e) (now : UInt64) (d : Discovery) {requester : Identifier}
    (first : d.requester? = some requester) (owner : Owns S who requester d.origin) :
    Moves S who u 0 e (e.handleDiscovery S now d).1 (e.handleDiscovery S now d).2 := by
  have owned : ∀ id, d.requester? = some id → Owns S who id d.origin := by
    intro id same
    rw [first] at same
    cases same
    exact owner
  have extended := discovery_genuine owned first [e.id]
  unfold Engine.handleDiscovery
  split
  · exact moves_refl honest
  · split
    · exact answer_moves opens distinct honest now d owned
    · have looked := honest_lookup honest d.destination now
      dsimp only
      cases found : e.table.lookup d.destination now with
      | mk route table =>
          rw [found] at looked
          have still : Moves S who u 0 e [] { e with table } := moves_still looked rfl rfl rfl rfl
          cases route with
          | none => exact moves_after still (spread_moves opens distinct looked now _ extended)
          | some route =>
              have posts : Posts S who u none _ _ := forward_posts looked now d.destination
                (d := .discovery { d with route := d.route ++ [e.id] }) (extended d.covered)
              dsimp only
              cases passed : Engine.forward S now d.destination (.discovery { d with route := d.route ++ [e.id] })
                  { e with table } with
              | mk outcome e₁ =>
                  rw [passed] at posts
                  cases outcome with
                  | ok packet =>
                      exact moves_after still (moves_more (posts_packet opens distinct posts rfl) fun _ => le_rfl)
                  | error fault =>
                      exact moves_after (moves_after still posts.moves)
                        (spread_moves opens distinct posts.moves.honest now _ extended)

theorem held_erase (target k : Identifier) (e : Engine) :
    (if target = k then (e.parkedFor target : Multiset Bytes) else 0) +
      Engine.held k { e with parked := e.parked.erase target } = e.held k := by
  have same : Engine.id { e with parked := e.parked.erase target } = e.id := rfl
  rw [Engine.held, Engine.held, parked_for_erase, same]
  by_cases equal : target = k
  · rw [if_pos equal, if_pos equal.symm, equal, Multiset.coe_nil, zero_add]
  · rw [if_neg equal, if_neg (Ne.symm equal), zero_add]

theorem accept_moves (opens : S.Opens) (distinct : Function.Injective fun u => (who u).id) (honest : Honest S who u e)
    (now : UInt64) (a : Acknowledgement) {target : Identifier} (last : a.target? = some target)
    (first : a.route.head? = some e.id) (owned : Owns S who target a.targetKey) :
    Moves S who u 0 e (e.accept S now a target).1 (e.accept S now a target).2 := by
  unfold Engine.accept PublicKey.validate
  split
  · exact moves_refl honest
  · rename_i key valid
    split at valid
    · cases valid
      cases recorded : e.keyring.record target a.targetKey with
      | error fault => exact moves_refl honest
      | ok keyring =>
          dsimp only
          have joins : Joins (who u).id target a.route := ⟨honest_id honest ▸ first, last⟩
          have known := remember_honest (honest_keyring honest recorded owned) now joins
          obtain ⟨e₁, shelf⟩ : ∃ e₁ : Engine, e₁ = { e with
              keyring, cache := (e.cache.learn target a.route now).2, pending := e.pending.erase target
              parked := e.parked.erase target } := ⟨_, rfl⟩
          have ready : Honest S who u e₁ := by
            subst shelf
            refine { known with parked := fun k payload member => ?_ }
            have kept := parked_for_erase target k e
            change payload ∈ Engine.parkedFor k { e with parked := e.parked.erase target } at member
            rw [kept] at member
            split at member
            · cases member
            · exact honest.parked k payload member
          have flushed := route_all_moves opens distinct now target (e.parkedFor target) ready
            (honest.parked target)
          have room : ∀ k, (if target = k then (e.parkedFor target : Multiset Bytes) else 0) + e₁.held k = e.held k := by
            intro k
            subst shelf
            exact held_erase target k e
          have outgoing : e₁.outgoing = e.outgoing := by rw [shelf]
          rw [← shelf]
          refine ⟨flushed.honest, flushed.sound, fun k => ?_, flushed.outgoing.trans outgoing⟩
          rw [Pi.zero_apply, zero_add, ← room k]
          exact flushed.balance k
    · cases valid

theorem handle_acknowledgement_moves (opens : S.Opens) (distinct : Function.Injective fun u => (who u).id)
    (honest : Honest S who u e) (now : UInt64) (a : Acknowledgement) {target : Identifier}
    (last : a.target? = some target) (owned : Owns S who target a.targetKey) :
    Moves S who u 0 e (e.handleAcknowledgement S now a).1 (e.handleAcknowledgement S now a).2 := by
  unfold Engine.handleAcknowledgement
  split
  · exact moves_refl honest
  · split
    · rename_i first
      rw [last]
      exact accept_moves opens distinct honest now a last first owned
    · split
      · rename_i previous _
        have posts : Posts S who u none _ _ := forward_posts honest now previous (d := .acknowledgement a)
          fun bytes written => .acknowledgement a target bytes last owned written
        exact moves_more (sent_moves opens distinct posts) fun _ => le_rfl
      · exact moves_refl honest

theorem relay_moves (opens : S.Opens) (distinct : Function.Injective fun u => (who u).id) (honest : Honest S who u e)
    (now : UInt64) (m : Message) (next : Identifier) {load : Option (Identifier × Bytes)}
    (genuine : ∀ bytes, Wire.encode (.message m) = .ok bytes → Genuine S who bytes load) :
    Moves S who u (fun k => share k load) e (e.relay S now m next).1 (e.relay S now m next).2 := by
  have looked := honest_lookup honest next now
  unfold Engine.relay
  cases found : e.table.lookup next now with
  | mk answer table =>
      rw [found] at looked
      have still : Moves S who u 0 e [] { e with table } := moves_still looked rfl rfl rfl rfl
      have quiet : Moves S who u (fun k => share k load) e [] { e with table } :=
        moves_more still fun _ => Multiset.zero_le _
      cases answer with
      | none => exact quiet
      | some route =>
          have joins : Joins (who u).id next route := by
            have hit : (e.table.book.lookup next now).1 = some route := by
              rw [← ZoneTable.lookup_route, found]
            obtain ⟨⟨r, member, same, _⟩, _⟩ := RouteBook.lookup_some hit
            exact same ▸ honest.routes next r member
          dsimp only
          cases known : e.keyring.find? next with
          | none => exact quiet
          | some key =>
              cases written : Wire.encode (.message m) with
              | error fault => exact quiet
              | ok bytes =>
                  have carried := genuine bytes written
                  dsimp only
                  split
                  · exact moves_packet opens distinct still (sound_single carried) carried
                  · rename_i own first rest _
                    have seals := wrap_along_seals looked (.genuine load carried) joins (honest.keys next key known)
                    cases wrapped : Engine.wrapAlong S bytes (own :: first :: rest) key { e with table } with
                    | mk outcome e₁ =>
                        rw [wrapped] at seals
                        cases outcome with
                        | error fault => exact moves_more (moves_after still seals.moves) fun _ => Multiset.zero_le _
                        | ok outer =>
                            exact moves_packet opens distinct (moves_after still seals.moves)
                              (sound_single (seals.genuine outer rfl)) (seals.genuine outer rfl)
                  · exact quiet

theorem handle_message_moves (opens : S.Opens) (distinct : Function.Injective fun u => (who u).id)
    (honest : Honest S who u e) (now : UInt64) (m : Message) {load : Option (Identifier × Bytes)}
    (genuine : ∀ bytes, Wire.encode (.message m) = .ok bytes → Genuine S who bytes load) :
    Moves S who u (fun k => share k load) e (e.handleMessage S now m).1 (e.handleMessage S now m).2 := by
  unfold Engine.handleMessage
  split
  · split
    · exact relay_moves opens distinct honest now m _ genuine
    · exact moves_refl honest
  · exact moves_refl honest

theorem handle_moves (opens : S.Opens) (distinct : Function.Injective fun u => (who u).id) (honest : Honest S who u e)
    (now : UInt64) {d : Datagram} {bytes : Bytes} (written : Wire.encode d = .ok bytes)
    {load : Option (Identifier × Bytes)} (genuine : Genuine S who bytes load) :
    Moves S who u (fun k => share k load) e (e.handle S now d).1 (e.handle S now d).2 := by
  cases d with
  | message m =>
      refine handle_message_moves opens distinct honest now m fun bytes' written' => ?_
      cases written.symm.trans written'
      exact genuine
  | failure f => exact moves_refl honest
  | advertisement a =>
      refine moves_more (handle_advertisement_moves honest now a ?_ opens distinct) fun _ => Multiset.zero_le _
      cases genuine with
      | advertisement a' _ owned written' =>
          cases Wire.encode_injective written written'
          exact owned
      | discovery _ _ _ _ _ written' | acknowledgement _ _ _ _ _ written' =>
          cases Wire.encode_injective written written'
      | payload _ _ _ _ _ made | nested _ _ _ _ _ _ made =>
          cases (sealed_kind made).symm.trans (Wire.kind_encode written)
  | discovery q =>
      cases genuine with
      | discovery q' requester _ first owned written' =>
          cases Wire.encode_injective written written'
          exact handle_discovery_moves opens distinct honest now q first owned
      | advertisement _ _ _ written' | acknowledgement _ _ _ _ _ written' =>
          cases Wire.encode_injective written written'
      | payload _ _ _ _ _ made | nested _ _ _ _ _ _ made =>
          cases (sealed_kind made).symm.trans (Wire.kind_encode written)
  | acknowledgement a =>
      cases genuine with
      | acknowledgement a' target _ last owned written' =>
          cases Wire.encode_injective written written'
          exact handle_acknowledgement_moves opens distinct honest now a last owned
      | advertisement _ _ _ written' | discovery _ _ _ _ _ written' =>
          cases Wire.encode_injective written written'
      | payload _ _ _ _ _ made | nested _ _ _ _ _ _ made =>
          cases (sealed_kind made).symm.trans (Wire.kind_encode written)

theorem deliver_moves (honest : Honest S who u e) (payload : Bytes) :
    Moves S who u (fun k => share k (some ((who u).id, payload))) e [] { e with incoming := e.incoming ++ [payload] } := by
  refine ⟨{ honest with }, nofun, fun k => ?_, rfl⟩
  have kept : Engine.parkedFor k { e with incoming := e.incoming ++ [payload] } = e.parkedFor k := rfl
  have own : Engine.id { e with incoming := e.incoming ++ [payload] } = e.id := rfl
  rw [freight_nil, zero_add, Engine.held, Engine.held, kept, own, honest_id honest, share]
  by_cases same : (who u).id = k
  · rw [if_pos same, if_pos same, if_pos same, ← Multiset.coe_add, Multiset.coe_singleton, ← add_assoc, add_comm]
  · rw [if_neg same, if_neg same, if_neg same, zero_add]

theorem unwrap_sealed (opens : S.Opens) (distinct : Function.Injective fun u => (who u).id) (honest : Honest S who u e)
    {m : Message} {bytes content payload : Bytes} (written : Wire.encode (.message m) = .ok bytes)
    (opened : e.unwrap? S (.message m) = some content) {v w : Fin n} (made : Sealed S who v w payload bytes) :
    w = u ∧ payload = content := by
  obtain ⟨sender, recipient, open'⟩ := sealed_message opens made written
  unfold Engine.unwrap? at opened
  dsimp only at opened
  split at opened
  · rename_i own
    have home : w = u := by
      apply distinct
      have same := own.2.symm.trans recipient
      rw [honest_id honest] at same
      exact (Option.some.inj same).symm
    subst home
    rw [sender] at opened
    cases known : e.keyring.find? (who v).id with
    | none =>
        simp only [Option.bind_eq_bind, Option.bind_some, known, Option.bind_none, reduceCtorEq] at opened
    | some key =>
        obtain ⟨x, named, authentic⟩ := honest.keys _ _ known
        cases distinct named
        simp only [Option.bind_eq_bind, Option.bind_some, known, authentic, honest.identity, open',
          Except.toOption, Option.some.injEq] at opened
        exact ⟨rfl, opened⟩
  · cases opened

theorem unwrap_worth (opens : S.Opens) (distinct : Function.Injective fun u => (who u).id) (honest : Honest S who u e)
    {d : Datagram} {bytes content : Bytes} (written : Wire.encode d = .ok bytes) (opened : e.unwrap? S d = some content)
    {load : Option (Identifier × Bytes)} (genuine : Genuine S who bytes load) :
    Worth S who (who u).id content load := by
  cases d with
  | advertisement | discovery | acknowledgement | failure => cases opened
  | message m =>
      cases genuine with
      | advertisement _ _ _ written' | discovery _ _ _ _ _ written' | acknowledgement _ _ _ _ _ written' =>
          cases Wire.encode_injective written written'
      | payload v w payload _ untagged made =>
          obtain ⟨rfl, rfl⟩ := unwrap_sealed opens distinct honest written opened made
          exact .payload untagged
      | nested v w payload _ load inner made =>
          obtain ⟨_, rfl⟩ := unwrap_sealed opens distinct honest written opened made
          exact .genuine load inner

theorem receive_within_moves (opens : S.Opens) (distinct : Function.Injective fun u => (who u).id) (now : UInt64)
    {load : Option (Identifier × Bytes)} (layers : Nat) {bytes : Bytes} (honest : Honest S who u e)
    (worth : Worth S who (who u).id bytes load) :
    Moves S who u (fun k => share k load) e (e.receiveWithin S now layers bytes).1
      (e.receiveWithin S now layers bytes).2 := by
  induction layers generalizing bytes with
  | zero => exact moves_refl honest
  | succ layers ih =>
      rw [Engine.receiveWithin]
      cases tagged : Kind.ofBytes? bytes with
      | none =>
          cases worth with
          | payload untagged => exact deliver_moves honest bytes
          | genuine load genuine =>
              obtain ⟨kind, found⟩ := genuine_tagged genuine
              cases tagged.symm.trans found
      | some kind =>
          dsimp only
          cases read : Wire.decode bytes with
          | error fault => exact moves_refl honest
          | ok d =>
              obtain ⟨_, written⟩ := Wire.encode_of_decode read
              cases worth with
              | payload untagged => cases tagged.symm.trans untagged
              | genuine load genuine =>
                  dsimp only
                  cases opened : e.unwrap? S d with
                  | some content => exact ih (unwrap_worth opens distinct honest written opened genuine)
                  | none => exact handle_moves opens distinct honest now written genuine

theorem receive_moves (opens : S.Opens) (distinct : Function.Injective fun u => (who u).id) (honest : Honest S who u e)
    (now : UInt64) {bytes : Bytes} {load : Option (Identifier × Bytes)} (genuine : Genuine S who bytes load) :
    Moves S who u (fun k => share k load) e (e.receive S now bytes).1 (e.receive S now bytes).2 :=
  receive_within_moves opens distinct now _ honest (.genuine load genuine)

end ZoneRouting
