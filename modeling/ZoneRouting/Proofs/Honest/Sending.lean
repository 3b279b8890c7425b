import ZoneRouting.Proofs.Honest.Moves

set_option autoImplicit false

namespace ZoneRouting

variable {n : Nat} (S : Suite) (who : Fin n → Identity)

-- What may be sealed for a device: the payload of an application, or octets that are genuine.
inductive Worth (target : Identifier) (payload : Bytes) : Option (Identifier × Bytes) → Prop
  | payload (untagged : Kind.ofBytes? payload = none) : Worth target payload (some (target, payload))
  | genuine (load : Option (Identifier × Bytes)) (genuine : Genuine S who payload load) : Worth target payload load

structure Seals (u : Fin n) (load : Option (Identifier × Bytes)) (e : Engine) (result : Except Fault Bytes × Engine) :
    Prop where
  moves : Moves S who u 0 e [] result.2
  genuine : ∀ bytes, result.1 = .ok bytes → Genuine S who bytes load

structure Posts (u : Fin n) (load : Option (Identifier × Bytes)) (e : Engine) (result : Except Fault Packet × Engine) :
    Prop where
  moves : Moves S who u 0 e [] result.2
  single : ∀ packet, result.1 = .ok packet → packet.target ≠ .broadcast
  genuine : ∀ packet, result.1 = .ok packet → Genuine S who packet.payload load

variable {S} {who}
variable {u : Fin n} {e : Engine} {load : Option (Identifier × Bytes)}

theorem posts_packet (opens : S.Opens) (distinct : Function.Injective fun u => (who u).id)
    {result : Except Fault Packet × Engine} (posts : Posts S who u load e result) {packet : Packet}
    (sent : result.1 = .ok packet) : Moves S who u (fun target => share target load) e [packet] result.2 :=
  moves_packet opens distinct posts.moves
    ⟨⟨load, posts.genuine packet sent⟩, fun all => absurd all (posts.single packet sent)⟩ (posts.genuine packet sent)

theorem sealed_genuine {target : Identifier} {payload bytes : Bytes} {v : Fin n} (named : (who v).id = target)
    (worth : Worth S who target payload load) (made : Sealed S who u v payload bytes) : Genuine S who bytes load := by
  cases worth with
  | payload untagged => exact named ▸ .payload u v payload bytes untagged made
  | genuine load genuine => exact .nested u v payload bytes load genuine made

theorem wrap_along_seals (honest : Honest S who u e) {target : Identifier} {payload : Bytes}
    (worth : Worth S who target payload load) {route : Route} (joins : Joins (who u).id target route) {key : PublicKey}
    (owned : Owns S who target key) : Seals S who u load e (e.wrapAlong S payload route key) := by
  obtain ⟨v, named, rfl⟩ := owned
  unfold Engine.wrapAlong
  cases sealing : Message.wrap S e.random payload route ((who v).publicKey S) e.identity.keys with
  | mk outcome random =>
      have still : Moves S who u 0 e [] { e with random } := moves_still (honest_random honest random) rfl rfl rfl rfl
      cases outcome with
      | error fault => exact ⟨still, nofun⟩
      | ok m =>
          dsimp only
          cases written : Wire.encode (.message m) with
          | error fault => exact ⟨still, nofun⟩
          | ok bytes =>
              refine ⟨still, fun found same => ?_⟩
              cases same
              rw [honest.identity] at sealing
              exact sealed_genuine named worth
                ⟨e.random, random, m, route, sealing, joins.1, named ▸ joins.2, written⟩

theorem send_direct_posts (honest : Honest S who u e) (now : UInt64) {target : Identifier} {payload : Bytes}
    (worth : Worth S who target payload load) : Posts S who u load e (e.sendDirect S now target payload) := by
  have looked := honest_lookup honest target now
  unfold Engine.sendDirect
  cases found : e.table.lookup target now with
  | mk answer table =>
      rw [found] at looked
      have still : Moves S who u 0 e [] { e with table } := moves_still looked rfl rfl rfl rfl
      cases answer with
      | none => exact ⟨still, nofun, nofun⟩
      | some route =>
          dsimp only
          have joins : Joins (who u).id target route := by
            have hit : (e.table.book.lookup target now).1 = some route := by
              rw [← ZoneTable.lookup_route, found]
            obtain ⟨⟨r, member, same, _⟩, _⟩ := RouteBook.lookup_some hit
            exact same ▸ honest.routes target r member
          cases known : e.keyring.find? target with
          | none => exact ⟨still, nofun, nofun⟩
          | some key =>
              dsimp only
              split
              · rename_i own next rest
                have seals := wrap_along_seals looked worth joins (honest.keys target key known)
                cases wrapped : Engine.wrapAlong S payload (own :: next :: rest) key { e with table } with
                | mk outcome e₁ =>
                    rw [wrapped] at seals
                    have moves : Moves S who u 0 e [] e₁ := moves_after still seals.moves
                    cases outcome with
                    | error fault => exact ⟨moves, nofun, nofun⟩
                    | ok bytes =>
                        refine ⟨moves, ?_, ?_⟩
                        · rintro packet ⟨⟩
                          exact nofun
                        · rintro packet ⟨⟩
                          exact seals.genuine bytes rfl
              · exact ⟨still, nofun, nofun⟩

-- A query goes to several devices at once, which is harmless since it carries nothing.
theorem send_each_moves (opens : S.Opens) (distinct : Function.Injective fun u => (who u).id) (now : UInt64)
    {payload : Bytes} (genuine : Genuine S who payload none) (targets : List Identifier) (honest : Honest S who u e) :
    Moves S who u 0 e (e.sendEach S now payload targets).1 (e.sendEach S now payload targets).2 := by
  induction targets generalizing e with
  | nil => exact moves_refl honest
  | cons target targets ih =>
      have worth : Worth S who target payload none := .genuine none genuine
      have posts := send_direct_posts honest now worth
      rw [Engine.sendEach]
      cases sent : e.sendDirect S now target payload with
      | mk outcome e₁ =>
          rw [sent] at posts
          have rest := ih posts.moves.honest
          cases outcome with
          | error fault => exact moves_after posts.moves rest
          | ok packet =>
              have first := posts_packet opens distinct posts rfl
              exact moves_then first rest

theorem send_inter_zone_posts (honest : Honest S who u e) (now : UInt64) {target : Identifier} {payload : Bytes}
    (worth : Worth S who target payload load) : Posts S who u load e (e.sendInterZone S now target payload) := by
  have looked := honest_cached honest target now
  unfold Engine.sendInterZone
  cases found : e.cache.lookup target now with
  | mk answer cache =>
      rw [found] at looked
      have still : Moves S who u 0 e [] { e with cache } := moves_still looked rfl rfl rfl rfl
      cases answer with
      | none => exact ⟨still, nofun, nofun⟩
      | some route =>
          dsimp only
          have joins : Joins (who u).id target route := by
            have hit : (e.cache.book.lookup target now).1 = some route := congrArg Prod.fst found
            obtain ⟨⟨r, member, same, _⟩, _⟩ := RouteBook.lookup_some hit
            exact same ▸ honest.discovered target r member
          cases known : e.keyring.find? target with
          | none => exact ⟨still, nofun, nofun⟩
          | some key =>
              dsimp only
              split
              · rename_i own border rest
                have seals := wrap_along_seals looked worth joins (honest.keys target key known)
                cases wrapped : Engine.wrapAlong S payload (own :: border :: rest) key { e with cache } with
                | mk outcome e₁ =>
                    rw [wrapped] at seals
                    have moves : Moves S who u 0 e [] e₁ := moves_after still seals.moves
                    cases outcome with
                    | error fault => exact ⟨moves, nofun, nofun⟩
                    | ok inner =>
                        have worth : Worth S who border inner load := .genuine load (seals.genuine inner rfl)
                        have posts := send_direct_posts seals.moves.honest now worth
                        exact ⟨moves_after moves posts.moves, posts.single, posts.genuine⟩
              · exact ⟨still, nofun, nofun⟩

theorem border_nodes_moves (honest : Honest S who u e) (now : UInt64) (excluded : List Identifier) :
    Moves S who u 0 e [] (e.borderNodes now excluded).2 :=
  moves_still (honest_table honest _ rfl (ZoneTable.all_sweep _ excluded now _ honest.routes)) rfl rfl rfl rfl

theorem discover_moves (opens : S.Opens) (distinct : Function.Injective fun u => (who u).id) (honest : Honest S who u e)
    (now : UInt64) (target : Identifier) :
    Moves S who u 0 e (posted (e.discover S now target).1) (e.discover S now target).2 := by
  have swept := border_nodes_moves honest now [e.id]
  unfold Engine.discover
  cases found : e.borderNodes now [e.id] with
  | mk border e₁ =>
      rw [found] at swept
      dsimp only
      cases written : Wire.encode (.discovery
          { origin := e₁.publicKey, destination := target, sent := now, route := [e₁.id], covered := e₁.id :: border }) with
      | error fault => exact swept
      | ok bytes =>
          have owned : Owns S who e₁.id e₁.publicKey := ⟨u, (honest_id swept.honest).symm, swept.honest.publicKey⟩
          have each := send_each_moves opens distinct now (.discovery _ _ bytes rfl owned written) border swept.honest
          have whole := moves_after swept each
          dsimp only
          cases queries : Engine.sendEach S now bytes border e₁ with
          | mk packets e₂ =>
              rw [queries] at whole
              dsimp only
              by_cases none : packets = []
              · rw [if_pos none]
                subst none
                exact whole
              · rw [if_neg none]
                have marked : Moves S who u 0 e₂ [] { e₂ with pending := e₂.pending.insert target now } :=
                  moves_still { whole.honest with } rfl rfl rfl rfl
                have all := moves_then whole marked
                rw [List.append_nil] at all
                exact all

theorem park_moves (honest : Honest S who u e) (target : Identifier) {payload : Bytes}
    (untagged : Kind.ofBytes? payload = none) :
    Moves S who u (fun k => share k (some (target, payload))) e [] (e.park target payload) := by
  refine ⟨{ honest with parked := ?_ }, nofun, fun k => ?_, rfl⟩
  · intro k p member
    rw [parked_for_park] at member
    by_cases same : k = target
    · rw [if_pos same] at member
      rcases List.mem_append.mp member with old | fresh
      · exact honest.parked target p old
      · exact List.mem_singleton.mp fresh ▸ untagged
    · rw [if_neg same] at member
      exact honest.parked k p member
  · have still : (e.park target payload).incoming = e.incoming ∧ (e.park target payload).id = e.id := ⟨rfl, rfl⟩
    rw [freight_nil, zero_add, Engine.held, Engine.held, parked_for_park, still.1, still.2, share]
    by_cases same : k = target
    · rw [if_pos same, if_pos same.symm, same, ← Multiset.coe_add, Multiset.coe_singleton, ← add_assoc,
        add_comm ({payload} : Multiset Bytes)]
    · rw [if_neg same, if_neg (Ne.symm same), zero_add]

theorem route_moves (opens : S.Opens) (distinct : Function.Injective fun u => (who u).id) (honest : Honest S who u e)
    (now : UInt64) (target : Identifier) {payload : Bytes} (untagged : Kind.ofBytes? payload = none) :
    Moves S who u (fun k => share k (some (target, payload))) e
      (posted ((e.route S now target payload).1.map Prod.snd)) (e.route S now target payload).2 := by
  have worth : Worth S who target payload (some (target, payload)) := .payload untagged
  have posts := send_direct_posts honest now worth
  have routed := Engine.route_routed S now target payload e
  generalize e.route S now target payload = result at routed ⊢
  cases routed with
  | direct packet e₁ direct first =>
      rw [first] at posts
      exact posts_packet opens distinct posts rfl
  | interZone packet e₁ e₂ direct zone first second =>
      rw [first] at posts
      have further := send_inter_zone_posts posts.moves.honest now worth
      rw [second] at further
      exact moves_after posts.moves (posts_packet opens distinct further rfl)
  | joined e₁ e₂ direct zone first second busy =>
      rw [first] at posts
      have further := send_inter_zone_posts posts.moves.honest now worth
      rw [second] at further
      exact moves_after (moves_after posts.moves further.moves) (park_moves further.moves.honest target untagged)
  | searched e₁ e₂ direct zone first second idle found e₃ third =>
      rw [first] at posts
      have further := send_inter_zone_posts posts.moves.honest now worth
      rw [second] at further
      have tried := moves_after (moves_after posts.moves further.moves) (park_moves further.moves.honest target untagged)
      have search := moves_then tried (discover_moves opens distinct tried.honest now target)
      rw [List.nil_append, third] at search
      cases found <;> exact search

theorem route_all_moves (opens : S.Opens) (distinct : Function.Injective fun u => (who u).id) (now : UInt64)
    (target : Identifier) (payloads : List Bytes) (honest : Honest S who u e)
    (untagged : ∀ payload ∈ payloads, Kind.ofBytes? payload = none) :
    Moves S who u (fun k => if target = k then payloads else 0) e (e.routeAll S now target payloads).1
      (e.routeAll S now target payloads).2 := by
  induction payloads generalizing e with
  | nil => exact moves_refl honest
  | cons payload payloads ih =>
      have first := route_moves opens distinct honest now target (untagged payload List.mem_cons_self)
      have share_cons : ∀ k, share k (some (target, payload)) + (if target = k then (payloads : Multiset Bytes) else 0) ≤
          if target = k then ((payload :: payloads : List Bytes) : Multiset Bytes) else 0 := by
        intro k
        rw [share]
        by_cases same : target = k
        · rw [if_pos same, if_pos same, if_pos same, Multiset.singleton_add, Multiset.cons_coe]
        · rw [if_neg same, if_neg same, if_neg same, add_zero]
      rw [Engine.routeAll]
      cases routed : e.route S now target payload with
      | mk outcome e₁ =>
          rw [routed] at first
          have rest := ih first.honest fun p member => untagged p (List.mem_cons_of_mem _ member)
          have whole := moves_more (moves_append first rest) share_cons
          cases outcome with
          | ok pair => exact whole
          | error fault => exact whole

theorem send_moves (opens : S.Opens) (distinct : Function.Injective fun u => (who u).id) (honest : Honest S who u e)
    (now : UInt64) (target : Identifier) (payload : Bytes) :
    ∃ packets, (e.send S now target payload).2.outgoing = e.outgoing ++ packets ∧
      Honest S who u (e.send S now target payload).2 ∧
      ∀ k, freight S who k packets + (e.send S now target payload).2.held k ≤
        share k (some (target, payload)) + e.held k := by
  unfold Engine.send
  cases untagged : Kind.ofBytes? payload with
  | some kind =>
      refine ⟨[], (List.append_nil _).symm, honest, fun k => ?_⟩
      rw [freight_nil, zero_add]
      exact Multiset.le_add_left _ _
  | none =>
      have moves := route_moves opens distinct honest now target untagged
      dsimp only
      cases routed : e.route S now target payload with
      | mk outcome e₁ =>
          rw [routed] at moves
          cases outcome with
          | error fault =>
              exact ⟨[], by rw [List.append_nil]; exact moves.outgoing, moves.honest, moves.balance⟩
          | ok pair =>
              obtain ⟨result, packets⟩ := pair
              refine ⟨packets, congrArg (· ++ packets) moves.outgoing, { moves.honest with outgoing := ?_ }, moves.balance⟩
              intro packet member
              rcases List.mem_append.mp member with old | fresh
              · exact moves.honest.outgoing packet old
              · exact moves.sound packet fresh

end ZoneRouting
