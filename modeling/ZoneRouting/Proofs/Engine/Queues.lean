import ZoneRouting.Proofs.Engine.Layers

set_option autoImplicit false

namespace ZoneRouting.Engine

def queued (outgoing : List Packet) (incoming : List Bytes) (e : Engine) : Engine := { e with outgoing, incoming }

-- Nothing that a device does depends on what waits. So what it does with other queues is what it does with its own, and only
-- `send` and the delivery of a payload change what waits.

variable (S : Suite) (now : UInt64) (outgoing : List Packet) (incoming : List Bytes)

theorem id_queued (e : Engine) : (e.queued outgoing incoming).id = e.id := rfl

theorem wrap_along_queued (payload : Bytes) (route : Route) (key : PublicKey) (e : Engine) :
    (e.queued outgoing incoming).wrapAlong S payload route key =
      ((e.wrapAlong S payload route key).1, (e.wrapAlong S payload route key).2.queued outgoing incoming) := by
  rw [wrapAlong, wrapAlong]
  dsimp only [queued]
  rcases Message.wrap S e.random payload route key e.identity.keys with ⟨fault | m, g⟩
  · rfl
  · dsimp only
    cases Wire.encode (.message m) <;> rfl

theorem send_direct_queued (target : Identifier) (payload : Bytes) (e : Engine) :
    (e.queued outgoing incoming).sendDirect S now target payload =
      ((e.sendDirect S now target payload).1, (e.sendDirect S now target payload).2.queued outgoing incoming) := by
  rw [sendDirect, sendDirect]
  dsimp only [queued]
  rcases e.table.lookup target now with ⟨_ | route, table⟩
  · rfl
  · dsimp only
    cases e.keyring.find? target with
    | none => rfl
    | some key =>
        dsimp only
        have wrapped := wrap_along_queued S outgoing incoming payload route key { e with table }
        dsimp only [queued] at wrapped
        rw [wrapped]
        match route with
        | _ :: next :: _ =>
            dsimp only
            rcases wrapAlong S payload _ key { e with table } with ⟨fault | bytes, e₁⟩ <;> rfl
        | [_] | [] => rfl

theorem send_each_queued (payload : Bytes) (targets : List Identifier) (e : Engine) :
    (e.queued outgoing incoming).sendEach S now payload targets =
      ((e.sendEach S now payload targets).1, (e.sendEach S now payload targets).2.queued outgoing incoming) := by
  induction targets generalizing e with
  | nil => rfl
  | cons target targets ih =>
      rw [sendEach, sendEach, send_direct_queued]
      rcases e.sendDirect S now target payload with ⟨fault | packet, e₁⟩
      · exact ih e₁
      · dsimp only
        rw [ih e₁]

theorem send_inter_zone_queued (target : Identifier) (payload : Bytes) (e : Engine) :
    (e.queued outgoing incoming).sendInterZone S now target payload =
      ((e.sendInterZone S now target payload).1, (e.sendInterZone S now target payload).2.queued outgoing incoming) := by
  rw [sendInterZone, sendInterZone]
  dsimp only [queued]
  rcases e.cache.lookup target now with ⟨_ | route, cache⟩
  · rfl
  · dsimp only
    cases e.keyring.find? target with
    | none => rfl
    | some key =>
        have wrapped := wrap_along_queued S outgoing incoming payload route key { e with cache }
        dsimp only [queued] at wrapped
        dsimp only
        rw [wrapped]
        match route with
        | _ :: border :: _ =>
            dsimp only
            rcases wrapAlong S payload _ key { e with cache } with ⟨fault | inner, e₁⟩
            · rfl
            · exact send_direct_queued S now outgoing incoming border inner e₁
        | [_] | [] => rfl

theorem border_nodes_queued (excluded : List Identifier) (e : Engine) :
    (e.queued outgoing incoming).borderNodes now excluded =
      ((e.borderNodes now excluded).1, (e.borderNodes now excluded).2.queued outgoing incoming) := rfl

theorem discover_queued (target : Identifier) (e : Engine) :
    (e.queued outgoing incoming).discover S now target =
      ((e.discover S now target).1, (e.discover S now target).2.queued outgoing incoming) := by
  rw [discover, discover, id_queued, border_nodes_queued]
  rcases e.borderNodes now [e.id] with ⟨border, e₁⟩
  have key : (e₁.queued outgoing incoming).publicKey = e₁.publicKey := rfl
  have own : (e₁.queued outgoing incoming).id = e₁.id := rfl
  dsimp only
  rw [key, own]
  cases Wire.encode (.discovery
      { origin := e₁.publicKey, destination := target, sent := now, route := [e₁.id], covered := e₁.id :: border }) with
  | error fault => rfl
  | ok bytes =>
      dsimp only
      rw [send_each_queued]
      rcases e₁.sendEach S now bytes border with ⟨_ | ⟨packet, packets⟩, e₂⟩ <;> rfl

theorem route_queued (target : Identifier) (payload : Bytes) (e : Engine) :
    (e.queued outgoing incoming).route S now target payload =
      ((e.route S now target payload).1, (e.route S now target payload).2.queued outgoing incoming) := by
  rw [route, route, send_direct_queued]
  rcases e.sendDirect S now target payload with ⟨fault | packet, e₁⟩
  · dsimp only
    rw [send_inter_zone_queued]
    rcases e₁.sendInterZone S now target payload with ⟨fault | packet, e₂⟩
    · have parked : (e₂.queued outgoing incoming).park target payload = (e₂.park target payload).queued outgoing incoming := rfl
      have searching : ((e₂.park target payload).queued outgoing incoming).searching now target =
          (e₂.park target payload).searching now target := rfl
      dsimp only
      rw [parked, searching, discover_queued]
      split
      · rfl
      · rcases (e₂.park target payload).discover S now target with ⟨fault | packets, e₃⟩ <;> rfl
    · rfl
  · rfl

theorem route_all_queued (target : Identifier) (payloads : List Bytes) (e : Engine) :
    (e.queued outgoing incoming).routeAll S now target payloads =
      ((e.routeAll S now target payloads).1, (e.routeAll S now target payloads).2.queued outgoing incoming) := by
  induction payloads generalizing e with
  | nil => rfl
  | cons payload payloads ih =>
      rw [routeAll, routeAll, route_queued]
      rcases e.route S now target payload with ⟨fault | ⟨outcome, packets⟩, e₁⟩
      · exact ih e₁
      · dsimp only
        rw [ih e₁]

theorem forward_queued (target : Identifier) (d : Datagram) (e : Engine) :
    (e.queued outgoing incoming).forward S now target d =
      ((e.forward S now target d).1, (e.forward S now target d).2.queued outgoing incoming) := by
  rw [forward, forward]
  cases Wire.encode d with
  | error fault => rfl
  | ok bytes => exact send_direct_queued S now outgoing incoming target bytes e

theorem sent_queued (result : Except Fault Packet × Engine) :
    sent (result.1, result.2.queued outgoing incoming) = ((sent result).1, (sent result).2.queued outgoing incoming) := by
  rcases result with ⟨fault | packet, e⟩ <;> rfl

theorem spread_queued (d : Discovery) (e : Engine) :
    (e.queued outgoing incoming).spread S now d =
      ((e.spread S now d).1, (e.spread S now d).2.queued outgoing incoming) := by
  rw [spread, spread, border_nodes_queued]
  by_cases long : d.route.length > e.settings.maxRouteLength
  · rw [if_pos long]
    exact if_pos long
  · rw [if_neg long]
    refine (if_neg long).trans ?_
    rcases e.borderNodes now (d.covered ++ d.route) with ⟨_ | ⟨target, targets⟩, e₁⟩
    · rfl
    · dsimp only
      cases Wire.encode (.discovery { d with covered := d.covered ++ target :: targets }) with
      | error fault => rfl
      | ok bytes => exact send_each_queued S now outgoing incoming bytes (target :: targets) e₁

theorem answer_queued (d : Discovery) (e : Engine) :
    (e.queued outgoing incoming).answer S now d =
      ((e.answer S now d).1, (e.answer S now d).2.queued outgoing incoming) := by
  rw [answer, answer]
  dsimp only [queued]
  split
  · rename_i requester previous _ _
    cases e.keyring.record requester d.origin with
    | error fault => rfl
    | ok keyring =>
        have passed := forward_queued S now outgoing incoming previous
          (.acknowledgement { route := d.route ++ [e.id], targetKey := e.publicKey })
          { e with keyring, cache := (e.cache.learn requester (d.route ++ [e.id]).reverse now).2 }
        exact (congrArg sent passed).trans (sent_queued outgoing incoming _)
  · rfl

theorem handle_discovery_queued (d : Discovery) (e : Engine) :
    (e.queued outgoing incoming).handleDiscovery S now d =
      ((e.handleDiscovery S now d).1, (e.handleDiscovery S now d).2.queued outgoing incoming) := by
  rw [handleDiscovery, handleDiscovery, id_queued]
  split
  · rfl
  · split
    · exact answer_queued S now outgoing incoming d e
    · dsimp only [queued]
      rcases e.table.lookup d.destination now with ⟨_ | route, table⟩
      · exact spread_queued S now outgoing incoming { d with route := d.route ++ [e.id] } { e with table }
      · have passed := forward_queued S now outgoing incoming d.destination
          (.discovery { d with route := d.route ++ [e.id] }) { e with table }
        dsimp only [queued] at passed
        dsimp only
        rw [passed]
        rcases forward S now d.destination (.discovery { d with route := d.route ++ [e.id] }) { e with table } with
          ⟨fault | packet, e₁⟩
        · exact spread_queued S now outgoing incoming { d with route := d.route ++ [e.id] } e₁
        · rfl

theorem accept_queued (a : Acknowledgement) (target : Identifier) (e : Engine) :
    (e.queued outgoing incoming).accept S now a target =
      ((e.accept S now a target).1, (e.accept S now a target).2.queued outgoing incoming) := by
  rw [accept, accept]
  dsimp only [queued]
  cases a.targetKey.validate S with
  | error fault => rfl
  | ok key =>
      dsimp only
      cases e.keyring.record target key with
      | error fault => rfl
      | ok keyring =>
          exact route_all_queued S now outgoing incoming target (e.parkedFor target) { e with
            keyring
            cache := (e.cache.learn target a.route now).2
            pending := e.pending.erase target
            parked := e.parked.erase target }

theorem handle_acknowledgement_queued (a : Acknowledgement) (e : Engine) :
    (e.queued outgoing incoming).handleAcknowledgement S now a =
      ((e.handleAcknowledgement S now a).1, (e.handleAcknowledgement S now a).2.queued outgoing incoming) := by
  rw [handleAcknowledgement, handleAcknowledgement, id_queued]
  split
  · rfl
  · split
    · cases a.target? with
      | none => rfl
      | some target => exact accept_queued S now outgoing incoming a target e
    · cases Route.before? e.id a.route with
      | none => rfl
      | some previous =>
          have passed := forward_queued S now outgoing incoming previous (.acknowledgement a) e
          exact (congrArg sent passed).trans (sent_queued outgoing incoming _)

theorem relay_queued (m : Message) (next : Identifier) (e : Engine) :
    (e.queued outgoing incoming).relay S now m next =
      ((e.relay S now m next).1, (e.relay S now m next).2.queued outgoing incoming) := by
  rw [relay, relay]
  dsimp only [queued]
  rcases e.table.lookup next now with ⟨_ | route, table⟩
  · rfl
  · dsimp only
    cases e.keyring.find? next with
    | none => rfl
    | some key =>
        cases Wire.encode (.message m) with
        | error fault => rfl
        | ok bytes =>
            have wrapped := wrap_along_queued S outgoing incoming bytes route key { e with table }
            dsimp only [queued] at wrapped
            dsimp only
            rw [wrapped]
            rcases route with _ | ⟨own, _ | ⟨first, _ | ⟨second, route⟩⟩⟩
            · rfl
            · rfl
            · rfl
            · dsimp only
              rcases wrapAlong S bytes _ key { e with table } with ⟨fault | outer, e₁⟩ <;> rfl

theorem handle_message_queued (m : Message) (e : Engine) :
    (e.queued outgoing incoming).handleMessage S now m =
      ((e.handleMessage S now m).1, (e.handleMessage S now m).2.queued outgoing incoming) := by
  rw [handleMessage, handleMessage, id_queued]
  split
  · cases Route.after? e.id m.route with
    | none => rfl
    | some next => exact relay_queued S now outgoing incoming m next e
  · rfl

theorem handle_advertisement_queued (a : Advertisement) (e : Engine) :
    (e.queued outgoing incoming).handleAdvertisement now a =
      ((e.handleAdvertisement now a).1, (e.handleAdvertisement now a).2.queued outgoing incoming) := by
  rw [handleAdvertisement, handleAdvertisement, id_queued]
  split
  · rfl
  · dsimp only [queued]
    cases e.keyring.record a.origin a.key with
    | error fault => rfl
    | ok keyring =>
        dsimp only
        split
        · rfl
        · cases Wire.encode (.advertisement { a with route := a.route ++ [e.id] }) <;> rfl

theorem handle_queued (d : Datagram) (e : Engine) :
    (e.queued outgoing incoming).handle S now d = ((e.handle S now d).1, (e.handle S now d).2.queued outgoing incoming) := by
  cases d with
  | advertisement a => exact handle_advertisement_queued now outgoing incoming a e
  | discovery d => exact handle_discovery_queued S now outgoing incoming d e
  | acknowledgement a => exact handle_acknowledgement_queued S now outgoing incoming a e
  | failure _ => rfl
  | message m => exact handle_message_queued S now outgoing incoming m e

theorem innermost_queued (layers : Nat) (bytes : Bytes) (e : Engine) :
    (e.queued outgoing incoming).innermost? S layers bytes = e.innermost? S layers bytes := by
  induction layers generalizing bytes with
  | zero => rfl
  | succ layers ih =>
      have same : ∀ d, (e.queued outgoing incoming).unwrap? S d = e.unwrap? S d := fun _ => rfl
      simp only [innermost?, same, ih]

theorem handle_outgoing (d : Datagram) (e : Engine) : (e.handle S now d).2.outgoing = e.outgoing :=
  congrArg (fun reply => reply.2.outgoing) (handle_queued S now e.outgoing e.incoming d e)

theorem route_outgoing (target : Identifier) (payload : Bytes) (e : Engine) :
    (e.route S now target payload).2.outgoing = e.outgoing :=
  congrArg (fun reply => reply.2.outgoing) (route_queued S now e.outgoing e.incoming target payload e)

theorem receive_outgoing (bytes : Bytes) (e : Engine) : (e.receive S now bytes).2.outgoing = e.outgoing := by
  rw [receive_content]
  rcases e.content? S bytes with _ | payload | d
  · rfl
  · rfl
  · exact handle_outgoing S now d e

theorem receive_queued (bytes : Bytes) (e : Engine) :
    (e.queued outgoing incoming).receive S now bytes =
      ((e.receive S now bytes).1,
        (e.receive S now bytes).2.queued outgoing
          (incoming ++ (e.receive S now bytes).2.incoming.drop e.incoming.length)) := by
  have same : (e.queued outgoing incoming).content? S bytes = e.content? S bytes := innermost_queued S outgoing incoming _ bytes e
  rw [receive_content, receive_content, same]
  rcases e.content? S bytes with _ | payload | d
  · dsimp only
    rw [List.drop_length, List.append_nil]
  · dsimp only
    rw [List.drop_left]
    rfl
  · dsimp only
    rw [handle_queued, handle_incoming, List.drop_length, List.append_nil]

theorem send_queued (target : Identifier) (payload : Bytes) (e : Engine) :
    (e.queued outgoing incoming).send S now target payload =
      ((e.send S now target payload).1,
        (e.send S now target payload).2.queued
          (outgoing ++ (e.send S now target payload).2.outgoing.drop e.outgoing.length) incoming) := by
  have still := route_outgoing S now target payload e
  rw [send, send]
  cases Kind.ofBytes? payload with
  | some kind =>
      dsimp only
      rw [List.drop_length, List.append_nil]
  | none =>
      dsimp only
      rw [route_queued]
      rcases routed : e.route S now target payload with ⟨fault | ⟨outcome, packets⟩, e₁⟩ <;> rw [routed] at still
      · dsimp only at still ⊢
        rw [still, List.drop_length, List.append_nil]
      · dsimp only at still ⊢
        rw [still, List.drop_left]
        rfl

theorem send_incoming (target : Identifier) (payload : Bytes) (e : Engine) :
    (e.send S now target payload).2.incoming = e.incoming :=
  congrArg (fun reply => reply.2.incoming) (send_queued S now e.outgoing e.incoming target payload e)

end ZoneRouting.Engine
