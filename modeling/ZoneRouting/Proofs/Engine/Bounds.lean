import ZoneRouting.Proofs.Bounds
import ZoneRouting.Proofs.Engine.Relaying

set_option autoImplicit false

namespace ZoneRouting.Engine

-- The operations of a device as its machine does them: it looks for a place on a route before it takes what is there, works
-- out lengths one less than they are, and counts the messages that it has taken apart.
def startChecked (largest : Nat) (S : Suite) (settings : Settings) (identity : Identity) (random : Random) : Option Engine :=
  (ZoneTable.emptyChecked largest identity.id settings.zoneRadius).map fun table =>
    { Engine.start S settings identity random with table }

def borderNodesChecked (now : UInt64) (excluded : List Identifier) (e : Engine) : Option (List Identifier × Engine) :=
  (e.table.borderNodesChecked excluded now).map fun (nodes, table) => (nodes, { e with table })

def discoverChecked (S : Suite) (now : UInt64) (target : Identifier) (e : Engine) :
    Option (Except Fault (List Packet) × Engine) :=
  (e.borderNodesChecked now [e.id]).map fun (border, e) =>
    let query : Discovery :=
      { origin := e.publicKey, destination := target, sent := now, route := [e.id], covered := e.id :: border }
    match Wire.encode (.discovery query) with
    | .error fault => (.error (.wire fault), e)
    | .ok bytes =>
      let (packets, e) := e.sendEach S now bytes border
      if packets = [] then (.ok [], e) else (.ok packets, { e with pending := e.pending.insert target now })

def routeChecked (S : Suite) (now : UInt64) (target : Identifier) (payload : Bytes) (e : Engine) :
    Option (Except Fault (SendOutcome × List Packet) × Engine) :=
  match e.sendDirect S now target payload with
  | (.ok packet, e) => some (.ok (.direct, [packet]), e)
  | (.error _, e) =>
    match e.sendInterZone S now target payload with
    | (.ok packet, e) => some (.ok (.interZone, [packet]), e)
    | (.error _, e) =>
      let e := e.park target payload
      if e.searching now target then some (.ok (.queued, []), e)
      else
        (e.discoverChecked S now target).map fun
          | (.ok packets, e) => (.ok (.queued, packets), e)
          | (.error fault, e) => (.error fault, e)

def sendChecked (S : Suite) (now : UInt64) (target : Identifier) (payload : Bytes) (e : Engine) :
    Option (Except Fault SendOutcome × Engine) :=
  match Kind.ofBytes? payload with
  | some kind => some (.error (.reservedTag kind), e)
  | none =>
    (e.routeChecked S now target payload).map fun
      | (.ok (outcome, packets), e) => (.ok outcome, { e with outgoing := e.outgoing ++ packets })
      | (.error fault, e) => (.error fault, e)

def routeAllChecked (S : Suite) (now : UInt64) (target : Identifier) : List Bytes → Engine → Option (List Packet × Engine)
  | [], e => some ([], e)
  | payload :: payloads, e =>
    match e.routeChecked S now target payload with
    | none => none
    | some (.ok (_, packets), e) =>
      (routeAllChecked S now target payloads e).map fun (more, e) => (packets ++ more, e)
    | some (.error _, e) => routeAllChecked S now target payloads e

def handleAdvertisementChecked (now : UInt64) (a : Advertisement) (e : Engine) : Option (List Packet × Engine) :=
  if a.origin = e.id ∨ e.id ∈ a.route ∨ a.origin ∈ a.route ∨ ¬ Route.LoopFree a.route then some ([], e)
  else
    let a := { a with route := a.route ++ [e.id] }
    (e.table.learnChecked a now).map fun (_, table) =>
      let e := { e with table }
      match e.keyring.record a.origin a.key with
      | .error _ => ([], e)
      | .ok keyring =>
        let e := { e with keyring }
        if a.route.length > e.settings.zoneRadius then ([], e)
        else
          match Wire.encode (.advertisement a) with
          | .ok bytes => ([Packet.broadcast bytes], e)
          | .error _ => ([], e)

def answerChecked (S : Suite) (now : UInt64) (d : Discovery) (e : Engine) : Option (List Packet × Engine) :=
  match d.requester? with
  | none => some ([], e)
  | some requester =>
    match e.keyring.record requester d.origin with
    | .error _ => some ([], e)
    | .ok keyring => do
      let route := d.route ++ [e.id]
      let place ← minus? route.length 2
      let previous ← route[place]?
      let (_, cache) := e.cache.learn requester route.reverse now
      let e := { e with keyring, cache }
      let _hops ← minus? route.length 1
      some (sent (e.forward S now previous (.acknowledgement { route, targetKey := e.publicKey })))

def spreadChecked (S : Suite) (now : UInt64) (d : Discovery) (e : Engine) : Option (List Packet × Engine) :=
  if d.route.length > e.settings.maxRouteLength then some ([], e)
  else
    (e.borderNodesChecked now (d.covered ++ d.route)).map fun
      | ([], e) => ([], e)
      | (targets, e) =>
        match Wire.encode (.discovery { d with covered := d.covered ++ targets }) with
        | .error _ => ([], e)
        | .ok bytes => e.sendEach S now bytes targets

def handleDiscoveryChecked (S : Suite) (now : UInt64) (d : Discovery) (e : Engine) : Option (List Packet × Engine) :=
  if ¬ Route.LoopFree d.route ∨ e.id ∈ d.route then some ([], e)
  else if d.destination = e.id then e.answerChecked S now d
  else
    let d := { d with route := d.route ++ [e.id] }
    match e.table.lookup d.destination now with
    | (none, table) => { e with table }.spreadChecked S now d
    | (some _, table) =>
      match { e with table }.forward S now d.destination (.discovery d) with
      | (.ok packet, e) => some ([packet], e)
      | (.error _, e) => e.spreadChecked S now d

def acceptChecked (S : Suite) (now : UInt64) (a : Acknowledgement) (target : Identifier) (e : Engine) :
    Option (List Packet × Engine) :=
  match a.targetKey.validate S with
  | .error _ => some ([], e)
  | .ok key =>
    match e.keyring.record target key with
    | .error _ => some ([], e)
    | .ok keyring => do
      let _hops ← minus? a.route.length 1
      let (_, cache) := e.cache.learn target a.route now
      { e with
        keyring, cache
        pending := e.pending.erase target
        parked := e.parked.erase target }.routeAllChecked S now target (e.parkedFor target)

def handleAcknowledgementChecked (S : Suite) (now : UInt64) (a : Acknowledgement) (e : Engine) :
    Option (List Packet × Engine) :=
  if ¬ Route.LoopFree a.route then some ([], e)
  else
    match a.route.idxOf? e.id with
    | none => some ([], e)
    | some place =>
      if 0 < place then do
        let before ← minus? place 1
        let previous ← a.route[before]?
        some (sent (e.forward S now previous (.acknowledgement a)))
      else
        match a.target? with
        | none => some ([], e)
        | some target => e.acceptChecked S now a target

def relayChecked (S : Suite) (now : UInt64) (m : Message) (next : Identifier) (e : Engine) : Option (List Packet × Engine) :=
  match e.table.lookup next now with
  | (none, table) => some ([], { e with table })
  | (some route, table) =>
    let e := { e with table }
    match e.keyring.find? next, Wire.encode (.message m) with
    | some key, .ok bytes =>
      if route.length = 2 then some ([Packet.single next bytes], e)
      else
        route[1]?.map fun first =>
          match e.wrapAlong S bytes route key with
          | (.ok outer, e) => ([Packet.single first outer], e)
          | (.error _, e) => ([], e)
    | _, _ => some ([], e)

def handleMessageChecked (largest : Nat) (S : Suite) (now : UInt64) (m : Message) (e : Engine) : Option (List Packet × Engine) :=
  if ¬ Route.LoopFree m.route then some ([], e)
  else if m.recipient? = some e.id then some ([], e)
  else
    match m.route.idxOf? e.id with
    | none => some ([], e)
    | some place => do
      let after ← plus? largest place 1
      let next ← m.route[after]?
      e.relayChecked S now m next

def handleChecked (largest : Nat) (S : Suite) (now : UInt64) (d : Datagram) (e : Engine) : Option (List Packet × Engine) :=
  match d with
  | .advertisement a => e.handleAdvertisementChecked now a
  | .discovery d => e.handleDiscoveryChecked S now d
  | .acknowledgement a => e.handleAcknowledgementChecked S now a
  | .failure _ => some ([], e)
  | .message m => e.handleMessageChecked largest S now m

def unwrapChecked (S : Suite) (d : Datagram) (e : Engine) : Option (Option Bytes) :=
  match d with
  | .message m =>
    if Route.LoopFree m.route ∧ m.recipient? = some e.id then
      match m.sender? with
      | none => some none
      | some sender =>
        match e.keyring.find? sender with
        | none => some none
        | some key => (m.unwrapChecked S e.identity.keys key).map Except.toOption
    else some none
  | _ => some none

def receiveFrom (largest : Nat) (S : Suite) (now : UInt64) (depth : Nat) (bytes : Bytes) (e : Engine) :
    Option (List Packet × Engine) :=
  if depth > e.settings.maxNestingDepth then some ([], e)
  else
    match Kind.ofBytes? bytes with
    | none => some ([], { e with incoming := e.incoming ++ [bytes] })
    | some _ =>
      (Wire.decodeChecked bytes).bind fun
        | .error _ => some ([], e)
        | .ok d =>
          (e.unwrapChecked S d).bind fun
            | some content =>
              if depth + 1 ≤ largest then receiveFrom largest S now (depth + 1) content e else none
            | none => e.handleChecked largest S now d
termination_by e.settings.maxNestingDepth + 1 - depth

def receiveChecked (largest : Nat) (S : Suite) (now : UInt64) (bytes : Bytes) (e : Engine) : Option (List Packet × Engine) :=
  e.receiveFrom largest S now 0 bytes

def Laid (e : Engine) : Prop := e.table.book.All fun _ route => 1 ≤ route.length

variable {largest : Nat} {S : Suite} {now : UInt64} {e e' : Engine}

theorem Orderly.laid (orderly : e.Orderly) : e.Laid :=
  fun d r member => Nat.le_trans (by decide) (orderly.zone d r member).long

theorem Settles.laid (settles : e.Settles now e') (laid : e.Laid) : e'.Laid := settles.table.book.all laid

theorem Calm.laid (calm : e.Calm now e') (laid : e.Laid) : e'.Laid := calm.table.book.all laid

theorem start_checked {settings : Settings} (small : settings.zoneRadius < largest) (identity : Identity) (random : Random) :
    startChecked largest S settings identity random = some (Engine.start S settings identity random) := by
  rw [startChecked, ZoneTable.empty_checked identity.id small]
  rfl

theorem border_nodes_checked (laid : e.Laid) (now : UInt64) (excluded : List Identifier) :
    e.borderNodesChecked now excluded = some (e.borderNodes now excluded) := by
  rw [borderNodesChecked, ZoneTable.border_nodes_checked laid]
  rfl

theorem discover_checked (laid : e.Laid) (now : UInt64) (target : Identifier) :
    e.discoverChecked S now target = some (e.discover S now target) := by
  rw [discoverChecked, discover, border_nodes_checked laid]
  rcases e.borderNodes now [e.id] with ⟨border, e₁⟩
  cases written : Wire.encode (.discovery
      { origin := e₁.publicKey, destination := target, sent := now, route := [e₁.id], covered := e₁.id :: border }) <;>
    simp only [Option.map_some, written]

theorem route_checked (laid : e.Laid) (now : UInt64) (target : Identifier) (payload : Bytes) :
    e.routeChecked S now target payload = some (e.route S now target payload) := by
  have direct := send_direct_settles S now target payload e
  rw [routeChecked, route]
  rcases first : e.sendDirect S now target payload with ⟨fault | packet, e₁⟩ <;> rw [first] at direct
  · have zone := send_inter_zone_settles S now target payload e₁
    dsimp only
    rcases second : e₁.sendInterZone S now target payload with ⟨fault' | packet, e₂⟩ <;> rw [second] at zone
    · have parked : (e₂.park target payload).Laid := (direct.trans zone).laid laid
      dsimp only
      rw [discover_checked parked]
      split
      · rfl
      · rcases (e₂.park target payload).discover S now target with ⟨fault | packets, e₃⟩ <;> rfl

theorem send_checked (laid : e.Laid) (now : UInt64) (target : Identifier) (payload : Bytes) :
    e.sendChecked S now target payload = some (e.send S now target payload) := by
  rw [sendChecked, send]
  cases Kind.ofBytes? payload with
  | some kind => rfl
  | none =>
      dsimp only
      rw [route_checked laid]
      rcases e.route S now target payload with ⟨fault | ⟨outcome, packets⟩, e₁⟩ <;> rfl

theorem route_all_checked (laid : e.Laid) (now : UInt64) (target : Identifier) (payloads : List Bytes) :
    e.routeAllChecked S now target payloads = some (e.routeAll S now target payloads) := by
  induction payloads generalizing e with
  | nil => rfl
  | cons payload payloads ih =>
      have later : (e.route S now target payload).2.Laid := (route_calm (S := S) now target payload e).laid laid
      rw [routeAllChecked, routeAll, route_checked laid]
      rcases routed : e.route S now target payload with ⟨fault | ⟨outcome, packets⟩, e₁⟩ <;> rw [routed] at later
      · exact ih later
      · dsimp only
        rw [ih later]
        rfl

theorem handle_advertisement_checked (now : UInt64) (a : Advertisement) (e : Engine) :
    e.handleAdvertisementChecked now a = some (e.handleAdvertisement now a) := by
  rw [handleAdvertisementChecked, handleAdvertisement]
  split
  · rfl
  · dsimp only
    rw [ZoneTable.learn_checked]
    rfl

-- Whoever asks is on the route of the search, so that there is a device before this one.
theorem answer_checked (now : UInt64) (d : Discovery) (e : Engine) : e.answerChecked S now d = some (e.answer S now d) := by
  rw [answerChecked, answer]
  cases first : d.requester? with
  | none => rfl
  | some requester =>
      have long : 1 ≤ d.route.length := List.length_pos_of_mem (List.mem_of_head? first)
      have own : (d.route ++ [e.id]).length = d.route.length + 1 := by
        rw [List.length_append, List.length_singleton]
      have place : d.route.length + 1 - 2 = d.route.length - 1 := by omega
      have previous : (d.route ++ [e.id])[d.route.length - 1]? = d.route.getLast? := by
        rw [List.getElem?_append_left (by omega), List.getLast?_eq_getElem?]
      obtain ⟨last, found⟩ : ∃ last, d.route.getLast? = some last :=
        Option.isSome_iff_exists.mp (List.getLast?_isSome.mpr (List.ne_nil_of_length_pos long))
      rw [found]
      dsimp only
      cases e.keyring.record requester d.origin with
      | error fault => rfl
      | ok keyring =>
          dsimp only
          rw [own, minus_checked (by omega), minus_checked (by omega), place]
          simp only [Option.bind_eq_bind, Option.bind_some, previous, found]

theorem spread_checked (laid : e.Laid) (now : UInt64) (d : Discovery) : e.spreadChecked S now d = some (e.spread S now d) := by
  rw [spreadChecked, spread]
  split
  · rfl
  · rw [border_nodes_checked laid]
    rcases e.borderNodes now (d.covered ++ d.route) with ⟨_ | ⟨target, targets⟩, e₁⟩
    · rfl
    · cases written : Wire.encode (.discovery { d with covered := d.covered ++ target :: targets }) <;>
        simp only [Option.map_some, written]

theorem handle_discovery_checked (laid : e.Laid) (now : UInt64) (d : Discovery) :
    e.handleDiscoveryChecked S now d = some (e.handleDiscovery S now d) := by
  rw [handleDiscoveryChecked, handleDiscovery]
  split
  · rfl
  · split
    · exact answer_checked now d e
    · have looked := settles_lookup now e d.destination
      dsimp only
      rcases found : e.table.lookup d.destination now with ⟨_ | route, table⟩ <;> rw [found] at looked
      · exact spread_checked (looked.laid laid) now _
      · have passed := forward_settles S now d.destination (.discovery { d with route := d.route ++ [e.id] }) { e with table }
        dsimp only
        rcases sent : forward S now d.destination (.discovery { d with route := d.route ++ [e.id] }) { e with table } with
          ⟨fault | packet, e₁⟩ <;> rw [sent] at passed
        exact spread_checked ((looked.trans passed).laid laid) now _

theorem accept_checked (laid : e.Laid) (now : UInt64) {a : Acknowledgement} (some : 1 ≤ a.route.length) (target : Identifier) :
    e.acceptChecked S now a target = .some (e.accept S now a target) := by
  rw [acceptChecked, accept]
  cases a.targetKey.validate S with
  | error fault => rfl
  | ok key =>
      dsimp only
      cases e.keyring.record target key with
      | error fault => rfl
      | ok keyring =>
          dsimp only
          rw [minus_checked some]
          exact route_all_checked (e := { e with
            keyring
            cache := (e.cache.learn target a.route now).2
            pending := e.pending.erase target
            parked := e.parked.erase target }) laid now target (e.parkedFor target)

theorem handle_acknowledgement_checked (laid : e.Laid) (now : UInt64) (a : Acknowledgement) :
    e.handleAcknowledgementChecked S now a = some (e.handleAcknowledgement S now a) := by
  rw [handleAcknowledgementChecked, handleAcknowledgement]
  split
  · rfl
  · cases found : a.route.idxOf? e.id with
    | none =>
        have absent : e.id ∉ a.route := List.idxOf?_eq_none_iff.mp found
        have later : a.route.head? ≠ some e.id := fun first => absent (List.mem_of_head? first)
        rw [if_neg later, Route.before_place later, found]
        rfl
    | some place =>
        obtain ⟨inside, _⟩ := List.getElem?_eq_some_iff.mp (Route.place_inside found)
        have first := Route.place_first found
        dsimp only
        by_cases later : 0 < place
        · have other : a.route.head? ≠ some e.id := fun same => Nat.ne_of_gt later (first.mp same)
          have before := List.getElem?_eq_getElem (Nat.lt_of_le_of_lt (Nat.sub_le place 1) inside)
          rw [if_pos later, if_neg other, Route.before_place other, found, minus_checked later]
          simp only [Option.bind_eq_bind, Option.bind_some, before]
        · rw [if_neg later, if_pos (first.mpr (Nat.eq_zero_of_not_pos later))]
          cases a.target? with
          | none => rfl
          | some target => exact accept_checked laid now (Nat.lt_of_le_of_lt (Nat.zero_le place) inside) target

theorem relay_checked (orderly : e.Orderly) (now : UInt64) (m : Message) (next : Identifier) :
    e.relayChecked S now m next = some (e.relay S now m next) := by
  rw [relayChecked, relay]
  rcases found : e.table.lookup next now with ⟨_ | route, table⟩
  · rfl
  · obtain ⟨proper, key, known⟩ := zone_route_known orderly (congrArg Prod.fst found)
    obtain ⟨first, rest, rfl⟩ := proper.hops
    dsimp only
    rw [known]
    cases Wire.encode (.message m) with
    | error fault => rfl
    | ok bytes =>
        dsimp only
        cases rest with
        | nil => rfl
        | cons second rest => rfl

theorem handle_message_checked (orderly : e.Orderly) (now : UInt64) {m : Message} (small : m.route.length ≤ largest) :
    e.handleMessageChecked largest S now m = some (e.handleMessage S now m) := by
  rw [handleMessageChecked, handleMessage]
  by_cases loopFree : Route.LoopFree m.route
  · rw [if_neg (not_not_intro loopFree), if_pos loopFree]
    by_cases last : m.recipient? = some e.id
    · rw [if_pos last, Route.after_last loopFree last]
    · rw [if_neg last, Route.after_place]
      cases found : m.route.idxOf? e.id with
      | none => rfl
      | some place =>
          have here := Route.place_inside found
          obtain ⟨inside, _⟩ := List.getElem?_eq_some_iff.mp here
          have before : place + 1 < m.route.length := by
            refine Nat.lt_of_le_of_ne inside fun final => last ?_
            rw [Message.recipient?, List.getLast?_eq_getElem?, ← final]
            exact here
          have next := List.getElem?_eq_getElem before
          dsimp only
          rw [plus_checked (Nat.le_trans inside small)]
          simp only [Option.bind_eq_bind, Option.bind_some, next]
          exact relay_checked orderly now m _
  · rw [if_pos loopFree, if_neg loopFree]

theorem handle_checked (orderly : e.Orderly) (now : UInt64) {d : Datagram}
    (small : ∀ m, d = .message m → m.route.length ≤ largest) :
    e.handleChecked largest S now d = some (e.handle S now d) := by
  cases d with
  | advertisement a => exact handle_advertisement_checked now a e
  | discovery d => exact handle_discovery_checked orderly.laid now d
  | acknowledgement a => exact handle_acknowledgement_checked orderly.laid now a
  | failure _ => rfl
  | message m => exact handle_message_checked orderly now (small m rfl)

theorem unwrap_checked (S : Suite) (d : Datagram) (e : Engine) : e.unwrapChecked S d = some (e.unwrap? S d) := by
  cases d with
  | message m =>
      rw [unwrapChecked, unwrap?]
      split
      · cases m.sender? with
        | none => rfl
        | some sender =>
            dsimp only [Option.bind_eq_bind, Option.bind_some]
            cases e.keyring.find? sender with
            | none => rfl
            | some key =>
                dsimp only [Option.bind_some]
                rw [Message.unwrap_checked]
                rfl
      · rfl
  | advertisement | discovery | acknowledgement | failure => rfl

theorem decode_small {bytes : Bytes} {m : Message} (read : Wire.decode bytes = .ok (.message m)) :
    bytes.length ≤ Wire.maxBody + 8 ∧ 24 * m.route.length + 32 ≤ bytes.length := by
  obtain ⟨_, written⟩ := Wire.encode_of_decode read
  obtain ⟨small, _⟩ := Wire.encode_ok written
  have length := Wire.encode_length written
  have body := Wire.length_body_message m
  omega

-- What has been taken apart is shorter than what it was in, and what is taken apart is no longer than a frame. So the count of
-- messages stays below the length of a frame.
theorem receive_from_checked (orderly : e.Orderly) (word : Wire.maxBody ≤ largest) (now : UInt64) (layers depth : Nat)
    (bytes : Bytes) (depths : depth + layers = e.settings.maxNestingDepth + 1)
    (short : depth = 0 ∨ depth + bytes.length ≤ Wire.maxBody + 8) :
    e.receiveFrom largest S now depth bytes = some (e.receiveWithin S now layers bytes) := by
  induction layers generalizing depth bytes with
  | zero =>
      rw [receiveFrom, if_pos (by omega)]
      rfl
  | succ layers ih =>
      rw [receiveFrom, receiveWithin, if_neg (by omega)]
      cases Kind.ofBytes? bytes with
      | none => rfl
      | some kind =>
          dsimp only
          rw [Wire.decode_checked, Option.bind_some]
          cases read : Wire.decode bytes with
          | error fault => rfl
          | ok d =>
              dsimp only
              rw [unwrap_checked, Option.bind_some]
              cases opened : e.unwrap? S d with
              | none =>
                  refine handle_checked orderly now fun m same => ?_
                  obtain ⟨_, _⟩ := decode_small (same ▸ read)
                  omega
              | some content =>
                  have shorter := (unseals_iff.mpr ⟨d, read, opened⟩).shorter
                  obtain ⟨m, _, _, rfl, _⟩ := unwrap_some_iff.mp opened
                  obtain ⟨_, _⟩ := decode_small read
                  dsimp only
                  rw [if_pos (by omega)]
                  exact ih (depth + 1) content (by omega) (by omega)

-- Each index, difference and slice is asked for first in the operations that are checked, which have no result where one of
-- them has none.
theorem operations_in_bounds (reachable : e.Reachable S) (radius : e.settings.zoneRadius < largest)
    (frame : Wire.maxBody + Wire.headerLength ≤ largest) :
    startChecked largest S e.settings e.identity e.random = some (Engine.start S e.settings e.identity e.random) ∧
    (∀ now bytes, e.receiveChecked largest S now bytes = some (e.receive S now bytes)) ∧
    (∀ now target payload, e.sendChecked S now target payload = some (e.send S now target payload)) ∧
    (∀ now target, e.discoverChecked S now target = some (e.discover S now target)) ∧
    (∀ now excluded, e.borderNodesChecked now excluded = some (e.borderNodes now excluded)) ∧
    (∀ now duration, (deadline now duration).toNat = min (now.toNat + duration.toNat) latest.toNat) ∧
    ∀ now since, (elapsed now since).toNat = now.toNat - since.toNat := by
  have orderly := reachable_orderly reachable
  refine ⟨start_checked radius _ _, fun now bytes => ?_, send_checked orderly.laid, discover_checked orderly.laid,
    border_nodes_checked orderly.laid, to_nat_deadline, to_nat_elapsed⟩
  have word : Wire.maxBody ≤ largest := Nat.le_trans (Nat.le_add_right _ _) frame
  exact receive_from_checked orderly word now _ 0 bytes (Nat.zero_add _) (Or.inl rfl)

theorem operations_in_bounds_surrounded :
    surrounded.receiveChecked latest.toNat Suite.plain 0 (octetsOf (.message transit)) =
        some (surrounded.receive Suite.plain 0 (octetsOf (.message transit))) ∧
    (surrounded.receive Suite.plain 0 (octetsOf (.message transit))).1.map Packet.neighbour? = [some (numbered (1 : Fin 4)).id] := by
  have reachable : surrounded.Reachable Suite.plain := take_all_reachable (.start _ _ _) _
  have runs : surrounded.settings.zoneRadius < latest.toNat ∧ Wire.maxBody + Wire.headerLength ≤ latest.toNat ∧
      (surrounded.receive Suite.plain 0 (octetsOf (.message transit))).1.map Packet.neighbour? =
        [some (numbered (1 : Fin 4)).id] := by decide +kernel
  obtain ⟨radius, frame, out⟩ := runs
  obtain ⟨_, received, _⟩ := operations_in_bounds reachable radius frame
  exact ⟨received 0 _, out⟩

end ZoneRouting.Engine
