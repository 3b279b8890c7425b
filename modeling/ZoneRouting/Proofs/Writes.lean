import ZoneRouting.Proofs.Swarm
import ZoneRouting.Proofs.Wire.Canonical

set_option autoImplicit false

namespace ZoneRouting

def Wire.Fits (d : Datagram) : Prop := (Wire.body d).length ≤ Wire.maxBody

instance (d : Datagram) : Decidable (Wire.Fits d) := inferInstanceAs (Decidable (_ ≤ _))

theorem Wire.encode_fits {d : Datagram} (fits : Wire.Fits d) : ∃ bytes, Wire.encode d = .ok bytes :=
  ⟨_, Wire.encode_small fits⟩

namespace Engine

-- The datagrams that an operation hands to the encoder, in the order of the operation and whether they
-- fit or not. Each definition follows the operation of the same name.

def advertiseWrites (e : Engine) : List Datagram :=
  [.advertisement { origin := e.id, key := e.publicKey, route := [], interval := e.settings.advertisementInterval }]

def wrapAlongWrites (S : Suite) (payload : Bytes) (route : Route) (key : PublicKey) (e : Engine) : List Datagram :=
  match (Message.wrap S e.random payload route key e.identity.keys).1 with
  | .ok message => [.message message]
  | .error _ => []

def sendDirectWrites (S : Suite) (now : UInt64) (target : Identifier) (payload : Bytes) (e : Engine) : List Datagram :=
  match e.table.lookup target now, e.keyring.find? target with
  | (some (own :: next :: rest), table), some key =>
    { e with table }.wrapAlongWrites S payload (own :: next :: rest) key
  | _, _ => []

def sendEachWrites (S : Suite) (now : UInt64) (payload : Bytes) : List Identifier → Engine → List Datagram
  | [], _ => []
  | target :: targets, e =>
    e.sendDirectWrites S now target payload ++
      sendEachWrites S now payload targets (e.sendDirect S now target payload).2

def sendInterZoneWrites (S : Suite) (now : UInt64) (target : Identifier) (payload : Bytes) (e : Engine) :
    List Datagram :=
  match e.cache.lookup target now, e.keyring.find? target with
  | (some (own :: border :: rest), cache), some key =>
    { e with cache }.wrapAlongWrites S payload (own :: border :: rest) key ++
      match { e with cache }.wrapAlong S payload (own :: border :: rest) key with
      | (.ok inner, e) => e.sendDirectWrites S now border inner
      | (.error _, _) => []
  | _, _ => []

def discoverWrites (S : Suite) (now : UInt64) (target : Identifier) (e : Engine) : List Datagram :=
  let (border, e) := e.borderNodes now [e.id]
  let query : Datagram := .discovery
    { origin := e.publicKey, destination := target, sent := now, route := [e.id], covered := e.id :: border }
  query :: match Wire.encode query with
    | .ok bytes => e.sendEachWrites S now bytes border
    | .error _ => []

def routeWrites (S : Suite) (now : UInt64) (target : Identifier) (payload : Bytes) (e : Engine) : List Datagram :=
  e.sendDirectWrites S now target payload ++
    match e.sendDirect S now target payload with
    | (.ok _, _) => []
    | (.error _, e) =>
      e.sendInterZoneWrites S now target payload ++
        match e.sendInterZone S now target payload with
        | (.ok _, _) => []
        | (.error _, e) =>
          if (e.park target payload).searching now target then []
          else (e.park target payload).discoverWrites S now target

def sendWrites (S : Suite) (now : UInt64) (target : Identifier) (payload : Bytes) (e : Engine) : List Datagram :=
  match Kind.ofBytes? payload with
  | some _ => []
  | none => e.routeWrites S now target payload

def routeAllWrites (S : Suite) (now : UInt64) (target : Identifier) : List Bytes → Engine → List Datagram
  | [], _ => []
  | payload :: payloads, e =>
    e.routeWrites S now target payload ++ routeAllWrites S now target payloads (e.route S now target payload).2

def handleAdvertisementWrites (a : Advertisement) (e : Engine) : List Datagram :=
  if a.origin = e.id ∨ e.id ∈ a.route ∨ a.origin ∈ a.route ∨ ¬ Route.LoopFree a.route then []
  else
    match e.keyring.record a.origin a.key with
    | .error _ => []
    | .ok _ =>
      if (a.route ++ [e.id]).length > e.settings.zoneRadius then []
      else [.advertisement { a with route := a.route ++ [e.id] }]

def forwardWrites (S : Suite) (now : UInt64) (target : Identifier) (d : Datagram) (e : Engine) : List Datagram :=
  d :: match Wire.encode d with
    | .ok bytes => e.sendDirectWrites S now target bytes
    | .error _ => []

def answerWrites (S : Suite) (now : UInt64) (d : Discovery) (e : Engine) : List Datagram :=
  match d.requester?, d.route.getLast? with
  | some requester, some previous =>
    match e.keyring.record requester d.origin with
    | .error _ => []
    | .ok keyring =>
      let route := d.route ++ [e.id]
      let (_, cache) := e.cache.learn requester route.reverse now
      { e with keyring, cache }.forwardWrites S now previous (.acknowledgement { route, targetKey := e.publicKey })
  | _, _ => []

def spreadWrites (S : Suite) (now : UInt64) (d : Discovery) (e : Engine) : List Datagram :=
  if d.route.length > e.settings.maxRouteLength then []
  else
    match e.borderNodes now (d.covered ++ d.route) with
    | ([], _) => []
    | (targets, e) =>
      let query : Datagram := .discovery { d with covered := d.covered ++ targets }
      query :: match Wire.encode query with
        | .ok bytes => e.sendEachWrites S now bytes targets
        | .error _ => []

def handleDiscoveryWrites (S : Suite) (now : UInt64) (d : Discovery) (e : Engine) : List Datagram :=
  if ¬ Route.LoopFree d.route ∨ e.id ∈ d.route then []
  else if d.destination = e.id then e.answerWrites S now d
  else
    let d := { d with route := d.route ++ [e.id] }
    match e.table.lookup d.destination now with
    | (none, table) => { e with table }.spreadWrites S now d
    | (some _, table) =>
      { e with table }.forwardWrites S now d.destination (.discovery d) ++
        match { e with table }.forward S now d.destination (.discovery d) with
        | (.ok _, _) => []
        | (.error _, e) => e.spreadWrites S now d

def acceptWrites (S : Suite) (now : UInt64) (a : Acknowledgement) (target : Identifier) (e : Engine) : List Datagram :=
  match a.targetKey.validate S with
  | .error _ => []
  | .ok key =>
    match e.keyring.record target key with
    | .error _ => []
    | .ok keyring =>
      let (_, cache) := e.cache.learn target a.route now
      { e with
        keyring, cache
        pending := e.pending.erase target
        parked := e.parked.erase target }.routeAllWrites S now target (e.parkedFor target)

def handleAcknowledgementWrites (S : Suite) (now : UInt64) (a : Acknowledgement) (e : Engine) : List Datagram :=
  if ¬ Route.LoopFree a.route then []
  else if a.route.head? = some e.id then
    match a.target? with
    | some target => e.acceptWrites S now a target
    | none => []
  else
    match Route.before? e.id a.route with
    | some previous => e.forwardWrites S now previous (.acknowledgement a)
    | none => []

def relayWrites (S : Suite) (now : UInt64) (m : Message) (next : Identifier) (e : Engine) : List Datagram :=
  match e.table.lookup next now with
  | (none, _) => []
  | (some route, table) =>
    .message m :: match e.keyring.find? next, Wire.encode (.message m) with
      | some key, .ok bytes =>
        match route with
        | [_, _] => []
        | _ :: _ :: _ => { e with table }.wrapAlongWrites S bytes route key
        | _ => []
      | _, _ => []

def handleMessageWrites (S : Suite) (now : UInt64) (m : Message) (e : Engine) : List Datagram :=
  if Route.LoopFree m.route then
    match Route.after? e.id m.route with
    | some next => e.relayWrites S now m next
    | none => []
  else []

def handleWrites (S : Suite) (now : UInt64) (d : Datagram) (e : Engine) : List Datagram :=
  match d with
  | .advertisement a => e.handleAdvertisementWrites a
  | .discovery d => e.handleDiscoveryWrites S now d
  | .acknowledgement a => e.handleAcknowledgementWrites S now a
  | .failure _ => []
  | .message m => e.handleMessageWrites S now m

def receiveWithinWrites (S : Suite) (now : UInt64) : (layers : Nat) → Bytes → Engine → List Datagram
  | 0, _, _ => []
  | layers + 1, bytes, e =>
    match Kind.ofBytes? bytes with
    | none => []
    | some _ =>
      match Wire.decode bytes with
      | .error _ => []
      | .ok d =>
        match e.unwrap? S d with
        | some content => receiveWithinWrites S now layers content e
        | none => e.handleWrites S now d

def receiveWrites (S : Suite) (now : UInt64) (bytes : Bytes) (e : Engine) : List Datagram :=
  e.receiveWithinWrites S now (e.settings.maxNestingDepth + 1) bytes

section

variable (S : Suite) (now : UInt64) {d : Datagram} {bytes : Bytes} {e : Engine}

theorem receive_handle (layers : Nat) (written : Wire.encode d = .ok bytes) (checked : Wire.check d = .ok ())
    (closed : e.unwrap? S d = none) :
    e.receiveWithin S now (layers + 1) bytes = e.handle S now d ∧
      e.receiveWithinWrites S now (layers + 1) bytes = e.handleWrites S now d := by
  have read := Wire.decode_encode written
  rw [checked] at read
  constructor
  · rw [receiveWithin, Wire.kind_encode written, read]
    dsimp only
    rw [closed]
  · rw [receiveWithinWrites, Wire.kind_encode written, read]
    dsimp only
    rw [closed]

theorem receive_unwrap (layers : Nat) {content : Bytes} (written : Wire.encode d = .ok bytes)
    (checked : Wire.check d = .ok ()) (opened : e.unwrap? S d = some content) :
    e.receiveWithin S now (layers + 1) bytes = e.receiveWithin S now layers content ∧
      e.receiveWithinWrites S now (layers + 1) bytes = e.receiveWithinWrites S now layers content := by
  have read := Wire.decode_encode written
  rw [checked] at read
  constructor
  · rw [receiveWithin, Wire.kind_encode written, read]
    dsimp only
    rw [opened]
  · rw [receiveWithinWrites, Wire.kind_encode written, read]
    dsimp only
    rw [opened]

end

end Engine

namespace Swarm

variable {n : Nat}

def writes (S : Suite) (f : Swarm n) : Event n → List Datagram
  | .advertise _ u => (f.device u).advertiseWrites
  | .send now u target payload => (f.device u).sendWrites S now target payload
  | .hear now _ copy => (f.device copy.receiver).receiveWrites S now copy.bytes
  | .collect .. | .lose _ | .echo _ => []

def Possible (f : Swarm n) : Event n → Prop
  | .hear _ _ copy => copy ∈ f.air
  | .advertise .. | .send .. | .collect .. | .lose _ | .echo _ => True

instance decidablePossible (f : Swarm n) : (event : Event n) → Decidable (f.Possible event)
  | .hear _ _ copy => inferInstanceAs (Decidable (copy ∈ f.air))
  | .advertise .. | .send .. | .collect .. | .lose _ | .echo _ => inferInstanceAs (Decidable True)

def Smooth (S : Suite) : List (Event n) → Swarm n → Prop
  | [], _ => True
  | event :: events, f =>
      f.Possible event ∧ (∀ d ∈ f.writes S event, Wire.Fits d) ∧ Smooth S events (f.apply S event)

instance decidableSmooth (S : Suite) : (events : List (Event n)) → (f : Swarm n) → Decidable (Smooth S events f)
  | [], _ => inferInstanceAs (Decidable True)
  | event :: events, f =>
      have := decidableSmooth S events (f.apply S event)
      inferInstanceAs (Decidable (_ ∧ _ ∧ _))

theorem smooth_append {S : Suite} {events events' : List (Event n)} {f : Swarm n}
    (smooth : Smooth S (events ++ events') f) : Smooth S events f ∧ Smooth S events' (f.run S events) := by
  induction events generalizing f with
  | nil => exact ⟨trivial, smooth⟩
  | cons event events ih =>
      obtain ⟨possible, fits, rest⟩ := smooth
      obtain ⟨first, second⟩ := ih rest
      exact ⟨⟨possible, fits, first⟩, second⟩

end Swarm
end ZoneRouting
