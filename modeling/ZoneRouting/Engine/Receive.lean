import ZoneRouting.Engine.Send
/-!
Receiving datagrams. A message for this device is unwrapped, and what it held is received in turn,
up to the depth that the settings allow; whatever is left in the end is one datagram to handle or
one payload to deliver. What is malformed, loops or does not concern the device is dropped.
-/
namespace ZoneRouting.Engine

-- Learns from an advertisement and passes it on while it is inside the zone of its origin.
def handleAdvertisement (now : UInt64) (a : Advertisement) (e : Engine) : List Packet × Engine :=
  if a.origin = e.id ∨ e.id ∈ a.route ∨ a.origin ∈ a.route ∨ ¬ Route.LoopFree a.route then ([], e)
  else
    let a := { a with route := a.route ++ [e.id] }
    let (_, table) := e.table.learn a now
    let e := { e with table }
    match e.keyring.record a.origin a.key with
    | .error _ => ([], e)
    | .ok keyring =>
      let e := { e with keyring }
      if a.route.length > e.settings.zoneRadius then ([], e)
      else
        match Wire.encode (.advertisement a) with
        | .ok bytes => ([Packet.broadcast bytes], e)
        | .error _ => ([], e)

def forward (S : Suite) (now : UInt64) (target : Identifier) (d : Datagram) (e : Engine) :
    Except Fault Packet × Engine :=
  match Wire.encode d with
  | .error fault => (.error (.wire fault), e)
  | .ok bytes => e.sendDirect S now target bytes

def sent : Except Fault Packet × Engine → List Packet × Engine
  | (.ok packet, e) => ([packet], e)
  | (.error _, e) => ([], e)

-- Answers a discovery of this device: remembers who searched and the way back, and returns the
-- acknowledgement to the last device on the path.
def answer (S : Suite) (now : UInt64) (d : Discovery) (e : Engine) : List Packet × Engine :=
  match d.requester?, d.route.getLast? with
  | some requester, some previous =>
    match e.keyring.record requester d.origin with
    | .error _ => ([], e)
    | .ok keyring =>
      let route := d.route ++ [e.id]
      let (_, cache) := e.cache.learn requester route.reverse now
      let e := { e with keyring, cache }
      sent (e.forward S now previous (.acknowledgement { route, targetKey := e.publicKey }))
  | _, _ => ([], e)

def spread (S : Suite) (now : UInt64) (d : Discovery) (e : Engine) : List Packet × Engine :=
  if d.route.length > e.settings.maxRouteLength then ([], e)
  else
    match e.borderNodes now (d.covered ++ d.route) with
    | ([], e) => ([], e)
    | (targets, e) =>
      match Wire.encode (.discovery { d with covered := d.covered ++ targets }) with
      | .error _ => ([], e)
      | .ok bytes => e.sendEach S now bytes targets

def handleDiscovery (S : Suite) (now : UInt64) (d : Discovery) (e : Engine) :
    List Packet × Engine :=
  if ¬ Route.LoopFree d.route ∨ e.id ∈ d.route then ([], e)
  else if d.destination = e.id then e.answer S now d
  else
    let d := { d with route := d.route ++ [e.id] }
    match e.table.lookup d.destination now with
    | (none, table) => { e with table }.spread S now d
    | (some _, table) =>
      match { e with table }.forward S now d.destination (.discovery d) with
      | (.ok packet, e) => ([packet], e)
      | (.error _, e) => e.spread S now d

-- Accepts the acknowledgement of an own discovery: records the key and the route of the device
-- found, and sends the payloads that waited for it. The clock stands still until the last one is routed.
def accept (S : Suite) (now : UInt64) (a : Acknowledgement) (target : Identifier) (e : Engine) :
    List Packet × Engine :=
  match a.targetKey.validate S with
  | .error _ => ([], e)
  | .ok key =>
    match e.keyring.record target key with
    | .error _ => ([], e)
    | .ok keyring =>
      let (_, cache) := e.cache.learn target a.route now
      let waiting := e.parkedFor target
      { e with
        keyring, cache
        pending := e.pending.erase target
        parked := e.parked.erase target }.routeAll S now target waiting

-- Handles an acknowledgement: accepts it at the first device of its route and walks it one hop back
-- at the others.
def handleAcknowledgement (S : Suite) (now : UInt64) (a : Acknowledgement) (e : Engine) :
    List Packet × Engine :=
  if ¬ Route.LoopFree a.route then ([], e)
  else if a.route.head? = some e.id then
    match a.target? with
    | some target => e.accept S now a target
    | none => ([], e)
  else
    match Route.before? e.id a.route with
    | some previous => sent (e.forward S now previous (.acknowledgement a))
    | none => ([], e)

-- Relays a message to the hop after this device. If that is several radio hops away, the message
-- becomes the payload of another one, wrapped for that hop.
def relay (S : Suite) (now : UInt64) (m : Message) (next : Identifier) (e : Engine) :
    List Packet × Engine :=
  match e.table.lookup next now with
  | (none, table) => ([], { e with table })
  | (some route, table) =>
    let e := { e with table }
    match e.keyring.find? next, Wire.encode (.message m) with
    | some key, .ok bytes =>
      match route with
      | [_, _] => ([Packet.single next bytes], e)
      | _ :: first :: _ =>
        match e.wrapAlong S bytes route key with
        | (.ok outer, e) => ([Packet.single first outer], e)
        | (.error _, e) => ([], e)
      | _ => ([], e)
    | _, _ => ([], e)

def handleMessage (S : Suite) (now : UInt64) (m : Message) (e : Engine) : List Packet × Engine :=
  if Route.LoopFree m.route then
    match Route.after? e.id m.route with
    | some next => e.relay S now m next
    | none => ([], e)
  else ([], e)

-- Handles a datagram. Notices of failure are not acted upon.
def handle (S : Suite) (now : UInt64) (d : Datagram) (e : Engine) : List Packet × Engine :=
  match d with
  | .advertisement a => e.handleAdvertisement now a
  | .discovery d => e.handleDiscovery S now d
  | .acknowledgement a => e.handleAcknowledgement S now a
  | .failure _ => ([], e)
  | .message m => e.handleMessage S now m

-- What a datagram held that is a message for this device from a device whose key is recorded.
def unwrap? (S : Suite) (d : Datagram) (e : Engine) : Option Bytes :=
  match d with
  | .message m =>
    if Route.LoopFree m.route ∧ m.recipient? = some e.id then do
      let sender ← m.sender?
      let key ← e.keyring.find? sender
      (m.unwrap S e.identity.keys key).toOption
    else none
  | _ => none

-- Receives octets that were wrapped fewer than `layers` times.
def receiveWithin (S : Suite) (now : UInt64) : (layers : Nat) → Bytes → Engine → List Packet × Engine
  | 0, _, e => ([], e)
  | layers + 1, bytes, e =>
    match Kind.ofBytes? bytes with
    | none => ([], { e with incoming := e.incoming ++ [bytes] })
    | some _ =>
      match Wire.decode bytes with
      | .error _ => ([], e)
      | .ok d =>
        match e.unwrap? S d with
        | some content => receiveWithin S now layers content e
        | none => e.handle S now d

def receive (S : Suite) (now : UInt64) (bytes : Bytes) (e : Engine) : List Packet × Engine :=
  e.receiveWithin S now (e.settings.maxNestingDepth + 1) bytes

end ZoneRouting.Engine
