import ZoneRouting.Engine.Basic
/-!
Sending payloads. A payload goes along a route inside the zone if there is one, else along a
discovered route, where it is wrapped a second time for the first border node; else it is parked and
its destination is searched for, unless a search is under way.
-/
namespace ZoneRouting.Engine

def wrapAlong (S : Suite) (payload : Bytes) (route : Route) (key : PublicKey) (e : Engine) :
    Except Fault Bytes × Engine :=
  match Message.wrap S e.random payload route key e.identity.keys with
  | (.error fault, random) => (.error fault, { e with random })
  | (.ok message, random) =>
    match Wire.encode (.message message) with
    | .error fault => (.error (.wire fault), { e with random })
    | .ok bytes => (.ok bytes, { e with random })

def sendDirect (S : Suite) (now : UInt64) (target : Identifier) (payload : Bytes) (e : Engine) :
    Except Fault Packet × Engine :=
  match e.table.lookup target now with
  | (none, table) => (.error (.unreachable target), { e with table })
  | (some route, table) =>
    let e := { e with table }
    match e.keyring.find? target with
    | none => (.error (.targetKeyUnknown target), e)
    | some key =>
      match route with
      | _ :: next :: _ =>
        match e.wrapAlong S payload route key with
        | (.ok bytes, e) => (.ok (Packet.single next bytes), e)
        | (.error fault, e) => (.error fault, e)
      | _ => (.error (.unreachable target), e)

def sendEach (S : Suite) (now : UInt64) (payload : Bytes) :
    List Identifier → Engine → List Packet × Engine
  | [], e => ([], e)
  | target :: targets, e =>
    match e.sendDirect S now target payload with
    | (.error _, e) => sendEach S now payload targets e
    | (.ok packet, e) =>
      let (packets, e) := sendEach S now payload targets e
      (packet :: packets, e)

-- Sends a payload along a discovered route. The message for the destination is itself the payload
-- of a message for the route's first border node.
def sendInterZone (S : Suite) (now : UInt64) (target : Identifier) (payload : Bytes) (e : Engine) :
    Except Fault Packet × Engine :=
  match e.cache.lookup target now with
  | (none, cache) => (.error (.noRoute target), { e with cache })
  | (some route, cache) =>
    let e := { e with cache }
    match e.keyring.find? target with
    | none => (.error (.targetKeyUnknown target), e)
    | some key =>
      match route with
      | _ :: border :: _ =>
        match e.wrapAlong S payload route key with
        | (.ok inner, e) => e.sendDirect S now border inner
        | (.error fault, e) => (.error fault, e)
      | _ => (.error (.noRoute target), e)

-- Starts the search for a device: a query to every border node. The search is under way only if
-- some query could be sent.
def discover (S : Suite) (now : UInt64) (target : Identifier) (e : Engine) :
    Except Fault (List Packet) × Engine :=
  let (border, e) := e.borderNodes now [e.id]
  let query : Discovery :=
    { origin := e.publicKey, destination := target, sent := now, route := [e.id],
      covered := e.id :: border }
  match Wire.encode (.discovery query) with
  | .error fault => (.error (.wire fault), e)
  | .ok bytes =>
    let (packets, e) := e.sendEach S now bytes border
    if packets = [] then (.ok [], e)
    else (.ok packets, { e with pending := e.pending.insert target now })

-- Whether a search for a device began less than the timeout ago and is unanswered.
def searching (now : UInt64) (target : Identifier) (e : Engine) : Bool :=
  match e.pending.find? target with
  | none => false
  | some since => elapsed now since < e.settings.discoveryTimeout

def park (target : Identifier) (payload : Bytes) (e : Engine) : Engine :=
  { e with parked := e.parked.insert target (e.parkedFor target ++ [payload]) }

def route (S : Suite) (now : UInt64) (target : Identifier) (payload : Bytes) (e : Engine) :
    Except Fault (SendOutcome × List Packet) × Engine :=
  match e.sendDirect S now target payload with
  | (.ok packet, e) => (.ok (.direct, [packet]), e)
  | (.error _, e) =>
    match e.sendInterZone S now target payload with
    | (.ok packet, e) => (.ok (.interZone, [packet]), e)
    | (.error _, e) =>
      let e := e.park target payload
      if e.searching now target then (.ok (.queued, []), e)
      else
        match e.discover S now target with
        | (.ok packets, e) => (.ok (.queued, packets), e)
        | (.error fault, e) => (.error fault, e)

-- Accepts a payload for sending and puts the packets that come of it on the outgoing queue. A
-- payload that opens with a tag is refused, because its destination would take it for a datagram.
def send (S : Suite) (now : UInt64) (target : Identifier) (payload : Bytes) (e : Engine) :
    Except Fault SendOutcome × Engine :=
  match Kind.ofBytes? payload with
  | some kind => (.error (.reservedTag kind), e)
  | none =>
    match e.route S now target payload with
    | (.ok (outcome, packets), e) => (.ok outcome, { e with outgoing := e.outgoing ++ packets })
    | (.error fault, e) => (.error fault, e)

-- Sends payloads to a device one after the other, all at the same time; what cannot be routed is parked
-- anew.
def routeAll (S : Suite) (now : UInt64) (target : Identifier) :
    List Bytes → Engine → List Packet × Engine
  | [], e => ([], e)
  | payload :: payloads, e =>
    match e.route S now target payload with
    | (.ok (_, packets), e) =>
      let (more, e) := routeAll S now target payloads e
      (packets ++ more, e)
    | (.error _, e) => routeAll S now target payloads e

end ZoneRouting.Engine
