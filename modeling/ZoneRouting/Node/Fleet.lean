import ZoneRouting.Node.Loop
import ZoneRouting.Medium
/-!
Several devices running on one medium. Their event loops go on only while somebody waits: for time
to pass, for an answer, or for a loop to end. They share a virtual time, which passes only when
nothing is left to do; the clock that the engines see is another one and is moved by hand.
-/
namespace ZoneRouting

inductive NodeFault where
  | routing (fault : Fault)
  | shutdown
  deriving DecidableEq, Repr

def NodeFault.message : NodeFault → String
  | routing fault => "Routing error: " ++ fault.message
  | shutdown => "Node has shut down"

inductive Phase where
  | held
  | started
  | running
  | ended (fault : Option NodeFault)
  deriving DecidableEq, Repr

structure Station where
  engine : Engine
  radio : Nat
  phase : Phase
  period : Nat
  nextTick : Nat
  handles : Nat
  requests : List (Identifier × Bytes)
  answer : Option (Except Fault SendOutcome)
  inbox : List Bytes
  inboxOpen : Bool
  failingReceives : Nat
  failingSends : Nat
  joined : Bool

structure Fleet where
  stations : List Station
  medium : Medium
  clock : Clock
  time : Nat

namespace Fleet

def requestLimit : Nat := 64

def empty : Fleet := ⟨[], Medium.empty, {}, 0⟩

def add (engine : Engine) (period : Nat) (held : Bool) (f : Fleet) : Fleet :=
  let (radio, medium) := f.medium.attach engine.id
  { f with
    medium
    stations := f.stations ++ [{
      engine, radio, period
      phase := if held then .held else .started
      nextTick := f.time
      handles := 1
      requests := []
      answer := none
      inbox := []
      inboxOpen := true
      failingReceives := 0
      failingSends := 0
      joined := false }] }

def sendBy (packet : Packet) (link : Station × Medium) : Except Fault Unit × (Station × Medium) :=
  let (s, m) := link
  if s.failingSends > 0 then (.error (.io .other), ({ s with failingSends := s.failingSends - 1 }, m))
  else (.ok (), (s, m.send s.radio packet))

-- Lets a device react to an event. A fault that stops the reaction ends the device's loop.
def occur (S : Suite) (now : UInt64) (event : Node.Event) (s : Station) (m : Medium) :
    Node.Reaction × Station × Medium :=
  let (reaction, engine) := Node.react S now event s.engine
  let inbox := if s.inboxOpen then s.inbox ++ reaction.delivered else s.inbox
  let phase :=
    match reaction.stopped with
    | some fault => .ended (some (.routing fault))
    | none => s.phase
  let (s, m) := Node.transmitAll sendBy reaction.offered ({ s with engine, inbox, phase }, m)
  (reaction, s, m)

-- What a device does next, if there is anything to do. It begins by looking whether its radio is
-- ready. While it runs, its timer goes first, then its radio, then its requests; it ends when its radio
-- never hears anything again or nobody can send by it.
def advance? (S : Suite) (time : Nat) (now : UInt64) (s : Station) (m : Medium) :
    Option (Station × Medium) :=
  if s.phase = .started then
    let phase :=
      if m.ready s.radio then .running
      else .ended (some (.routing (.link (.notReady (Medium.name s.engine.id)))))
    some ({ s with phase, nextTick := time }, m)
  else if s.phase ≠ .running then none
  else if s.nextTick ≤ time then
    let (_, s, m) := occur S now .tick s m
    some ({ s with nextTick := time + s.period }, m)
  else if s.failingReceives > 0 then
    let (_, s, m) := occur S now (.receiveFailed (.io .other)) s m
    some ({ s with failingReceives := s.failingReceives - 1 }, m)
  else
    match m.receive s.radio with
    | (.ok (some bytes), m) => some (occur S now (.heard bytes) s m).2
    | (.error fault, m) => some (occur S now (.receiveFailed fault) s m).2
    | (.ok none, m) =>
      match s.requests with
      | (target, payload) :: rest =>
        let (reaction, s, m) := occur S now (.request target payload) { s with requests := rest } m
        some ({ s with answer := reaction.answer }, m)
      | [] =>
        if s.handles = 0 then some ({ s with phase := .ended none }, m.close s.radio) else none

def step? (S : Suite) (f : Fleet) : Option Fleet :=
  f.stations.zipIdx.findSome? fun (s, i) =>
    (advance? S f.time f.clock.time s f.medium).map fun (s, medium) =>
      { f with stations := f.stations.set i s, medium }

def settle (S : Suite) : (steps : Nat) → Fleet → Fleet
  | 0, f => f
  | steps + 1, f =>
    match f.step? S with
    | none => f
    | some f => settle S steps f

def patience : Nat := 1000000

def rest (S : Suite) (f : Fleet) : Fleet := f.settle S patience

def nextDue? (limit : Nat) (f : Fleet) : Option Nat :=
  ((f.stations.filter fun s => s.phase = .running ∧ s.nextTick ≤ limit).map Station.nextTick).min?

def passUntil (S : Suite) (limit : Nat) : (steps : Nat) → Fleet → Fleet
  | 0, f => { f with time := limit }
  | steps + 1, f =>
    match f.nextDue? limit with
    | none => { f with time := limit }
    | some due => passUntil S limit steps ({ f with time := max f.time due }.rest S)

def sleep (S : Suite) (duration : Nat) (f : Fleet) : Fleet :=
  (f.rest S).passUntil S (f.time + duration) (duration + 1)

def start (i : Nat) (f : Fleet) : Bool × Fleet :=
  match f.stations[i]? with
  | none => (false, f)
  | some s =>
    if s.phase ≠ .held then (false, f)
    else (true, { f with stations := f.stations.set i { s with phase := .started } })

inductive Reply where
  | answer (outcome : Except NodeFault SendOutcome)
  | waiting
  | noHandle

def request (S : Suite) (i : Nat) (target : Identifier) (payload : Bytes) (f : Fleet) :
    Reply × Fleet :=
  match f.stations[i]? with
  | none => (.noHandle, f)
  | some s =>
    if s.handles = 0 then (.noHandle, f)
    else
      match s.phase with
      | .ended _ => (.answer (.error .shutdown), f)
      | .held =>
        let requests :=
          if s.requests.length < requestLimit then s.requests ++ [(target, payload)]
          else s.requests
        (.waiting, { f with stations := f.stations.set i { s with requests } }.rest S)
      | .started | .running =>
        let requests := s.requests ++ [(target, payload)]
        let f := { f with stations := f.stations.set i { s with requests, answer := none } }.rest S
        match (f.stations[i]?).bind Station.answer with
        | some (.ok outcome) => (.answer (.ok outcome), f)
        | some (.error fault) => (.answer (.error (.routing fault)), f)
        | none => (.answer (.error .shutdown), f)

def at? {α : Type} (i : Nat) (g : Station → Medium → α × Station × Medium) (f : Fleet) :
    Option (α × Fleet) :=
  (f.stations[i]?).map fun s =>
    let (a, s, medium) := g s f.medium
    (a, { f with stations := f.stations.set i s, medium })

-- Sends a packet by a device's radio, past its engine; no failure of the device is in the way.
def transmit (i : Nat) (packet : Packet) : Fleet → Option (Unit × Fleet) :=
  at? i fun s m => ((), s, m.send s.radio packet)

def ready (i : Nat) : Fleet → Option (Bool × Fleet) :=
  at? i fun s m => (m.ready s.radio, s, m)

def close (i : Nat) : Fleet → Option (Unit × Fleet) :=
  at? i fun s m => ((), s, m.close s.radio)

def withHandles (i : Nat) (g : Nat → Nat) : Fleet → Option (Nat × Fleet) :=
  at? i fun s m => (g s.handles, { s with handles := g s.handles }, m)

def failNext (i receives sends : Nat) : Fleet → Option (Unit × Fleet) :=
  at? i fun s m => ((), { s with failingReceives := receives, failingSends := sends }, m)

def dropInbox (i : Nat) : Fleet → Option (Unit × Fleet) :=
  at? i fun s m => ((), { s with inboxOpen := false }, m)

def inbox (i : Nat) : Fleet → Option (Option (List Bytes × Bool) × Fleet) :=
  at? i fun s m =>
    if s.inboxOpen then
      let closed := match s.phase with | .ended _ => true | _ => false
      (some (s.inbox, closed), { s with inbox := [] }, m)
    else (none, s, m)

inductive JoinState where
  | running
  | notStarted
  | ended (fault : Option NodeFault)

def join (S : Suite) (i : Nat) (f : Fleet) : Option (JoinState × Fleet) :=
  (f.rest S).at? i fun s m =>
    match s.phase with
    | .held => (.notStarted, s, m)
    | .started | .running => (.running, s, m)
    | .ended fault =>
      if s.joined then (.notStarted, s, m) else (.ended fault, { s with joined := true }, m)

end Fleet
end ZoneRouting
