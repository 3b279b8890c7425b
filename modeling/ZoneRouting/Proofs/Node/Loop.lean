import ZoneRouting.Node.Fleet
import ZoneRouting.Proofs.Engine.Queues
import ZoneRouting.Proofs.Engine.Refusals
import ZoneRouting.Proofs.Engine.Relaying

set_option autoImplicit false

namespace ZoneRouting.Node

structure Occasion where
  now : UInt64
  event : Event
  listening : Bool

-- A device with its transport, what the application has been handed and the answers to its requests, until a fault stops it.
structure Loop (τ : Type) where
  engine : Engine
  link : τ
  inbox : List Bytes
  answers : List (Except Fault SendOutcome)
  stopped : Option Fault

open Engine (octetsOf transit stranger surrounded)

variable {τ : Type}

def Loop.turn (S : Suite) (send : Packet → τ → Except Fault Unit × τ) (o : Occasion) (l : Loop τ) : Loop τ :=
  let (reaction, engine) := react S o.now o.event l.engine
  { engine
    link := transmitAll send reaction.offered l.link
    inbox := if o.listening then l.inbox ++ reaction.delivered else l.inbox
    answers := l.answers ++ reaction.answer.toList
    stopped := reaction.stopped }

def Loop.run (S : Suite) (send : Packet → τ → Except Fault Unit × τ) : List Occasion → Loop τ → Loop τ
  | [], l => l
  | o :: occasions, l =>
    match (l.turn S send o).stopped with
    | none => run S send occasions (l.turn S send o)
    | some _ => l.turn S send o

-- A transport that remembers the packets it is offered, whatever becomes of them.
def logged (send : Packet → τ → Except Fault Unit × τ) (packet : Packet) (link : τ × List Packet) :
    Except Fault Unit × (τ × List Packet) :=
  ((send packet link.1).1, (send packet link.1).2, link.2 ++ [packet])

namespace Occasion

-- What an engine by itself makes of the same events, if nobody ever empties its queues.
def after (S : Suite) (e : Engine) (o : Occasion) : Engine :=
  match o.event with
  | .heard bytes => (e.receive S o.now bytes).2
  | .request target payload => (e.send S o.now target payload).2
  | .tick | .receiveFailed _ => e

def packets (S : Suite) (e : Engine) (o : Occasion) : List Packet :=
  match o.event with
  | .tick => e.advertise.toOption.toList
  | .heard bytes => (e.receive S o.now bytes).1 ++ (o.after S e).outgoing.drop e.outgoing.length
  | .request .. => (o.after S e).outgoing.drop e.outgoing.length
  | .receiveFailed _ => []

def deliveries (S : Suite) (e : Engine) (o : Occasion) : List Bytes :=
  if o.listening then (o.after S e).incoming.drop e.incoming.length else []

def answers (S : Suite) (e : Engine) (o : Occasion) : List (Except Fault SendOutcome) :=
  match o.event with
  | .request target payload => [(e.send S o.now target payload).1]
  | _ => []

end Occasion

def course (S : Suite) : Engine → List Occasion → List (Engine × Occasion)
  | _, [] => []
  | e, o :: occasions => (e, o) :: course S (o.after S e) occasions

variable {S : Suite} {e : Engine} {o : Occasion} (send : Packet → τ → Except Fault Unit × τ)

theorem transmit_all_logged (packets log : List Packet) (link : τ) :
    transmitAll (logged send) packets (link, log) = (transmitAll send packets link, log ++ packets) := by
  induction packets generalizing link log with
  | nil => exact Prod.ext rfl (List.append_nil log).symm
  | cons packet packets ih =>
      have rest := ih (log ++ [packet]) (send packet link).2
      rw [List.append_assoc] at rest
      exact rest

theorem transmit_all_append (packets more : List Packet) (link : τ) :
    transmitAll send (packets ++ more) link = transmitAll send more (transmitAll send packets link) :=
  List.foldl_append

theorem advertise_ok (e : Engine) : ∃ packet, e.advertise = .ok packet := by
  have small : (Wire.body (.advertisement
      { origin := e.id, key := e.publicKey, route := [], interval := e.settings.advertisementInterval })).length ≤
      Wire.maxBody := by
    rw [Wire.length_body_advertisement]
    exact Nat.le_of_ble_eq_true rfl
  rw [Engine.advertise, Wire.encode_small small]
  exact ⟨_, rfl⟩

theorem turn_idle (passes : ∀ fault, o.event ≠ .receiveFailed (.link fault)) (link : τ) (log : List Packet) (inbox : List Bytes)
    (answers : List (Except Fault SendOutcome)) (stopped : Option Fault) :
    Loop.turn S (logged send) o ⟨e.queued [] [], (link, log), inbox, answers, stopped⟩ =
      { engine := (o.after S e).queued [] []
        link := (transmitAll send (o.packets S e) link, log ++ o.packets S e)
        inbox := inbox ++ o.deliveries S e
        answers := answers ++ o.answers S e
        stopped := none } := by
  obtain ⟨now, event, listening⟩ := o
  cases event with
  | tick =>
      obtain ⟨packet, made⟩ := advertise_ok e
      have same : (e.queued [] []).advertise = .ok packet := made
      rw [Loop.turn, react, same]
      dsimp only [Occasion.packets, Occasion.deliveries, Occasion.after, Occasion.answers, Option.toList_none]
      rw [made, List.drop_length]
      simp only [transmit_all_logged, List.append_nil, ite_self]
      rfl
  | heard bytes =>
      rw [Loop.turn, react, Engine.receive_queued]
      dsimp only [Occasion.packets, Occasion.deliveries, Occasion.after, Occasion.answers, Engine.takeOutgoing, Engine.takeIncoming,
        Engine.queued, Option.toList_none]
      rw [Engine.receive_outgoing, List.drop_length, List.append_nil, transmit_all_logged, List.nil_append]
      split <;> simp only [List.append_nil]
  | receiveFailed fault =>
      have still : react S now (.receiveFailed fault) (e.queued [] []) = ({}, e.queued [] []) := by
        cases fault with
        | link fault => exact absurd rfl (passes fault)
        | _ => rfl
      rw [Loop.turn, still]
      dsimp only [Occasion.packets, Occasion.deliveries, Occasion.after, Occasion.answers, Option.toList_none]
      simp only [transmit_all_logged, List.drop_length, List.append_nil, ite_self]
  | request target payload =>
      rw [Loop.turn, react, Engine.send_queued]
      dsimp only [Occasion.packets, Occasion.deliveries, Occasion.after, Occasion.answers, Engine.takeOutgoing, Engine.queued,
        Option.toList_some]
      rw [Engine.send_incoming, List.drop_length]
      simp only [transmit_all_logged, List.nil_append, List.append_nil, ite_self]

theorem run_idle (occasions : List Occasion) (passing : ∀ o ∈ occasions, ∀ fault, o.event ≠ .receiveFailed (.link fault))
    (link : τ) (log : List Packet) (inbox : List Bytes) (answers : List (Except Fault SendOutcome)) :
    Loop.run S (logged send) occasions ⟨e.queued [] [], (link, log), inbox, answers, none⟩ =
      { engine := (occasions.foldl (Occasion.after S) e).queued [] []
        link := (transmitAll send ((course S e occasions).flatMap fun step => step.2.packets S step.1) link,
          log ++ (course S e occasions).flatMap fun step => step.2.packets S step.1)
        inbox := inbox ++ (course S e occasions).flatMap fun step => step.2.deliveries S step.1
        answers := answers ++ (course S e occasions).flatMap fun step => step.2.answers S step.1
        stopped := none } := by
  induction occasions generalizing e link log inbox answers with
  | nil => simp only [Loop.run, course, List.flatMap_nil, List.append_nil, List.foldl_nil]; rfl
  | cons o occasions ih =>
      rw [List.forall_mem_cons] at passing
      have first := turn_idle (S := S) (e := e) send passing.1 link log inbox answers none
      rw [Loop.run, first]
      dsimp only
      rw [ih passing.2]
      simp only [course, List.flatMap_cons, List.foldl_cons, transmit_all_append, List.append_assoc]

theorem after_incoming (S : Suite) (e : Engine) (o : Occasion) :
    (o.after S e).incoming = e.incoming ++ (o.after S e).incoming.drop e.incoming.length := by
  obtain ⟨now, event, listening⟩ := o
  cases event with
  | heard bytes => exact congrArg (fun reply => reply.2.incoming) (Engine.receive_queued S now e.outgoing e.incoming bytes e)
  | request target payload =>
      have same : (Occasion.after S e ⟨now, .request target payload, listening⟩).incoming = e.incoming :=
        Engine.send_incoming S now target payload e
      rw [same, List.drop_length, List.append_nil]
  | tick | receiveFailed _ =>
      dsimp only [Occasion.after]
      rw [List.drop_length, List.append_nil]

theorem course_deliveries (occasions : List Occasion) (listening : ∀ o ∈ occasions, o.listening = true) :
    (occasions.foldl (Occasion.after S) e).incoming =
      e.incoming ++ (course S e occasions).flatMap fun step => step.2.deliveries S step.1 := by
  induction occasions generalizing e with
  | nil => exact (List.append_nil _).symm
  | cons o occasions ih =>
      rw [List.forall_mem_cons] at listening
      have here : o.deliveries S e = (o.after S e).incoming.drop e.incoming.length := if_pos listening.1
      rw [List.foldl_cons, ih listening.2, course, List.flatMap_cons]
      dsimp only
      rw [here, ← List.append_assoc, ← after_incoming]

-- A turn leaves the queues empty, so that a packet that cannot be sent has no bearing on the turns after it.
theorem loop_conserves (idle : e.outgoing = [] ∧ e.incoming = []) (send : Packet → τ → Except Fault Unit × τ) (link : τ)
    (occasions : List Occasion) (passing : ∀ o ∈ occasions, ∀ fault, o.event ≠ .receiveFailed (.link fault)) :
    let packets := (course S e occasions).flatMap fun step => step.2.packets S step.1
    let deliveries := (course S e occasions).flatMap fun step => step.2.deliveries S step.1
    Loop.run S (logged send) occasions ⟨e, (link, []), [], [], none⟩ =
        { engine := { occasions.foldl (Occasion.after S) e with outgoing := [], incoming := [] }
          link := (transmitAll send packets link, packets)
          inbox := deliveries
          answers := (course S e occasions).flatMap fun step => step.2.answers S step.1
          stopped := none } ∧
      ((∀ o ∈ occasions, o.listening = true) → deliveries = (occasions.foldl (Occasion.after S) e).incoming) := by
  have empty : e.queued [] [] = e := by
    rw [Engine.queued, ← idle.1, ← idle.2]
  have whole := run_idle (S := S) (e := e) send occasions passing link [] [] []
  rw [empty] at whole
  refine ⟨whole, fun listening => ?_⟩
  rw [course_deliveries occasions listening, idle.2]
  rfl

-- A device advertises, relays a message, fails to receive, searches for another device and delivers a payload.
def ordinary : List Occasion :=
  [⟨0, .tick, true⟩, ⟨0, .heard (octetsOf (.message transit)), true⟩, ⟨0, .receiveFailed (.io .other), true⟩,
    ⟨0, .request (stranger 0) [1, 2, 3], true⟩, ⟨0, .heard [4], true⟩]

theorem loop_conserves_surrounded :
    let l := Loop.run Suite.plain (logged fun _ sends => (.error (.io .other), sends + 1)) ordinary
      ⟨surrounded, (0, []), [], [], none⟩
    l.link.1 = 3 ∧ l.link.2.map Packet.neighbour? = [none, some (numbered (1 : Fin 4)).id, some (numbered (1 : Fin 4)).id] ∧
      l.inbox = [[4]] ∧ l.answers.map Except.toOption = [some .queued] ∧ l.engine.outgoing = [] ∧ l.engine.incoming = [] := by
  have idle : surrounded.outgoing = [] ∧ surrounded.incoming = [] := by decide +kernel
  have passing : ∀ o ∈ ordinary, ∀ fault, o.event ≠ .receiveFailed (.link fault) := by
    simp only [ordinary, List.forall_mem_cons]
    exact ⟨nofun, nofun, nofun, nofun, nofun, nofun⟩
  have whole := loop_conserves (S := Suite.plain) idle (fun _ (sends : Nat) => (.error (.io .other), sends + 1)) 0 ordinary passing
  dsimp only at whole ⊢
  rw [whole.1]
  decide +kernel

theorem transmit_all_station (packets : List Packet) (s : Station) (m : Medium) (engine : Engine) (inbox : List Bytes)
    (phase : Phase) :
    transmitAll Fleet.sendBy packets ({ s with engine, inbox, phase }, m) =
      ({ (transmitAll Fleet.sendBy packets (s, m)).1 with engine, inbox, phase },
        (transmitAll Fleet.sendBy packets (s, m)).2) := by
  induction packets generalizing s m with
  | nil => rfl
  | cons packet packets ih =>
      by_cases failing : s.failingSends > 0
      · have rest := ih { s with failingSends := s.failingSends - 1 } m
        simpa only [transmitAll, List.foldl_cons, Fleet.sendBy, if_pos failing] using rest
      · have rest := ih s (m.send s.radio packet)
        simpa only [transmitAll, List.foldl_cons, Fleet.sendBy, if_neg failing] using rest

theorem station_turn (S : Suite) (now : UInt64) (event : Event) (s : Station) (m : Medium) :
    let l := Loop.turn S Fleet.sendBy ⟨now, event, s.inboxOpen⟩ ⟨s.engine, (s, m), s.inbox, [], none⟩
    (Fleet.occur S now event s m).1.answer.toList = l.answers ∧
      (Fleet.occur S now event s m).2 =
        ({ l.link.1 with
            engine := l.engine
            inbox := l.inbox
            phase := match l.stopped with
              | some fault => .ended (some (.routing fault))
              | none => s.phase }, l.link.2) := by
  rw [Fleet.occur, Loop.turn]
  rcases react S now event s.engine with ⟨reaction, engine⟩
  exact ⟨rfl, transmit_all_station reaction.offered s m engine _ _⟩

end ZoneRouting.Node
