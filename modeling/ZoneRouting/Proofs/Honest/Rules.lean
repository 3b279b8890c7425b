import ZoneRouting.Proofs.Engine.Learning
import ZoneRouting.Proofs.Honest.Runs

set_option autoImplicit false

namespace ZoneRouting

variable {n : Nat}

abbrev Rule (n : Nat) := Fin n → Fin n → Datagram → Prop

-- Octets that may go from a device to another one, in the air or under a seal: payloads, what the one may tell the
-- other, and messages that hold such octets for any device.
inductive Allowed (S : Suite) (who : Fin n → Identity) (rule : Rule n) : Fin n → Fin n → Bytes → Prop
  | payload (u v : Fin n) (bytes : Bytes) (untagged : Kind.ofBytes? bytes = none) : Allowed S who rule u v bytes
  | told (u v : Fin n) (d : Datagram) (bytes : Bytes) (tells : rule u v d) (other : d.kind ≠ .message)
      (written : Wire.encode d = .ok bytes) : Allowed S who rule u v bytes
  | nested (u v x y : Fin n) (content bytes : Bytes) (inner : Allowed S who rule x y content)
      (made : Sealed S who x y content bytes) : Allowed S who rule u v bytes

def Heard (S : Suite) (who : Fin n → Identity) (rule : Rule n) (u : Fin n) : Datagram → Prop
  | .message m => ∃ x y content bytes, Allowed S who rule x y content ∧ Sealed S who x y content bytes ∧
      Wire.encode (.message m) = .ok bytes
  | d => ∃ v, rule v u d

def Searches (S : Suite) (who : Fin n → Identity) (rule : Rule n) (u : Fin n) (e : Engine) : Prop :=
  ∀ now target searching x, Engine.Changes S e searching → (searching.search now target).Reaches (who x).id →
    e.table.book.hopsTo (who x).id ≠ [] → rule u x (.discovery (searching.search now target).query)

-- A device that was told things under one rule tells things under another.
structure Obeys (S : Suite) (who : Fin n → Identity) (links : Links (Fin n)) (rule rule' : Rule n) (u : Fin n) (now : UInt64)
    (e e' : Engine) : Prop where
  announces : ∀ v a x, rule v u (.advertisement a) →
    ¬ (a.origin = e.id ∨ e.id ∈ a.route ∨ a.origin ∈ a.route ∨ ¬ Route.LoopFree a.route) →
    a.route.length < e.settings.zoneRadius → (u, x) ∈ links →
    rule' u x (.advertisement { a with route := a.route ++ [e.id] })
  passes : ∀ v d p x, rule v u (.discovery d) → e.passage? S now d = some p → p.Reaches (who x).id →
    e.table.book.hopsTo (who x).id ≠ [] → rule' u x (.discovery p.query)
  answers : ∀ v d requester x, rule v u (.discovery d) → d.destination = e.id → Route.LoopFree (d.route ++ [e.id]) →
    d.requester? = some requester → (d.route ++ [e.id]).reverse ∈ e'.cache.book.hopsTo requester →
    rule' u x (.acknowledgement { route := d.route ++ [e.id], targetKey := e.publicKey })
  walks : ∀ v a x, rule v u (.acknowledgement a) → rule' u x (.acknowledgement a)
  searches : Searches S who rule' u e

section

variable {S : Suite} {who : Fin n → Identity} {rule rule' : Rule n} {u : Fin n} {e e' : Engine} {now : UInt64}
  {links : Links (Fin n)} {packet : Packet}

theorem Allowed.mono (more : ∀ v w d, rule v w d → rule' v w d) {v w : Fin n} {bytes : Bytes}
    (allowed : Allowed S who rule v w bytes) : Allowed S who rule' v w bytes := by
  induction allowed with
  | payload u v bytes untagged => exact .payload u v bytes untagged
  | told u v d bytes tells other written => exact .told u v d bytes (more u v d tells) other written
  | nested u v x y content bytes _ made ih => exact .nested u v x y content bytes ih made

theorem innermost_heard (opens : S.Opens) (distinct : Function.Injective fun u => (who u).id) (honest : Honest S who u e)
    {layers : Nat} {v : Fin n} {bytes : Bytes} {d : Datagram} (allowed : Allowed S who rule v u bytes)
    (found : e.innermost? S layers bytes = some (.datagram d)) : Heard S who rule u d := by
  induction layers generalizing v bytes with
  | zero => cases found
  | succ layers ih =>
      rw [Engine.innermost?] at found
      split at found
      · cases found
      · rename_i kind tagged
        split at found
        · cases found
        · rename_i d' read
          have written := (Wire.encode_of_decode read).2
          cases allowed with
          | payload _ _ _ untagged => cases untagged.symm.trans tagged
          | told _ _ told _ tells other written' =>
              cases Wire.encode_injective written written'
              cases d' with
              | advertisement | discovery | acknowledgement | failure =>
                  cases found
                  exact ⟨v, tells⟩
              | message m => exact absurd rfl other
          | nested _ _ x y content _ inner made =>
              obtain ⟨_, _, m, _, _, _, _, written'⟩ := id made.message
              cases Wire.encode_injective written written'
              split at found
              · rename_i opened
                obtain ⟨rfl, rfl⟩ := unwrap_sealed opens distinct honest written opened made
                exact ih inner found
              · cases found
                exact ⟨x, y, content, bytes, inner, made, written⟩

theorem wraps_sealed (honest : Honest S who u e) {target : Identifier} {payload bytes : Bytes} {route : Route}
    (wraps : e.Wraps S target payload route bytes) : ∃ x, (who x).id = target ∧ Sealed S who u x payload bytes := by
  obtain ⟨⟨⟨first, last⟩, _, _⟩, key, g, g', m, known, sealing, written⟩ := wraps
  obtain ⟨x, rfl, rfl⟩ := honest.keys target key known
  rw [honest.identity] at sealing
  exact ⟨x, rfl, ⟨g, g', m, route, sealing, honest_id honest ▸ first, last, written⟩⟩

theorem mails_allowed (honest : Honest S who u e) {book : RouteBook} {target : Identifier} {payload : Bytes}
    (mails : e.Mails S book target payload packet)
    (inner : ∀ x, (who x).id = target → book.hopsTo target ≠ [] → Allowed S who rule u x payload) (v w : Fin n) :
    Allowed S who rule v w packet.payload := by
  obtain ⟨next, rest, bytes, rfl, known, wraps⟩ := mails
  obtain ⟨x, named, made⟩ := wraps_sealed honest wraps
  exact .nested v w u x payload bytes (inner x named (List.ne_nil_of_mem known)) made

theorem passes_allowed (honest : Honest S who u e) {book : RouteBook} {p : Passage} (passes : e.Passes S book p packet)
    (tells : ∀ x, p.Reaches (who x).id → book.hopsTo (who x).id ≠ [] → rule u x (.discovery p.query)) (v w : Fin n) :
    Allowed S who rule v w packet.payload := by
  obtain ⟨target, bytes, reaches, written, mails⟩ := passes
  refine mails_allowed honest mails (fun x named filled => ?_) v w
  subst named
  exact .told u x _ bytes (tells x reaches filled) nofun written

theorem launches_allowed (honest : Honest S who u e') (searches : Searches S who rule u e)
    (launches : Engine.Launches S e e' packet) (v w : Fin n) : Allowed S who rule v w packet.payload := by
  cases launches with
  | payload target payload untagged mails =>
      exact mails_allowed honest mails (fun x _ _ => .payload u x payload untagged) v w
  | layered target border rest payload inner untagged wraps mails =>
      obtain ⟨x, _, made⟩ := wraps_sealed honest wraps
      exact mails_allowed honest mails (fun y _ _ => .nested u y u x payload inner (.payload u x payload untagged) made) v w
  | query now target searching changes passes =>
      exact passes_allowed honest passes (fun x => searches now target searching x changes) v w

theorem emits_allowed (honest : Honest S who u e') (grows : ∀ v w d, rule v w d → rule' v w d)
    (obeys : Obeys S who links rule rule' u now e e') {d : Datagram} (heard : Heard S who rule u d)
    (emits : Engine.Emits S now e e' d packet) {x : Fin n} (linked : (u, x) ∈ links) :
    Allowed S who rule' u x packet.payload := by
  cases emits with
  | announcement a bytes fresh inside written =>
      obtain ⟨v, tells⟩ := heard
      exact .told u x _ bytes (obeys.announces v a x tells fresh inside linked) nofun written
  | passed d p _ passage passes =>
      obtain ⟨v, tells⟩ := heard
      exact passes_allowed honest passes (fun x => obeys.passes v d p x tells passage) u x
  | answer d requester previous bytes _ asked loopFree first kept written mails =>
      obtain ⟨v, tells⟩ := heard
      refine mails_allowed honest mails (fun y _ _ => ?_) u x
      exact .told u y _ bytes (obeys.answers v d requester y tells asked loopFree first kept) nofun written
  | walked a previous bytes _ written mails =>
      obtain ⟨v, tells⟩ := heard
      exact mails_allowed honest mails (fun y _ _ => .told u y _ bytes (obeys.walks v a y tells) nofun written) u x
  | flushed a _ launches => exact launches_allowed honest obeys.searches launches u x
  | relayed m next bytes loopFree onward written =>
      obtain ⟨y, z, content, octets, inner, made, written'⟩ := heard
      cases written.symm.trans written'
      exact .nested u x y z content bytes (inner.mono grows) made
  | wrapped m next bytes _ loopFree onward written mails =>
      obtain ⟨y, z, content, octets, inner, made, written'⟩ := heard
      cases written.symm.trans written'
      exact mails_allowed honest mails (fun t _ _ => .nested u t y z content bytes (inner.mono grows) made) u x

end

-- What happens keeps to the rules, the first before it and the second after it.
def Event.Obeys (S : Suite) (who : Fin n → Identity) (rule rule' : Rule n) (f : Swarm n) : Event n → Prop
  | .advertise links u => ∀ x, (u, x) ∈ links → rule' u x (.advertisement
      { origin := (f.device u).id, key := (f.device u).publicKey, route := []
        interval := (f.device u).settings.advertisementInterval })
  | .send _ u _ _ => Searches S who rule' u (f.device u)
  | .hear now links copy => copy ∈ f.air → ZoneRouting.Obeys S who links rule rule' copy.receiver now (f.device copy.receiver)
      ((f.device copy.receiver).receive S now copy.bytes).2
  | .collect .. | .lose _ | .echo _ => True

namespace Swarm

variable {S : Suite} {who : Fin n → Identity} {rule rule' : Rule n} {f : Swarm n}

-- Everything that is in the air or waits to be sent is allowed by a rule.
structure Follows (S : Suite) (who : Fin n → Identity) (rule : Rule n) (f : Swarm n) : Prop where
  trust : Trustworthy S who f
  orderly : ∀ u, (f.device u).Orderly
  air : ∀ copy ∈ f.air, Allowed S who rule copy.sender copy.receiver copy.bytes
  outgoing : ∀ u, ∀ packet ∈ (f.device u).outgoing, ∀ v w, Allowed S who rule v w packet.payload

theorem device_changes (orderly : ∀ u, (f.device u).Orderly) (event : Event n) (u : Fin n) :
    Engine.Changes S (f.device u) ((f.apply S event).device u) := by
  have put : ∀ {v : Fin n} {e : Engine}, Engine.Changes S (f.device v) e →
      Engine.Changes S (f.device u) ((f.put v e).device u) :=
    fun changes => device_put_each (fun w e => Engine.Changes S (f.device w) e) (fun _ => .refl) changes u
  cases event with
  | advertise links v =>
      rw [apply, advertise]
      split <;> exact .refl
  | send now v target payload => exact put (Engine.send_changes now target payload _)
  | collect links v => exact put (.single (.outgoing []))
  | hear now links copy =>
      rw [apply]
      split
      · exact put (Engine.receive_changes (orderly copy.receiver) now copy.bytes)
      · exact .refl
  | lose copy => exact .refl
  | echo copy =>
      rw [apply]
      split <;> exact .refl

theorem run_changes (orderly : ∀ u, (f.device u).Orderly) (events : List (Event n)) (u : Fin n) :
    Engine.Changes S (f.device u) ((f.run S events).device u) := by
  induction events generalizing f with
  | nil => exact .refl
  | cons event events ih =>
      have first := device_changes (S := S) orderly event
      exact (first u).trans (ih fun v => Engine.orderly_changes (first v) (orderly v))

theorem start_changes (S : Suite) (settings : Fin n → Settings) (who : Fin n → Identity) (random : Fin n → Random)
    (events : List (Event n)) (u : Fin n) : Engine.Changes S (Engine.start S (settings u) (who u) (random u))
      (((start S settings who random).run S events).device u) :=
  run_changes (f := start S settings who random) (fun v => Engine.orderly_start S (settings v) (who v) (random v)) events u

theorem mem_copies {links : Links (Fin n)} {u : Fin n} {packet : Packet} {copy : Copy n}
    (member : copy ∈ f.copies links u packet) :
    copy.sender = u ∧ (u, copy.receiver) ∈ links ∧ copy.bytes = packet.payload := by
  obtain ⟨v, heard, rfl⟩ := List.mem_map.mp member
  exact ⟨rfl, of_decide_eq_true (Bool.and_eq_true_iff.mp (List.mem_filter.mp heard).2).1, rfl⟩

theorem transmit_allowed (air : ∀ copy ∈ f.air, Allowed S who rule copy.sender copy.receiver copy.bytes)
    {links : Links (Fin n)} {u : Fin n} {packets : List Packet}
    (allowed : ∀ packet ∈ packets, ∀ x, (u, x) ∈ links → Allowed S who rule u x packet.payload) :
    ∀ copy ∈ (f.transmit links u packets).air, Allowed S who rule copy.sender copy.receiver copy.bytes := by
  intro copy member
  rcases List.mem_append.mp member with old | fresh
  · exact air copy old
  · obtain ⟨packet, among, made⟩ := List.mem_flatMap.mp fresh
    obtain ⟨rfl, linked, bytes⟩ := mem_copies made
    rw [bytes]
    exact allowed packet among _ linked

theorem follows_start (settings : Fin n → Settings) (random : Fin n → Random) :
    Follows S who rule (start S settings who random) :=
  ⟨start_trustworthy settings random, fun u => Engine.orderly_start S (settings u) (who u) (random u), nofun, fun _ => nofun⟩

theorem advertise_allowed (grows : ∀ v w d, rule v w d → rule' v w d) (follows : Follows S who rule f) {links : Links (Fin n)}
    {u : Fin n} (obeys : (Event.advertise links u).Obeys S who rule rule' f) :
    ∀ copy ∈ (f.advertise links u).air, Allowed S who rule' copy.sender copy.receiver copy.bytes := by
  have air : ∀ copy ∈ f.air, Allowed S who rule' copy.sender copy.receiver copy.bytes :=
    fun copy member => (follows.air copy member).mono grows
  rw [advertise]
  cases made : (f.device u).advertise with
  | error fault => exact air
  | ok packet =>
      refine transmit_allowed air fun p member x linked => ?_
      cases List.mem_singleton.mp member
      obtain ⟨bytes, rfl, written⟩ := Engine.advertise_written made
      refine .told u x _ bytes (obeys x linked) ?_ written
      rintro ⟨⟩

theorem hear_allowed (opens : S.Opens) (distinct : Function.Injective fun u => (who u).id)
    (grows : ∀ v w d, rule v w d → rule' v w d) (follows : Follows S who rule f) {now : UInt64} {links : Links (Fin n)}
    {copy : Copy n} (member : copy ∈ f.air) (obeys : (Event.hear now links copy).Obeys S who rule rule' f) :
    ∀ c ∈ (f.hear S now links copy).air, Allowed S who rule' c.sender c.receiver c.bytes := by
  have rest : ∀ c ∈ f.air.erase copy, Allowed S who rule' c.sender c.receiver c.bytes :=
    fun c among => (follows.air c (List.mem_of_mem_erase among)).mono grows
  refine transmit_allowed rest fun packet sent x linked => ?_
  obtain ⟨d, content, emits⟩ := Engine.receive_emits now copy.bytes (follows.orderly copy.receiver) packet sent
  have heard := innermost_heard opens distinct (follows.trust.honest copy.receiver) (follows.air copy member) content
  have after := (hear_trustworthy opens distinct follows.trust now links member).honest copy.receiver
  rw [(hear_hearing S now links copy f).own] at after
  exact emits_allowed after grows (obeys member) heard emits linked

theorem apply_air (opens : S.Opens) (distinct : Function.Injective fun u => (who u).id) (follows : Follows S who rule f)
    (grows : ∀ v w d, rule v w d → rule' v w d) {event : Event n} (obeys : event.Obeys S who rule rule' f) :
    ∀ copy ∈ (f.apply S event).air, Allowed S who rule' copy.sender copy.receiver copy.bytes := by
  have air : ∀ copy ∈ f.air, Allowed S who rule' copy.sender copy.receiver copy.bytes :=
    fun copy member => (follows.air copy member).mono grows
  cases event with
  | advertise links u => exact advertise_allowed grows follows obeys
  | send now u target payload => exact air
  | collect links u =>
      exact transmit_allowed (f := f.put u (f.device u).takeOutgoing.2) air fun packet member x _ =>
        (follows.outgoing u packet member u x).mono grows
  | hear now links copy =>
      rw [apply]
      split
      · rename_i member
        exact hear_allowed opens distinct grows follows member obeys
      · exact air
  | lose copy => exact fun c among => air c (List.mem_of_mem_erase among)
  | echo copy =>
      rw [apply]
      split
      · rename_i member
        exact List.forall_mem_cons.mpr ⟨air copy member, air⟩
      · exact air

theorem apply_outgoing (opens : S.Opens) (distinct : Function.Injective fun u => (who u).id) (follows : Follows S who rule f)
    (grows : ∀ v w d, rule v w d → rule' v w d) {event : Event n} (obeys : event.Obeys S who rule rule' f) :
    ∀ u, ∀ packet ∈ ((f.apply S event).device u).outgoing, ∀ v w, Allowed S who rule' v w packet.payload := by
  have outgoing : ∀ u, ∀ packet ∈ (f.device u).outgoing, ∀ v w, Allowed S who rule' v w packet.payload :=
    fun u packet member v w => (follows.outgoing u packet member v w).mono grows
  have put : ∀ {u : Fin n} {e : Engine}, (∀ packet ∈ e.outgoing, ∀ v w, Allowed S who rule' v w packet.payload) →
      ∀ x, ∀ packet ∈ ((f.put u e).device x).outgoing, ∀ v w, Allowed S who rule' v w packet.payload :=
    device_put_each (fun _ e => ∀ packet ∈ e.outgoing, ∀ v w, Allowed S who rule' v w packet.payload) outgoing
  cases event with
  | advertise links u =>
      rw [apply, advertise]
      split <;> exact outgoing
  | send now u target payload =>
      obtain ⟨packets, queued, launches⟩ := Engine.send_launches (S := S) now target payload (follows.orderly u)
      have after := (send_trustworthy opens distinct follows.trust now u target payload).honest u
      rw [send, device_put] at after
      refine put fun packet member v w => ?_
      rcases List.mem_append.mp (queued ▸ member) with old | fresh
      · exact outgoing u packet old v w
      · exact launches_allowed after obeys (launches packet fresh) v w
  | collect links u => exact put (List.forall_mem_nil _)
  | hear now links copy =>
      rw [apply]
      split
      · rename_i member
        obtain ⟨load, genuine⟩ := follows.trust.genuine copy member
        have kept := (receive_moves opens distinct (follows.trust.honest copy.receiver) now genuine).outgoing
        exact put fun packet among => outgoing copy.receiver packet (kept ▸ among)
      · exact outgoing
  | lose copy => exact outgoing
  | echo copy =>
      rw [apply]
      split <;> exact outgoing

theorem apply_follows (opens : S.Opens) (distinct : Function.Injective fun u => (who u).id)
    (follows : Follows S who rule f) (grows : ∀ v w d, rule v w d → rule' v w d) {event : Event n}
    (obeys : event.Obeys S who rule rule' f) : Follows S who rule' (f.apply S event) where
  trust := apply_trustworthy opens distinct follows.trust event
  orderly u := Engine.orderly_changes (device_changes (S := S) follows.orderly event u) (follows.orderly u)
  air := apply_air opens distinct follows grows obeys
  outgoing := apply_outgoing opens distinct follows grows obeys

end Swarm
end ZoneRouting
