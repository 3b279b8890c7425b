import ZoneRouting.Proofs.Engine.Layers

set_option autoImplicit false

namespace ZoneRouting

namespace Route

variable {route : Route} {id next previous : Identifier}

theorem after_member (onward : after? id route = some next) : id ∈ route := by
  obtain ⟨before, rest, rfl⟩ := exists_append_of_after? onward
  exact List.mem_append_right before List.mem_cons_self

theorem after_last (loopFree : LoopFree route) (last : route.getLast? = some id) : after? id route = none := by
  cases onward : after? id route with
  | none => rfl
  | some next =>
      obtain ⟨before, rest, rfl⟩ := exists_append_of_after? onward
      have later : (next :: rest).getLast? = some id := by simpa using last
      have repeated := (List.nodup_append.mp loopFree).2.1
      exact absurd (List.mem_of_getLast? later) (List.nodup_cons.mp repeated).1

theorem before_member (back : before? id route = some previous) : id ∈ route := by
  induction route with
  | nil => cases back
  | cons a route ih =>
      cases route with
      | nil => cases back
      | cons b rest =>
          rw [before?] at back
          split at back
          · rename_i here
            exact here ▸ List.mem_cons_of_mem a List.mem_cons_self
          · exact List.mem_cons_of_mem a (ih back)

end Route

namespace Engine

inductive Rejects (S : Suite) (e : Engine) : Datagram → Prop
  | ownAnnouncement (a : Advertisement) (own : a.origin = e.id) : Rejects S e (.advertisement a)
  | returnedAnnouncement (a : Advertisement) (passed : e.id ∈ a.route) : Rejects S e (.advertisement a)
  | loopingAnnouncement (a : Advertisement) (loops : a.origin ∈ a.route ∨ ¬ Route.LoopFree a.route) :
      Rejects S e (.advertisement a)
  | loopingSearch (d : Discovery) (loops : ¬ Route.LoopFree d.route) : Rejects S e (.discovery d)
  | returnedSearch (d : Discovery) (passed : e.id ∈ d.route) : Rejects S e (.discovery d)
  | falseSearch (d : Discovery) (requester : Identifier) (known : PublicKey) (asked : d.destination = e.id)
      (first : d.requester? = some requester) (recorded : e.keyring.find? requester = some known)
      (other : d.origin ≠ known) : Rejects S e (.discovery d)
  | loopingAnswer (a : Acknowledgement) (loops : ¬ Route.LoopFree a.route) : Rejects S e (.acknowledgement a)
  | strayAnswer (a : Acknowledgement) (absent : e.id ∉ a.route) : Rejects S e (.acknowledgement a)
  | invalidAnswer (a : Acknowledgement) (first : a.route.head? = some e.id) (point : S.isPoint a.targetKey.signing = false) :
      Rejects S e (.acknowledgement a)
  | falseAnswer (a : Acknowledgement) (target : Identifier) (known : PublicKey) (first : a.route.head? = some e.id)
      (last : a.target? = some target) (recorded : e.keyring.find? target = some known) (other : a.targetKey ≠ known) :
      Rejects S e (.acknowledgement a)
  | failure (f : DeliveryFailure) : Rejects S e (.failure f)
  | loopingMessage (m : Message) (loops : ¬ Route.LoopFree m.route) : Rejects S e (.message m)
  | strayMessage (m : Message) (absent : e.id ∉ m.route) : Rejects S e (.message m)
  | unknownSender (m : Message) (sender : Identifier) (last : m.recipient? = some e.id) (first : m.sender? = some sender)
      (unknown : e.keyring.find? sender = none) : Rejects S e (.message m)
  | unopened (m : Message) (sender : Identifier) (key : PublicKey) (fault : Fault) (last : m.recipient? = some e.id)
      (first : m.sender? = some sender) (known : e.keyring.find? sender = some key)
      (failed : m.unwrap S e.identity.keys key = .error fault) : Rejects S e (.message m)

-- Octets that open with a tag but cannot be read, or are a datagram that is dropped.
inductive Refuses (S : Suite) (e : Engine) (bytes : Bytes) : Prop
  | unread (kind : Kind) (fault : Wire.Fault) (tagged : Kind.ofBytes? bytes = some kind)
      (malformed : Wire.decode bytes = .error fault)
  | read (d : Datagram) (read : Wire.decode bytes = .ok d) (rejects : e.Rejects S d)

variable {S : Suite} {e : Engine} {layers : Nat} {bytes core : Bytes} {d : Datagram}

theorem Rejects.closed (rejects : e.Rejects S d) : e.unwrap? S d = none := by
  refine Option.eq_none_iff_forall_ne_some.mpr fun inner opened => ?_
  obtain ⟨m, sender, key, rfl, loopFree, last, first, known, content⟩ := unwrap_some_iff.mp opened
  cases rejects with
  | loopingMessage _ loops => exact loops loopFree
  | strayMessage _ absent => exact absent (List.mem_of_getLast? last)
  | unknownSender _ _ _ first' unknown =>
      cases first.symm.trans first'
      cases known.symm.trans unknown
  | unopened _ _ _ _ _ first' known' failed =>
      cases first.symm.trans first'
      cases known.symm.trans known'
      cases content.symm.trans failed

theorem Ignores.nothing {reply : List Packet × Engine} (ignores : e.Ignores d reply) (kind : d.kind ≠ .advertisement) :
    reply = ([], e) := Prod.ext ignores.silent (ignores.still kind)

theorem handle_own_message (S : Suite) (now : UInt64) {m : Message} (last : m.recipient? = some e.id) :
    e.handleMessage S now m = ([], e) := by
  rw [handleMessage]
  split
  · rename_i loopFree
    rw [Route.after_last loopFree last]
  · rfl

theorem handle_rejects (now : UInt64) (rejects : e.Rejects S d) : e.handle S now d = ([], e) := by
  cases rejects with
  | ownAnnouncement a own => exact if_pos (Or.inl own)
  | returnedAnnouncement a passed => exact if_pos (Or.inr (Or.inl passed))
  | loopingAnnouncement a loops => exact if_pos (Or.inr (Or.inr loops))
  | loopingSearch d loops => exact if_pos (Or.inl loops)
  | returnedSearch d passed => exact if_pos (Or.inr passed)
  | falseSearch d requester known asked first recorded other =>
      have claims : e.Claims (.discovery d) requester d.origin := ⟨asked, first, rfl⟩
      exact (handle_conflict now claims recorded other).nothing (by rintro ⟨⟩)
  | loopingAnswer a loops => exact if_pos loops
  | strayAnswer a absent =>
      rcases acknowledgement_cases S now a e with ⟨_, _, accepts, _⟩ | ⟨_, back, _⟩ | dropped
      · exact absurd (List.mem_of_head? accepts.first) absent
      · exact absurd (Route.before_member back) absent
      · exact dropped
  | invalidAnswer a first point =>
      rw [handle, handleAcknowledgement]
      by_cases loops : ¬ Route.LoopFree a.route
      · rw [if_pos loops]
      · rw [if_neg loops, if_pos first]
        cases a.target? with
        | none => rfl
        | some target =>
            dsimp only
            rw [accept, PublicKey.validate_error point]
  | falseAnswer a target known first last recorded other =>
      have claims : e.Claims (.acknowledgement a) target a.targetKey := ⟨first, last, rfl⟩
      exact (handle_conflict now claims recorded other).nothing (by rintro ⟨⟩)
  | failure f => rfl
  | loopingMessage m loops => exact if_neg loops
  | strayMessage m absent =>
      have off : Route.after? e.id m.route = none :=
        Option.eq_none_iff_forall_ne_some.mpr fun _ onward => absent (Route.after_member onward)
      rw [handle, handleMessage, off]
      split <;> rfl
  | unknownSender m _ last _ _ => exact handle_own_message S now last
  | unopened m _ _ _ last _ _ _ => exact handle_own_message S now last

theorem Refuses.bare (refuses : e.Refuses S core) : e.Bare S core := by
  intro inner unseals
  obtain ⟨d, read, opened⟩ := unseals_iff.mp unseals
  cases refuses with
  | unread kind fault tagged malformed => cases read.symm.trans malformed
  | read d' read' rejects =>
      cases read.symm.trans read'
      cases opened.symm.trans rejects.closed

theorem refused_inert (nested : e.Layers S layers bytes core)
    (refused : e.settings.maxNestingDepth < layers ∨ e.Refuses S core) (now : UInt64) : e.receive S now bytes = ([], e) := by
  rw [receive_content]
  rcases refused with deep | refuses
  · rw [content?, nested.deep deep]
  · rw [nested.content refuses.bare]
    by_cases within : layers ≤ e.settings.maxNestingDepth
    · rw [if_pos within, content?, refuses.bare.innermost]
      cases refuses with
      | unread kind fault tagged malformed =>
          rw [tagged, malformed]
          rfl
      | read d read rejects =>
          rw [Wire.kind_encode (Wire.encode_of_decode read).2, read]
          exact handle_rejects now rejects
    · rw [if_neg within]

theorem refused_inert_smuggled :
    acquainted.Layers Suite.plain 1 (octetsOf (.message smuggled)) (octetsOf (.discovery impostor)) ∧
    acquainted.Refuses Suite.plain (octetsOf (.discovery impostor)) ∧
    ∀ now, acquainted.receive Suite.plain now (octetsOf (.message smuggled)) = ([], acquainted) := by
  have runs : (numbered (0 : Fin 4)).id = acquainted.id ∧
      acquainted.keyring.find? (numbered (2 : Fin 4)).id = some ((numbered (2 : Fin 4)).publicKey Suite.plain) ∧
      Wire.decode (octetsOf (.message smuggled)) = .ok (.message smuggled) ∧
      acquainted.unwrap? Suite.plain (.message smuggled) = some (octetsOf (.discovery impostor)) ∧
      Wire.decode (octetsOf (.discovery impostor)) = .ok (.discovery impostor) := by decide +kernel
  obtain ⟨own, recorded, outer, opened, inner⟩ := runs
  have nested : acquainted.Layers Suite.plain 1 (octetsOf (.message smuggled)) (octetsOf (.discovery impostor)) :=
    .within (unseals_iff.mpr ⟨_, outer, opened⟩) (.bare _)
  have refuses : acquainted.Refuses Suite.plain (octetsOf (.discovery impostor)) :=
    .read _ inner (.falseSearch impostor _ _ own rfl recorded (by decide))
  exact ⟨nested, refuses, refused_inert nested (Or.inr refuses)⟩

end Engine
end ZoneRouting
