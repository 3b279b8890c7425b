import ZoneRouting.Proofs.Engine.Emission
import ZoneRouting.Proofs.Honest.Genuine
import Mathlib.Data.Multiset.DershowitzManna
import Mathlib.Data.Prod.Lex
import Mathlib.Order.WellFounded

set_option autoImplicit false

namespace ZoneRouting

def Route.ahead (id : Identifier) : Route → Nat
  | [] => 0
  | a :: rest => if a = id then rest.length else ahead id rest

theorem Route.ahead_append {id : Identifier} (before rest : Route) (absent : id ∉ before) :
    ahead id (before ++ id :: rest) = rest.length := by
  induction before with
  | nil => rw [List.nil_append, ahead, if_pos rfl]
  | cons a before ih =>
      obtain ⟨other, absent⟩ := not_or.mp (List.mem_cons.not.mp absent)
      rw [List.cons_append, ahead, if_neg (Ne.symm other)]
      exact ih absent

theorem Route.ahead_after {id next : Identifier} {route : Route} (loopFree : LoopFree route)
    (onward : after? id route = some next) : ahead id route = ahead next route + 1 := by
  obtain ⟨before, rest, rfl⟩ := exists_append_of_after? onward
  have whole : (before ++ [id]) ++ next :: rest = before ++ id :: next :: rest := by
    rw [List.append_assoc, List.singleton_append]
  have absent : id ∉ before := fun member =>
    (List.nodup_append.mp loopFree).2.2 id member id List.mem_cons_self rfl
  have fresh : next ∉ before ++ [id] := fun member => by
    rw [LoopFree, ← whole] at loopFree
    exact (List.nodup_append.mp loopFree).2.2 next member next List.mem_cons_self rfl
  have here := ahead_append before (next :: rest) absent
  have there := ahead_append (before ++ [id]) rest fresh
  rw [whole] at there
  rw [here, there, List.length_cons]

variable {n : Nat} (S : Suite) (who : Fin n → Identity)

def device? (id : Identifier) : Option (Fin n) := (List.finRange n).find? fun u => (who u).id = id

def Message.inside? (m : Message) : Option (Bytes × Identifier) := do
  let sender ← m.sender?
  let recipient ← m.recipient?
  let u ← device? who sender
  let v ← device? who recipient
  let content ← (m.unwrap S (who v).keys ((who u).publicKey S)).toOption
  return (content, recipient)

theorem Message.inside_shorter {m : Message} {bytes content : Bytes} {recipient : Identifier}
    (held : m.inside? S who = some (content, recipient)) (read : Wire.decode bytes = .ok (.message m)) :
    content.length < bytes.length := by
  simp only [inside?, Option.bind_eq_bind, Option.bind_eq_some_iff, Option.pure_def, Option.some.injEq, Prod.mk.injEq] at held
  obtain ⟨_, _, _, _, u, _, v, _, payload, opened, rfl, _⟩ := held
  exact length_unwrap (to_option_some_iff.mp opened) (Wire.encode_of_decode read).2

-- Where a message stands: how many octets may still be put around it, and how far its recipient is.
def stand (bytes : Bytes) (holder : Identifier) (route : Route) : Nat ×ₗ Nat :=
  toLex (Wire.headerLength + Wire.maxBody - bytes.length, Route.ahead holder route)

-- Where a message stands that a device holds, and where the messages stand that are inside it. Each of those is held
-- by the recipient of the one around it.
def stands (bytes : Bytes) (holder : Identifier) : Multiset (Nat ×ₗ Nat) :=
  match _ : Wire.decode bytes with
  | .ok (.message m) =>
    match _ : m.inside? S who with
    | some (content, recipient) => stand bytes holder m.route ::ₘ stands content recipient
    | none => {stand bytes holder m.route}
  | _ => 0
termination_by bytes.length
decreasing_by exact Message.inside_shorter S who ‹_› ‹_›

-- A device of the mesh, at any moment: its routes inside the zone have no loops and the right ends, and the keys that it
-- has recorded are those of their owners. Nothing else about it matters.
structure Member (u : Fin n) (e : Engine) : Prop where
  identity : e.identity = who u
  keys : ∀ id key, e.keyring.find? id = some key → Owns S who id key
  routes : e.table.book.All fun d route => Joins e.id d route ∧ Route.LoopFree route

-- The second packet passes on, as it is or wrapped anew, the message that a device finds in the first one. A packet
-- for one neighbour comes to that neighbour alone.
def Relays (packet packet' : Packet) : Prop :=
  ∃ u e now m, (packet.target = .broadcast ∨ packet.target = .single (who u).id) ∧ Member S who u e ∧
    e.content? S packet.payload = some (.datagram (.message m)) ∧ packet' ∈ (e.receive S now packet.payload).1

variable {S} {who} {u : Fin n} {e : Engine}

theorem device_named (distinct : Function.Injective fun u => (who u).id) (u : Fin n) : device? who (who u).id = some u := by
  cases found : device? who (who u).id with
  | none => exact absurd rfl (of_decide_eq_false (Bool.eq_false_iff.mpr (List.find?_eq_none.mp found u (List.mem_finRange u))))
  | some v =>
      have same := List.find?_some found
      exact congrArg some (distinct (of_decide_eq_true same))

theorem inside_unwrap (distinct : Function.Injective fun u => (who u).id) {m : Message} {v : Fin n} {content : Bytes}
    (sender : m.sender? = some (who u).id) (recipient : m.recipient? = some (who v).id)
    (opened : m.unwrap S (who v).keys ((who u).publicKey S) = .ok content) :
    m.inside? S who = some (content, (who v).id) := by
  simp only [Message.inside?, sender, recipient, Option.bind_eq_bind, Option.bind_some, device_named distinct, opened,
    Except.toOption, Option.pure_def]

theorem stands_message {bytes : Bytes} {m : Message} (read : Wire.decode bytes = .ok (.message m)) (holder : Identifier) :
    stands S who bytes holder = stand bytes holder m.route ::ₘ
      match m.inside? S who with
      | some (content, recipient) => stands S who content recipient
      | none => 0 := by
  rw [stands]
  split
  · rename_i found read'
    cases read.symm.trans read'
    split <;> (rename_i held; rw [held])
    rfl
  · rename_i other
    exact absurd read (other m)

theorem unwrap_inside (distinct : Function.Injective fun u => (who u).id) (member : Member S who u e)
    {m : Message} {content : Bytes} (opened : e.unwrap? S (.message m) = some content) :
    m.inside? S who = some (content, e.id) := by
  have own : e.id = (who u).id := congrArg Identity.id member.identity
  obtain ⟨_, sender, key, ⟨⟩, _, last, first, known, unwrapped⟩ := Engine.unwrap_some_iff.mp opened
  obtain ⟨v, rfl, rfl⟩ := member.keys sender key known
  rw [member.identity] at unwrapped
  rw [own]
  exact inside_unwrap distinct first (own ▸ last) unwrapped

theorem content_stands (distinct : Function.Injective fun u => (who u).id) (member : Member S who u e)
    {layers : Nat} {bytes : Bytes} {m : Message} (found : e.innermost? S layers bytes = some (.datagram (.message m))) :
    ∃ octets around, Wire.decode octets = .ok (.message m) ∧ stands S who bytes e.id = stands S who octets e.id + around := by
  induction layers generalizing bytes with
  | zero => cases found
  | succ layers ih =>
      rw [Engine.innermost?] at found
      split at found
      · cases found
      · split at found
        · cases found
        · rename_i d read
          split at found
          · rename_i content opened
            obtain ⟨octets, around, read', stood⟩ := ih found
            cases d with
            | advertisement | discovery | acknowledgement | failure => cases opened
            | message m' =>
                refine ⟨octets, stand bytes e.id m'.route ::ₘ around, read', ?_⟩
                rw [stands_message read, unwrap_inside distinct member opened]
                dsimp only
                rw [stood, Multiset.add_cons]
          · cases found
            exact ⟨bytes, 0, read, (add_zero _).symm⟩

theorem stands_unread {bytes : Bytes} {fault : Wire.Fault} (unread : Wire.decode bytes = .error fault) (holder : Identifier) :
    stands S who bytes holder = 0 := by
  rw [stands]
  split
  · rename_i read
    cases unread.symm.trans read
  · rfl

theorem wrapped_stands (opens : S.Opens) (distinct : Function.Injective fun u => (who u).id) (member : Member S who u e)
    {target : Identifier} {payload bytes : Bytes} {route : Route} (wraps : e.Wraps S target payload route bytes)
    (holder : Identifier) : stands S who bytes holder = 0 ∨
      stands S who bytes holder = stand bytes holder route ::ₘ stands S who payload target ∧ payload.length < bytes.length ∧
        bytes.length ≤ Wire.headerLength + Wire.maxBody := by
  obtain ⟨key, g, g', m, known, sealing, written⟩ := wraps.made
  obtain ⟨v, rfl, rfl⟩ := member.keys target key known
  rw [member.identity] at sealing
  obtain ⟨_, _, along, _⟩ := wrap_ok sealing
  have opened := opens g g' payload route (who v).keys (who u).keys m sealing
  have own : e.id = (who u).id := congrArg Identity.id member.identity
  have sender : m.sender? = some (who u).id := by rw [Message.sender?, along, wraps.proper.joins.1, own]
  have recipient : m.recipient? = some (who v).id := by rw [Message.recipient?, along, wraps.proper.joins.2]
  cases read : Wire.decode bytes with
  | error fault => exact Or.inl (stands_unread read holder)
  | ok d =>
      cases Wire.encode_injective written (Wire.encode_of_decode read).2
      refine Or.inr ⟨?_, Message.length_unwrap opened written, ?_⟩
      · rw [stands_message read, inside_unwrap distinct sender recipient opened, along]
      · have small := (Wire.encode_ok written).1
        rw [Wire.encode_length written, Wire.headerLength]
        omega

theorem member_settles {now : UInt64} {e' : Engine} (member : Member S who u e) (settles : e.Settles now e') :
    Member S who u e' where
  identity := settles.identity.trans member.identity
  keys id key found := member.keys id key (settles.keyring ▸ found)
  routes := by
    rw [settles.id]
    exact settles.table.book.all member.routes

theorem stand_onward (octets : Bytes) {id next : Identifier} {route : Route} (loopFree : Route.LoopFree route)
    (onward : Route.after? id route = some next) : stand octets next route < stand octets id route := by
  refine Prod.Lex.toLex_lt_toLex.mpr (Or.inr ⟨rfl, ?_⟩)
  rw [Route.ahead_after loopFree onward]
  exact Nat.lt_succ_self _

theorem stand_longer {octets outer : Bytes} {id first : Identifier} {route way : Route} (longer : octets.length < outer.length)
    (bound : outer.length ≤ Wire.headerLength + Wire.maxBody) : stand outer first way < stand octets id route := by
  refine Prod.Lex.toLex_lt_toLex.mpr (Or.inl ?_)
  dsimp only
  omega

theorem replaced_lower (S : Suite) (who : Fin n → Identity) {octets : Bytes} {m : Message}
    (read : Wire.decode octets = .ok (.message m)) (id : Identifier) (around : Multiset (Nat ×ₗ Nat)) :
    ∃ inner, (∀ holder, stands S who octets holder = stand octets holder m.route ::ₘ inner) ∧
      (0 : Multiset (Nat ×ₗ Nat)).IsDershowitzMannaLT (stands S who octets id + around) ∧
      ∀ lower : Multiset (Nat ×ₗ Nat), (∀ other ∈ lower, other < stand octets id m.route) →
        (lower + inner).IsDershowitzMannaLT (stands S who octets id + around) := by
  refine ⟨_, stands_message read, ?_, fun lower below => ?_⟩
  · rw [stands_message read, Multiset.cons_add]
    exact ⟨0, 0, _, Multiset.cons_ne_zero, rfl, (zero_add _).symm, nofun⟩
  · rw [stands_message read]
    refine ⟨_, lower, stand octets id m.route ::ₘ around, Multiset.cons_ne_zero, add_comm _ _, ?_, fun other member => ?_⟩
    · rw [Multiset.cons_add, Multiset.add_cons]
    · exact ⟨_, Multiset.mem_cons_self _ _, below other member⟩

def Packet.stands (S : Suite) (who : Fin n → Identity) (packet : Packet) : Multiset (Nat ×ₗ Nat) :=
  match packet.target with
  | .single id => ZoneRouting.stands S who packet.payload id
  | .broadcast => 0

theorem relayed_lower (opens : S.Opens) (distinct : Function.Injective fun u => (who u).id) (member : Member S who u e)
    {now : UInt64} {m : Message} {octets : Bytes} {packet : Packet} (read : Wire.decode octets = .ok (.message m))
    (relayed : packet ∈ (e.handleMessage S now m).1) (around : Multiset (Nat ×ₗ Nat)) :
    (packet.stands S who).IsDershowitzMannaLT (stands S who octets e.id + around) := by
  obtain ⟨inner, standing, dead, lower⟩ := replaced_lower S who read e.id around
  have written := (Wire.encode_of_decode read).2
  cases Engine.handle_message_emits now m member.routes packet relayed with
  | relayed _ next bytes loopFree onward written' =>
      cases written.symm.trans written'
      have stood : (Packet.single next octets).stands S who = {stand octets next m.route} + inner := standing next
      rw [stood]
      refine lower _ fun other among => ?_
      rw [Multiset.mem_singleton.mp among]
      exact stand_onward octets loopFree onward
  | wrapped _ next bytes _ loopFree onward written' mails =>
      cases written.symm.trans written'
      obtain ⟨first, rest, outer, rfl, _, wraps⟩ := mails
      generalize (e.handleMessage S now m).2.id :: first :: rest = way at wraps
      have after := member_settles member (Engine.handle_message_settles S now m e)
      rcases wrapped_stands opens distinct after wraps first with unread | ⟨stood, longer, bound⟩
      · have gone : (Packet.single first outer).stands S who = 0 := unread
        rw [gone]
        exact dead
      · rw [standing next] at stood
        have whole : (Packet.single first outer).stands S who = {stand outer first way, stand octets next m.route} + inner := by
          rw [Multiset.insert_eq_cons, Multiset.cons_add, Multiset.singleton_add]
          exact stood
        rw [whole]
        refine lower _ fun other among => ?_
        rcases Multiset.mem_cons.mp among with rfl | among
        · exact stand_longer longer bound
        · rw [Multiset.mem_singleton.mp among]
          exact stand_onward octets loopFree onward

theorem relays_single {packet packet' : Packet} (relays : Relays S who packet packet') : ∃ id, packet'.target = .single id := by
  obtain ⟨u, e, now, m, _, member, content, relayed⟩ := relays
  rw [Engine.receive_content, content] at relayed
  cases Engine.handle_message_emits now m member.routes packet' relayed with
  | relayed _ next bytes _ _ _ => exact ⟨next, rfl⟩
  | wrapped _ _ _ _ _ _ _ mails =>
      obtain ⟨next, _, _, rfl, _⟩ := mails
      exact ⟨next, rfl⟩

theorem relays_lower (opens : S.Opens) (distinct : Function.Injective fun u => (who u).id) {packet packet' : Packet}
    (relays : Relays S who packet packet') {id : Identifier} (single : packet.target = .single id) :
    (packet'.stands S who).IsDershowitzMannaLT (packet.stands S who) := by
  obtain ⟨u, e, now, m, addressed, member, content, relayed⟩ := relays
  obtain ⟨octets, around, read, stood⟩ := content_stands distinct member content
  have here : packet.stands S who = stands S who octets e.id + around := by
    rcases addressed with all | mine
    · cases all.symm.trans single
    · have own : (who u).id = e.id := (congrArg Identity.id member.identity).symm
      rw [Packet.stands, mine, own]
      exact stood
  rw [Engine.receive_content, content] at relayed
  rw [here]
  exact relayed_lower opens distinct member read relayed around

-- Links and clocks do not matter: each relay moves the message one device further, or puts it into another one that stands
-- lower.
theorem no_endless_relay (opens : S.Opens) (distinct : Function.Injective fun u => (who u).id) (packets : Nat → Packet) :
    ¬ ∀ i, Relays S who (packets i) (packets (i + 1)) := by
  intro endless
  have descends : ∀ i, ((packets (i + 2)).stands S who).IsDershowitzMannaLT ((packets (i + 1)).stands S who) := fun i =>
    (relays_single (endless i)).elim fun _ => relays_lower opens distinct (endless (i + 1))
  exact (wellFounded_iff_isEmpty_descending_chain.mp Multiset.wellFounded_isDershowitzMannaLT).false
    ⟨fun i => (packets (i + 1)).stands S who, descends⟩

-- The second of three devices that are numbered from one on, which has heard of the others.
def between : Engine :=
  ((Engine.start Suite.plain {} (numbered (1 : Fin 3)) (Random.ofSeed 0)).takeAll Suite.plain
    ([0, 2].map fun u : Fin 3 => .receive 0 (Engine.octetsOf (.advertisement
      { origin := (numbered u).id, key := (numbered u).publicKey Suite.plain, route := [], interval := 100000 })))).2

def letter : Message :=
  ⟨[(numbered (0 : Fin 3)).id, (numbered (1 : Fin 3)).id, (numbered (2 : Fin 3)).id],
    (Token.issue Suite.plain (Random.ofSeed 1) (Suite.plain.derive []) [1, 2, 3]).1,
    (numbered (0 : Fin 3)).keys.sign Suite.plain [1, 2, 3]⟩

theorem member_between : Member Suite.plain (numbered : Fin 3 → Identity) 1 between := by
  have runs : between.identity = numbered (1 : Fin 3) ∧ between.keyring =
      (Directory.empty.insert (numbered (0 : Fin 3)).id ((numbered (0 : Fin 3)).publicKey Suite.plain)).insert
        (numbered (2 : Fin 3)).id ((numbered (2 : Fin 3)).publicKey Suite.plain) := by decide +kernel
  have reachable : between.Reachable Suite.plain := by
    rw [between]
    exact Engine.take_all_reachable (.start _ _ _) _
  have orderly := Engine.reachable_orderly reachable
  refine ⟨runs.1, fun id key found => ?_, fun d r member => ⟨(orderly.zone d r member).joins, (orderly.zone d r member).loopFree⟩⟩
  rw [runs.2, Directory.find?_insert, Directory.find?_insert, Directory.find?_empty] at found
  split at found
  · rename_i same
    cases found
    exact ⟨2, same.symm, rfl⟩
  · split at found
    · rename_i same
      cases found
      exact ⟨0, same.symm, rfl⟩
    · cases found

def envelope : Packet := Packet.single (numbered (1 : Fin 3)).id (Engine.octetsOf (.message letter))

theorem no_endless_relay_between :
    (∃ packet, Relays Suite.plain (numbered : Fin 3 → Identity) envelope packet) ∧
      ∀ packets : Nat → Packet, packets 0 = envelope →
        ¬ ∀ i, Relays Suite.plain (numbered : Fin 3 → Identity) (packets i) (packets (i + 1)) := by
  have runs : between.content? Suite.plain envelope.payload = some (.datagram (.message letter)) ∧
      Packet.single (numbered (2 : Fin 3)).id envelope.payload ∈ (between.receive Suite.plain 0 envelope.payload).1 := by
    decide +kernel
  refine ⟨⟨_, 1, between, 0, letter, Or.inr rfl, member_between, runs.1, runs.2⟩, fun packets _ => ?_⟩
  exact no_endless_relay (lawful_opens plain_lawful) (by decide) packets

end ZoneRouting
