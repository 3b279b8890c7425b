import ZoneRouting.Proofs.Engine.Pruning
import Mathlib.Logic.Relation

set_option autoImplicit false

namespace ZoneRouting

theorem Keyring.record_ok {ring ring' : Keyring} {id : Identifier} {key : PublicKey}
    (recorded : ring.record id key = .ok ring') :
    ring'.find? id = some key ∧ ∀ k known, ring.find? k = some known → ring'.find? k = some known := by
  unfold record at recorded
  cases found : ring.find? id with
  | none =>
      rw [found] at recorded
      cases recorded
      refine ⟨by rw [Directory.find?_insert, if_pos rfl], fun k known here => ?_⟩
      rw [Directory.find?_insert, if_neg, here]
      rintro rfl
      rw [found] at here
      cases here
  | some old =>
      rw [found] at recorded
      dsimp only at recorded
      split at recorded
      · rename_i same
        cases recorded
        exact ⟨same ▸ found, fun _ _ here => here⟩
      · cases recorded

theorem Keyring.record_error {ring : Keyring} {id : Identifier} {key : PublicKey} {fault : Fault}
    (refused : ring.record id key = .error fault) : ∃ known, ring.find? id = some known := by
  unfold record at refused
  cases found : ring.find? id with
  | none =>
      rw [found] at refused
      cases refused
  | some old => exact ⟨old, rfl⟩

theorem PublicKey.validate_ok_iff {S : Suite} {key key' : PublicKey} :
    key.validate S = .ok key' ↔ S.isPoint key.signing = true ∧ key = key' := by
  rw [validate]
  by_cases point : S.isPoint key.signing = true
  · rw [if_pos point, Except.ok.injEq, and_iff_right point]
  · rw [if_neg point]
    exact ⟨nofun, fun both => absurd both.1 point⟩

theorem to_option_some_iff {ε α : Type} {result : Except ε α} {a : α} : result.toOption = some a ↔ result = .ok a := by
  cases result with
  | error fault => exact ⟨nofun, nofun⟩
  | ok found => simp [Except.toOption]

theorem Engine.unwrap_some_iff {S : Suite} {e : Engine} {d : Datagram} {inner : Bytes} :
    e.unwrap? S d = some inner ↔ ∃ m sender key, d = .message m ∧ Route.LoopFree m.route ∧ m.recipient? = some e.id ∧
      m.sender? = some sender ∧ e.keyring.find? sender = some key ∧ m.unwrap S e.identity.keys key = .ok inner := by
  cases d with
  | message m =>
      rw [unwrap?]
      by_cases here : Route.LoopFree m.route ∧ m.recipient? = some e.id
      · simp [here, Option.bind_eq_some_iff, to_option_some_iff]
      · rw [if_neg here]
        constructor
        · rintro ⟨⟩
        · rintro ⟨_, _, _, ⟨⟩, loopFree, last, _⟩
          exact absurd ⟨loopFree, last⟩ here
  | advertisement | discovery | acknowledgement | failure =>
      constructor
      · rintro ⟨⟩
      · rintro ⟨_, _, _, ⟨⟩, _⟩

-- A route as a device keeps it: from itself to another device and without a loop.
structure Route.Proper (owner d : Identifier) (route : Route) : Prop where
  joins : Joins owner d route
  loopFree : Route.LoopFree route
  long : 2 ≤ route.length

theorem Route.Proper.hops {owner d : Identifier} {route : Route} (proper : Proper owner d route) :
    ∃ next rest, route = owner :: next :: rest := by
  obtain ⟨⟨first, _⟩, _, long⟩ := proper
  match route, long with
  | own :: next :: rest, _ =>
      cases first
      exact ⟨next, rest, rfl⟩

theorem RouteBook.bucket_of_store {book : RouteBook} {d k : Identifier} {hops : Route} {validUntil : UInt64}
    (filled : (book.store d hops validUntil).bucket k ≠ []) : k = d ∨ book.bucket k ≠ [] := by
  rw [bucket_store] at filled
  by_cases same : k = d
  · exact Or.inl same
  · rw [if_neg same] at filled
    exact Or.inr filled

namespace Engine

-- What is left of octets when the messages for this device are unwrapped.
inductive Content where
  | payload (bytes : Bytes)
  | datagram (d : Datagram)
deriving DecidableEq

def innermost? (S : Suite) : (layers : Nat) → Bytes → Engine → Option Content
  | 0, _, _ => none
  | layers + 1, bytes, e =>
    match Kind.ofBytes? bytes with
    | none => some (.payload bytes)
    | some _ =>
      match Wire.decode bytes with
      | .error _ => none
      | .ok d =>
        match e.unwrap? S d with
        | some content => innermost? S layers content e
        | none => some (.datagram d)

def content? (S : Suite) (bytes : Bytes) (e : Engine) : Option Content :=
  e.innermost? S (e.settings.maxNestingDepth + 1) bytes

-- The acknowledgement answers a search of this device, with a key that may be recorded.
structure Accepts (S : Suite) (a : Acknowledgement) (target : Identifier) (ring : Keyring) (e : Engine) : Prop where
  loopFree : Route.LoopFree a.route
  first : a.route.head? = some e.id
  last : a.target? = some target
  valid : a.targetKey.validate S = .ok a.targetKey
  recorded : e.keyring.record target a.targetKey = .ok ring

def accepted (now : UInt64) (a : Acknowledgement) (target : Identifier) (ring : Keyring) (e : Engine) : Engine :=
  { e with
    keyring := ring
    cache := (e.cache.learn target a.route now).2
    pending := e.pending.erase target
    parked := e.parked.erase target }

inductive Change (S : Suite) : Engine → Engine → Prop
  | settle {now : UInt64} {e e' : Engine} (settles : e.Settles now e') : Change S e e'
  | search {e : Engine} (target : Identifier) (now : UInt64) : Change S e { e with pending := e.pending.insert target now }
  | park {e : Engine} (target : Identifier) (payload : Bytes) (untagged : Kind.ofBytes? payload = none) :
      Change S e (e.park target payload)
  | deliver {e : Engine} (payload : Bytes) (untagged : Kind.ofBytes? payload = none) :
      Change S e { e with incoming := e.incoming ++ [payload] }
  | outgoing {e : Engine} (packets : List Packet) : Change S e { e with outgoing := packets }
  | collect {e : Engine} : Change S e { e with incoming := [] }
  | announce {e : Engine} (now : UInt64) (a : Advertisement) (ring : Keyring)
      (fresh : ¬ (a.origin = e.id ∨ e.id ∈ a.route ∨ a.origin ∈ a.route ∨ ¬ Route.LoopFree a.route))
      (recorded : e.keyring.record a.origin a.key = .ok ring ∨
        ring = e.keyring ∧ ∃ fault, e.keyring.record a.origin a.key = .error fault) :
      Change S e { e with table := (e.table.learn { a with route := a.route ++ [e.id] } now).2, keyring := ring }
  | answer {e : Engine} (now : UInt64) (d : Discovery) (requester : Identifier) (ring : Keyring)
      (first : d.requester? = some requester) (recorded : e.keyring.record requester d.origin = .ok ring) :
      Change S e { e with keyring := ring, cache := (e.cache.learn requester (d.route ++ [e.id]).reverse now).2 }
  | accept {e : Engine} (now : UInt64) (a : Acknowledgement) (target : Identifier) (ring : Keyring)
      (accepts : e.Accepts S a target ring) : Change S e (e.accepted now a target ring)

def Changes (S : Suite) : Engine → Engine → Prop := Relation.ReflTransGen (Change S)

-- What a device may be asked to do, besides announcing itself, which changes nothing.
inductive Call where
  | send (now : UInt64) (target : Identifier) (payload : Bytes)
  | receive (now : UInt64) (bytes : Bytes)
  | discover (now : UInt64) (target : Identifier)
  | sendDirect (now : UInt64) (target : Identifier) (payload : Bytes)
  | routeTo (now : UInt64) (target : Identifier)
  | cachedRouteTo (now : UInt64) (target : Identifier)
  | borderNodes (now : UInt64) (excluded : List Identifier)
  | takeOutgoing
  | takeIncoming

def call (S : Suite) (e : Engine) : Call → Engine
  | .send now target payload => (e.send S now target payload).2
  | .receive now bytes => (e.receive S now bytes).2
  | .discover now target => (e.discover S now target).2
  | .sendDirect now target payload => (e.sendDirect S now target payload).2
  | .routeTo now target => (e.routeTo now target).2
  | .cachedRouteTo now target => (e.cachedRouteTo now target).2
  | .borderNodes now excluded => (e.borderNodes now excluded).2
  | .takeOutgoing => e.takeOutgoing.2
  | .takeIncoming => e.takeIncoming.2

inductive Reachable (S : Suite) : Engine → Prop
  | start (settings : Settings) (identity : Identity) (random : Random) : Reachable S (Engine.start S settings identity random)
  | call (e : Engine) (c : Call) (reachable : Reachable S e) : Reachable S (e.call S c)

inductive Input where
  | send (now : UInt64) (target : Identifier) (payload : Bytes)
  | receive (now : UInt64) (bytes : Bytes)

def Input.call : Input → Call
  | .send now target payload => .send now target payload
  | .receive now bytes => .receive now bytes

def Input.loads : Input → List (Identifier × Bytes)
  | .send _ target payload => if Kind.ofBytes? payload = none then [(target, payload)] else []
  | .receive .. => []

def Input.heard : Input → List Bytes
  | .send .. => []
  | .receive _ bytes => [bytes]

-- The packets that come of an input, put on the outgoing queue or returned, and the engine after it.
def take (S : Suite) (e : Engine) : Input → List Packet × Engine
  | .send now target payload =>
    ((e.send S now target payload).2.outgoing.drop e.outgoing.length, (e.send S now target payload).2)
  | .receive now bytes => e.receive S now bytes

def takeAll (S : Suite) : List Input → Engine → List Packet × Engine
  | [], e => ([], e)
  | input :: inputs, e =>
    ((e.take S input).1 ++ (takeAll S inputs (e.take S input).2).1, (takeAll S inputs (e.take S input).2).2)

-- What is true of every engine that can be reached: its routes are proper and lead to devices whose keys
-- are recorded, and no parked payload looks like a datagram.
structure Orderly (e : Engine) : Prop where
  owner : e.table.owner = e.id
  zone : e.table.book.All (Route.Proper e.id)
  discovered : e.cache.book.All (Route.Proper e.id)
  zoneKeys : ∀ d, e.table.book.bucket d ≠ [] → ∃ key, e.keyring.find? d = some key
  discoveredKeys : ∀ d, e.cache.book.bucket d ≠ [] → ∃ key, e.keyring.find? d = some key
  untagged : ∀ target, ∀ payload ∈ e.parkedFor target, Kind.ofBytes? payload = none

theorem receive_within_innermost (S : Suite) (now : UInt64) (layers : Nat) (bytes : Bytes) (e : Engine) :
    e.receiveWithin S now layers bytes = match e.innermost? S layers bytes with
      | none => ([], e)
      | some (.payload payload) => ([], { e with incoming := e.incoming ++ [payload] })
      | some (.datagram d) => e.handle S now d := by
  induction layers generalizing bytes with
  | zero => rfl
  | succ layers ih =>
      rw [receiveWithin, innermost?]
      cases Kind.ofBytes? bytes with
      | none => rfl
      | some kind =>
          dsimp only
          cases Wire.decode bytes with
          | error fault => rfl
          | ok d =>
              dsimp only
              cases e.unwrap? S d with
              | some content => exact ih content
              | none => rfl

theorem receive_content (S : Suite) (now : UInt64) (bytes : Bytes) (e : Engine) :
    e.receive S now bytes = match e.content? S bytes with
      | none => ([], e)
      | some (.payload payload) => ([], { e with incoming := e.incoming ++ [payload] })
      | some (.datagram d) => e.handle S now d := receive_within_innermost S now _ bytes e

theorem innermost_payload {S : Suite} {layers : Nat} {bytes payload : Bytes} {e : Engine}
    (found : e.innermost? S layers bytes = some (.payload payload)) : Kind.ofBytes? payload = none := by
  induction layers generalizing bytes with
  | zero => cases found
  | succ layers ih =>
      rw [innermost?] at found
      cases tagged : Kind.ofBytes? bytes with
      | none =>
          rw [tagged] at found
          cases found
          exact tagged
      | some kind =>
          rw [tagged] at found
          dsimp only at found
          cases read : Wire.decode bytes with
          | error fault =>
              rw [read] at found
              cases found
          | ok d =>
              rw [read] at found
              dsimp only at found
              cases opened : e.unwrap? S d with
              | none =>
                  rw [opened] at found
                  cases found
              | some content =>
                  rw [opened] at found
                  exact ih found

variable {S : Suite} {e e' : Engine} {now : UInt64}

theorem acknowledgement_cases (S : Suite) (now : UInt64) (a : Acknowledgement) (e : Engine) :
    (∃ target ring, e.Accepts S a target ring ∧ e.handleAcknowledgement S now a =
      (e.accepted now a target ring).routeAll S now target (e.parkedFor target)) ∨
    (∃ previous, Route.before? e.id a.route = some previous ∧
      e.handleAcknowledgement S now a = sent (e.forward S now previous (.acknowledgement a))) ∨
    e.handleAcknowledgement S now a = ([], e) := by
  unfold handleAcknowledgement
  split
  · exact Or.inr (Or.inr rfl)
  · rename_i loopFree
    split
    · rename_i first
      cases last : a.target? with
      | none => exact Or.inr (Or.inr rfl)
      | some target =>
          dsimp only
          unfold accept
          cases valid : a.targetKey.validate S with
          | error fault => exact Or.inr (Or.inr rfl)
          | ok key =>
              obtain ⟨_, rfl⟩ := PublicKey.validate_ok_iff.mp valid
              dsimp only
              cases recorded : e.keyring.record target a.targetKey with
              | error fault => exact Or.inr (Or.inr rfl)
              | ok ring => exact Or.inl ⟨target, ring, ⟨Classical.not_not.mp loopFree, first, last, valid, recorded⟩, rfl⟩
    · cases back : Route.before? e.id a.route with
      | none => exact Or.inr (Or.inr rfl)
      | some previous => exact Or.inr (Or.inl ⟨previous, rfl, rfl⟩)

theorem accepts_handled {a : Acknowledgement} {target : Identifier} {ring : Keyring} (accepts : e.Accepts S a target ring) :
    e.handleAcknowledgement S now a = (e.accepted now a target ring).routeAll S now target (e.parkedFor target) := by
  rw [handleAcknowledgement, if_neg (not_not_intro accepts.loopFree), if_pos accepts.first, accepts.last]
  dsimp only
  rw [accept, accepts.valid]
  dsimp only
  rw [accepts.recorded]
  rfl

theorem orderly_start (S : Suite) (settings : Settings) (identity : Identity) (random : Random) :
    (Engine.start S settings identity random).Orderly where
  owner := rfl
  zone := RouteBook.all_empty _
  discovered := RouteBook.all_empty _
  zoneKeys _ filled := absurd rfl filled
  discoveredKeys _ filled := absurd rfl filled
  untagged _ _ member := nomatch member

theorem orderly_settles (orderly : e.Orderly) (settles : e.Settles now e') : e'.Orderly where
  owner := settles.table.owner.trans (orderly.owner.trans settles.id.symm)
  zone := by
    rw [settles.id]
    exact settles.table.book.all orderly.zone
  discovered := by
    rw [settles.id]
    exact settles.cache.all orderly.discovered
  zoneKeys d filled := by
    obtain ⟨r, member⟩ := List.exists_mem_of_ne_nil _ filled
    rw [settles.keyring]
    exact orderly.zoneKeys d (List.ne_nil_of_mem (settles.table.book.subset member))
  discoveredKeys d filled := by
    obtain ⟨r, member⟩ := List.exists_mem_of_ne_nil _ filled
    rw [settles.keyring]
    exact orderly.discoveredKeys d (List.ne_nil_of_mem (settles.cache.subset member))
  untagged target := settles.parked_for target ▸ orderly.untagged target

theorem orderly_keyring (orderly : e.Orderly) {id : Identifier} {key : PublicKey} {ring : Keyring}
    (recorded : e.keyring.record id key = .ok ring) : ({ e with keyring := ring } : Engine).Orderly :=
  have keeps := (Keyring.record_ok recorded).2
  { orderly with
    zoneKeys := fun d filled => (orderly.zoneKeys d filled).imp (keeps d)
    discoveredKeys := fun d filled => (orderly.discoveredKeys d filled).imp (keeps d) }

theorem orderly_learn (orderly : e.Orderly) (now : UInt64) {a : Advertisement} (last : a.route.getLast? = some e.id)
    {key : PublicKey} (known : e.keyring.find? a.origin = some key) :
    ({ e with table := (e.table.learn a now).2 } : Engine).Orderly := by
  unfold ZoneTable.learn
  dsimp only
  split
  · rename_i taken
    have nonempty : a.route ≠ [] := fun empty => by simp [empty] at last
    have proper : Route.Proper e.id a.origin (ZoneTable.routeTo a) := by
      refine ⟨⟨ZoneTable.route_to_head a e.id last, ZoneTable.route_to_last a⟩, taken.2, ?_⟩
      rw [ZoneTable.routeTo, List.length_append, List.length_reverse]
      exact Nat.succ_le_succ (List.length_pos_iff.mpr nonempty)
    refine { orderly with zone := RouteBook.all_store orderly.zone _ _ _ proper, zoneKeys := fun d filled => ?_ }
    rcases RouteBook.bucket_of_store filled with rfl | before
    · exact ⟨key, known⟩
    · exact orderly.zoneKeys d before
  · exact orderly

theorem orderly_remember (orderly : e.Orderly) (now : UInt64) {d : Identifier} {route : Route}
    (joins : Joins e.id d route) {key : PublicKey} (known : e.keyring.find? d = some key) :
    ({ e with cache := (e.cache.learn d route now).2 } : Engine).Orderly := by
  unfold RouteCache.learn
  split
  · rename_i taken
    have proper : Route.Proper e.id d route := ⟨joins, taken.2, taken.1⟩
    refine { orderly with
      discovered := RouteBook.all_store orderly.discovered _ _ _ proper
      discoveredKeys := fun k filled => ?_ }
    rcases RouteBook.bucket_of_store filled with rfl | before
    · exact ⟨key, known⟩
    · exact orderly.discoveredKeys k before
  · exact orderly

theorem orderly_park (orderly : e.Orderly) (target : Identifier) {payload : Bytes} (untagged : Kind.ofBytes? payload = none) :
    (e.park target payload).Orderly := by
  refine { orderly with untagged := fun k p member => ?_ }
  rw [parked_for_park] at member
  split at member
  · rcases List.mem_append.mp member with before | here
    · exact orderly.untagged target p before
    · exact List.mem_singleton.mp here ▸ untagged
  · exact orderly.untagged k p member

theorem orderly_accepted (orderly : e.Orderly) (now : UInt64) {a : Acknowledgement} {target : Identifier} {ring : Keyring}
    (accepts : e.Accepts S a target ring) : (e.accepted now a target ring).Orderly := by
  have known := (Keyring.record_ok accepts.recorded).1
  have joins : Joins e.id target a.route := ⟨accepts.first, accepts.last⟩
  refine { orderly_remember (orderly_keyring orderly accepts.recorded) now joins known with untagged := fun k p member => ?_ }
  change p ∈ parkedFor k { e with parked := e.parked.erase target } at member
  rw [parked_for_erase] at member
  split at member
  · cases member
  · exact orderly.untagged k p member

theorem orderly_change (change : Change S e e') (orderly : e.Orderly) : e'.Orderly := by
  cases change with
  | settle settles => exact orderly_settles orderly settles
  | search | deliver | outgoing | collect => exact { orderly with }
  | park target payload untagged => exact orderly_park orderly target untagged
  | announce now a ring fresh recorded =>
      have last : (a.route ++ [e.id]).getLast? = some e.id := List.getLast?_concat
      rcases recorded with taken | ⟨rfl, fault, refused⟩
      · exact orderly_learn (orderly_keyring orderly taken) now last (Keyring.record_ok taken).1
      · obtain ⟨known, found⟩ := Keyring.record_error refused
        exact orderly_learn orderly now last found
  | answer now d requester ring first recorded =>
      refine orderly_remember (orderly_keyring orderly recorded) now ⟨?_, ?_⟩ (Keyring.record_ok recorded).1
      · rw [List.reverse_append]
        rfl
      · have front : d.route.head? = some requester := first
        rw [List.getLast?_reverse, List.head?_append, front]
        rfl
  | accept now a target ring accepts => exact orderly_accepted orderly now accepts

theorem orderly_changes (changes : Changes S e e') (orderly : e.Orderly) : e'.Orderly := by
  induction changes with
  | refl => exact orderly
  | tail _ change ih => exact orderly_change change ih

-- The operations of a device in terms of the changes above.

theorem changes_settles (settles : e.Settles now e') : Changes S e e' := .single (.settle settles)

theorem discover_changes (now : UInt64) (target : Identifier) (e : Engine) : Changes S e (e.discover S now target).2 := by
  obtain ⟨e₁, settles, same | searching⟩ := discover_settles S now target e
  · rw [same]
    exact changes_settles settles
  · rw [searching]
    exact (changes_settles settles).tail (.search target now)

theorem route_changes (now : UInt64) (target : Identifier) {payload : Bytes} (untagged : Kind.ofBytes? payload = none)
    (e : Engine) : Changes S e (e.route S now target payload).2 := by
  have parks : ∀ {e₂ : Engine}, e.Settles now e₂ → Changes S e (e₂.park target payload) :=
    fun settles => (changes_settles settles).tail (.park target payload untagged)
  have routed := route_routed S now target payload e
  generalize e.route S now target payload = result at routed ⊢
  cases routed with
  | direct packet e₁ direct first => exact changes_settles direct
  | interZone packet e₁ e₂ direct zone first second => exact changes_settles (direct.trans zone)
  | joined e₁ e₂ direct zone first second busy => exact parks (direct.trans zone)
  | searched e₁ e₂ direct zone first second idle found e₃ third =>
      have search := discover_changes (S := S) now target (e₂.park target payload)
      rw [third] at search
      exact (parks (direct.trans zone)).trans search

theorem route_all_changes (now : UInt64) (target : Identifier) (payloads : List Bytes)
    (untagged : ∀ payload ∈ payloads, Kind.ofBytes? payload = none) (e : Engine) :
    Changes S e (e.routeAll S now target payloads).2 := by
  induction payloads generalizing e with
  | nil => exact .refl
  | cons payload payloads ih =>
      have first := route_changes (S := S) now target (untagged payload List.mem_cons_self) e
      have rest := ih fun p member => untagged p (List.mem_cons_of_mem _ member)
      rw [routeAll]
      rcases routed : e.route S now target payload with ⟨fault | ⟨outcome, packets⟩, e₁⟩ <;> rw [routed] at first
      · exact first.trans (rest e₁)
      · exact first.trans (rest e₁)

theorem send_changes (now : UInt64) (target : Identifier) (payload : Bytes) (e : Engine) :
    Changes S e (e.send S now target payload).2 := by
  unfold send
  cases untagged : Kind.ofBytes? payload with
  | some kind => exact .refl
  | none =>
      have routed := route_changes (S := S) now target untagged e
      dsimp only
      rcases found : e.route S now target payload with ⟨fault | ⟨outcome, packets⟩, e₁⟩ <;> rw [found] at routed
      · exact routed
      · exact routed.tail (.outgoing _)

theorem advertisement_learned (now : UInt64) {a : Advertisement} {e : Engine}
    (fresh : ¬ (a.origin = e.id ∨ e.id ∈ a.route ∨ a.origin ∈ a.route ∨ ¬ Route.LoopFree a.route)) :
    ∃ ring, (e.keyring.record a.origin a.key = .ok ring ∨
        ring = e.keyring ∧ ∃ fault, e.keyring.record a.origin a.key = .error fault) ∧
      (e.handleAdvertisement now a).2 =
        { e with table := (e.table.learn { a with route := a.route ++ [e.id] } now).2, keyring := ring } := by
  unfold handleAdvertisement
  rw [if_neg fresh]
  dsimp only
  cases recorded : e.keyring.record a.origin a.key with
  | error fault => exact ⟨e.keyring, Or.inr ⟨rfl, fault, rfl⟩, rfl⟩
  | ok ring =>
      refine ⟨ring, Or.inl rfl, ?_⟩
      dsimp only
      split
      · rfl
      · split <;> rfl

theorem advertisement_cases (now : UInt64) (a : Advertisement) (e : Engine) :
    (e.handleAdvertisement now a).2 = e ∨
      ¬ (a.origin = e.id ∨ e.id ∈ a.route ∨ a.origin ∈ a.route ∨ ¬ Route.LoopFree a.route) ∧
        ∃ ring, (e.keyring.record a.origin a.key = .ok ring ∨
            ring = e.keyring ∧ ∃ fault, e.keyring.record a.origin a.key = .error fault) ∧
          (e.handleAdvertisement now a).2 =
            { e with table := (e.table.learn { a with route := a.route ++ [e.id] } now).2, keyring := ring } := by
  by_cases dropped : a.origin = e.id ∨ e.id ∈ a.route ∨ a.origin ∈ a.route ∨ ¬ Route.LoopFree a.route
  · unfold handleAdvertisement
    rw [if_pos dropped]
    exact Or.inl rfl
  · exact Or.inr ⟨dropped, advertisement_learned now dropped⟩

theorem handle_advertisement_changes (now : UInt64) (a : Advertisement) (e : Engine) :
    Changes S e (e.handleAdvertisement now a).2 := by
  rcases advertisement_cases now a e with dropped | ⟨fresh, ring, recorded, learned⟩
  · rw [dropped]
    exact .refl
  · rw [learned]
    exact .single (.announce now a ring fresh recorded)

theorem discovery_cases (S : Suite) (now : UInt64) (d : Discovery) (e : Engine) :
    e.Settles now (e.handleDiscovery S now d).2 ∨
      d.destination = e.id ∧ ∃ requester ring, d.requester? = some requester ∧ e.keyring.record requester d.origin = .ok ring ∧
        Settles now { e with keyring := ring, cache := (e.cache.learn requester (d.route ++ [e.id]).reverse now).2 }
          (e.handleDiscovery S now d).2 := by
  unfold handleDiscovery
  split
  · exact Or.inl (settles_refl now e)
  · split
    · rename_i asked
      unfold answer
      split
      · rename_i requester previous first _
        cases recorded : e.keyring.record requester d.origin with
        | error fault => exact Or.inl (settles_refl now e)
        | ok ring =>
            exact Or.inr ⟨asked, requester, ring, first, recorded, sent_settles (forward_settles S now previous _ _)⟩
      · exact Or.inl (settles_refl now e)
    · have looked := settles_lookup now e d.destination
      dsimp only
      rcases found : e.table.lookup d.destination now with ⟨_ | route, table⟩ <;> rw [found] at looked
      · exact Or.inl (looked.trans (spread_settles S now _ _))
      · have passed := forward_settles S now d.destination (.discovery { d with route := d.route ++ [e.id] }) { e with table }
        dsimp only
        split <;> (rename_i same; rw [same] at passed)
        · exact Or.inl (looked.trans passed)
        · exact Or.inl ((looked.trans passed).trans (spread_settles S now _ _))

theorem handle_discovery_changes (now : UInt64) (d : Discovery) (e : Engine) : Changes S e (e.handleDiscovery S now d).2 := by
  rcases discovery_cases S now d e with settles | ⟨_, requester, ring, first, recorded, settles⟩
  · exact changes_settles settles
  · exact .trans (.single (.answer now d requester ring first recorded)) (changes_settles settles)

theorem handle_acknowledgement_changes (orderly : e.Orderly) (now : UInt64) (a : Acknowledgement) :
    Changes S e (e.handleAcknowledgement S now a).2 := by
  rcases acknowledgement_cases S now a e with ⟨target, ring, accepts, taken⟩ | ⟨previous, _, passed⟩ | dropped
  · rw [taken]
    exact .trans (.single (.accept now a target ring accepts))
      (route_all_changes now target (e.parkedFor target) (orderly.untagged target) _)
  · rw [passed]
    exact changes_settles (sent_settles (forward_settles S now previous _ e))
  · rw [dropped]
    exact .refl

theorem handle_message_settles (S : Suite) (now : UInt64) (m : Message) (e : Engine) :
    e.Settles now (e.handleMessage S now m).2 := by
  unfold handleMessage
  split
  · split
    · exact relay_settles S now m _ e
    · exact settles_refl now e
  · exact settles_refl now e

theorem receive_changes (orderly : e.Orderly) (now : UInt64) (bytes : Bytes) : Changes S e (e.receive S now bytes).2 := by
  rw [receive_content]
  rcases found : e.content? S bytes with _ | payload | d
  · exact .refl
  · exact .single (.deliver payload (innermost_payload found))
  · cases d with
    | advertisement a => exact handle_advertisement_changes now a e
    | discovery d => exact handle_discovery_changes now d e
    | acknowledgement a => exact handle_acknowledgement_changes orderly now a
    | failure _ => exact .refl
    | message m => exact changes_settles (handle_message_settles S now m e)

theorem route_to_settles (now : UInt64) (target : Identifier) (e : Engine) : e.Settles now (e.routeTo now target).2 := by
  have looked := settles_lookup now e target
  unfold routeTo
  rcases found : e.table.lookup target now with ⟨_ | route, table⟩ <;> rw [found] at looked <;> exact looked

theorem cached_route_to_settles (now : UInt64) (target : Identifier) (e : Engine) :
    e.Settles now (e.cachedRouteTo now target).2 := by
  have looked := settles_cached now e target
  unfold cachedRouteTo
  rcases found : e.cache.lookup target now with ⟨_ | route, cache⟩ <;> rw [found] at looked <;> exact looked

theorem call_changes (orderly : e.Orderly) (c : Call) : Changes S e (e.call S c) := by
  cases c with
  | send now target payload => exact send_changes now target payload e
  | receive now bytes => exact receive_changes orderly now bytes
  | discover now target => exact discover_changes now target e
  | sendDirect now target payload => exact changes_settles (send_direct_settles S now target payload e)
  | routeTo now target => exact changes_settles (route_to_settles now target e)
  | cachedRouteTo now target => exact changes_settles (cached_route_to_settles now target e)
  | borderNodes now excluded => exact changes_settles (settles_border_nodes now e excluded)
  | takeOutgoing => exact .single (.outgoing [])
  | takeIncoming => exact .single .collect

theorem reachable_orderly (reachable : Reachable S e) : e.Orderly := by
  induction reachable with
  | start settings identity random => exact orderly_start S settings identity random
  | call e c _ orderly => exact orderly_changes (call_changes orderly c) orderly

-- What an engine never gives up: who it is, how it is set up, and the keys it has recorded.
structure Keeps (e e' : Engine) : Prop where
  identity : e'.identity = e.identity
  settings : e'.settings = e.settings
  keys : ∀ id key, e.keyring.find? id = some key → e'.keyring.find? id = some key

theorem change_keeps (change : Change S e e') : e.Keeps e' := by
  cases change with
  | settle settles => exact ⟨settles.identity, settles.settings, fun id key found => settles.keyring ▸ found⟩
  | search | park | deliver | outgoing | collect => exact ⟨rfl, rfl, fun _ _ found => found⟩
  | announce now a ring _ recorded =>
      rcases recorded with taken | ⟨rfl, _⟩
      · exact ⟨rfl, rfl, (Keyring.record_ok taken).2⟩
      · exact ⟨rfl, rfl, fun _ _ found => found⟩
  | answer now d requester ring _ recorded => exact ⟨rfl, rfl, (Keyring.record_ok recorded).2⟩
  | accept now a target ring accepts => exact ⟨rfl, rfl, (Keyring.record_ok accepts.recorded).2⟩

theorem keeps_refl (e : Engine) : e.Keeps e := ⟨rfl, rfl, fun _ _ found => found⟩

theorem Keeps.trans {e'' : Engine} (first : e.Keeps e') (second : e'.Keeps e'') : e.Keeps e'' :=
  ⟨second.identity.trans first.identity, second.settings.trans first.settings,
    fun id key found => second.keys id key (first.keys id key found)⟩

theorem changes_keeps (changes : Changes S e e') : e.Keeps e' := by
  induction changes with
  | refl => exact keeps_refl e
  | tail _ change ih => exact ih.trans (change_keeps change)

theorem take_call (S : Suite) (e : Engine) (input : Input) : (e.take S input).2 = e.call S input.call := by
  cases input <;> rfl

theorem take_changes (orderly : e.Orderly) (input : Input) : Changes S e (e.take S input).2 :=
  take_call S e input ▸ call_changes orderly input.call

theorem take_all_changes (orderly : e.Orderly) (inputs : List Input) : Changes S e (e.takeAll S inputs).2 := by
  induction inputs generalizing e with
  | nil => exact .refl
  | cons input inputs ih =>
      have first := take_changes (S := S) orderly input
      exact first.trans (ih (orderly_changes first orderly))

theorem take_all_reachable (reachable : e.Reachable S) (inputs : List Input) : (e.takeAll S inputs).2.Reachable S := by
  induction inputs generalizing e with
  | nil => exact reachable
  | cons input inputs ih => exact ih (take_call S e input ▸ .call e input.call reachable)

end Engine
end ZoneRouting
