import ZoneRouting.Proofs.Engine.Dispatch
import ZoneRouting.Proofs.Engine.Flush

set_option autoImplicit false

namespace ZoneRouting

namespace TimedRoute

theorem filter_live {now later : UInt64} (before : now ≤ later) (routes : List TimedRoute) :
    (routes.filter (Live now ·)).filter (Live later ·) = routes.filter (Live later ·) := by
  rw [List.filter_filter]
  refine List.filter_congr fun r _ => ?_
  by_cases live : Live later r
  · have earlier : Live now r := UInt64.le_trans before live
    rw [decide_eq_true live, decide_eq_true earlier]
    rfl
  · rw [decide_eq_false live]
    rfl

theorem shortest_filter {routes : List TimedRoute} {best : TimedRoute} (keep : TimedRoute → Bool)
    (found : shortest? routes = some best) (kept : keep best = true) : shortest? (routes.filter keep) = some best := by
  induction routes generalizing best with
  | nil => cases found
  | cons first rest ih =>
      rw [shortest?] at found
      cases tail : shortest? rest with
      | none =>
          rw [tail] at found
          cases found
          rw [shortest_none tail, List.filter_cons_of_pos kept]
          rfl
      | some other =>
          rw [tail] at found
          dsimp only at found
          split at found <;> cases found
          · rename_i less
            have later := ih tail kept
            rw [List.filter_cons]
            split
            · rw [shortest?, later]
              exact if_pos less
            · exact later
          · rename_i least
            rw [List.filter_cons_of_pos kept, shortest?]
            cases left : shortest? (rest.filter keep) with
            | none => rfl
            | some r =>
                have member := (List.mem_filter.mp (shortest_some left).1).1
                have longer := Nat.le_trans (Nat.not_lt.mp least) ((shortest_some tail).2 r member)
                exact if_neg (Nat.not_lt.mpr longer)

end TimedRoute

namespace RouteBook

-- No route to a destination has come in that is usable at that time, and none has gone out.
def Quiet (now : UInt64) (d : Identifier) (book book' : RouteBook) : Prop :=
  (book'.bucket d).filter (TimedRoute.Live now ·) = (book.bucket d).filter (TimedRoute.Live now ·)

variable {now later : UInt64} {book book' book'' : RouteBook} {d k : Identifier} {route : Route}

theorem Quiet.trans (first : book.Quiet now d book') (second : book'.Quiet now d book'') : book.Quiet now d book'' :=
  Eq.trans second first

theorem Prunes.quiet (prunes : book.Prunes now book') (d : Identifier) (after : now ≤ later) : book.Quiet later d book' := by
  rcases prunes.bucket d with kept | gone
  · exact congrArg (List.filter _) kept
  · rw [Quiet, gone, TimedRoute.filter_live after]

theorem quiet_store (later : UInt64) (book : RouteBook) (other : k ≠ d) (hops : Route) (validUntil : UInt64) :
    book.Quiet later k (book.store d hops validUntil) := by
  rw [Quiet, bucket_store, if_neg other]

theorem Quiet.lookup (quiet : book.Quiet now d book') : (book'.lookup d now).1 = (book.lookup d now).1 := by
  rw [lookup_shortest, lookup_shortest, quiet]

theorem lookup_before (before : now ≤ later) (found : (book.lookup d later).1 = some route) :
    ∃ best, (book.lookup d now).1 = some best ∧ best.length ≤ route.length := by
  obtain ⟨⟨r, member, same, live⟩, _⟩ := lookup_some found
  have alive : TimedRoute.Live now r := UInt64.le_trans before live
  cases earlier : (book.lookup d now).1 with
  | none => exact absurd alive (lookup_none earlier r member)
  | some best => exact ⟨best, rfl, same ▸ (lookup_some earlier).2 r member alive⟩

theorem lookup_lasts (before : now ≤ later) (found : (book.lookup d now).1 = some route) :
    (∃ r ∈ book.bucket d, r.hops = route ∧ r.validUntil < later) ∨ (book.lookup d later).1 = some route := by
  rw [lookup_shortest] at found ⊢
  obtain ⟨r, best, rfl⟩ := Option.map_eq_some_iff.mp found
  have member := (List.mem_filter.mp (TimedRoute.shortest_some best).1).1
  by_cases live : TimedRoute.Live later r
  · have still := TimedRoute.shortest_filter (TimedRoute.Live later ·) best (decide_eq_true live)
    rw [TimedRoute.filter_live before] at still
    rw [still]
    exact Or.inr rfl
  · exact Or.inl ⟨r, member, rfl, UInt64.not_le.mp live⟩

end RouteBook

namespace Engine

def Input.time : Input → UInt64
  | .send now .. => now
  | .receive now _ => now

def steps (S : Suite) : List Input → Engine → List (Engine × Input)
  | [], _ => []
  | input :: inputs, e => (e, input) :: steps S inputs (e.take S input).2

-- The border node by which the device would send to another one beyond its zone.
def gateway (now : UInt64) (target : Identifier) (e : Engine) : Option Identifier :=
  (e.cache.lookup target now).1.bind (·[1]?)

-- A search for the device is answered, upon which the payloads that wait for it are sent.
def Answers (S : Suite) (target : Identifier) (e : Engine) : Input → Prop
  | .send .. => False
  | .receive _ bytes => ∃ a ring, e.content? S bytes = some (.datagram (.acknowledgement a)) ∧ e.Accepts S a target ring

inductive Fails (S : Suite) (target : Identifier) (payload : Bytes) (e : Engine) : Input → Prop
  | handed (now : UInt64) (untagged : Kind.ofBytes? payload = none)
      (unsent : ∀ outcome, (e.send S now target payload).1 = .ok outcome → outcome = .queued) :
      Fails S target payload e (.send now target payload)
  | answered (input : Input) (answers : e.Answers S target input) (left : payload ∈ (e.take S input).2.parkedFor target) :
      Fails S target payload e input

-- A way to a device is learned otherwise: the device announces itself, or its border node does, or it
-- searches for this one.
inductive Shows (S : Suite) (target : Identifier) (border : Option Identifier) (e : Engine) : Input → Prop
  | announcement (now : UInt64) (bytes : Bytes) (a : Advertisement)
      (content : e.content? S bytes = some (.datagram (.advertisement a)))
      (fresh : ¬ (a.origin = e.id ∨ e.id ∈ a.route ∨ a.origin ∈ a.route ∨ ¬ Route.LoopFree a.route))
      (origin : a.origin = target ∨ some a.origin = border) : Shows S target border e (.receive now bytes)
  | search (now : UInt64) (bytes : Bytes) (d : Discovery) (ring : Keyring)
      (content : e.content? S bytes = some (.datagram (.discovery d)))
      (asked : d.destination = e.id) (first : d.requester? = some target)
      (recorded : e.keyring.record target d.origin = .ok ring) : Shows S target border e (.receive now bytes)

-- A payload could not be sent at some input, no answer has had it tried again since, and a way to its
-- destination has come up without one: it was learned otherwise, or the discovered route that the device
-- preferred to others then is past its deadline.
structure Bypassed (S : Suite) (now : UInt64) (target : Identifier) (payload : Bytes) (input : Input) (after : List Input)
    (e : Engine) : Prop where
  fails : e.Fails S target payload input
  untried : ∀ step ∈ (e.take S input).2.steps S after, ¬ step.1.Answers S target step.2
  way : (∃ step ∈ (e.take S input).2.steps S after,
      step.1.Shows S target ((e.take S input).2.gateway input.time target) step.2) ∨
    ∃ r ∈ (e.take S input).2.cache.book.bucket target,
      ((e.take S input).2.cache.lookup target input.time).1 = some r.hops ∧ r.validUntil < now

-- Of the routes that matter for sending to a device, none has come in that is usable at that time.
structure Quiet (now : UInt64) (target : Identifier) (border : Option Identifier) (e e' : Engine) : Prop where
  zone : ∀ d, d = target ∨ some d = border → e.table.book.Quiet now d e'.table.book
  cache : e.cache.book.Quiet now target e'.cache.book

variable {S : Suite} {now later : UInt64} {e e' e'' : Engine} {target : Identifier} {payload : Bytes} {octets : Nat}
  {border : Option Identifier} {input : Input}

theorem quiet_refl (now : UInt64) (target : Identifier) (border : Option Identifier) (e : Engine) :
    e.Quiet now target border e := ⟨fun _ _ => rfl, rfl⟩

theorem Quiet.trans (first : e.Quiet now target border e') (second : e'.Quiet now target border e'') :
    e.Quiet now target border e'' :=
  ⟨fun d near => (first.zone d near).trans (second.zone d near), first.cache.trans second.cache⟩

theorem Calm.quiet (calm : e.Calm now e') (after : now ≤ later) : e.Quiet later target border e' :=
  ⟨fun d _ => calm.settles.table.book.quiet d after, calm.settles.cache.quiet target after⟩

theorem Settles.quiet (settles : e.Settles now e') (after : now ≤ later) : e.Quiet later target border e' :=
  (calm_settles settles).quiet after

theorem zone_learn_quiet (later now : UInt64) (a : Advertisement) (table : ZoneTable) {d : Identifier}
    (other : d ≠ a.origin) : table.book.Quiet later d (table.learn a now).2.book := by
  unfold ZoneTable.learn
  dsimp only
  split
  · exact RouteBook.quiet_store later table.book other _ _
  · rfl

theorem cache_learn_quiet (later now : UInt64) (route : Route) (cache : RouteCache) {d k : Identifier} (other : d ≠ k) :
    cache.book.Quiet later d (cache.learn k route now).2.book := by
  unfold RouteCache.learn
  split
  · exact RouteBook.quiet_store later cache.book other _ _
  · rfl

theorem take_quiet (orderly : e.Orderly) (input : Input) (after : input.time ≤ later)
    (unanswered : ¬ e.Answers S target input) (unshown : ¬ e.Shows S target border input) : e.Quiet later target border (e.take S input).2 := by
  cases input with
  | send now k payload =>
      cases tagged : Kind.ofBytes? payload with
      | some kind =>
          rw [take_refused S now k e tagged]
          exact quiet_refl later target border e
      | none =>
          obtain ⟨_, _, _, ledger⟩ := route_ledger (S := S) now k [] orderly tagged
          obtain ⟨zone, cache⟩ : e.Quiet later target border _ := ledger.calm.quiet after
          rw [take, send_route S now k tagged e]
          exact ⟨zone, cache⟩
  | receive now bytes =>
      rw [take, receive_content]
      rcases content : e.content? S bytes with _ | payload | d
      · exact quiet_refl later target border e
      · exact ⟨fun _ _ => rfl, rfl⟩
      · cases d with
        | advertisement a =>
            dsimp only [handle]
            rcases advertisement_cases now a e with dropped | ⟨fresh, ring, _, learned⟩
            · rw [dropped]
              exact quiet_refl later target border e
            · rw [learned]
              refine ⟨fun d near => zone_learn_quiet later now _ e.table ?_, rfl⟩
              rintro rfl
              exact unshown (.announcement now bytes a content fresh near)
        | discovery d =>
            dsimp only [handle]
            rcases discovery_cases S now d e with settles | ⟨asked, requester, ring, first, recorded, settles⟩
            · exact settles.quiet after
            · have other : target ≠ requester := by
                rintro rfl
                exact unshown (.search now bytes d ring content asked first recorded)
              have learned : e.Quiet later target border
                  { e with keyring := ring, cache := (e.cache.learn requester (d.route ++ [e.id]).reverse now).2 } :=
                ⟨fun _ _ => rfl, cache_learn_quiet later now _ e.cache other⟩
              exact learned.trans (settles.quiet after)
        | acknowledgement a =>
            dsimp only [handle]
            rcases acknowledgement_cases S now a e with ⟨k, ring, accepts, taken⟩ | ⟨previous, _, passed⟩ | dropped
            · have other : target ≠ k := by
                rintro rfl
                exact unanswered ⟨a, ring, content, accepts⟩
              have learned : e.Quiet later target border (e.accepted now a k ring) :=
                ⟨fun _ _ => rfl, cache_learn_quiet later now _ e.cache other⟩
              obtain ⟨_, _, _, ledger⟩ := route_all_ledger (S := S) now k [bytes] (e.parkedFor k)
                (orderly_accepted orderly now accepts) (orderly.untagged k)
              rw [taken]
              exact learned.trans (ledger.calm.quiet after)
            · rw [passed]
              exact (sent_settles (forward_settles S now previous _ e)).quiet after
            · rw [dropped]
              exact quiet_refl later target border e
        | failure _ => exact quiet_refl later target border e
        | message m => exact (handle_message_settles S now m e).quiet after

theorem take_all_quiet (orderly : e.Orderly) (inputs : List Input) (after : ∀ input ∈ inputs, input.time ≤ later)
    (unanswered : ∀ step ∈ e.steps S inputs, ¬ step.1.Answers S target step.2)
    (unshown : ∀ step ∈ e.steps S inputs, ¬ step.1.Shows S target border step.2) :
    e.Quiet later target border (e.takeAll S inputs).2 := by
  induction inputs generalizing e with
  | nil => exact quiet_refl later target border e
  | cons input inputs ih =>
      rw [steps, List.forall_mem_cons] at unanswered unshown
      rw [List.forall_mem_cons] at after
      have first := take_quiet orderly input after.1 unanswered.1 unshown.1
      exact first.trans (ih (orderly_changes (take_changes (S := S) orderly input) orderly) after.2 unanswered.2 unshown.2)

theorem sealable_before {hops hops' : Nat} (keeps : e.Keeps e') (known : ∃ key, e.keyring.find? target = some key)
    (shorter : hops ≤ hops') (able : e'.Sealable S target octets hops') : e.Sealable S target octets hops := by
  obtain ⟨key, found⟩ := known
  obtain ⟨⟨key', found', shared⟩, fits⟩ := able.mono (Nat.le_refl octets) shorter
  cases (keeps.keys target key found).symm.trans found'
  exact ⟨⟨key, found, keeps.identity ▸ shared⟩, fits⟩

theorem inside_before (orderly : e.Orderly) (keeps : e.Keeps e') (before : now ≤ later)
    (quiet : e.table.book.Quiet later target e'.table.book) (inside : e'.Inside S later target octets) :
    e.Inside S now target octets := by
  obtain ⟨route, found, able⟩ := inside
  obtain ⟨best, earlier, shorter⟩ := RouteBook.lookup_before before (quiet.lookup ▸ found)
  exact ⟨best, earlier, sealable_before keeps (zone_route_known orderly earlier).2 shorter able⟩

theorem open_before (orderly : e.Orderly) (keeps : e.Keeps e') (before : now ≤ later)
    (quiet : e.Quiet later target (e.gateway now target) e') (sendable : e'.Open S later target octets) :
    e.Open S now target octets ∨
      ∃ r ∈ e.cache.book.bucket target, (e.cache.lookup target now).1 = some r.hops ∧ r.validUntil < later := by
  rcases sendable with inside | ⟨own, border, rest, found, able, inside⟩
  · exact Or.inl (Or.inl (inside_before orderly keeps before (quiet.zone target (Or.inl rfl)) inside))
  · have hit : (e.cache.book.lookup target later).1 = some (own :: border :: rest) := quiet.cache.lookup ▸ found
    obtain ⟨best, earlier, shorter⟩ := RouteBook.lookup_before before hit
    rcases RouteBook.lookup_lasts before earlier with ⟨r, member, rfl, past⟩ | lasting
    · exact Or.inr ⟨r, member, earlier, past⟩
    · cases hit.symm.trans lasting
      have chosen : (e.cache.lookup target now).1 = some (own :: border :: rest) := earlier
      have first : some border = e.gateway now target := by
        rw [gateway, chosen]
        rfl
      exact Or.inl (Or.inr ⟨own, border, rest, chosen,
        sealable_before keeps (discovered_route_known orderly chosen).2 (Nat.le_refl _) able,
        inside_before orderly keeps before (quiet.zone border (Or.inr first)) inside⟩)

theorem Parks.queued {heard : List Bytes} (parks : e.Parks S heard now target payload (e.route S now target payload))
    (untagged : Kind.ofBytes? payload = none) :
    ∀ outcome, (e.send S now target payload).1 = .ok outcome → outcome = .queued := by
  intro outcome result
  rw [send_route S now target untagged e] at result
  cases routed : (e.route S now target payload).1 with
  | error fault =>
      rw [routed] at result
      cases result
  | ok reply =>
      rw [routed] at result
      cases result
      exact (parks.errands reply.1 reply.2 routed).1

theorem send_goes_iff (now : UInt64) (target : Identifier) (payload : Bytes) (sized : S.Sized) (orderly : e.Orderly) :
    (∃ outcome, (e.send S now target payload).1 = .ok outcome ∧ outcome ≠ .queued) ↔
      Kind.ofBytes? payload = none ∧ e.Open S now target payload.length := by
  cases tagged : Kind.ofBytes? payload with
  | some kind =>
      rw [send, tagged]
      refine iff_of_false ?_ ?_
      · rintro ⟨_, ⟨⟩, _⟩
      · rintro ⟨⟨⟩, _⟩
  | none =>
      rcases sent_or_parks (S := S) now target [] orderly tagged with
        ⟨⟨⟨outcome, packet, unparked, result, _⟩, _⟩, sendable⟩ | ⟨parks, shut⟩
      · refine iff_of_true ⟨outcome, ?_, unparked⟩ ⟨rfl, sendable sized⟩
        rw [send_route S now target tagged e]
        exact congrArg (Except.map Prod.fst) result
      · refine iff_of_false ?_ fun goes => shut sized goes.2
        rintro ⟨outcome, result, unparked⟩
        exact unparked (parks.queued tagged outcome result)

theorem outgoing_open (packets : List Packet) :
    Open S now { e with outgoing := packets } target octets ↔ e.Open S now target octets :=
  open_congr ⟨rfl, rfl, fun _ _ found => found⟩ ⟨rfl, rfl, fun _ _ found => found⟩ (fun _ => rfl) fun _ => rfl

theorem send_open (now : UInt64) (target k : Identifier) (octets : Nat) (orderly : e.Orderly)
    (untagged : Kind.ofBytes? payload = none) :
    (e.send S now target payload).2.Open S now k octets ↔ e.Open S now k octets := by
  obtain ⟨_, _, _, ledger⟩ := route_ledger (S := S) now target [] orderly untagged
  rw [send_route S now target untagged e]
  exact (outgoing_open _).trans (calm_open ledger.calm)

theorem fails_shut (sized : S.Sized) (orderly : e.Orderly) (fails : e.Fails S target payload input) :
    ¬ (e.take S input).2.Open S input.time target payload.length := by
  cases fails with
  | handed now untagged unsent =>
      intro sendable
      have before := (send_open now target target payload.length orderly untagged).mp sendable
      obtain ⟨outcome, result, unparked⟩ := (send_goes_iff now target payload sized orderly).mpr ⟨untagged, before⟩
      exact unparked (unsent outcome result)
  | answered _ answers left =>
      cases input with
      | send => cases answers
      | receive now bytes =>
          obtain ⟨a, ring, content, accepts⟩ := answers
          obtain ⟨labels, sent, kept, ledger⟩ := answer_ledger now orderly content accepts
          have shut := (ledger.decided sized).2 payload (ledger.left ▸ left)
          exact fun sendable => shut ((calm_open ledger.calm).mp sendable)

theorem parked_before (orderly : e.Orderly) (parked : payload ∈ (e.take S input).2.parkedFor target) :
    payload ∈ e.parkedFor target ∧ ¬ e.Answers S target input ∨ e.Fails S target payload input := by
  by_cases answers : e.Answers S target input
  · exact Or.inr (.answered input answers parked)
  · cases input with
    | send now k p =>
        cases tagged : Kind.ofBytes? p with
        | some kind =>
            rw [take_refused S now k e tagged] at parked
            exact Or.inl ⟨parked, answers⟩
        | none =>
            rcases send_shelf S now k orderly tagged with ⟨_, shelf⟩ | ⟨⟨parks, _⟩, shelf⟩ <;> rw [take, shelf] at parked
            · exact Or.inl ⟨parked, answers⟩
            · split at parked
              · rename_i same
                subst same
                rcases List.mem_append.mp parked with waits | handed
                · exact Or.inl ⟨waits, answers⟩
                · cases List.mem_singleton.mp handed
                  exact Or.inr (.handed now tagged (parks.queued tagged))
              · exact Or.inl ⟨parked, answers⟩
    | receive now bytes =>
        rcases receive_cases S now bytes orderly with attends | ⟨a, k, ring, content, accepts, labels, sent, kept, ledger⟩
        · rw [take, parkedFor, attends.parked] at parked
          exact Or.inl ⟨parked, answers⟩
        · have other : target ≠ k := by
            rintro rfl
            exact answers ⟨a, ring, content, accepts⟩
          rw [take, ledger.parked, if_neg other, parked_accepted, if_neg other] at parked
          exact Or.inl ⟨parked, answers⟩

theorem last_try (orderly : e.Orderly) (inputs : List Input) (parked : payload ∈ (e.takeAll S inputs).2.parkedFor target) :
    (payload ∈ e.parkedFor target ∧ ∀ step ∈ e.steps S inputs, ¬ step.1.Answers S target step.2) ∨
      ∃ before input after, inputs = before ++ input :: after ∧ (e.takeAll S before).2.Fails S target payload input ∧
        ∀ step ∈ ((e.takeAll S before).2.take S input).2.steps S after, ¬ step.1.Answers S target step.2 := by
  induction inputs generalizing e with
  | nil => exact Or.inl ⟨parked, nofun⟩
  | cons input inputs ih =>
      have ready := orderly_changes (take_changes (S := S) orderly input) orderly
      rcases ih ready parked with ⟨waits, unanswered⟩ | ⟨before, tried, after, rfl, fails, unanswered⟩
      · rcases parked_before orderly waits with ⟨waited, skipped⟩ | fails
        · exact Or.inl ⟨waited, List.forall_mem_cons.mpr ⟨skipped, unanswered⟩⟩
        · exact Or.inr ⟨[], input, inputs, rfl, fails, unanswered⟩
      · exact Or.inr ⟨input :: before, tried, after, rfl, fails, unanswered⟩

theorem take_all_append (S : Suite) (inputs inputs' : List Input) (e : Engine) :
    (e.takeAll S (inputs ++ inputs')).2 = ((e.takeAll S inputs).2.takeAll S inputs').2 := by
  induction inputs generalizing e with
  | nil => rfl
  | cons input inputs ih => exact ih (e.take S input).2

theorem take_all_pair (S : Suite) (e : Engine) (input : Input) (now : UInt64) (target : Identifier) (payload : Bytes) :
    (e.takeAll S [input, .send now target payload]).2 = ((e.take S input).2.send S now target payload).2 := rfl

theorem take_order (orderly : e.Orderly) (target : Identifier) (input : Input) :
    ((e.take S input).2.parkedFor target).Sublist (e.parkedFor target ++ payloadsFor target input.loads) := by
  cases input with
  | send now k payload =>
      cases tagged : Kind.ofBytes? payload with
      | some kind =>
          rw [take_refused S now k e tagged]
          exact List.sublist_append_left _ _
      | none =>
          rcases send_shelf S now k orderly tagged with ⟨_, shelf⟩ | ⟨_, shelf⟩ <;> rw [take, shelf]
          · exact List.sublist_append_left _ _
          · split
            · rename_i same
              have loads : payloadsFor target (Input.send now k payload).loads = [payload] := by
                rw [Input.loads, if_pos tagged, same]
                exact payloads_for_own k [payload]
              rw [loads, same]
            · exact List.sublist_append_left _ _
  | receive now bytes =>
      rw [Input.loads]
      rcases receive_cases S now bytes orderly with attends | ⟨a, k, ring, _, _, labels, sent, kept, ledger⟩
      · rw [take, parkedFor, attends.parked]
        exact List.sublist_append_left _ _
      · by_cases same : target = k
        · subst same
          rw [take, ledger.left]
          exact ledger.merged.sublist.trans (List.sublist_append_left _ _)
        · rw [take, ledger.parked, if_neg same, parked_accepted, if_neg same]
          exact List.sublist_append_left _ _

theorem take_all_order (orderly : e.Orderly) (target : Identifier) (inputs : List Input) :
    ((e.takeAll S inputs).2.parkedFor target).Sublist
      (e.parkedFor target ++ payloadsFor target (inputs.flatMap Input.loads)) := by
  induction inputs generalizing e with
  | nil => exact List.sublist_append_left _ _
  | cons input inputs ih =>
      have rest := ih (orderly_changes (take_changes (S := S) orderly input) orderly)
      have first := (take_order (S := S) orderly target input).append_right
        (payloadsFor target (inputs.flatMap Input.loads))
      rw [List.flatMap_cons, payloads_for_append, ← List.append_assoc]
      exact rest.trans first

theorem parked_bypassed (sized : S.Sized) (orderly : e.Orderly) (empty : e.parkedFor target = []) {inputs : List Input}
    (clock : ∀ input ∈ inputs, input.time ≤ now) (parked : payload ∈ (e.takeAll S inputs).2.parkedFor target)
    (sendable : (e.takeAll S inputs).2.Open S now target payload.length) :
    ∃ before input after, inputs = before ++ input :: after ∧
      (e.takeAll S before).2.Bypassed S now target payload input after := by
  rcases last_try orderly inputs parked with ⟨waits, _⟩ | ⟨before, input, after, rfl, fails, untried⟩
  · rw [empty] at waits
    cases waits
  · have ready := orderly_changes (take_all_changes (S := S) orderly before) orderly
    have ready' := orderly_changes (take_changes (S := S) ready input) ready
    obtain ⟨_, now₁, later⟩ := List.forall_mem_append.mp clock |>.imp_right List.forall_mem_cons.mp
    refine ⟨before, input, after, rfl, fails, untried, ?_⟩
    by_contra neither
    rw [not_or] at neither
    obtain ⟨unshown, lasting⟩ := neither
    have quiet := take_all_quiet ready' after later untried fun step member shows => unshown ⟨step, member, shows⟩
    have keeps := changes_keeps (take_all_changes (S := S) ready' after)
    rw [take_all_append] at sendable
    rcases open_before ready' keeps now₁ quiet sendable with before | lapsed
    · exact fails_shut sized ready fails before
    · exact lasting lapsed

-- A parked payload is tried again upon an answer only, whatever other ways to its destination come up.
theorem parked_overtaken (sized : S.Sized) (reachable : e.Reachable S) (empty : e.parkedFor target = [])
    (inputs : List Input) (clock : ∀ input ∈ inputs, input.time ≤ now) :
    ((e.takeAll S inputs).2.parkedFor target).Sublist (payloadsFor target (inputs.flatMap Input.loads)) ∧
    ∀ payload ∈ (e.takeAll S inputs).2.parkedFor target, ∀ other outcome,
      ((e.takeAll S inputs).2.send S now target other).1 = .ok outcome → outcome ≠ .queued →
        (∃ before input after, inputs = before ++ input :: after ∧
          (e.takeAll S before).2.Bypassed S now target payload input after) ∨
        other.length < payload.length ∧
          ∀ outcome', ((e.takeAll S inputs).2.send S now target payload).1 = .ok outcome' → outcome' = .queued := by
  have orderly := reachable_orderly reachable
  have ready := orderly_changes (take_all_changes (S := S) orderly inputs) orderly
  refine ⟨?_, fun payload parked other outcome result unparked => ?_⟩
  · have order := take_all_order (S := S) orderly target inputs
    rw [empty] at order
    exact order
  · obtain ⟨_, sendable⟩ := (send_goes_iff now target other sized ready).mp ⟨outcome, result, unparked⟩
    by_cases way : (e.takeAll S inputs).2.Open S now target payload.length
    · exact Or.inl (parked_bypassed sized orderly empty clock parked way)
    · refine Or.inr ⟨Nat.lt_of_not_le fun less => way (sendable.mono less), fun outcome' result' => ?_⟩
      by_contra unparked'
      exact way ((send_goes_iff now target payload sized ready).mp ⟨outcome', result', unparked'⟩).2

theorem parked_overtaken_announced :
    [1, 2, 3] ∈ (lone.takeAll Suite.plain [posting 0 [1, 2, 3], announced 0 3]).2.parkedFor far ∧
    ((lone.takeAll Suite.plain [posting 0 [1, 2, 3], announced 0 3]).2.send Suite.plain 0 far [4, 5, 6]).1 =
      .ok .direct ∧
    ∃ before input after, [posting 0 [1, 2, 3], announced 0 3] = before ++ input :: after ∧
      (lone.takeAll Suite.plain before).2.Bypassed Suite.plain 0 far [1, 2, 3] input after := by
  have parked : [1, 2, 3] ∈ (lone.takeAll Suite.plain [posting 0 [1, 2, 3], announced 0 3]).2.parkedFor far := by
    decide +kernel
  have gone : ((lone.takeAll Suite.plain [posting 0 [1, 2, 3], announced 0 3]).2.send Suite.plain 0
      far [4, 5, 6]).1 = .ok .direct := by decide +kernel
  have clock : ∀ input ∈ [posting 0 [1, 2, 3], announced 0 3], input.time ≤ 0 := by
    rintro input (_ | ⟨_, _ | ⟨_, ⟨⟩⟩⟩) <;> exact UInt64.le_refl 0
  have reachable : lone.Reachable Suite.plain := .start _ _ _
  have empty : lone.parkedFor far = [] := rfl
  obtain ⟨_, overtaken⟩ := parked_overtaken plain_lawful.sized reachable empty _ clock
  rcases overtaken _ parked [4, 5, 6] .direct gone nofun with bypassed | ⟨longer, _⟩
  · exact ⟨parked, gone, bypassed⟩
  · exact absurd longer (by decide)

theorem long_payload_overtaken (sized : S.Sized) (orderly : e.Orderly) (untagged : Kind.ofBytes? payload = none)
    (long : Wire.maxBody < Message.sealedLength payload.length 2) {other : Bytes} {outcome : SendOutcome}
    (goes : (e.send S now target other).1 = .ok outcome) (unparked : outcome ≠ .queued) :
    ∃ outcome', outcome' ≠ .queued ∧ ((e.send S now target payload).2.send S now target other).1 = .ok outcome' ∧
      payload ∈ ((e.send S now target payload).2.send S now target other).2.parkedFor target := by
  have unfit : ∀ {hops : Nat}, 2 ≤ hops → ¬ Message.sealedLength payload.length hops ≤ Wire.maxBody := fun hop fits =>
    absurd (Nat.lt_of_lt_of_le long (sealed_length_mono (Nat.le_refl _) hop)) (Nat.not_lt.mpr fits)
  have shut : ¬ e.Open S now target payload.length := by
    rintro (⟨route, found, able⟩ | ⟨own, border, rest, _, able, _⟩)
    · exact unfit (zone_route_known orderly found).1.long able.fits
    · exact unfit (Nat.le_add_left 2 rest.length) able.fits
  have ready := orderly_changes (send_changes (S := S) now target payload e) orderly
  obtain ⟨plain, sendable⟩ := (send_goes_iff now target other sized orderly).mp ⟨outcome, goes, unparked⟩
  have still := (send_open now target target other.length orderly untagged).mpr sendable
  obtain ⟨outcome', result, unparked'⟩ := (send_goes_iff now target other sized ready).mpr ⟨plain, still⟩
  refine ⟨outcome', unparked', result, ?_⟩
  have parked : payload ∈ (e.send S now target payload).2.parkedFor target := by
    rcases send_shelf S now target orderly untagged with ⟨⟨_, sendable'⟩, _⟩ | ⟨_, shelf⟩
    · exact absurd (sendable' sized) shut
    · rw [shelf, if_pos rfl]
      exact List.mem_append_right _ (List.mem_singleton_self _)
  rcases send_shelf S now target ready plain with ⟨_, shelf⟩ | ⟨_, shelf⟩ <;> rw [shelf]
  · exact parked
  · rw [if_pos rfl]
    exact List.mem_append_left _ parked

def Overtakes (waiting : Bytes) (inputs : List Input) (now : UInt64) (outcome : SendOutcome) : Prop :=
  ((lone.takeAll Suite.plain inputs).2.send Suite.plain now far [4, 5, 6]).1 = .ok outcome ∧
    waiting ∈ ((lone.takeAll Suite.plain inputs).2.send Suite.plain now far [4, 5, 6]).2.parkedFor far

instance (waiting : Bytes) (inputs : List Input) (now : UInt64) (outcome : SendOutcome) :
    Decidable (Overtakes waiting inputs now outcome) :=
  inferInstanceAs (Decidable (_ ∧ _))

def searched (now : UInt64) (border : Fin 4) : Input :=
  .receive now (octetsOf (.discovery
    { origin := (numbered (3 : Fin 4)).publicKey Suite.plain, destination := (numbered (0 : Fin 4)).id, sent := now,
      route := [far, (numbered border).id], covered := [] }))

-- A way comes up without an answer when the destination announces itself, when the border node does, when the destination
-- searches for the device, and when a discovered route gives way to another; and a payload may be too long for the way that
-- there is.
theorem later_payload_overtakes :
    Overtakes [1, 2, 3] [posting 0 [1, 2, 3], announced 0 3] 0 .direct ∧
    Overtakes [1, 2, 3] [answered 0 2, posting 0 [1, 2, 3], announced 0 2] 0 .interZone ∧
    Overtakes [1, 2, 3] [announced 0 2, posting 0 [1, 2, 3], searched 0 2] 0 .interZone ∧
    Overtakes [1, 2, 3] [announced 0 2, answered 0 1, answered 1 2, posting 2 [1, 2, 3]] 60001 .interZone ∧
    ∃ outcome, outcome ≠ .queued ∧ Overtakes oversized [announced 0 3, posting 0 oversized] 0 outcome := by
  have reachable : beside.Reachable Suite.plain := .call lone (announced 0 3).call (.start _ _ _)
  have goes : (beside.send Suite.plain 0 far [4, 5, 6]).1 = .ok .direct := by decide +kernel
  have parks : (lone.takeAll Suite.plain [announced 0 3, posting 0 oversized]).2 =
      (beside.send Suite.plain 0 far oversized).2 := take_all_pair Suite.plain lone (announced 0 3) 0 far oversized
  refine ⟨by decide +kernel, by decide +kernel, by decide +kernel, by decide +kernel, ?_⟩
  obtain ⟨outcome, unparked, gone, left⟩ :=
    long_payload_overtaken plain_lawful.sized (reachable_orderly reachable) oversized_untagged oversized_long goes nofun
  rw [← parks] at gone left
  exact ⟨outcome, unparked, gone, left⟩

end Engine
end ZoneRouting
