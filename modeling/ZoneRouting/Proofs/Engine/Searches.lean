import ZoneRouting.Proofs.Engine.OwnQueries
import ZoneRouting.Proofs.Engine.Refusals

set_option autoImplicit false

namespace ZoneRouting.Engine

-- The queries that go out when a payload is routed. There are none unless it is parked and no search is under way.
def queries (S : Suite) (now : UInt64) (target : Identifier) (payload : Bytes) (e : Engine) : List Packet :=
  match (e.route S now target payload).1 with
  | .ok (.queued, packets) => packets
  | _ => []

def searches (S : Suite) (now : UInt64) (target : Identifier) : List Bytes → Engine → List (List Packet)
  | [], _ => []
  | payload :: payloads, e =>
    if e.queries S now target payload = [] then searches S now target payloads (e.route S now target payload).2
    else e.queries S now target payload :: searches S now target payloads (e.route S now target payload).2

-- The searches for a device that a call starts: for the payload that is handed over, or for those that wait when an answer is
-- accepted.
inductive Starts (S : Suite) (target : Identifier) (e : Engine) : Input → List (List Packet) → Prop
  | sent (now : UInt64) (payload : Bytes) (untagged : Kind.ofBytes? payload = none) :
      Starts S target e (.send now target payload) (e.searches S now target [payload])
  | answered (now : UInt64) (bytes : Bytes) (a : Acknowledgement) (ring : Keyring)
      (content : e.content? S bytes = some (.datagram (.acknowledgement a))) (accepts : e.Accepts S a target ring) :
      Starts S target e (.receive now bytes) ((e.accepted now a target ring).searches S now target (e.parkedFor target))

-- Of what a call has the device send, something is an own query for another one and not just repeated.
def Asks (S : Suite) (target : Identifier) (e : Engine) (input : Input) : Prop :=
  ∃ packet ∈ (e.take S input).1, (e.take S input).2.OwnQuery S target packet ∧ ¬ e.Repeats S input packet

def Seeks (S : Suite) (now : UInt64) (target : Identifier) (before after : Engine) (packet : Packet) : Prop :=
  ∃ searching, Changes S before searching ∧ after.Passes S before.table.book (searching.search now target) packet

variable {S : Suite} {now : UInt64} {e e' : Engine} {target k : Identifier} {payload : Bytes} {packet : Packet} {input : Input}

theorem Seeks.widen {e₀ e₁ e₂ e₃ : Engine} (seeks : Seeks S now target e₁ e₂ packet) (changes : Changes S e₀ e₁)
    (within : ∀ d, ∀ route ∈ e₁.table.book.hopsTo d, route ∈ e₀.table.book.hopsTo d) (keeps : e₂.Keeps e₃) :
    Seeks S now target e₀ e₃ packet := by
  obtain ⟨searching, later, passes⟩ := seeks
  exact ⟨searching, changes.trans later, passes.widen within keeps⟩

theorem route_pending (S : Suite) (now : UInt64) (target : Identifier) (payload : Bytes) (e : Engine) :
    (e.queries S now target payload = [] ∧ (e.route S now target payload).2.pending = e.pending) ∨
      e.queries S now target payload ≠ [] ∧ e.searching now target = false ∧
        (e.route S now target payload).2.pending = e.pending.insert target now := by
  rw [queries]
  have routed := route_routed S now target payload e
  generalize e.route S now target payload = result at routed ⊢
  cases routed with
  | direct packet e₁ direct first => exact Or.inl ⟨rfl, direct.pending⟩
  | interZone packet e₁ e₂ direct zone first second => exact Or.inl ⟨rfl, (direct.trans zone).pending⟩
  | joined e₁ e₂ direct zone first second busy => exact Or.inl ⟨rfl, (direct.trans zone).pending⟩
  | searched e₁ e₂ direct zone first second idle found e₃ third =>
      have tried := direct.trans zone
      have quiet : e.searching now target = false := by
        rw [← ((calm_settles tried).trans (calm_park now e₂ target payload)).searching tried.pending target, idle]
      rcases discover_cases S now target (e₂.park target payload) with
        ⟨_, e₄, settles, result⟩ | ⟨_, packets, e₄, settles, result⟩ <;> cases third.symm.trans result
      · exact Or.inl ⟨rfl, settles.pending.trans tried.pending⟩
      · by_cases none : packets = []
        · rw [if_pos none]
          exact Or.inl ⟨none, settles.pending.trans tried.pending⟩
        · rw [if_neg none]
          exact Or.inr ⟨none, quiet, congrArg (·.insert target now) (settles.pending.trans tried.pending)⟩

theorem route_all_pending (S : Suite) (now : UInt64) (target : Identifier) (payloads : List Bytes) (e : Engine) :
    (∀ k, k ≠ target → (e.routeAll S now target payloads).2.pending.find? k = e.pending.find? k) ∧
    (e.searches S now target payloads = [] ∧
        (e.routeAll S now target payloads).2.pending.find? target = e.pending.find? target ∨
      e.searches S now target payloads ≠ [] ∧ e.searching now target = false ∧
        (e.routeAll S now target payloads).2.pending.find? target = some now) := by
  induction payloads generalizing e with
  | nil => exact ⟨fun _ _ => rfl, Or.inl ⟨rfl, rfl⟩⟩
  | cons payload payloads ih =>
      obtain ⟨others, rest⟩ := ih (e.route S now target payload).2
      rw [route_all_cons, searches]
      rcases route_pending S now target payload e with ⟨none, same⟩ | ⟨some, idle, noted⟩
      · have still : (e.route S now target payload).2.searching now target = e.searching now target :=
          (route_calm now target payload e).searching same target
        rw [same] at others rest
        rw [if_pos none]
        exact ⟨others, still ▸ rest⟩
      · rw [noted] at others rest
        rw [if_neg some]
        refine ⟨fun k other => ?_, Or.inr ⟨List.cons_ne_nil _ _, idle, ?_⟩⟩
        · rw [others k other, Directory.find?_insert, if_neg other]
        · rcases rest with ⟨_, kept⟩ | ⟨_, _, again⟩
          · rw [kept, Directory.find?_insert, if_pos rfl]
          · exact again

theorem searching_noted (since : e.pending.find? target = some now) (patient : 0 < e.settings.discoveryTimeout) :
    e.searching now target = true := by
  have fresh : elapsed now now = 0 := by
    rw [elapsed, if_pos (UInt64.le_refl now), UInt64.sub_self]
  rw [searching, since]
  dsimp only
  rw [fresh]
  exact decide_eq_true patient

theorem searches_once (now : UInt64) (target : Identifier) (payloads : List Bytes)
    (patient : 0 < e.settings.discoveryTimeout) : (e.searches S now target payloads).length ≤ 1 := by
  induction payloads generalizing e with
  | nil => exact Nat.zero_le 1
  | cons payload payloads ih =>
      have patient' : 0 < (e.route S now target payload).2.settings.discoveryTimeout :=
        (route_calm (S := S) now target payload e).keeps.settings ▸ patient
      rw [searches]
      rcases route_pending S now target payload e with ⟨none, _⟩ | ⟨some, _, noted⟩
      · rw [if_pos none]
        exact ih patient'
      · have busy : (e.route S now target payload).2.searching now target = true := by
          refine searching_noted ?_ patient'
          rw [noted, Directory.find?_insert, if_pos rfl]
        have silent : (e.route S now target payload).2.searches S now target payloads = [] := by
          rcases (route_all_pending S now target payloads (e.route S now target payload).2).2 with ⟨none, _⟩ | ⟨_, idle, _⟩
          · exact none
          · cases busy.symm.trans idle
        rw [if_neg some, silent]
        exact Nat.le_refl 1

theorem queries_seek (now : UInt64) (target : Identifier) (orderly : e.Orderly) (untagged : Kind.ofBytes? payload = none) :
    ∀ packet ∈ e.queries S now target payload, Seeks S now target e (e.route S now target payload).2 packet := by
  rw [queries]
  have routed := route_routed S now target payload e
  generalize e.route S now target payload = result at routed ⊢
  cases routed with
  | direct | interZone | joined => exact nofun
  | searched e₁ e₂ direct zone first second idle found e₃ third =>
      cases found with
      | error fault => exact nofun
      | ok packets =>
          have parked : Changes S e (e₂.park target payload) :=
            (changes_settles (direct.trans zone)).tail (.park target payload untagged)
          have calm := (discover_calm (S := S) now target (e₂.park target payload)).1
          intro packet member
          have passes := discover_passes (orderly_changes parked orderly) (congrArg Prod.fst third) packet member
          rw [third] at calm
          exact ⟨e₂.park target payload, parked, passes.widen (direct.trans zone).within calm.keeps⟩

theorem route_accounted (now : UInt64) (target : Identifier) (orderly : e.Orderly) (untagged : Kind.ofBytes? payload = none) :
    ∀ packet ∈ posted ((e.route S now target payload).1.map Prod.snd),
      packet ∈ e.queries S now target payload ∨ e.Carries S target payload packet := by
  rcases @route_cases S now e target payload [] orderly untagged with
    ⟨⟨⟨outcome, packet, _, result, carries⟩, _⟩, _⟩ | ⟨parks, _⟩
  · rw [result]
    intro other member
    cases List.mem_singleton.mp member
    exact Or.inr carries
  · rw [queries]
    cases result : (e.route S now target payload).1 with
    | error fault => exact nofun
    | ok reply =>
        obtain ⟨outcome, packets⟩ := reply
        obtain ⟨rfl, _⟩ := parks.errands outcome packets result
        exact fun packet member => Or.inl member

structure Flood (S : Suite) (now : UInt64) (target : Identifier) (before after : Engine) (packets queries : List Packet) :
    Prop where
  some : queries ≠ []
  among : queries.Sublist packets
  seeks : ∀ packet ∈ queries, Seeks S now target before after packet

theorem route_all_searches (now : UInt64) (target : Identifier) (payloads : List Bytes) (orderly : e.Orderly)
    (untagged : ∀ payload ∈ payloads, Kind.ofBytes? payload = none) :
    ∀ queries ∈ e.searches S now target payloads,
      Flood S now target e (e.routeAll S now target payloads).2 (e.routeAll S now target payloads).1 queries := by
  induction payloads generalizing e with
  | nil => exact nofun
  | cons payload payloads ih =>
      have plain := untagged payload List.mem_cons_self
      have rest := fun p member => untagged p (List.mem_cons_of_mem payload member)
      have changes := route_changes (S := S) now target plain e
      have keeps := (route_all_calm (S := S) now target payloads (e.route S now target payload).2).keeps
      have within := (route_calm (S := S) now target payload e).within
      rw [route_all_cons, searches]
      have later : ∀ queries ∈ (e.route S now target payload).2.searches S now target payloads,
          Flood S now target e ((e.route S now target payload).2.routeAll S now target payloads).2
            (posted ((e.route S now target payload).1.map Prod.snd) ++
              ((e.route S now target payload).2.routeAll S now target payloads).1) queries := by
        intro queries member
        obtain ⟨some, among, seeks⟩ := ih (orderly_changes changes orderly) rest queries member
        exact ⟨some, among.trans (List.sublist_append_right _ _),
          fun packet inside => (seeks packet inside).widen changes within (keeps_refl _)⟩
      by_cases none : e.queries S now target payload = []
      · rw [if_pos none]
        exact later
      · rw [if_neg none]
        intro queries member
        rcases List.mem_cons.mp member with rfl | further
        · refine ⟨none, ?_, fun packet inside => ?_⟩
          · refine List.Sublist.trans ?_ (List.sublist_append_left _ _)
            unfold Engine.queries
            split
            · rename_i result
              rw [result]
              exact .refl _
            · exact List.nil_sublist _
          · exact (queries_seek now target orderly plain packet inside).widen .refl (fun _ _ known => known) keeps
        · exact later queries further

theorem route_all_accounted (now : UInt64) (target : Identifier) (payloads : List Bytes) (orderly : e.Orderly)
    (untagged : ∀ payload ∈ payloads, Kind.ofBytes? payload = none) :
    ∀ packet ∈ (e.routeAll S now target payloads).1,
      (∃ queries ∈ e.searches S now target payloads, packet ∈ queries) ∨
        ∃ payload ∈ payloads, e.Carries S target payload packet := by
  induction payloads generalizing e with
  | nil => exact nofun
  | cons payload payloads ih =>
      have plain := untagged payload List.mem_cons_self
      have rest := fun p member => untagged p (List.mem_cons_of_mem payload member)
      have calm := route_calm (S := S) now target payload e
      have ready := orderly_changes (route_changes (S := S) now target plain e) orderly
      rw [route_all_cons, searches]
      intro packet member
      rcases List.mem_append.mp member with here | there
      · rcases route_accounted now target orderly plain packet here with asked | carried
        · rw [if_neg (List.ne_nil_of_mem asked)]
          exact Or.inl ⟨_, List.mem_cons_self, asked⟩
        · exact Or.inr ⟨payload, List.mem_cons_self, carried⟩
      · rcases ih ready rest packet there with ⟨queries, among, inside⟩ | ⟨p, later, carried⟩
        · refine Or.inl ⟨queries, ?_, inside⟩
          split
          · exact among
          · exact List.mem_cons_of_mem _ among
        · exact Or.inr ⟨p, List.mem_cons_of_mem _ later, carried.keeps calm.kept⟩

-- A call that may start searches for a device routes payloads to it, and nothing else comes of the call.
structure Routes (S : Suite) (target : Identifier) (e : Engine) (input : Input) (found : List (List Packet)) (payloads : List Bytes)
    (ready : Engine) : Prop where
  changes : Changes S e ready
  table : ready.table = e.table
  settings : ready.settings = e.settings
  untagged : ∀ payload ∈ payloads, Kind.ofBytes? payload = none
  found : found = ready.searches S input.time target payloads
  packets : (e.take S input).1 = (ready.routeAll S input.time target payloads).1
  keeps : (ready.routeAll S input.time target payloads).2.Keeps (e.take S input).2
  pending : (e.take S input).2.pending = (ready.routeAll S input.time target payloads).2.pending
  cause : ready = e ∨ e.Answers S target input

theorem Starts.routes {found : List (List Packet)} (starts : e.Starts S target input found) (orderly : e.Orderly) :
    ∃ payloads ready, e.Routes S target input found payloads ready := by
  cases starts with
  | sent now payload untagged =>
      refine ⟨[payload], e, .refl, rfl, rfl, List.forall_mem_singleton.mpr untagged, rfl, ?_, ?_, ?_, Or.inl rfl⟩
      all_goals rw [Input.time, route_all_cons]
      · exact (take_send S now target orderly untagged).2.trans (List.append_nil _).symm
      · rw [take, send_route S now target untagged e]
        exact ⟨rfl, rfl, fun _ _ known => known⟩
      · rw [take, send_route S now target untagged e]
        rfl
  | answered now bytes a ring content accepts =>
      have handled : e.take S (.receive now bytes) = (e.accepted now a target ring).routeAll S now target (e.parkedFor target) := by
        rw [take, receive_content, content]
        exact accepts_handled accepts
      refine ⟨e.parkedFor target, e.accepted now a target ring, .single (.accept now a target ring accepts), rfl, rfl,
        orderly.untagged target, rfl, congrArg Prod.fst handled, ?_, ?_, Or.inr ⟨a, ring, content, accepts⟩⟩
      · rw [handled]
        exact keeps_refl _
      · rw [handled]
        rfl

theorem Starts.floods {found : List (List Packet)} (starts : e.Starts S target input found) (orderly : e.Orderly) :
    ∀ queries ∈ found, Flood S input.time target e (e.take S input).2 (e.take S input).1 queries := by
  obtain ⟨payloads, ready, routes⟩ := starts.routes orderly
  have prepared := orderly_changes routes.changes orderly
  obtain rfl := routes.found
  rw [routes.packets]
  intro queries member
  obtain ⟨some, among, seeks⟩ := route_all_searches input.time target payloads prepared routes.untagged queries member
  refine ⟨some, among, fun packet inside => (seeks packet inside).widen routes.changes ?_ routes.keeps⟩
  rw [routes.table]
  exact fun _ _ known => known

theorem Starts.accounted {found : List (List Packet)} (starts : e.Starts S target input found) (orderly : e.Orderly) :
    ∀ packet ∈ (e.take S input).1, (∃ queries ∈ found, packet ∈ queries) ∨
      ∃ payload, Kind.ofBytes? payload = none ∧ (e.take S input).2.Carries S target payload packet := by
  obtain ⟨payloads, ready, routes⟩ := starts.routes orderly
  have prepared := orderly_changes routes.changes orderly
  have calm := route_all_calm (S := S) input.time target payloads ready
  obtain rfl := routes.found
  rw [routes.packets]
  intro packet member
  rcases route_all_accounted input.time target payloads prepared routes.untagged packet member with asked | ⟨p, among, carried⟩
  · exact Or.inl asked
  · exact Or.inr ⟨p, routes.untagged p among, (carried.keeps calm.keeps).keeps routes.keeps⟩

theorem Starts.once {found : List (List Packet)} (starts : e.Starts S target input found) (orderly : e.Orderly)
    (patient : 0 < e.settings.discoveryTimeout) : found.length ≤ 1 := by
  obtain ⟨payloads, ready, routes⟩ := starts.routes orderly
  obtain rfl := routes.found
  exact searches_once input.time target payloads (routes.settings ▸ patient)

theorem Starts.unrepeated {found : List (List Packet)} (starts : e.Starts S target input found) : ¬ e.Repeats S input packet := by
  cases starts with
  | sent => exact False.elim
  | answered now bytes a ring content accepts =>
      rintro ⟨m, _, _, content', _⟩
      cases content.symm.trans content'

section

variable (sized : S.Sized) (inverse : ∀ key block, (S.cipher key).decrypt ((S.cipher key).encrypt block) = block)

include sized inverse

theorem Starts.own_query {found : List (List Packet)} (starts : e.Starts S k input found) (orderly : e.Orderly)
    (member : packet ∈ (e.take S input).1) (query : (e.take S input).2.OwnQuery S target packet) :
    k = target ∧ ∃ queries ∈ found, packet ∈ queries := by
  rcases starts.accounted orderly packet member with ⟨queries, among, inside⟩ | ⟨payload, untagged, carries⟩
  · obtain ⟨searching, _, _, _, _, written, mails⟩ := (starts.floods orderly queries among).seeks packet inside
    obtain ⟨_, sought, _, last⟩ := query.holds sized inverse written mails.ships
    cases sought
    exact ⟨last, queries, among, inside⟩
  · exact absurd carries (query.uncarried sized inverse untagged)

theorem take_own_query (orderly : e.Orderly) (target : Identifier) (input : Input) :
    ∀ packet ∈ (e.take S input).1, (e.take S input).2.OwnQuery S target packet →
      e.Repeats S input packet ∨ ∃ found, e.Starts S target input found ∧ ∃ queries ∈ found, packet ∈ queries := by
  intro packet member query
  have started : ∀ {k : Identifier} {found : List (List Packet)}, e.Starts S k input found →
      ∃ found, e.Starts S target input found ∧ ∃ queries ∈ found, packet ∈ queries := by
    intro k found starts
    obtain ⟨rfl, asked⟩ := starts.own_query sized inverse orderly member query
    exact ⟨found, starts, asked⟩
  cases input with
  | send now k payload =>
      cases tagged : Kind.ofBytes? payload with
      | some kind =>
          rw [take_refused S now k e tagged] at member
          cases member
      | none => exact Or.inr (started (.sent now payload tagged))
  | receive now bytes =>
      obtain ⟨d, content, emits⟩ := receive_emits now bytes orderly packet member
      have keeps := changes_keeps (take_changes (S := S) orderly (.receive now bytes))
      rcases emits.own_query sized inverse keeps (content_checked content) query with ⟨a, rfl⟩ | ⟨m, next, octets, rfl, written, same⟩
      · have handled : e.take S (.receive now bytes) = e.handleAcknowledgement S now a := by
          rw [take, receive_content, content]
          rfl
        rcases acknowledgement_cases S now a e with ⟨k, ring, accepts, _⟩ | ⟨previous, _, passed⟩ | dropped
        · exact Or.inr (started (.answered now bytes a ring content accepts))
        · rw [handled, passed] at member query
          obtain ⟨octets, written, mails⟩ := sent_mails now previous (.acknowledgement a) orderly packet member
          obtain ⟨_, other, _⟩ := query.holds sized inverse written mails.ships
          cases other
        · rw [handled, dropped] at member
          cases member
      · exact Or.inl ⟨m, next, octets, content, written, same⟩

theorem asks_iff (orderly : e.Orderly) :
    e.Asks S target input ↔ ∃ queries more, e.Starts S target input (queries :: more) := by
  constructor
  · rintro ⟨packet, member, query, fresh⟩
    obtain ⟨found, starts, queries, among, _⟩ := (take_own_query sized inverse orderly target input packet member query).resolve_left fresh
    cases found with
    | nil => cases among
    | cons first more => exact ⟨first, more, starts⟩
  · rintro ⟨queries, more, starts⟩
    have flood := starts.floods orderly queries List.mem_cons_self
    obtain ⟨packet, inside⟩ := List.exists_mem_of_ne_nil queries flood.some
    obtain ⟨searching, changes, border, bytes, _, written, mails⟩ := flood.seeks packet inside
    have own : searching.id = (e.take S input).2.id :=
      (changes_keeps changes).id.trans (changes_keeps (take_changes (S := S) orderly input)).id.symm
    exact ⟨packet, flood.among.subset inside, ⟨border, (searching.search input.time target).query, bytes, congrArg some own, rfl,
      written, mails.ships⟩, starts.unrepeated⟩

end

theorem handle_pending (S : Suite) (now : UInt64) (d : Datagram) (e : Engine) (target : Identifier) :
    (e.handle S now d).2.pending.find? target = e.pending.find? target ∨
      (e.handle S now d).2.pending.find? target = some now ∨
      ∃ a ring, d = .acknowledgement a ∧ e.Accepts S a target ring := by
  cases d with
  | advertisement a =>
      rw [handle]
      rcases advertisement_cases now a e with dropped | ⟨_, _, _, learned⟩
      · rw [dropped]
        exact Or.inl rfl
      · rw [learned]
        exact Or.inl rfl
  | discovery d =>
      rw [handle]
      rcases discovery_cases S now d e with settles | ⟨_, _, _, _, _, settles⟩
      · rw [settles.pending]
        exact Or.inl rfl
      · rw [settles.pending]
        exact Or.inl rfl
  | acknowledgement a =>
      rw [handle]
      rcases acknowledgement_cases S now a e with ⟨k, ring, accepts, taken⟩ | ⟨previous, _, passed⟩ | dropped
      · by_cases same : target = k
        · subst same
          exact Or.inr (Or.inr ⟨a, ring, rfl, accepts⟩)
        · have others := (route_all_pending S now k (e.parkedFor k) (e.accepted now a k ring)).1 target same
          have erased : (e.accepted now a k ring).pending.find? target = e.pending.find? target := by
            rw [accepted, Directory.find?_erase, if_neg same]
          rw [taken, others, erased]
          exact Or.inl rfl
      · rw [passed, (sent_settles (forward_settles S now previous _ e)).pending]
        exact Or.inl rfl
      · rw [dropped]
        exact Or.inl rfl
  | failure _ => exact Or.inl rfl
  | message m =>
      rw [handle, (handle_message_settles S now m e).pending]
      exact Or.inl rfl

theorem take_pending (S : Suite) (e : Engine) (input : Input) (target : Identifier) :
    (e.take S input).2.pending.find? target = e.pending.find? target ∨
      (e.take S input).2.pending.find? target = some input.time ∨ e.Answers S target input := by
  cases input with
  | send now k payload =>
      cases tagged : Kind.ofBytes? payload with
      | some kind =>
          rw [take_refused S now k e tagged]
          exact Or.inl rfl
      | none =>
          have same : (e.take S (.send now k payload)).2.pending = (e.route S now k payload).2.pending := by
            rw [take, send_route S now k tagged e]
          rw [same]
          rcases route_pending S now k payload e with ⟨_, kept⟩ | ⟨_, _, noted⟩
          · rw [kept]
            exact Or.inl rfl
          · rw [noted, Directory.find?_insert]
            by_cases own : target = k
            · rw [if_pos own]
              exact Or.inr (Or.inl rfl)
            · rw [if_neg own]
              exact Or.inl rfl
  | receive now bytes =>
      rw [take, receive_content]
      rcases content : e.content? S bytes with _ | payload | d
      · exact Or.inl rfl
      · exact Or.inl rfl
      · rcases handle_pending S now d e target with kept | noted | ⟨a, ring, rfl, accepts⟩
        · exact Or.inl kept
        · exact Or.inr (Or.inl noted)
        · exact Or.inr (Or.inr ⟨a, ring, content, accepts⟩)

theorem starts_pending {queries : List Packet} {more : List (List Packet)} (orderly : e.Orderly)
    (starts : e.Starts S target input (queries :: more)) :
    (e.take S input).2.pending.find? target = some input.time ∧ (e.searching input.time target = false ∨ e.Answers S target input) := by
  obtain ⟨payloads, ready, routes⟩ := starts.routes orderly
  rw [routes.pending]
  rcases (route_all_pending S input.time target payloads ready).2 with ⟨none, _⟩ | ⟨_, idle, noted⟩
  · cases routes.found.trans none
  · refine ⟨noted, ?_⟩
    rcases routes.cause with rfl | answers
    · exact Or.inl idle
    · exact Or.inr answers

def Noted (e : Engine) (target : Identifier) (since : UInt64) : Prop :=
  ∃ began, e.pending.find? target = some began ∧ since ≤ began

theorem Noted.take {since : UInt64} (noted : e.Noted target since) (later : since ≤ input.time)
    (unanswered : ¬ e.Answers S target input) : (e.take S input).2.Noted target since := by
  obtain ⟨began, found, after⟩ := noted
  rcases take_pending S e input target with kept | again | answers
  · exact ⟨began, kept.trans found, after⟩
  · exact ⟨input.time, again, later⟩
  · exact absurd answers unanswered

theorem Noted.take_all {since : UInt64} (noted : e.Noted target since) (inputs : List Input)
    (later : ∀ input ∈ inputs, since ≤ input.time) (unanswered : ∀ step ∈ e.steps S inputs, ¬ step.1.Answers S target step.2) :
    (e.takeAll S inputs).2.Noted target since := by
  induction inputs generalizing e with
  | nil => exact noted
  | cons input inputs ih =>
      rw [steps, List.forall_mem_cons] at unanswered
      rw [List.forall_mem_cons] at later
      exact ih (noted.take later.1 unanswered.1) later.2 unanswered.2

theorem Noted.overdue {since now : UInt64} (noted : e.Noted target since) (idle : e.searching now target = false)
    (later : since ≤ now) : since.toNat + e.settings.discoveryTimeout.toNat ≤ now.toNat := by
  obtain ⟨began, found, after⟩ := noted
  rw [searching, found] at idle
  have passed : e.settings.discoveryTimeout ≤ elapsed now began := UInt64.not_lt.mp (of_decide_eq_false idle)
  rw [UInt64.le_iff_toNat_le, to_nat_elapsed] at passed
  rw [UInt64.le_iff_toNat_le] at after later
  omega

theorem steps_append (S : Suite) (inputs inputs' : List Input) (e : Engine) :
    e.steps S (inputs ++ inputs') = e.steps S inputs ++ (e.takeAll S inputs).2.steps S inputs' := by
  induction inputs generalizing e with
  | nil => rfl
  | cons input inputs ih => exact congrArg (_ :: ·) (ih (e.take S input).2)

theorem steps_input (inputs : List Input) (e : Engine) : ∀ step ∈ e.steps S inputs, step.2 ∈ inputs := by
  induction inputs generalizing e with
  | nil => exact nofun
  | cons input inputs ih =>
      intro step member
      rw [steps] at member
      rcases List.mem_cons.mp member with rfl | later
      · exact List.mem_cons_self
      · exact List.mem_cons_of_mem _ (ih (e.take S input).2 step later)

-- Repeats are excepted, because anybody can send a device a query of its own once more.
theorem searches_spaced (sized : S.Sized)
    (inverse : ∀ key block, (S.cipher key).decrypt ((S.cipher key).encrypt block) = block) (reachable : e.Reachable S) :
    (∀ target input found, e.Starts S target input found →
      (∀ queries ∈ found, Flood S input.time target e (e.take S input).2 (e.take S input).1 queries) ∧
      (∀ packet ∈ (e.take S input).1, (∃ queries ∈ found, packet ∈ queries) ∨
        ∃ payload, Kind.ofBytes? payload = none ∧ (e.take S input).2.Carries S target payload packet) ∧
      (0 < e.settings.discoveryTimeout → found.length ≤ 1)) ∧
    (∀ target input, ∀ packet ∈ (e.take S input).1, (e.take S input).2.OwnQuery S target packet →
      e.Repeats S input packet ∨ ∃ found, e.Starts S target input found ∧ ∃ queries ∈ found, packet ∈ queries) ∧
    ∀ target first between second, (∀ input ∈ between ++ [second], first.time ≤ input.time) →
      e.Asks S target first → (e.takeAll S (first :: between)).2.Asks S target second →
      first.time.toNat + e.settings.discoveryTimeout.toNat ≤ second.time.toNat ∨
        ∃ step ∈ (e.take S first).2.steps S (between ++ [second]), step.1.Answers S target step.2 := by
  have orderly := reachable_orderly reachable
  refine ⟨fun target input found starts => ⟨starts.floods orderly, starts.accounted orderly, starts.once orderly⟩,
    take_own_query sized inverse orderly, fun target first between second later asks asks' => ?_⟩
  by_contra neither
  rw [not_or, steps_append] at neither
  obtain ⟨early, unanswered⟩ := neither
  have changes := take_all_changes (S := S) orderly (first :: between)
  obtain ⟨_, _, starts⟩ := (asks_iff sized inverse orderly).mp asks
  obtain ⟨_, _, starts'⟩ := (asks_iff sized inverse (orderly_changes changes orderly)).mp asks'
  have quiet : ∀ step ∈ (e.take S first).2.steps S between, ¬ step.1.Answers S target step.2 :=
    fun step member answers => unanswered ⟨step, List.mem_append_left _ member, answers⟩
  have last : ¬ (e.takeAll S (first :: between)).2.Answers S target second :=
    fun answers => unanswered ⟨_, List.mem_append_right _ (List.mem_singleton_self _), answers⟩
  rw [List.forall_mem_append, List.forall_mem_singleton] at later
  have began : (e.take S first).2.Noted target first.time := ⟨_, (starts_pending orderly starts).1, UInt64.le_refl _⟩
  have noted : (e.takeAll S (first :: between)).2.Noted target first.time := began.take_all between later.1 quiet
  have idle := (starts_pending (orderly_changes changes orderly) starts').2.resolve_right last
  exact early ((changes_keeps changes).settings ▸ noted.overdue idle later.2)

theorem searches_spaced_surrounded :
    surrounded.Asks Suite.plain (stranger 0) (.send 0 (stranger 0) [1, 2, 3]) ∧
    (surrounded.takeAll Suite.plain [.send 0 (stranger 0) [1, 2, 3], .send 9999 (stranger 0) [4]]).2.Asks Suite.plain (stranger 0)
      (.send 10000 (stranger 0) [5]) ∧
    (0 : UInt64).toNat + surrounded.settings.discoveryTimeout.toNat ≤ (10000 : UInt64).toNat := by
  have reachable : surrounded.Reachable Suite.plain := take_all_reachable (.start _ _ _) _
  have runs : surrounded.searches Suite.plain 0 (stranger 0) [[1, 2, 3]] ≠ [] ∧
      (surrounded.takeAll Suite.plain [.send 0 (stranger 0) [1, 2, 3], .send 9999 (stranger 0) [4]]).2.searches Suite.plain 10000
        (stranger 0) [[5]] ≠ [] := by decide +kernel
  have orderly := reachable_orderly reachable
  have asks : surrounded.Asks Suite.plain (stranger 0) (.send 0 (stranger 0) [1, 2, 3]) := by
    obtain ⟨first, more, found⟩ := List.exists_cons_of_ne_nil runs.1
    exact (asks_iff plain_lawful.sized plain_lawful.decrypt_encrypt orderly).mpr ⟨first, more, found ▸ .sent 0 [1, 2, 3] rfl⟩
  have asks' : (surrounded.takeAll Suite.plain [.send 0 (stranger 0) [1, 2, 3], .send 9999 (stranger 0) [4]]).2.Asks Suite.plain
      (stranger 0) (.send 10000 (stranger 0) [5]) := by
    obtain ⟨first, more, found⟩ := List.exists_cons_of_ne_nil runs.2
    exact (asks_iff plain_lawful.sized plain_lawful.decrypt_encrypt (orderly_changes (take_all_changes orderly _) orderly)).mpr
      ⟨first, more, found ▸ .sent 10000 [5] rfl⟩
  have clock : ∀ input ∈ [Input.send 9999 (stranger 0) [4]] ++ [.send 10000 (stranger 0) [5]], (0 : UInt64) ≤ input.time := by
    decide
  refine ⟨asks, asks', ?_⟩
  obtain ⟨_, _, spacing⟩ := searches_spaced plain_lawful.sized plain_lawful.decrypt_encrypt reachable
  rcases spacing (stranger 0) _ [.send 9999 (stranger 0) [4]] _ clock asks asks' with spaced | answered
  · simpa only [Input.time] using spaced
  · obtain ⟨⟨before, input⟩, member, answers⟩ := answered
    cases input with
    | send now k payload => exact False.elim answers
    | receive now bytes => simpa using steps_input _ _ _ member

end ZoneRouting.Engine
