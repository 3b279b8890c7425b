import ZoneRouting.Proofs.Engine.Flush

set_option autoImplicit false

namespace ZoneRouting

inductive Passage where
  | bordercast (query : Discovery) (targets : List Identifier)
  | straight (query : Discovery)
deriving DecidableEq

namespace Passage

def query : Passage → Discovery
  | bordercast query _ => query
  | straight query => query

def targets : Passage → List Identifier
  | bordercast _ targets => targets
  | straight _ => []

def Reaches (id : Identifier) : Passage → Prop
  | bordercast _ targets => id ∈ targets
  | straight query => id = query.destination

end Passage

theorem RouteBook.Prunes.hops {now : UInt64} {book book' : RouteBook} (prunes : book.Prunes now book') {d : Identifier}
    {route : Route} (known : route ∈ book'.hopsTo d) : route ∈ book.hopsTo d := by
  obtain ⟨r, member, same⟩ := List.mem_map.mp known
  exact List.mem_map.mpr ⟨r, prunes.subset member, same⟩

theorem Route.loop_free_append {route : Route} {id : Identifier} (loopFree : LoopFree route) (absent : id ∉ route) :
    LoopFree (route ++ [id]) :=
  List.nodup_append.mpr ⟨loopFree, List.nodup_singleton _,
    fun _ member _ last => fun same => absent (List.mem_singleton.mp last ▸ same ▸ member)⟩

theorem Route.after_other {route : Route} {id next : Identifier} (loopFree : LoopFree route)
    (onward : after? id route = some next) : next ≠ id := by
  rintro rfl
  obtain ⟨before, rest, rfl⟩ := exists_append_of_after? onward
  exact (List.nodup_cons.mp (List.nodup_append.mp loopFree).2.1).1 List.mem_cons_self

theorem Route.proper_other {owner d : Identifier} {route : Route} (joins : Joins owner d route) (loopFree : LoopFree route)
    (other : d ≠ owner) : Proper owner d route := by
  refine ⟨joins, loopFree, ?_⟩
  match route, joins with
  | [], ⟨first, _⟩ => cases first
  | [a], ⟨first, last⟩ => exact absurd (Option.some.inj (last.symm.trans first)) other
  | _ :: _ :: _, _ => exact Nat.le_add_left 2 _

namespace Engine

def search (now : UInt64) (target : Identifier) (e : Engine) : Passage :=
  let border := (e.borderNodes now [e.id]).1
  .bordercast
    { origin := e.publicKey, destination := target, sent := now, route := [e.id], covered := e.id :: border } border

def outward? (now : UInt64) (d : Discovery) (e : Engine) : Option Passage :=
  if d.route.length > e.settings.maxRouteLength then none
  else
    match (e.borderNodes now (d.covered ++ d.route)).1 with
    | [] => none
    | targets => some (.bordercast { d with covered := d.covered ++ targets } targets)

-- How a device sends a query with its own name on it on: straight to its destination if it can, else to border nodes.
def onward? (S : Suite) (now : UInt64) (d : Discovery) (e : Engine) : Option Passage :=
  match e.table.lookup d.destination now with
  | (none, table) => { e with table }.outward? now d
  | (some _, table) =>
    match { e with table }.forward S now d.destination (.discovery d) with
    | (.ok _, _) => some (.straight d)
    | (.error _, e) => e.outward? now d

def passage? (S : Suite) (now : UInt64) (d : Discovery) (e : Engine) : Option Passage :=
  if ¬ Route.LoopFree d.route ∨ e.id ∈ d.route ∨ d.destination = e.id then none
  else e.onward? S now { d with route := d.route ++ [e.id] }

-- The packet is a message on its way to a device, sealed along a route that is in the book.
def Mails (S : Suite) (book : RouteBook) (e : Engine) (target : Identifier) (payload : Bytes) (packet : Packet) : Prop :=
  ∃ next rest bytes, packet = Packet.single next bytes ∧ e.id :: next :: rest ∈ book.hopsTo target ∧
    e.Wraps S target payload (e.id :: next :: rest) bytes

def Passes (S : Suite) (book : RouteBook) (e : Engine) (p : Passage) (packet : Packet) : Prop :=
  ∃ target bytes, p.Reaches target ∧ Wire.encode (.discovery p.query) = .ok bytes ∧ e.Mails S book target bytes packet

-- What a device sends of its own accord: payloads, sealed once or once more for a border node, and queries.
inductive Launches (S : Suite) (before after : Engine) (packet : Packet) : Prop
  | payload (target : Identifier) (payload : Bytes) (untagged : Kind.ofBytes? payload = none)
      (mails : after.Mails S before.table.book target payload packet)
  | layered (target border : Identifier) (rest : List Identifier) (payload inner : Bytes)
      (untagged : Kind.ofBytes? payload = none) (wraps : after.Wraps S target payload (after.id :: border :: rest) inner)
      (mails : after.Mails S before.table.book border inner packet)
  | query (now : UInt64) (target : Identifier) (searching : Engine) (changes : Changes S before searching)
      (passes : after.Passes S before.table.book (searching.search now target) packet)

inductive Emits (S : Suite) (now : UInt64) (before after : Engine) : Datagram → Packet → Prop
  | announcement (a : Advertisement) (bytes : Bytes)
      (fresh : ¬ (a.origin = before.id ∨ before.id ∈ a.route ∨ a.origin ∈ a.route ∨ ¬ Route.LoopFree a.route))
      (inside : a.route.length < before.settings.zoneRadius)
      (written : Wire.encode (.advertisement { a with route := a.route ++ [before.id] }) = .ok bytes) :
      Emits S now before after (.advertisement a) (Packet.broadcast bytes)
  | passed (d : Discovery) (p : Passage) (packet : Packet) (passage : before.passage? S now d = some p)
      (passes : after.Passes S before.table.book p packet) : Emits S now before after (.discovery d) packet
  | answer (d : Discovery) (requester previous : Identifier) (bytes : Bytes) (packet : Packet)
      (asked : d.destination = before.id) (loopFree : Route.LoopFree (d.route ++ [before.id]))
      (first : d.requester? = some requester)
      (kept : (d.route ++ [before.id]).reverse ∈ after.cache.book.hopsTo requester)
      (written : Wire.encode (.acknowledgement { route := d.route ++ [before.id], targetKey := before.publicKey }) =
        .ok bytes)
      (mails : after.Mails S before.table.book previous bytes packet) : Emits S now before after (.discovery d) packet
  | walked (a : Acknowledgement) (previous : Identifier) (bytes : Bytes) (packet : Packet)
      (written : Wire.encode (.acknowledgement a) = .ok bytes)
      (mails : after.Mails S before.table.book previous bytes packet) : Emits S now before after (.acknowledgement a) packet
  | flushed (a : Acknowledgement) (packet : Packet) (launches : Launches S before after packet) :
      Emits S now before after (.acknowledgement a) packet
  | relayed (m : Message) (next : Identifier) (bytes : Bytes) (loopFree : Route.LoopFree m.route)
      (onward : Route.after? before.id m.route = some next) (written : Wire.encode (.message m) = .ok bytes) :
      Emits S now before after (.message m) (Packet.single next bytes)
  | wrapped (m : Message) (next : Identifier) (bytes : Bytes) (packet : Packet) (loopFree : Route.LoopFree m.route)
      (onward : Route.after? before.id m.route = some next) (written : Wire.encode (.message m) = .ok bytes)
      (mails : after.Mails S before.table.book next bytes packet) : Emits S now before after (.message m) packet

variable {S : Suite} {now : UInt64} {e e₀ e₁ e₂ e₃ : Engine} {target : Identifier} {payload bytes : Bytes} {packet : Packet}

theorem Mails.ships {book : RouteBook} (mails : e.Mails S book target payload packet) : e.Ships S target payload packet := by
  obtain ⟨next, rest, bytes, same, _, wraps⟩ := mails
  exact ⟨next, rest, bytes, same, wraps⟩

theorem Mails.widen {book book' : RouteBook} (mails : e₁.Mails S book target payload packet)
    (within : ∀ d, ∀ route ∈ book.hopsTo d, route ∈ book'.hopsTo d) (keeps : e₁.Keeps e₂) :
    e₂.Mails S book' target payload packet := by
  obtain ⟨next, rest, bytes, same, known, wraps⟩ := mails
  refine ⟨next, rest, bytes, same, ?_, ?_⟩
  · rw [keeps.id]
    exact within target _ known
  · rw [keeps.id]
    exact wraps.keeps keeps

theorem Passes.widen {book book' : RouteBook} {p : Passage} (passes : e₁.Passes S book p packet)
    (within : ∀ d, ∀ route ∈ book.hopsTo d, route ∈ book'.hopsTo d) (keeps : e₁.Keeps e₂) :
    e₂.Passes S book' p packet := by
  obtain ⟨target, bytes, reaches, written, mails⟩ := passes
  exact ⟨target, bytes, reaches, written, mails.widen within keeps⟩

theorem Launches.widen (launches : Launches S e₁ e₂ packet) (changes : Changes S e₀ e₁)
    (within : ∀ d, ∀ route ∈ e₁.table.book.hopsTo d, route ∈ e₀.table.book.hopsTo d) (keeps : e₂.Keeps e₃) :
    Launches S e₀ e₃ packet := by
  cases launches with
  | payload target payload untagged mails => exact .payload target payload untagged (mails.widen within keeps)
  | layered target border rest payload inner untagged wraps mails =>
      refine .layered target border rest payload inner untagged ?_ (mails.widen within keeps)
      rw [keeps.id]
      exact wraps.keeps keeps
  | query now target searching later passes =>
      exact .query now target searching (changes.trans later) (passes.widen within keeps)

theorem Settles.within (settles : e.Settles now e₁) :
    ∀ d, ∀ route ∈ e₁.table.book.hopsTo d, route ∈ e.table.book.hopsTo d :=
  fun _ _ known => settles.table.book.hops known

theorem Calm.within (calm : e.Calm now e₁) :
    ∀ d, ∀ route ∈ e₁.table.book.hopsTo d, route ∈ e.table.book.hopsTo d :=
  calm.settles.within

theorem send_direct_mails (orderly : e.Orderly) (sent : (e.sendDirect S now target payload).1 = .ok packet) :
    e.Mails S e.table.book target payload packet := by
  cases found : (e.table.lookup target now).1 with
  | none =>
      rw [send_direct_missing found] at sent
      cases sent
  | some route =>
      obtain ⟨next, rest, key, rfl, proper, known, result⟩ := send_direct_found orderly found
      obtain ⟨⟨r, member, same, _⟩, _⟩ := RouteBook.lookup_some (ZoneTable.lookup_route e.table target now ▸ found)
      rw [result] at sent
      cases made : (e.wrapAlong S payload (e.id :: next :: rest) key).1 with
      | error fault =>
          rw [made] at sent
          cases sent
      | ok bytes =>
          rw [made] at sent
          cases sent
          exact ⟨next, rest, bytes, rfl, List.mem_map.mpr ⟨r, member, same⟩, wrap_along_wraps proper known made⟩

theorem send_each_mails (now : UInt64) (payload : Bytes) (targets : List Identifier) (orderly : e.Orderly) :
    ∀ packet ∈ (e.sendEach S now payload targets).1, ∃ target ∈ targets, e.Mails S e.table.book target payload packet := by
  induction targets generalizing e with
  | nil => exact nofun
  | cons target targets ih =>
      have settles := send_direct_settles S now target payload e
      have mails : ∀ packet, (e.sendDirect S now target payload).1 = .ok packet →
          e.Mails S e.table.book target payload packet := fun _ => send_direct_mails orderly
      have later : ∀ packet ∈ ((e.sendDirect S now target payload).2.sendEach S now payload targets).1,
          ∃ other ∈ target :: targets, e.Mails S e.table.book other payload packet := by
        intro packet member
        obtain ⟨other, among, mails⟩ := ih (orderly_settles orderly settles) packet member
        exact ⟨other, List.mem_cons_of_mem _ among, mails.widen settles.within settles.kept⟩
      rw [sendEach]
      rcases tried : e.sendDirect S now target payload with ⟨fault | packet, e₁⟩ <;> rw [tried] at mails later
      · exact later
      · intro other member
        rcases List.mem_cons.mp member with rfl | rest
        · exact ⟨target, List.mem_cons_self, mails other rfl⟩
        · exact later other rest

theorem discover_passes (orderly : e.Orderly) {packets : List Packet} (searched : (e.discover S now target).1 = .ok packets) :
    ∀ packet ∈ packets, e.Passes S e.table.book (e.search now target) packet := by
  have settles := settles_border_nodes now e [e.id]
  have whole : e.search now target = .bordercast
      { origin := (e.borderNodes now [e.id]).2.publicKey, destination := target, sent := now
        route := [(e.borderNodes now [e.id]).2.id], covered := (e.borderNodes now [e.id]).2.id :: (e.borderNodes now [e.id]).1 }
      (e.borderNodes now [e.id]).1 := rfl
  rw [discover] at searched
  rcases found : e.borderNodes now [e.id] with ⟨border, e₁⟩
  rw [found] at searched settles whole
  dsimp only at searched whole
  split at searched
  · cases searched
  · rename_i bytes written
    have mails := send_each_mails (S := S) now bytes border (orderly_settles orderly settles)
    rcases queries : Engine.sendEach S now bytes border e₁ with ⟨queries, e₂⟩
    rw [queries] at searched mails
    dsimp only at searched
    split at searched <;> cases searched
    · exact nofun
    · intro packet member
      obtain ⟨node, among, mailed⟩ := mails packet member
      rw [whole]
      exact ⟨node, bytes, among, written, mailed.widen settles.within settles.kept⟩

theorem send_inter_zone_launches (orderly : e.Orderly) (untagged : Kind.ofBytes? payload = none)
    (sent : (e.sendInterZone S now target payload).1 = .ok packet) : Launches S e e packet := by
  cases found : (e.cache.lookup target now).1 with
  | none =>
      rw [send_inter_zone_missing found] at sent
      cases sent
  | some route =>
      obtain ⟨border, rest, key, rfl, proper, known, ⟨fault, _, failed⟩ | ⟨inner, e₁, made, settles, result⟩⟩ :=
        send_inter_zone_found S payload orderly found
      · rw [failed] at sent
        cases sent
      · rw [result] at sent
        have mails := send_direct_mails (orderly_settles orderly settles) sent
        exact .layered target border rest payload inner untagged (wrap_along_wraps proper known made)
          (mails.widen settles.within settles.kept)

theorem parked_launches (tried : e.Settles now e₁) (orderly : e.Orderly) (untagged : Kind.ofBytes? payload = none)
    {packets : List Packet} (searched : ((e₁.park target payload).discover S now target).1 = .ok packets) :
    ∀ packet ∈ packets, Launches S e ((e₁.park target payload).discover S now target).2 packet := by
  intro packet member
  have parked : Changes S e (e₁.park target payload) := (changes_settles tried).tail (.park target payload untagged)
  have passes := discover_passes (orderly_changes parked orderly) searched packet member
  have calm := (discover_calm (S := S) now target (e₁.park target payload)).1
  exact .query now target (e₁.park target payload) parked (passes.widen tried.within calm.keeps)

theorem route_launches (now : UInt64) (target : Identifier) (orderly : e.Orderly) (untagged : Kind.ofBytes? payload = none) :
    ∀ packet ∈ posted ((e.route S now target payload).1.map Prod.snd), Launches S e (e.route S now target payload).2 packet := by
  have routed := route_routed S now target payload e
  generalize e.route S now target payload = result at routed ⊢
  cases routed with
  | direct packet e₁ direct first =>
      have mails : e.Mails S e.table.book target payload packet := send_direct_mails orderly (congrArg Prod.fst first)
      intro other member
      cases List.mem_singleton.mp member
      exact .payload target payload untagged (mails.widen (fun _ _ known => known) direct.keeps)
  | interZone packet e₁ e₂ direct zone first second =>
      have layered := send_inter_zone_launches (orderly_settles orderly direct) untagged (congrArg Prod.fst second)
      intro other member
      cases List.mem_singleton.mp member
      exact layered.widen (changes_settles direct) direct.within zone.keeps
  | joined e₁ e₂ direct zone first second busy => exact nofun
  | searched e₁ e₂ direct zone first second idle found e₃ third =>
      cases found with
      | error fault => exact nofun
      | ok packets =>
          intro packet member
          have launched := parked_launches (direct.trans zone) orderly untagged (congrArg Prod.fst third) packet member
          rw [third] at launched
          exact launched

theorem route_all_launches (now : UInt64) (target : Identifier) (payloads : List Bytes) (orderly : e.Orderly)
    (untagged : ∀ payload ∈ payloads, Kind.ofBytes? payload = none) :
    ∀ packet ∈ (e.routeAll S now target payloads).1, Launches S e (e.routeAll S now target payloads).2 packet := by
  induction payloads generalizing e with
  | nil => exact nofun
  | cons payload payloads ih =>
      have plain := untagged payload List.mem_cons_self
      have rest := fun p member => untagged p (List.mem_cons_of_mem payload member)
      have changes := route_changes (S := S) now target plain e
      have ready := orderly_changes changes orderly
      obtain ⟨_, _, _, ledger⟩ := route_ledger (S := S) now target [] orderly plain
      have later := changes_keeps (route_all_changes (S := S) now target payloads rest (e.route S now target payload).2)
      rw [route_all_cons]
      intro packet member
      rcases List.mem_append.mp member with here | there
      · exact (route_launches now target orderly plain packet here).widen .refl (fun _ _ known => known) later
      · exact (ih ready rest packet there).widen changes ledger.calm.within (keeps_refl _)

theorem send_launches (now : UInt64) (target : Identifier) (payload : Bytes) (orderly : e.Orderly) :
    ∃ packets, (e.send S now target payload).2.outgoing = e.outgoing ++ packets ∧
      ∀ packet ∈ packets, Launches S e (e.send S now target payload).2 packet := by
  cases tagged : Kind.ofBytes? payload with
  | some kind =>
      refine ⟨[], ?_, nofun⟩
      rw [send, tagged, List.append_nil]
  | none =>
      refine ⟨_, (take_send S now target orderly tagged).1, fun packet member => ?_⟩
      rw [(take_send S now target orderly tagged).2] at member
      rw [send_route S now target tagged e]
      exact (route_launches now target orderly tagged packet member).widen .refl (fun _ _ known => known) ⟨rfl, rfl, fun _ _ found => found⟩

theorem advertise_written (made : e.advertise = .ok packet) : ∃ bytes, packet = Packet.broadcast bytes ∧
    Wire.encode (.advertisement { origin := e.id, key := e.publicKey, route := [],
                                  interval := e.settings.advertisementInterval }) = .ok bytes := by
  rw [advertise] at made
  split at made
  · rename_i bytes written
    cases made
    exact ⟨bytes, rfl, written⟩
  · cases made

theorem handle_advertisement_emits (S : Suite) (now : UInt64) (a : Advertisement) (e : Engine) :
    ∀ packet ∈ (e.handleAdvertisement now a).1, Emits S now e (e.handleAdvertisement now a).2 (.advertisement a) packet := by
  rw [handleAdvertisement]
  split
  · exact nofun
  · rename_i fresh
    dsimp only
    cases e.keyring.record a.origin a.key with
    | error fault => exact nofun
    | ok ring =>
        dsimp only
        split
        · exact nofun
        · rename_i inside
          rw [List.length_append] at inside
          cases written : Wire.encode (.advertisement { a with route := a.route ++ [e.id] }) with
          | error fault => exact nofun
          | ok bytes =>
              intro packet member
              cases List.mem_singleton.mp member
              exact .announcement a bytes fresh (Nat.not_lt.mp inside) written

theorem forward_mails (now : UInt64) (target : Identifier) (d : Datagram) (orderly : e.Orderly) :
    ∀ packet, (e.forward S now target d).1 = .ok packet →
      ∃ bytes, Wire.encode d = .ok bytes ∧ e.Mails S e.table.book target bytes packet := by
  intro packet passed
  rw [forward] at passed
  cases written : Wire.encode d with
  | error fault =>
      rw [written] at passed
      cases passed
  | ok bytes =>
      rw [written] at passed
      exact ⟨bytes, rfl, send_direct_mails orderly passed⟩

theorem sent_mails (now : UInt64) (target : Identifier) (d : Datagram) (orderly : e.Orderly) :
    ∀ packet ∈ (sent (e.forward S now target d)).1,
      ∃ bytes, Wire.encode d = .ok bytes ∧ (sent (e.forward S now target d)).2.Mails S e.table.book target bytes packet := by
  have settles := forward_settles S now target d e
  have mails := forward_mails (S := S) now target d orderly
  rcases passed : e.forward S now target d with ⟨fault | packet, e₁⟩ <;> rw [passed] at settles mails
  · exact nofun
  · intro other member
    cases List.mem_singleton.mp member
    obtain ⟨bytes, written, mailed⟩ := mails packet rfl
    exact ⟨bytes, written, mailed.widen (fun _ _ known => known) settles.keeps⟩

theorem answered_kept {cache : RouteCache} {d : Identifier} {route : Route} (long : 2 ≤ route.length)
    (loopFree : Route.LoopFree route) {book : RouteBook} (prunes : (cache.learn d route now).2.book.Prunes now book) :
    route ∈ book.hopsTo d := by
  have taken : cache.learn d route now =
      (true, { cache with book := cache.book.store d route (deadline now cache.lifetime) }) := if_pos ⟨long, loopFree⟩
  obtain ⟨r, member, same, valid⟩ := TimedRoute.entered route (deadline now cache.lifetime) (cache.book.bucket d)
  have stored : r ∈ (cache.learn d route now).2.book.bucket d := by
    rw [taken, RouteBook.bucket_store, if_pos rfl]
    exact member
  have live : TimedRoute.Live now r := UInt64.le_trans (le_deadline now cache.lifetime) valid
  exact List.mem_map.mpr ⟨r, prunes.live stored live, same⟩

theorem answer_emits (now : UInt64) {d : Discovery} (orderly : e.Orderly) (asked : d.destination = e.id)
    (loopFree : Route.LoopFree (d.route ++ [e.id])) :
    ∀ packet ∈ (e.answer S now d).1, Emits S now e (e.answer S now d).2 (.discovery d) packet := by
  rw [answer]
  split
  · rename_i requester previous first last
    cases recorded : e.keyring.record requester d.origin with
    | error fault => exact nofun
    | ok ring =>
        have ready := orderly_change (Change.answer (S := S) now d requester ring first recorded) orderly
        have passed := forward_settles S now previous
          (.acknowledgement { route := d.route ++ [e.id], targetKey := e.publicKey })
          { e with keyring := ring, cache := (e.cache.learn requester (d.route ++ [e.id]).reverse now).2 }
        have long : 2 ≤ (d.route ++ [e.id]).reverse.length := by
          have some : d.route ≠ [] := fun none => by simp [none] at last
          rw [List.length_reverse, List.length_append]
          exact Nat.succ_le_succ (List.length_pos_iff.mpr some)
        have kept := answered_kept long (List.nodup_reverse.mpr loopFree) (sent_settles passed).cache
        intro packet member
        obtain ⟨bytes, written, mails⟩ := sent_mails (S := S) now previous _ ready packet member
        exact .answer d requester previous bytes packet asked loopFree first kept written mails
  · exact nofun

theorem spread_passes (now : UInt64) (d : Discovery) (orderly : e.Orderly) :
    ∀ packet ∈ (e.spread S now d).1,
      ∃ p, e.outward? now d = some p ∧ (e.spread S now d).2.Passes S e.table.book p packet := by
  have swept := settles_border_nodes now e (d.covered ++ d.route)
  rw [spread, outward?]
  by_cases long : d.route.length > e.settings.maxRouteLength
  · rw [if_pos long]
    exact nofun
  · rw [if_neg long, if_neg long]
    rcases found : e.borderNodes now (d.covered ++ d.route) with ⟨targets, e₁⟩
    rw [found] at swept
    cases targets with
    | nil => exact nofun
    | cons target targets =>
        dsimp only
        cases written : Wire.encode (.discovery { d with covered := d.covered ++ target :: targets }) with
        | error fault => exact nofun
        | ok bytes =>
            intro packet member
            have settles := send_each_settles S now bytes (target :: targets) e₁
            obtain ⟨node, among, mails⟩ :=
              send_each_mails now bytes (target :: targets) (orderly_settles orderly swept) packet member
            exact ⟨_, rfl, node, bytes, among, written, mails.widen swept.within settles.keeps⟩

theorem handle_discovery_emits (now : UInt64) (d : Discovery) (orderly : e.Orderly) :
    ∀ packet ∈ (e.handleDiscovery S now d).1, Emits S now e (e.handleDiscovery S now d).2 (.discovery d) packet := by
  rw [handleDiscovery]
  by_cases loops : ¬ Route.LoopFree d.route ∨ e.id ∈ d.route
  · rw [if_pos loops]
    exact nofun
  · rw [if_neg loops]
    obtain ⟨loopFree, absent⟩ := not_or.mp loops
    by_cases asked : d.destination = e.id
    · rw [if_pos asked]
      exact answer_emits now orderly asked (Route.loop_free_append (Classical.not_not.mp loopFree) absent)
    · rw [if_neg asked]
      have new : ¬ (¬ Route.LoopFree d.route ∨ e.id ∈ d.route ∨ d.destination = e.id) := by tauto
      have passage : e.passage? S now d = e.onward? S now { d with route := d.route ++ [e.id] } := if_neg new
      rw [onward?] at passage
      have looked := settles_lookup now e d.destination
      dsimp only at passage ⊢
      rcases found : e.table.lookup d.destination now with ⟨_ | route, table⟩ <;> rw [found] at looked passage
      · intro packet member
        obtain ⟨p, outward, passes⟩ := spread_passes now _ (orderly_settles orderly looked) packet member
        exact .passed d p packet (passage.trans outward) (passes.widen looked.within (keeps_refl _))
      · have ready := orderly_settles orderly looked
        have mails := forward_mails (S := S) now d.destination (.discovery { d with route := d.route ++ [e.id] }) ready
        have settles := forward_settles S now d.destination (.discovery { d with route := d.route ++ [e.id] }) { e with table }
        dsimp only at passage ⊢
        rcases passed : Engine.forward S now d.destination (.discovery { d with route := d.route ++ [e.id] }) { e with table }
          with ⟨fault | packet, e₁⟩ <;> rw [passed] at settles mails passage
        · have tried := looked.trans settles
          intro packet member
          obtain ⟨p, outward, passes⟩ := spread_passes now _ (orderly_settles orderly tried) packet member
          exact .passed d p packet (passage.trans outward) (passes.widen tried.within (keeps_refl _))
        · intro other member
          cases List.mem_singleton.mp member
          obtain ⟨bytes, written, mailed⟩ := mails packet rfl
          exact .passed d _ packet passage ⟨d.destination, bytes, rfl, written, mailed.widen looked.within settles.keeps⟩

theorem handle_acknowledgement_emits (now : UInt64) (a : Acknowledgement) (orderly : e.Orderly) :
    ∀ packet ∈ (e.handleAcknowledgement S now a).1,
      Emits S now e (e.handleAcknowledgement S now a).2 (.acknowledgement a) packet := by
  rcases acknowledgement_cases S now a e with ⟨target, ring, accepts, taken⟩ | ⟨previous, _, passed⟩ | dropped
  · rw [taken]
    intro packet member
    have launches := route_all_launches now target (e.parkedFor target) (orderly_accepted orderly now accepts)
      (orderly.untagged target) packet member
    exact .flushed a packet
      (launches.widen (.single (.accept now a target ring accepts)) (fun _ _ known => known) (keeps_refl _))
  · rw [passed]
    intro packet member
    obtain ⟨bytes, written, mails⟩ := sent_mails now previous (.acknowledgement a) orderly packet member
    exact .walked a previous bytes packet written mails
  · rw [dropped]
    exact nofun

theorem relay_emits (now : UInt64) {m : Message} {next : Identifier} (loopFree : Route.LoopFree m.route)
    (onward : Route.after? e.id m.route = some next) (zone : ∀ r ∈ e.table.book.bucket next, Route.Proper e.id next r.hops) :
    ∀ packet ∈ (e.relay S now m next).1, Emits S now e (e.relay S now m next).2 (.message m) packet := by
  have looked := settles_lookup now e next
  rw [relay]
  rcases found : e.table.lookup next now with ⟨_ | route, table⟩ <;> rw [found] at looked
  · exact nofun
  · have hit : (e.table.book.lookup next now).1 = some route := by rw [← ZoneTable.lookup_route, found]
    obtain ⟨⟨r, member, same, _⟩, _⟩ := RouteBook.lookup_some hit
    have stored : route ∈ e.table.book.hopsTo next := List.mem_map.mpr ⟨r, member, same⟩
    have proper := same ▸ zone r member
    obtain ⟨first, rest, rfl⟩ := proper.hops
    dsimp only
    split
    · rename_i key bytes known written
      split
      · intro packet sent
        cases List.mem_singleton.mp sent
        exact .relayed m next bytes loopFree onward written
      · rename_i own first' rest' _ hops
        cases hops
        have settles := wrap_along_settles S now bytes (e.id :: first :: rest) key { e with table }
        have wraps : ∀ outer, (Engine.wrapAlong S bytes (e.id :: first :: rest) key { e with table }).1 = .ok outer →
            Wraps S { e with table } next bytes (e.id :: first :: rest) outer := fun _ => wrap_along_wraps proper known
        split <;> (rename_i made; rw [made] at settles wraps)
        · rename_i outer e₁
          intro packet sent
          cases List.mem_singleton.mp sent
          have mails : Mails S e.table.book { e with table } next bytes (Packet.single first outer) :=
            ⟨first, rest, outer, rfl, stored, wraps outer rfl⟩
          exact .wrapped m next bytes _ loopFree onward written (mails.widen (fun _ _ known => known) settles.keeps)
        · exact nofun
      · exact nofun
    · exact nofun

theorem handle_message_emits (now : UInt64) (m : Message)
    (zone : e.table.book.All fun d route => Joins e.id d route ∧ Route.LoopFree route) :
    ∀ packet ∈ (e.handleMessage S now m).1, Emits S now e (e.handleMessage S now m).2 (.message m) packet := by
  rw [handleMessage]
  by_cases loopFree : Route.LoopFree m.route
  · rw [if_pos loopFree]
    cases onward : Route.after? e.id m.route with
    | none => exact nofun
    | some next =>
        have other := Route.after_other loopFree onward
        exact relay_emits now loopFree onward fun r member =>
          Route.proper_other (zone next r member).1 (zone next r member).2 other
  · rw [if_neg loopFree]
    exact nofun

theorem handle_emits (now : UInt64) (d : Datagram) (orderly : e.Orderly) :
    ∀ packet ∈ (e.handle S now d).1, Emits S now e (e.handle S now d).2 d packet := by
  cases d with
  | advertisement a => exact handle_advertisement_emits S now a e
  | discovery d => exact handle_discovery_emits now d orderly
  | acknowledgement a => exact handle_acknowledgement_emits now a orderly
  | failure f => exact nofun
  | message m =>
      exact handle_message_emits now m fun d r member => ⟨(orderly.zone d r member).joins, (orderly.zone d r member).loopFree⟩

theorem receive_emits (now : UInt64) (bytes : Bytes) (orderly : e.Orderly) :
    ∀ packet ∈ (e.receive S now bytes).1,
      ∃ d, e.content? S bytes = some (.datagram d) ∧ Emits S now e (e.receive S now bytes).2 d packet := by
  rw [receive_content]
  rcases found : e.content? S bytes with _ | payload | d
  · exact nofun
  · exact nofun
  · exact fun packet member => ⟨d, rfl, handle_emits now d orderly packet member⟩

end Engine
end ZoneRouting
