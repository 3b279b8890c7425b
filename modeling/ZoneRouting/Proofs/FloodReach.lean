import ZoneRouting.Proofs.Size
import ZoneRouting.Proofs.StaticMesh.Flood

set_option autoImplicit false

namespace ZoneRouting

variable {n : Nat}

-- The public keys of a suite, with operations that hide nothing.
def Suite.bare (S : Suite) : Suite where
  signingKey := S.signingKey
  exchangeKey := S.exchangeKey
  agree _ _ := ⟨1⟩
  sign _ _ := List.replicate 64 0
  verify _ _ _ := .ok ()
  isPoint _ := true
  derive _ := ⟨[], []⟩
  mac _ _ := List.replicate 32 0
  cipher _ := ⟨id, id⟩

theorem bare_usable (S : Suite) : S.bare.Usable where
  opens := lawful_opens
    { decrypt_encrypt := fun _ _ => rfl
      agree_comm := fun _ _ => rfl
      verify_sign := fun _ _ => rfl
      isPoint_signingKey := fun _ => rfl
      length_sign := fun _ _ => List.length_replicate
      length_mac := fun _ _ => List.length_replicate }
  contributory _ _ same := by
    have value : (1 : BitVec (8 * 32)) = 0 := congrArg Octets.value same
    exact absurd value (by decide)
  isPoint _ := rfl
  length_sign _ _ := List.length_replicate

namespace Swarm

-- A run in which every copy is in the air when it is heard.
def Feasible (S : Suite) : List (Event n) → Swarm n → Prop
  | [], _ => True
  | event :: events, f => f.Possible event ∧ Feasible S events (f.apply S event)

instance decidableFeasible (S : Suite) : (events : List (Event n)) → (f : Swarm n) → Decidable (Feasible S events f)
  | [], _ => inferInstanceAs (Decidable True)
  | event :: events, f =>
      have := decidableFeasible S events (f.apply S event)
      inferInstanceAs (Decidable (_ ∧ _))

theorem feasible_append {S : Suite} {events events' : List (Event n)} {f : Swarm n} :
    Feasible S (events ++ events') f ↔ Feasible S events f ∧ Feasible S events' (f.run S events) := by
  induction events generalizing f with
  | nil => exact (and_iff_right trivial).symm
  | cons event events ih => exact (and_congr_right fun _ => ih).trans and_assoc.symm

end Swarm

-- Fresh devices whose zones have the same radius, with links and a clock that stay as they are. In all
-- else their settings may differ.
structure EqualZones (n : Nat) where
  suite : Suite
  who : Fin n → Identity
  distinct : Function.Injective fun u => (who u).id
  named : ∀ u, (who u).id ≠ Identifier.nil
  settings : Fin n → Settings
  radius : Nat
  zones : ∀ u, (settings u).zoneRadius = radius
  fits : ∀ a : Advertisement, a.route.length = radius + 1 → Wire.Fits (.advertisement a)
  random : Fin n → Random
  links : Links (Fin n)
  symmetric : links.Symmetric
  now : UInt64

namespace EqualZones

def name (Z : EqualZones n) (u : Fin n) : Identifier := (Z.who u).id

def graph (Z : EqualZones n) : SimpleGraph (Fin n) := SimpleGraph.fromRel fun u v => (u, v) ∈ Z.links

def start (Z : EqualZones n) : Swarm n := Swarm.start Z.suite Z.settings Z.who Z.random

def flood (Z : EqualZones n) (o : Fin n) (copies : List (Copy n)) : List (Event n) :=
  .advertise Z.links o :: copies.map (.hear Z.now Z.links)

-- The same devices under settings that differ from theirs in nothing that an announcement of `o` meets.
def layout (Z : EqualZones n) (o : Fin n) : StaticMesh n where
  suite := Z.suite.bare
  usable := bare_usable Z.suite
  who := Z.who
  distinct := Z.distinct
  named := Z.named
  settings := { zoneRadius := Z.radius, advertisementInterval := (Z.settings o).advertisementInterval, maxRouteLength := n }
  nesting := Nat.le_add_left 2 6
  long := Nat.le_refl n
  random := Z.random
  links := Z.links
  symmetric := Z.symmetric
  now := Z.now

variable {Z : EqualZones n} {o v : Fin n} {f f' : Swarm n} {e : Engine} {told : Fin n → Prop}

theorem fits_short (a : Advertisement) (short : a.route.length ≤ Z.radius + 1) : Wire.Fits (.advertisement a) := by
  have full := Z.fits { a with route := List.replicate (Z.radius + 1) a.origin } List.length_replicate
  rw [Wire.Fits, Wire.length_body_advertisement, List.length_replicate] at full
  rw [Wire.Fits, Wire.length_body_advertisement]
  omega

def own (Z : EqualZones n) (u : Fin n) (e : Engine) : Engine :=
  { e with settings := Z.settings u, cache := RouteCache.empty (Z.settings u).routeCacheLifetime }

structure Alike (Z : EqualZones n) (f f' : Swarm n) : Prop where
  air : f.air = f'.air
  device : ∀ u, f.device u = Z.own u (f'.device u)

theorem start_alike (o : Fin n) : Z.Alike Z.start (Z.layout o).start := by
  refine ⟨rfl, fun u => ?_⟩
  change Engine.start Z.suite (Z.settings u) (Z.who u) (Z.random u) = _
  rw [Engine.start, Z.zones u]
  rfl

theorem transmit_alike (alike : Z.Alike f f') (links : Links (Fin n)) (u : Fin n) (packets : List Packet) :
    Z.Alike (f.transmit links u packets) (f'.transmit links u packets) := by
  have copies : ∀ packet, f.copies links u packet = f'.copies links u packet := by
    intro packet
    have ids : ∀ w, (f.device w).id = (f'.device w).id := fun w => by rw [alike.device w]; rfl
    unfold Swarm.copies Swarm.hearers
    simp only [ids]
  refine ⟨?_, alike.device⟩
  rw [Swarm.transmit, Swarm.transmit, alike.air, funext copies]

theorem advertise_alike (alike : Z.Alike f f') (flooding : (Z.layout o).Flooding told f') :
    Z.Alike (f.advertise Z.links o) (f'.advertise Z.links o) := by
  have same : (f.device o).advertise = (f'.device o).advertise := by
    rw [alike.device o, Engine.advertise, Engine.advertise, (flooding.listening o).settings]
    rfl
  unfold Swarm.advertise
  rw [same]
  cases (f'.device o).advertise with
  | error fault => exact alike
  | ok packet => exact transmit_alike alike Z.links o [packet]

theorem handle_alike {a : Advertisement} {ring : Keyring} (zone : e.settings.zoneRadius = Z.radius)
    (recorded : e.keyring.record a.origin a.key = .ok ring) (v : Fin n) :
    (Z.own v e).handleAdvertisement Z.now a =
      ((e.handleAdvertisement Z.now a).1, Z.own v (e.handleAdvertisement Z.now a).2) := by
  have radius : (Z.own v e).settings.zoneRadius = e.settings.zoneRadius := (Z.zones v).trans zone.symm
  by_cases dropped : a.origin = e.id ∨ e.id ∈ a.route ∨ a.origin ∈ a.route ∨ ¬ Route.LoopFree a.route
  · have left : (Z.own v e).handleAdvertisement Z.now a = ([], Z.own v e) := if_pos dropped
    have right : e.handleAdvertisement Z.now a = ([], e) := if_pos dropped
    rw [left, right]
  · obtain ⟨left, _⟩ := StaticMesh.advertisement_taken (M := Z.layout v) (e := Z.own v e) dropped rfl recorded
    obtain ⟨right, _⟩ := StaticMesh.advertisement_taken (M := Z.layout v) dropped rfl recorded
    rw [radius] at left
    exact left.trans (congrArg (fun reply => (reply.1, Z.own v reply.2)) right).symm

theorem hear_alike (alike : Z.Alike f f') (flooding : (Z.layout o).Flooding told f') {copy : Copy n}
    (member : copy ∈ f'.air) :
    Z.Alike (f.hear Z.suite Z.now Z.links copy) (f'.hear (Z.layout o).suite Z.now Z.links copy) := by
  obtain ⟨q, r, wave⟩ := flooding.waves copy member
  obtain ⟨ring, recorded, _⟩ := StaticMesh.record_authentic (flooding.trust.honest copy.receiver).keys q
  have checked := StaticMesh.announcement_checked (M := Z.layout o) q r
  have zone : (f'.device copy.receiver).settings.zoneRadius = Z.radius := by
    rw [(flooding.listening copy.receiver).settings]
    rfl
  have handled : (f.device copy.receiver).receive Z.suite Z.now copy.bytes =
      (((f'.device copy.receiver).receive (Z.layout o).suite Z.now copy.bytes).1,
        Z.own copy.receiver ((f'.device copy.receiver).receive (Z.layout o).suite Z.now copy.bytes).2) := by
    have left := (Engine.receive_handle (e := f.device copy.receiver) Z.suite Z.now
      (f.device copy.receiver).settings.maxNestingDepth wave.written checked rfl).1
    have right := (StaticMesh.receive_announcement (M := Z.layout o) (e := f'.device copy.receiver) wave.written).1
    have taken := handle_alike (a := (Z.layout o).announcement q r) zone recorded copy.receiver
    rw [← alike.device copy.receiver] at taken
    exact left.trans (taken.trans (congrArg (fun reply => (reply.1, Z.own copy.receiver reply.2)) right.symm))
  unfold Swarm.hear
  rw [handled]
  refine transmit_alike ⟨congrArg (List.erase · copy) alike.air, fun u => ?_⟩ Z.links copy.receiver _
  by_cases here : u = copy.receiver
  · subst here
    rw [Swarm.device_put, Swarm.device_put]
  · rw [Swarm.device_put_other _ _ here, Swarm.device_put_other _ _ here]
    exact alike.device u

theorem advertise_fits (f : Swarm n) : ∀ d ∈ f.writes (Z.layout o).suite (.advertise Z.links o), Wire.Fits d := by
  intro d written
  cases List.mem_singleton.mp written
  exact fits_short (Z := Z) _ (Nat.zero_le _)

theorem hear_fits (flooding : (Z.layout o).Flooding told f') {copy : Copy n} (member : copy ∈ f'.air) :
    ∀ d ∈ f'.writes (Z.layout o).suite (.hear Z.now Z.links copy), Wire.Fits d := by
  intro d written
  obtain ⟨q, r, wave⟩ := flooding.waves copy member
  have listening := flooding.listening copy.receiver
  have writes := (StaticMesh.receive_announcement (M := Z.layout o) (e := f'.device copy.receiver) wave.written).2
  have passed : d ∈ (f'.device copy.receiver).handleAdvertisementWrites ((Z.layout o).announcement q r) := writes ▸ written
  unfold Engine.handleAdvertisementWrites at passed
  split at passed
  · cases passed
  · split at passed
    · cases passed
    · split at passed
      · cases passed
      · rename_i inside
        cases List.mem_singleton.mp passed
        refine fits_short (Z := Z) _ ?_
        rw [listening.settings] at inside
        exact Nat.le_succ_of_le (Nat.le_of_not_gt inside)

theorem hears_alike (copies : List (Copy n)) (alike : Z.Alike f f') (flooding : (Z.layout o).Flooding told f')
    (feasible : Swarm.Feasible Z.suite (copies.map (.hear Z.now Z.links)) f) :
    Swarm.Smooth (Z.layout o).suite (copies.map (.hear Z.now Z.links)) f' ∧
      Z.Alike (f.run Z.suite (copies.map (.hear Z.now Z.links)))
        (f'.run (Z.layout o).suite (copies.map (.hear Z.now Z.links))) := by
  induction copies generalizing f f' with
  | nil => exact ⟨trivial, alike⟩
  | cons copy copies ih =>
      obtain ⟨possible, rest⟩ := feasible
      have member : copy ∈ f'.air := alike.air ▸ possible
      have fits := hear_fits flooding member
      have step := hear_alike alike flooding member
      rw [← Swarm.apply_hear possible, ← Swarm.apply_hear member] at step
      have next := StaticMesh.flooding_hear flooding member fits
      rw [← Swarm.apply_hear member] at next
      obtain ⟨smooth, whole⟩ := ih step next rest
      exact ⟨⟨member, fits, smooth⟩, whole⟩

theorem flood_alike (copies : List (Copy n)) (feasible : Swarm.Feasible Z.suite (Z.flood o copies) Z.start) :
    Swarm.Smooth (Z.layout o).suite (Z.flood o copies) (Z.layout o).start ∧
      Z.Alike (Z.start.run Z.suite (Z.flood o copies))
        ((Z.layout o).start.run (Z.layout o).suite (Z.flood o copies)) := by
  have fits := advertise_fits (Z := Z) (o := o) (Z.layout o).start
  have step := advertise_alike (start_alike (Z := Z) o) StaticMesh.flooding_start
  have next := StaticMesh.flooding_advertise StaticMesh.flooding_start o fits
  obtain ⟨smooth, whole⟩ := hears_alike copies step next feasible.2
  exact ⟨⟨trivial, fits, smooth⟩, whole⟩

theorem flood_floods (copies : List (Copy n)) : ∀ event ∈ Z.flood o copies, (Z.layout o).Floods event := by
  intro event member
  rcases List.mem_cons.mp member with rfl | heard
  · exact .advertise o
  · obtain ⟨copy, _, rfl⟩ := List.mem_map.mp heard
    exact .hear copy

theorem flood_short (copies : List (Copy n)) (feasible : Swarm.Feasible Z.suite (Z.flood o copies) Z.start) :
    copies.length < (n + 1) ^ (Z.radius + 2) := by
  have lasting : Swarm.Lasting (Z.layout o).Spreading (Z.layout o).start.air 0 := ⟨[], .nil, rfl⟩
  have limit := StaticMesh.flood_limit (Z.flood o copies) (flood_floods copies) StaticMesh.flooding_start
    (flood_alike copies feasible).1 lasting
  have once : (Z.flood o copies).countP Event.advertises = 1 := by
    have none : copies.countP (Event.advertises ∘ .hear Z.now Z.links) = 0 := congrFun List.countP_false copies
    rw [flood, List.countP_cons_of_pos rfl, List.countP_map, none]
  rw [once, Nat.zero_add, Nat.one_mul, flood, List.length_cons, List.length_map] at limit
  exact limit

theorem flood_ends (copies : List (Copy n)) (feasible : Swarm.Feasible Z.suite (Z.flood o copies) Z.start) :
    ∃ more, Swarm.Feasible Z.suite (Z.flood o (copies ++ more)) Z.start ∧
      (Z.start.run Z.suite (Z.flood o (copies ++ more))).air = [] := by
  induction left : (n + 1) ^ (Z.radius + 2) - copies.length generalizing copies with
  | zero =>
      have short := flood_short copies feasible
      omega
  | succ left ih =>
      cases quiet : (Z.start.run Z.suite (Z.flood o copies)).air with
      | nil => exact ⟨[], by rw [List.append_nil]; exact ⟨feasible, quiet⟩⟩
      | cons copy air =>
          have member : copy ∈ (Z.start.run Z.suite (Z.flood o copies)).air := quiet ▸ List.mem_cons_self
          have longer : Z.flood o (copies ++ [copy]) = Z.flood o copies ++ [.hear Z.now Z.links copy] := by
            rw [flood, List.map_append]
            rfl
          have heard : Swarm.Feasible Z.suite (Z.flood o (copies ++ [copy])) Z.start := by
            rw [longer]
            exact Swarm.feasible_append.mpr ⟨feasible, member, trivial⟩
          obtain ⟨more, whole, ended⟩ := ih (copies ++ [copy]) heard (by rw [List.length_append]; exact Nat.pred_eq_of_eq_succ left)
          rw [List.append_assoc] at whole ended
          exact ⟨[copy] ++ more, whole, ended⟩

-- What another device knows of the device whose announcement has spread: the simple paths to it that leave
-- its zone by one hop at most, as routes.
structure Reached (Z : EqualZones n) (o v : Fin n) (e : Engine) : Prop where
  routes : ∀ route, route ∈ e.table.book.hopsTo (Z.name o) ↔
    ∃ w : Z.graph.Walk v o, w.IsPath ∧ w.length ≤ Z.radius + 1 ∧ w.support.map Z.name = route
  known : (∃ route, (e.routeTo Z.now (Z.name o)).1 = .ok route) ↔ Z.graph.edist v o ≤ (Z.radius + 1 : ℕ)
  shortest : ∀ route, (e.routeTo Z.now (Z.name o)).1 = .ok route →
    ∃ w : Z.graph.Walk v o, w.length = Z.graph.edist v o ∧ w.support.map Z.name = route
  border : ∀ excluded, Z.name o ∈ (e.borderNodes Z.now excluded).1 ↔
    Z.graph.edist v o = (Z.radius + 1 : ℕ) ∧ Z.name o ∉ excluded

theorem edist_le_iff {G : SimpleGraph (Fin n)} {k : ℕ} :
    G.edist v o ≤ k ↔ ∃ w : G.Walk v o, w.IsPath ∧ w.length ≤ k := by
  constructor
  · intro within
    have reachable := SimpleGraph.reachable_of_edist_ne_top (ne_top_of_le_ne_top (ENat.natCast_ne_top k) within)
    obtain ⟨w, path, length⟩ := reachable.exists_path_of_dist
    rw [← reachable.coe_dist_eq_edist, Nat.cast_le] at within
    exact ⟨w, path, length ▸ within⟩
  · rintro ⟨w, _, short⟩
    exact (SimpleGraph.edist_le w).trans (Nat.cast_le.mpr short)

theorem route_to_ok {now : UInt64} {d : Identifier} {route : Route} :
    (e.routeTo now d).1 = .ok route ↔ (e.table.book.lookup d now).1 = some route := by
  rw [← ZoneTable.lookup_route]
  unfold Engine.routeTo
  rcases e.table.lookup d now with ⟨_ | found, table⟩
  · exact ⟨nofun, nofun⟩
  · exact ⟨fun same => congrArg some (Except.ok.inj same), fun same => congrArg Except.ok (Option.some.inj same)⟩

theorem reached_of_mapping (mapping : (Z.layout o).Mapping v e.table)
    (routes : ∀ route, route ∈ e.table.book.hopsTo (Z.name o) ↔
      ∃ w : Z.graph.Walk v o, w.IsPath ∧ w.length ≤ Z.radius + 1 ∧ w.support.map Z.name = route) :
    Z.Reached o v e := by
  -- The route that is found is a shortest path.
  have best : ∀ route, (e.table.book.lookup (Z.name o) Z.now).1 = some route →
      ∃ w : Z.graph.Walk v o, w.length = Z.graph.edist v o ∧ w.length ≤ Z.radius + 1 ∧ w.support.map Z.name = route := by
    intro route found
    obtain ⟨⟨r, member, same, _⟩, least⟩ := RouteBook.lookup_some found
    obtain ⟨w, path, short, told⟩ := (routes route).mp (List.mem_map.mpr ⟨r, member, same⟩)
    obtain ⟨w', path', length'⟩ := w.reachable.exists_path_of_dist
    have bound := SimpleGraph.dist_le w
    obtain ⟨r', member', same'⟩ := List.mem_map.mp ((routes _).mpr ⟨w', path', by omega, rfl⟩)
    have upper := least r' member' (mapping.fresh.live _ r' member')
    rw [same', ← told, List.length_map, List.length_map, w.length_support, w'.length_support] at upper
    have exactly : w.length = Z.graph.dist v o := by omega
    exact ⟨w, by rw [exactly, w.reachable.coe_dist_eq_edist], short, told⟩
  have found : ∀ w : Z.graph.Walk v o, w.IsPath → w.length ≤ Z.radius + 1 →
      ∃ route, (e.table.book.lookup (Z.name o) Z.now).1 = some route := by
    intro w path short
    obtain ⟨route, hit, _⟩ := RouteBook.fresh_found mapping.fresh ((routes _).mpr ⟨w, path, short, rfl⟩)
    exact ⟨route, hit⟩
  refine ⟨routes, ?_, fun route told => ?_, fun excluded => ?_⟩
  · rw [edist_le_iff]
    constructor
    · rintro ⟨route, told⟩
      obtain ⟨w, length, short, _⟩ := best route (route_to_ok.mp told)
      exact edist_le_iff.mp (length ▸ Nat.cast_le.mpr short)
    · rintro ⟨w, path, short⟩
      obtain ⟨route, hit⟩ := found w path short
      exact ⟨route, route_to_ok.mpr hit⟩
  · obtain ⟨w, length, _, same⟩ := best route (route_to_ok.mp told)
    exact ⟨w, length, same⟩
  · have filled : ∀ d ∈ e.table.candidates, e.table.book.hopsTo d ≠ [] := by
      intro d member
      obtain ⟨route, known, _⟩ := (mapping.candidates d).mp member
      exact List.ne_nil_of_mem known
    obtain ⟨border, swept, _, members⟩ :=
      ZoneTable.sweep_fresh e.table.borderHops excluded mapping.fresh e.table.candidates filled
    have answer : (e.borderNodes Z.now excluded).1 = border := by
      unfold Engine.borderNodes ZoneTable.borderNodes
      rw [show ZoneTable.sweep e.table.borderHops excluded Z.now e.table.candidates e.table.book = _ from swept]
    have hops : e.table.borderHops = Z.radius + 1 := mapping.hops
    rw [answer, members, mapping.candidates, hops]
    constructor
    · rintro ⟨_, out, route, hit, full⟩
      obtain ⟨w, length, _, told⟩ := best route hit
      rw [← told, List.length_map, w.length_support] at full
      exact ⟨by rw [← length, Nat.succ.inj full], out⟩
    · rintro ⟨exactly, out⟩
      obtain ⟨w, path, short⟩ := edist_le_iff.mp exactly.le
      obtain ⟨route, hit⟩ := found w path short
      obtain ⟨w', length, _, told⟩ := best route hit
      have full : route.length = Z.radius + 1 + 1 := by
        rw [exactly, Nat.cast_inj] at length
        rw [← told, List.length_map, w'.length_support, length]
      obtain ⟨⟨r, member, same, _⟩, _⟩ := RouteBook.lookup_some hit
      exact ⟨⟨route, List.mem_map.mpr ⟨r, member, same⟩, full⟩, out, route, hit, full⟩

theorem flood_reached (copies : List (Copy n)) (feasible : Swarm.Feasible Z.suite (Z.flood o copies) Z.start)
    (quiet : (Z.start.run Z.suite (Z.flood o copies)).air = []) (other : v ≠ o) :
    Z.Reached o v ((Z.start.run Z.suite (Z.flood o copies)).device v) := by
  obtain ⟨smooth, alike⟩ := flood_alike copies feasible
  have flooding := StaticMesh.flooding_run _ (flood_floods copies) StaticMesh.flooding_start smooth
  have table := congrArg Engine.table (alike.device v)
  have mapping := (flooding.listening v).mapping
  rw [alike.air] at quiet
  generalize (Z.start.run Z.suite (Z.flood o copies)).device v = e at table ⊢
  refine reached_of_mapping (table ▸ mapping) fun route => ?_
  rw [table]
  constructor
  · intro member
    obtain ⟨u, p, named, rfl, trail, long, short⟩ := mapping.trails _ _ member
    cases StaticMesh.name_injective (M := Z.layout o) named
    obtain ⟨w, path, rfl⟩ := trail.path
    rw [w.length_support] at short
    exact ⟨w, path, Nat.le_of_succ_le_succ short, rfl⟩
  · rintro ⟨w, path, short, rfl⟩
    have trail := StaticMesh.trail_of_path (M := Z.layout o) path
    have long : 2 ≤ w.support.length := by
      rw [w.length_support]
      exact Nat.succ_le_succ (Nat.pos_of_ne_zero fun none => other (SimpleGraph.Walk.eq_of_length_eq_zero none))
    refine StaticMesh.flooded_told flooding (Or.inr List.mem_cons_self) quiet trail long ?_
    rw [w.length_support]
    exact Nat.succ_le_succ short

-- The order in which copies are heard is not given; that they are used up in the end is part of what is shown.
theorem flood_reach (Z : EqualZones n) (o : Fin n) (copies : List (Copy n))
    (feasible : Swarm.Feasible Z.suite (Z.flood o copies) Z.start) :
    copies.length < (n + 1) ^ (Z.radius + 2) ∧
    (∃ more, Swarm.Feasible Z.suite (Z.flood o (copies ++ more)) Z.start ∧
      (Z.start.run Z.suite (Z.flood o (copies ++ more))).air = []) ∧
    ((Z.start.run Z.suite (Z.flood o copies)).air = [] →
      ∀ v, v ≠ o → Z.Reached o v ((Z.start.run Z.suite (Z.flood o copies)).device v)) :=
  ⟨flood_short copies feasible, flood_ends copies feasible, fun quiet _ other => flood_reached copies feasible quiet other⟩

def ring : EqualZones 4 where
  suite := Suite.plain
  who := numbered
  distinct := numbered_distinct
  named := numbered_named
  settings _ := { zoneRadius := 1 }
  radius := 1
  zones _ := rfl
  fits a long := by
    rw [Wire.Fits, Wire.length_body_advertisement, long]
    decide
  random _ := Random.ofSeed 0
  links := (((Links.join [] 0 1).join 1 2).join 2 3).join 3 0
  symmetric := Links.symmetric_join (Links.symmetric_join (Links.symmetric_join (Links.symmetric_join nofun 0 1) 1 2) 2 3) 3 0
  now := 0

@[irreducible] def ringCopies : List (Copy 4) :=
  Swarm.inOrder ring.suite ring.now ring.links 40 (ring.start.advertise ring.links 0)

theorem flood_reach_ring : (ring.start.run ring.suite (ring.flood 0 ringCopies)).air = [] ∧
    ∀ v, v ≠ 0 → ring.Reached 0 v ((ring.start.run ring.suite (ring.flood 0 ringCopies)).device v) := by
  have runs : Swarm.Feasible ring.suite (ring.flood 0 ringCopies) ring.start ∧
      (ring.start.run ring.suite (ring.flood 0 ringCopies)).air = [] := by decide +kernel
  obtain ⟨_, _, reached⟩ := flood_reach ring 0 ringCopies runs.1
  exact ⟨runs.2, reached runs.2⟩

end EqualZones
end ZoneRouting
