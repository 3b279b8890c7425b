import ZoneRouting.Proofs.StaticMesh.Departure

set_option autoImplicit false

namespace ZoneRouting.StaticMesh

variable {n : Nat} {M : StaticMesh n} {flood : List (Event n)}

def heard (M : StaticMesh n) (copies : List (Copy n)) : List (Event n) := copies.map (.hear M.now M.links)

-- The payload is handed over to the source, and what the source then has to transmit is collected.
def Dispatch.departure (D : M.Dispatch) : List (Event n) :=
  [.send M.now D.source (M.name D.target) D.payload, .collect M.links D.source]

theorem dispatch_handed (D : M.Dispatch) (copies : List (Copy n)) (floods : ∀ event ∈ flood, M.Floods event) (u : Fin n) :
    handed (M.name u) (flood ++ (D.departure ++ M.heard copies)) = if u = D.target then {D.payload} else 0 := by
  have before : handed (M.name u) flood = 0 := handed_none fun event member => by cases floods event member <;> rfl
  have after : handed (M.name u) (M.heard copies) = 0 := by
    refine handed_none fun event member => ?_
    obtain ⟨copy, _, rfl⟩ := List.mem_map.mp member
    rfl
  have between : handed (M.name u) D.departure = if M.name D.target = M.name u then {D.payload} else 0 := by
    rw [handed, Dispatch.departure]
    exact add_zero _
  rw [handed_append, handed_append, before, between, after, zero_add, add_zero]
  by_cases same : u = D.target
  · rw [if_pos same, if_pos (congrArg M.name same.symm)]
  · rw [if_neg same, if_neg fun equal => same (name_injective equal).symm]

theorem dispatch_plain (D : M.Dispatch) (copies : List (Copy n)) (floods : ∀ event ∈ flood, M.Floods event) :
    ∀ event ∈ flood ++ (D.departure ++ M.heard copies), ¬ event.Echoes := by
  intro event member
  rcases List.mem_append.mp member with before | later
  · cases floods event before <;> exact id
  · rcases List.mem_append.mp later with between | after
    · rcases List.mem_cons.mp between with rfl | second
      · exact id
      · cases List.mem_singleton.mp second
        exact id
    · obtain ⟨copy, _, rfl⟩ := List.mem_map.mp after
      exact id

theorem dispatch_at_most (D : M.Dispatch) (copies : List (Copy n)) (floods : ∀ event ∈ flood, M.Floods event) (u : Fin n) :
    (((M.start.run M.suite (flood ++ (D.departure ++ M.heard copies))).device u).incoming : Multiset Bytes) ≤
      if u = D.target then {D.payload} else 0 := by
  have trust := (flooding_start (M := M)).trust
  have delivered := Swarm.delivered_stock
    (Swarm.run_trustworthy M.usable.opens M.distinct (flood ++ (D.departure ++ M.heard copies)) trust) u
  have bound := Swarm.run_stock M.usable.opens M.distinct (M.name u) _ (dispatch_plain D copies floods) trust
  rw [start, Swarm.start_stock, add_zero] at bound
  rw [← dispatch_handed D copies floods u]
  exact delivered.trans bound

theorem departs (D : M.Dispatch) {e : Engine} (ready : M.Ready D.source e) (idle : Dispatch.Idle e)
    (fits : ∀ d ∈ e.sendWrites M.suite M.now (M.name D.target) D.payload, Wire.Fits d) :
    (e.send M.suite M.now (M.name D.target) D.payload).1 =
        .ok (if M.graph.dist D.source D.target ≤ M.settings.zoneRadius + 1 then .direct else .queued) ∧
      D.Departure (e.send M.suite M.now (M.name D.target) D.payload).2 := by
  by_cases within : M.graph.dist D.source D.target ≤ M.settings.zoneRadius + 1
  · rw [if_pos within]
    exact Dispatch.departs_near ready idle ⟨D.different, D.connected, within⟩ fits
  · rw [if_neg within]
    exact Dispatch.departs_far ready idle (fun near => within near.within) fits

-- Both phases come to an end because each copy that is heard costs one of the events that are left, whose number is bounded.
theorem static_mesh_delivers (M : StaticMesh n) (flood : List (Event n)) (floods : ∀ event ∈ flood, M.Floods event)
    (smooth : Swarm.Smooth M.suite flood M.start) :
    flood.length ≤ flood.countP Event.advertises * (n + 1) ^ (M.reach + 1) ∧
      let f := M.start.run M.suite flood
      (∀ u, .advertise M.links u ∈ flood) → f.air = [] →
        ∀ (D : M.Dispatch) (copies : List (Copy n)), Swarm.Smooth M.suite (D.departure ++ M.heard copies) f →
          ((f.device D.source).send M.suite M.now (M.name D.target) D.payload).1 =
              .ok (if M.graph.dist D.source D.target ≤ M.settings.zoneRadius + 1 then .direct else .queued) ∧
            copies.length < (n + 1) ^ Dispatch.effort n ∧
            let f' := f.run M.suite (D.departure ++ M.heard copies)
            f'.air = [] → (∀ u, (f'.device u).incoming = if u = D.target then [D.payload] else []) ∧
              (f'.device D.source).parkedFor (M.name D.target) = [] := by
  have flooding := flooding_run flood floods flooding_start smooth
  refine ⟨?_, fun all quiet D copies smooth' => ?_⟩
  · have nothing : Swarm.Lasting M.Spreading M.start.air 0 := ⟨[], .nil, rfl⟩
    have bound := flood_limit flood floods flooding_start smooth nothing
    rwa [Nat.zero_add] at bound
  · have ready := flooded_ready flooding (fun u => Or.inr (all u)) quiet
    have idle := Dispatch.idle_listening (flooding.listening D.source)
    obtain ⟨sending, hearing⟩ := Swarm.smooth_append smooth'
    obtain ⟨outcome, departure⟩ := departs D (ready D.source) idle sending.2.1
    obtain ⟨delivering, total, short, lasting⟩ := Dispatch.departed ready quiet departure rfl
    obtain ⟨delivering', ends⟩ := Dispatch.delivering_run copies delivering hearing lasting
    refine ⟨outcome, Nat.lt_of_le_of_lt ends short, fun silent => ?_⟩
    have once := fun u => dispatch_at_most D copies floods u
    rw [Swarm.run_append] at once
    rw [Swarm.run_append] at silent once ⊢
    obtain ⟨gone, arrived⟩ := Dispatch.delivering_quiet delivering' silent
    refine ⟨fun u => ?_, gone⟩
    have most := once u
    by_cases same : u = D.target
    · subst same
      rw [if_pos rfl] at most ⊢
      rcases Multiset.le_singleton.mp most with none | one
      · exact absurd ((Multiset.coe_eq_zero _).mp none) arrived
      · exact Multiset.coe_eq_singleton.mp one
    · rw [if_neg same] at most ⊢
      exact (Multiset.coe_eq_zero _).mp (Multiset.le_zero.mp most)

-- Four devices in a row, the last of which is beyond the border of the first one's zone.
def row : StaticMesh 4 where
  suite := Suite.plain
  usable := plain_usable
  who := numbered
  distinct := numbered_distinct
  named := numbered_named
  settings := { zoneRadius := 1 }
  nesting := by decide
  long := by decide
  random _ := Random.ofSeed 0
  links := ((Links.join [] 0 1).join 1 2).join 2 3
  symmetric := Links.symmetric_join (Links.symmetric_join (Links.symmetric_join nofun 0 1) 1 2) 2 3
  now := 0

theorem row_connected : row.graph.Reachable 0 3 := by
  have trail : row.Trail 0 3 [0, 1, 2, 3] := by
    refine ⟨by decide, ?_, rfl, rfl⟩
    simp only [List.isChain_cons_cons, adj_iff, List.isChain_singleton, and_true]
    decide
  exact trail.reachable

def errand : row.Dispatch where
  source := 0
  target := 3
  payload := [1, 2, 3]
  different := by decide
  connected := row_connected
  untagged := rfl

@[irreducible] def announcements : List (Event 4) :=
  let made := (List.finRange 4).map (.advertise row.links)
  made ++ row.heard (Swarm.inOrder row.suite row.now row.links 40 (row.start.run row.suite made))

@[irreducible] def errands : List (Copy 4) :=
  Swarm.inOrder row.suite row.now row.links 40 (row.start.run row.suite (announcements ++ errand.departure))

def delivered : Swarm 4 := row.start.run row.suite (announcements ++ (errand.departure ++ row.heard errands))

theorem static_mesh_delivers_row :
    delivered.air = [] ∧ ∀ u, (delivered.device u).incoming = if u = errand.target then [[1, 2, 3]] else [] := by
  have floods : ∀ event ∈ announcements, row.Floods event := by
    unfold announcements
    intro event member
    rcases List.mem_append.mp member with made | heard
    · obtain ⟨u, _, rfl⟩ := List.mem_map.mp made
      exact .advertise u
    · obtain ⟨copy, _, rfl⟩ := List.mem_map.mp heard
      exact .hear copy
  have all : ∀ u, .advertise row.links u ∈ announcements := by
    unfold announcements
    exact fun u => List.mem_append_left _ (List.mem_map_of_mem (List.mem_finRange u))
  -- One evaluation of the run serves all three facts.
  have runs : Swarm.Smooth row.suite (announcements ++ (errand.departure ++ row.heard errands)) row.start ∧
      (row.start.run row.suite announcements).air = [] ∧ delivered.air = [] := by decide +kernel
  obtain ⟨smooth, calm, quiet⟩ := runs
  obtain ⟨before, after⟩ := Swarm.smooth_append smooth
  obtain ⟨_, delivers⟩ := static_mesh_delivers row announcements floods before
  obtain ⟨_, _, arrived⟩ := delivers all calm errand errands after
  have whole : delivered = (row.start.run row.suite announcements).run row.suite (errand.departure ++ row.heard errands) :=
    Swarm.run_append ..
  rw [whole] at quiet ⊢
  exact ⟨quiet, (arrived quiet).1⟩

end ZoneRouting.StaticMesh
