import ZoneRouting.Proofs.Engine.Emission

set_option autoImplicit false

namespace ZoneRouting

theorem ZoneTable.sweep_border (borderHops : Nat) (excluded : List Identifier) (now : UInt64) (nodes : List Identifier)
    (book : RouteBook) : (sweep borderHops excluded now nodes book).1.Sublist nodes ∧
      ∀ node ∈ (sweep borderHops excluded now nodes book).1, node ∉ excluded := by
  induction nodes generalizing book with
  | nil => exact ⟨.refl _, nofun⟩
  | cons node nodes ih =>
      rw [sweep]
      rcases book.lookup node now with ⟨_ | route, rest⟩
      · exact ⟨(ih rest).1.cons node, (ih rest).2⟩
      · obtain ⟨inside, spared⟩ := ih rest
        dsimp only
        by_cases on : route.length = borderHops + 1 ∧ node ∉ excluded
        · rw [if_pos on]
          exact ⟨inside.cons_cons node, List.forall_mem_cons.mpr ⟨on.2, spared⟩⟩
        · rw [if_neg on]
          exact ⟨inside.cons node, spared⟩

theorem ZoneTable.candidates_learn {table : ZoneTable} (once : table.candidates.Nodup) (a : Advertisement) (now : UInt64) :
    (table.learn a now).2.candidates.Nodup := by
  rw [learn]
  dsimp only
  split
  · dsimp only
    split
    · rename_i fresh
      refine List.nodup_append.mpr ⟨once, List.nodup_singleton _, ?_⟩
      rintro other member _ last rfl
      exact fresh.2 (List.mem_singleton.mp last ▸ member)
    · exact once
  · exact once

namespace Engine

-- How a device passes a query on with its own name on it: straight to its destination, or to candidates for border
-- nodes to whom it has not gone before, as long as its route is not too long.
inductive PassesOn (e : Engine) (d : Discovery) : Passage → Prop
  | straight : PassesOn e d (.straight { d with route := d.route ++ [e.id] })
  | bordercast (targets : List Identifier) (among : targets.Sublist e.table.candidates)
      (spared : ∀ target ∈ targets, target ∉ d.covered ∧ target ∉ d.route ++ [e.id])
      (short : (d.route ++ [e.id]).length ≤ e.settings.maxRouteLength) :
      PassesOn e d (.bordercast { d with route := d.route ++ [e.id], covered := d.covered ++ targets } targets)

variable {S : Suite} {now : UInt64} {e e' : Engine} {d : Discovery} {p : Passage}

theorem border_nodes_spared (now : UInt64) (excluded : List Identifier) (e : Engine) :
    (e.borderNodes now excluded).1.Sublist e.table.candidates ∧ ∀ node ∈ (e.borderNodes now excluded).1, node ∉ excluded :=
  ZoneTable.sweep_border e.table.borderHops excluded now e.table.candidates e.table.book

theorem change_candidates (change : Change S e e') (once : e.table.candidates.Nodup) : e'.table.candidates.Nodup := by
  cases change with
  | settle settles => exact once.sublist settles.table.candidates
  | announce now a ring _ _ => exact ZoneTable.candidates_learn once _ now
  | search | park | deliver | outgoing | collect | answer | accept => exact once

theorem changes_candidates (changes : Changes S e e') (once : e.table.candidates.Nodup) : e'.table.candidates.Nodup := by
  induction changes with
  | refl => exact once
  | tail _ change ih => exact change_candidates change ih

theorem outward_cases (settles : e.Settles now e') (outward : e'.outward? now { d with route := d.route ++ [e.id] } = some p) :
    e.PassesOn d p := by
  obtain ⟨among, spared⟩ := border_nodes_spared now (d.covered ++ (d.route ++ [e.id])) e'
  rw [outward?] at outward
  split at outward
  · cases outward
  · rename_i short
    split at outward
    · cases outward
    · cases outward
      refine .bordercast _ (among.trans settles.table.candidates) (fun target member => ?_) ?_
      · have apart := spared target member
        rw [List.mem_append, not_or] at apart
        exact apart
      · rw [← settles.settings]
        exact Nat.not_lt.mp short

theorem passage_cases (passage : e.passage? S now d = some p) :
    Route.LoopFree d.route ∧ e.id ∉ d.route ∧ d.destination ≠ e.id ∧ e.PassesOn d p := by
  rw [passage?] at passage
  split at passage
  · cases passage
  · rename_i new
    obtain ⟨loopFree, absent, foreign⟩ : Route.LoopFree d.route ∧ e.id ∉ d.route ∧ d.destination ≠ e.id := by
      simpa only [not_or, not_not] using new
    refine ⟨loopFree, absent, foreign, ?_⟩
    have looked := settles_lookup now e d.destination
    rw [onward?] at passage
    dsimp only at passage
    rcases found : e.table.lookup d.destination now with ⟨_ | route, table⟩ <;> rw [found] at looked passage
    · exact outward_cases looked passage
    · have settles := forward_settles S now d.destination (.discovery { d with route := d.route ++ [e.id] }) { e with table }
      dsimp only at passage
      split at passage
      · cases passage
        exact .straight
      · rename_i tried
        rw [tried] at settles
        exact outward_cases (looked.trans settles) passage

theorem PassesOn.route (passes : e.PassesOn d p) : p.query.route = d.route ++ [e.id] := by
  cases passes <;> rfl

theorem PassesOn.covered (passes : e.PassesOn d p) : p.query.covered = d.covered ++ p.targets := by
  cases passes with
  | straight => exact (List.append_nil _).symm
  | bordercast => rfl

theorem PassesOn.spared (passes : e.PassesOn d p) : ∀ target ∈ p.targets, target ∉ d.covered ∧ target ∉ p.query.route := by
  cases passes with
  | straight => exact nofun
  | bordercast targets _ spared _ => exact spared

theorem PassesOn.once (passes : e.PassesOn d p) (once : e.table.candidates.Nodup) : p.targets.Nodup := by
  cases passes with
  | straight => exact List.nodup_nil
  | bordercast targets among _ _ => exact once.sublist among

theorem PassesOn.short {query : Discovery} {targets : List Identifier} (passes : e.PassesOn d (.bordercast query targets)) :
    query.route.length ≤ e.settings.maxRouteLength := by
  cases passes with
  | bordercast _ _ _ short => exact short

end Engine
end ZoneRouting
