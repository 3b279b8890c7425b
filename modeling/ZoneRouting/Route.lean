import ZoneRouting.Identifier

namespace ZoneRouting

abbrev Route := List Identifier

namespace Route

def LoopFree (route : Route) : Prop := route.Nodup

def ascending : List Identifier → Bool
  | a :: b :: rest => a < b && ascending (b :: rest)
  | _ => true

theorem nodup_of_ascending {ids : List Identifier} (h : ascending ids = true) : ids.Nodup := by
  have above : ∀ {ids : List Identifier} {a : Identifier}, ascending (a :: ids) = true →
      ∀ b ∈ ids, a < b := by
    intro ids
    induction ids with
    | nil => simp
    | cons c ids ih =>
      intro a h b hb
      simp only [ascending, Bool.and_eq_true, decide_eq_true_eq] at h
      rcases List.mem_cons.1 hb with rfl | hb
      · exact h.1
      · exact Nat.lt_trans h.1 (ih h.2 b hb)
  induction ids with
  | nil => exact List.nodup_nil
  | cons a ids ih =>
    refine List.nodup_cons.2 ⟨fun ha => Nat.lt_irrefl _ (above h a ha), ih ?_⟩
    cases ids with
    | nil => rfl
    | cons b ids =>
      simp only [ascending, Bool.and_eq_true] at h
      exact h.2

theorem ascending_of_nodup {ids : List Identifier} (hs : ids.Pairwise (· ≤ ·)) (hn : ids.Nodup) :
    ascending ids = true := by
  induction ids with
  | nil => rfl
  | cons a ids ih =>
    cases ids with
    | nil => rfl
    | cons b ids =>
      have hab : a ≤ b := (List.pairwise_cons.1 hs).1 b (by simp)
      have hne : a ≠ b := fun e => (List.nodup_cons.1 hn).1 (by simp [e])
      have hlt : a < b := by
        refine Nat.lt_of_le_of_ne hab fun e => hne ?_
        obtain ⟨⟨x⟩⟩ := a
        obtain ⟨⟨y⟩⟩ := b
        exact congrArg (fun v => (⟨⟨v⟩⟩ : Identifier)) (BitVec.toNat_inj.1 e)
      simp only [ascending, Bool.and_eq_true, decide_eq_true_eq]
      exact ⟨hlt, ih hs.of_cons (List.nodup_cons.1 hn).2⟩

theorem ascending_sort_iff (route : Route) :
    ascending (Identifier.sort route) = true ↔ LoopFree route := by
  have hp := (Identifier.perm_sort route).nodup_iff
  exact ⟨fun h => hp.1 (nodup_of_ascending h),
    fun h => ascending_of_nodup (Identifier.pairwise_sort route) (hp.2 h)⟩

-- The devices of a long route are put in order first, so that each has to be compared with its
-- neighbours alone.
instance (route : Route) : Decidable (LoopFree route) :=
  if route.length < 32 then inferInstanceAs (Decidable (List.Nodup route))
  else decidable_of_iff _ (ascending_sort_iff route)

def after? (id : Identifier) : Route → Option Identifier
  | a :: b :: rest => if a = id then some b else after? id (b :: rest)
  | _ => none

def before? (id : Identifier) : Route → Option Identifier
  | a :: b :: rest => if b = id then some a else before? id (b :: rest)
  | _ => none

theorem after?_append {id next : Identifier} (before rest : Route) (h : id ∉ before) :
    after? id (before ++ id :: next :: rest) = some next := by
  induction before with
  | nil => simp [after?]
  | cons a before ih =>
    rw [List.mem_cons, not_or] at h
    have ha : a ≠ id := fun e => h.1 e.symm
    cases before with
    | nil => simp [after?, ha]
    | cons b before => simpa [after?, ha] using ih h.2

theorem exists_append_of_after? {id next : Identifier} {route : Route}
    (h : after? id route = some next) : ∃ before rest, route = before ++ id :: next :: rest := by
  induction route with
  | nil => simp [after?] at h
  | cons a route ih =>
    cases route with
    | nil => simp [after?] at h
    | cons b rest =>
      by_cases ha : a = id
      · subst ha
        simp only [after?, if_true, Option.some.injEq] at h
        subst h
        exact ⟨[], rest, rfl⟩
      · simp only [after?, ha, if_false] at h
        obtain ⟨before, rest', hr⟩ := ih h
        exact ⟨a :: before, rest', by rw [hr]; rfl⟩

end Route
end ZoneRouting
