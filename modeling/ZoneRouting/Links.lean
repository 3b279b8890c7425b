namespace ZoneRouting

abbrev Links (α : Type) := List (α × α)

namespace Links

variable {α : Type} [DecidableEq α]

def enter (links : Links α) (pair : α × α) : Links α :=
  if pair ∈ links then links else links ++ [pair]

def join (links : Links α) (a b : α) : Links α := (links.enter (a, b)).enter (b, a)

def cut (links : Links α) (a b : α) : Links α := links.filter fun l => l ≠ (a, b) ∧ l ≠ (b, a)

def hears (links : Links α) (sender receiver : α) : Bool := (sender, receiver) ∈ links

def neighbours (links : Links α) (sender : α) : List α :=
  (links.filter fun l => l.1 = sender).map Prod.snd

def Symmetric (links : Links α) : Prop := ∀ a b, (a, b) ∈ links → (b, a) ∈ links

theorem mem_enter {links : Links α} {p q : α × α} : p ∈ links.enter q ↔ p ∈ links ∨ p = q := by
  unfold enter
  split
  · rename_i h
    exact ⟨Or.inl, fun hp => hp.elim id fun e => e ▸ h⟩
  · simp

theorem symmetric_join {links : Links α} (h : Symmetric links) (a b : α) :
    Symmetric (links.join a b) := by
  intro x y hxy
  simp only [join, mem_enter] at hxy ⊢
  rcases hxy with (hxy | hxy) | hxy
  · exact Or.inl (Or.inl (h x y hxy))
  · cases hxy
    exact Or.inr rfl
  · cases hxy
    exact Or.inl (Or.inr rfl)

theorem symmetric_cut {links : Links α} (h : Symmetric links) (a b : α) :
    Symmetric (links.cut a b) := by
  intro x y hxy
  simp only [cut, List.mem_filter, decide_eq_true_eq] at hxy ⊢
  refine ⟨h x y hxy.1, ?_, ?_⟩
  · rintro ⟨⟩
    exact hxy.2.2 rfl
  · rintro ⟨⟩
    exact hxy.2.1 rfl

end Links
end ZoneRouting
