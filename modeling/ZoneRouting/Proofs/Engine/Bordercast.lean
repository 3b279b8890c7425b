import ZoneRouting.Proofs.Engine.RoutingState

set_option autoImplicit false

namespace ZoneRouting

theorem RouteBook.lookup_bare {book : RouteBook} {d : Identifier} (entry : book.buckets.find? d = none) (now : UInt64) :
    (book.lookup d now).1 = none := by
  rw [lookup, entry]

theorem filter_sublist_eq {α : Type} {p : α → Bool} {l l' : List α} (sublist : l'.Sublist l) (once : l.Nodup)
    (kept : ∀ a ∈ l, p a = true → a ∈ l') : l'.filter p = l.filter p := by
  have subset : l.filter p ⊆ l'.filter p := by
    intro a member
    obtain ⟨inside, passes⟩ := List.mem_filter.mp member
    exact List.mem_filter.mpr ⟨kept a inside passes, passes⟩
  exact (sublist.filter p).eq_of_length_le (List.subperm_of_subset (once.filter p) subset).length_le

namespace ZoneTable

def asked (excluded : List Identifier) (now : UInt64) (borderHops : Nat) (book : RouteBook) (node : Identifier) : Bool :=
  (book.lookup node now).1.any fun route => route.length = borderHops + 1 ∧ node ∉ excluded

variable {excluded : List Identifier} {now : UInt64} {borderHops : Nat} {book book' : RouteBook} {table table' : ZoneTable}

theorem asked_prunes (prunes : book.Prunes now book') :
    asked excluded now borderHops book' = asked excluded now borderHops book := by
  funext node
  rw [asked, prunes.lookup, asked]

-- Routes past their deadline that are dropped on the way do not count anyway.
theorem sweep_asked (excluded : List Identifier) (now : UInt64) (borderHops : Nat) (nodes : List Identifier) (book : RouteBook) :
    (sweep borderHops excluded now nodes book).1 = nodes.filter (asked excluded now borderHops book) := by
  induction nodes generalizing book with
  | nil => rfl
  | cons node nodes ih =>
      have prunes := RouteBook.prunes_lookup now book node
      rw [sweep, List.filter_cons, asked]
      rcases found : book.lookup node now with ⟨_ | route, rest⟩ <;> rw [found] at prunes
      · dsimp only
        rw [ih, asked_prunes prunes, Option.any_none, if_neg Bool.false_ne_true]
      · dsimp only
        rw [ih, asked_prunes prunes, Option.any_some]
        by_cases on : route.length = borderHops + 1 ∧ node ∉ excluded
        · rw [if_pos on, if_pos (decide_eq_true on)]
        · rw [if_neg on, if_neg (mt of_decide_eq_true on)]

theorem border_nodes_asked (table : ZoneTable) (excluded : List Identifier) (now : UInt64) :
    (table.borderNodes excluded now).1 = table.candidates.filter (asked excluded now table.borderHops table.book) :=
  sweep_asked excluded now table.borderHops table.candidates table.book

theorem Prunes.border_nodes (prunes : table.Prunes now table') (once : table.candidates.Nodup) (excluded : List Identifier) :
    (table'.borderNodes excluded now).1 = (table.borderNodes excluded now).1 := by
  rw [border_nodes_asked, border_nodes_asked, prunes.borderHops, asked_prunes prunes.book]
  refine filter_sublist_eq prunes.candidates once fun node member passes => ?_
  by_contra gone
  have missing := RouteBook.lookup_bare (prunes.dropped node member gone) now
  rw [← asked_prunes prunes.book, asked, missing] at passes
  cases passes

end ZoneTable

namespace Engine

variable {now : UInt64} {e e' : Engine}

theorem Calm.border_nodes (calm : e.Calm now e') (tidy : e.Tidy) (excluded : List Identifier) :
    (e'.borderNodes now excluded).1 = (e.borderNodes now excluded).1 :=
  calm.settles.table.border_nodes tidy.ranked.once excluded

end Engine
end ZoneRouting
