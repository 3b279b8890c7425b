import ZoneRouting.Identifier

namespace ZoneRouting

structure Directory (α : Type) where
  entries : List (Identifier × α)
  nodup : (entries.map Prod.fst).Nodup
  deriving DecidableEq

namespace Directory

variable {α : Type}

def empty : Directory α := ⟨[], by simp⟩

instance : Inhabited (Directory α) := ⟨empty⟩

def keys (d : Directory α) : List Identifier := d.entries.map Prod.fst

def values (d : Directory α) : List α := d.entries.map Prod.snd

def size (d : Directory α) : Nat := d.entries.length

def lookup (k : Identifier) : List (Identifier × α) → Option α
  | [] => none
  | (j, a) :: rest => if j = k then some a else lookup k rest

def find? (d : Directory α) (id : Identifier) : Option α := lookup id d.entries

def contains (d : Directory α) (id : Identifier) : Bool := (d.find? id).isSome

-- Entries with the value of one device replaced, or with that device added at the end.
def put (id : Identifier) (a : α) : List (Identifier × α) → List (Identifier × α)
  | [] => [(id, a)]
  | (k, b) :: rest => if k = id then (id, a) :: rest else (k, b) :: put id a rest

theorem mem_keys_put {id k : Identifier} {a : α} {l : List (Identifier × α)} :
    k ∈ (put id a l).map Prod.fst ↔ k = id ∨ k ∈ l.map Prod.fst := by
  induction l with
  | nil => simp [put]
  | cons e rest ih =>
    obtain ⟨j, b⟩ := e
    by_cases h : j = id
    · simp [put, h]
    · simp only [put, h, if_false, List.map_cons, List.mem_cons, ih]
      grind

theorem nodup_put (id : Identifier) (a : α) {l : List (Identifier × α)}
    (h : (l.map Prod.fst).Nodup) : ((put id a l).map Prod.fst).Nodup := by
  induction l with
  | nil => simp [put]
  | cons e rest ih =>
    obtain ⟨j, b⟩ := e
    rw [List.map_cons, List.nodup_cons] at h
    by_cases hj : j = id
    · subst hj
      simpa [put] using h
    · simp only [put, hj, if_false, List.map_cons, List.nodup_cons, mem_keys_put]
      exact ⟨fun hm => hm.elim False.elim h.1, ih h.2⟩

def insert (d : Directory α) (id : Identifier) (a : α) : Directory α :=
  ⟨put id a d.entries, nodup_put id a d.nodup⟩

def erase (d : Directory α) (id : Identifier) : Directory α :=
  ⟨d.entries.filter (·.1 ≠ id),
    List.Nodup.sublist (List.Sublist.map _ List.filter_sublist) d.nodup⟩

-- Enters pairs one after the other, so that the last one of a device counts.
def ofList (pairs : List (Identifier × α)) : Directory α :=
  pairs.foldl (fun d (id, a) => d.insert id a) empty

theorem lookup_put (id k : Identifier) (a : α) (l : List (Identifier × α)) :
    lookup k (put id a l) = if k = id then some a else lookup k l := by
  induction l with
  | nil => simp [put, lookup, eq_comm]
  | cons e rest ih =>
    obtain ⟨j, b⟩ := e
    by_cases hj : j = id <;> simp only [put, hj, if_true, if_false, lookup, ih] <;> grind

theorem find?_insert (d : Directory α) (id k : Identifier) (a : α) :
    (d.insert id a).find? k = if k = id then some a else d.find? k :=
  lookup_put id k a d.entries

theorem find?_erase (d : Directory α) (id k : Identifier) :
    (d.erase id).find? k = if k = id then none else d.find? k := by
  show lookup k (d.entries.filter (·.1 ≠ id)) = if k = id then none else lookup k d.entries
  induction d.entries with
  | nil => simp [lookup]
  | cons e rest ih =>
    obtain ⟨j, b⟩ := e
    by_cases hj : j = id <;> simp only [List.filter_cons, hj, lookup] <;> grind [lookup]

@[simp] theorem find?_empty (k : Identifier) : (empty : Directory α).find? k = none := rfl

end Directory
end ZoneRouting
