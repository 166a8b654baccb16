/-! # Tables

A table binds keys to values and remembers the order in which the keys came: binding a key again
changes its value and leaves it in its place.  Scopes and the registry of modules are tables,
because the order of their keys can be seen.

Each operation is described by what it does to `get?`.
-/
namespace SmallLisp

/-- Bindings in the order in which their keys were first bound. -/
structure Table (κ α : Type) where
  entries : List (κ × α)

namespace Table

variable {κ α : Type} [DecidableEq κ]

/-- The table without bindings. -/
def empty : Table κ α := ⟨[]⟩

/-- The value that a list of bindings gives a key. -/
def lookup (key : κ) : List (κ × α) → Option α
  | [] => none
  | (k, v) :: rest => if k = key then some v else lookup key rest

/-- A list of bindings with one more: in place of the old binding of the key, else at the end. -/
def replace (key : κ) (value : α) : List (κ × α) → List (κ × α)
  | [] => [(key, value)]
  | (k, v) :: rest => if k = key then (key, value) :: rest else (k, v) :: replace key value rest

/-- The value bound to a key. -/
def get? (t : Table κ α) (key : κ) : Option α := lookup key t.entries

/-- Binds a key. -/
def insert (t : Table κ α) (key : κ) (value : α) : Table κ α := ⟨replace key value t.entries⟩

/-- Removes the binding of a key. -/
def erase (t : Table κ α) (key : κ) : Table κ α := ⟨t.entries.filter fun e => e.1 ≠ key⟩

/-- The keys in the order in which they were first bound. -/
def keys (t : Table κ α) : List κ := t.entries.map Prod.fst

/-- Whether a key is bound. -/
def contains (t : Table κ α) (key : κ) : Bool := (t.get? key).isSome

/-- Binds the keys of a list one after the other. -/
def insertAll (t : Table κ α) (bindings : List (κ × α)) : Table κ α :=
  bindings.foldl (fun t b => t.insert b.1 b.2) t

@[simp] theorem get?_empty (key : κ) : (empty : Table κ α).get? key = none := rfl

theorem mem_of_get? {t : Table κ α} {key : κ} {v : α} (h : t.get? key = some v) :
    (key, v) ∈ t.entries := by
  obtain ⟨entries⟩ := t
  change lookup key entries = some v at h
  induction entries with
  | nil => cases h
  | cons e rest ih =>
    obtain ⟨k, w⟩ := e
    simp only [lookup] at h
    split at h
    next hk =>
      cases h
      rw [hk]
      exact List.mem_cons_self
    · exact List.mem_cons_of_mem _ (ih h)

theorem lookup_replace (entries : List (κ × α)) (key other : κ) (value : α) :
    lookup other (replace key value entries) =
      if key = other then some value else lookup other entries := by
  induction entries with
  | nil => rfl
  | cons e rest ih =>
    obtain ⟨k, v⟩ := e
    by_cases hk : k = key <;> by_cases ho : key = other <;> grind [lookup, replace]

@[simp] theorem get?_insert (t : Table κ α) (key other : κ) (value : α) :
    (t.insert key value).get? other = if key = other then some value else t.get? other :=
  lookup_replace _ _ _ _

theorem lookup_filter (entries : List (κ × α)) (key other : κ) :
    lookup other (entries.filter fun e => e.1 ≠ key) =
      if key = other then none else lookup other entries := by
  induction entries with
  | nil => simp [lookup]
  | cons e rest ih =>
    obtain ⟨k, v⟩ := e
    by_cases hk : k = key <;> by_cases ho : key = other <;> grind [lookup]

@[simp] theorem get?_erase (t : Table κ α) (key other : κ) :
    (t.erase key).get? other = if key = other then none else t.get? other :=
  lookup_filter _ _ _

theorem lookup_isSome_iff (entries : List (κ × α)) (key : κ) :
    (lookup key entries).isSome = true ↔ key ∈ entries.map Prod.fst := by
  induction entries with
  | nil => simp [lookup]
  | cons e rest ih =>
    obtain ⟨k, v⟩ := e
    by_cases hk : k = key
    · simp [lookup, hk]
    · simp only [lookup, hk, if_false, ih, List.map_cons, List.mem_cons]
      exact ⟨Or.inr, fun h => h.resolve_left (Ne.symm hk)⟩

theorem contains_iff_mem_keys (t : Table κ α) (key : κ) :
    t.contains key = true ↔ key ∈ t.keys :=
  lookup_isSome_iff _ _

/-- Binding a bound key keeps the order of the keys; binding a new one adds it at the end. -/
theorem keys_insert (t : Table κ α) (key : κ) (value : α) :
    (t.insert key value).keys = if t.contains key then t.keys else t.keys ++ [key] := by
  obtain ⟨entries⟩ := t
  simp only [contains, get?, keys, insert]
  induction entries with
  | nil => rfl
  | cons e rest ih =>
    obtain ⟨k, v⟩ := e
    by_cases hk : k = key
    · simp [lookup, replace, hk]
    · by_cases h : (lookup key rest).isSome = true <;> simp_all [lookup, replace]

end Table

end SmallLisp
