import Mathlib.Data.List.Nodup
import Mathlib.Data.List.Dedup
import Mathlib.Tactic

namespace RaftRs.Library

/-- A finite set in iteration order holds no element twice. -/
structure KeySet (α : Type) where
  elems : List α
  nodup : elems.Nodup
deriving DecidableEq, Repr

namespace KeySet

variable {α : Type}

def empty : KeySet α := ⟨[], List.nodup_nil⟩

@[simp] theorem empty_elems : (empty : KeySet α).elems = [] := rfl

variable [DecidableEq α]

def contains (set : KeySet α) (item : α) : Bool := decide (item ∈ set.elems)

/-- Insertion appends an element that is not present. -/
def insert (set : KeySet α) (item : α) : KeySet α :=
  if present : item ∈ set.elems then set
  else ⟨set.elems ++ [item], by
    rw [List.nodup_append_comm]
    exact List.nodup_cons.2 ⟨present, set.nodup⟩⟩

def remove (set : KeySet α) (item : α) : KeySet α := ⟨set.elems.erase item, set.nodup.erase item⟩

def extend (set : KeySet α) (items : List α) : KeySet α := items.foldl insert set

def ofList (items : List α) : KeySet α := extend empty items

def isEmpty (set : KeySet α) : Bool := set.elems.isEmpty

def len (set : KeySet α) : Nat := set.elems.length

@[simp] theorem contains_iff (set : KeySet α) (item : α) :
    set.contains item = true ↔ item ∈ set.elems := by
  simp [contains]

/-- Insertion adds exactly the inserted element. -/
@[simp] theorem mem_insert (set : KeySet α) (item other : α) :
    other ∈ (set.insert item).elems ↔ other ∈ set.elems ∨ other = item := by
  unfold insert
  split
  · rename_i present
    constructor
    · exact Or.inl
    · rintro (inside | rfl)
      · exact inside
      · exact present
  · simp

@[simp] theorem mem_remove (set : KeySet α) (item other : α) :
    other ∈ (set.remove item).elems ↔ other ≠ item ∧ other ∈ set.elems := by
  simp [remove, set.nodup.mem_erase_iff]

/-- Extension adds exactly the listed elements. -/
@[simp] theorem mem_extend (set : KeySet α) (items : List α) (other : α) :
    other ∈ (set.extend items).elems ↔ other ∈ set.elems ∨ other ∈ items := by
  unfold extend
  induction items generalizing set with
  | nil => simp
  | cons item rest ih =>
      rw [List.foldl_cons, ih, mem_insert, List.mem_cons]
      tauto

@[simp] theorem mem_ofList (items : List α) (other : α) :
    other ∈ (ofList items).elems ↔ other ∈ items := by
  simp [ofList]

end KeySet

/-- A finite map in iteration order binds no key twice. -/
structure KeyMap (κ α : Type) where
  entries : List (κ × α)
  nodup : (entries.map Prod.fst).Nodup

namespace KeyMap

variable {κ α : Type} [DecidableEq κ]

def empty : KeyMap κ α := ⟨[], List.nodup_nil⟩

def keys (map : KeyMap κ α) : List κ := map.entries.map Prod.fst

def get? (map : KeyMap κ α) (key : κ) : Option α := map.entries.lookup key

def contains (map : KeyMap κ α) (key : κ) : Bool := (map.get? key).isSome

/-- A bound value is rewritten in place. -/
def modify (map : KeyMap κ α) (key : κ) (change : α → α) : KeyMap κ α :=
  ⟨map.entries.map fun entry => if entry.1 = key then (entry.1, change entry.2) else entry, by
    have same : (Prod.fst ∘ fun entry : κ × α => if entry.1 = key then (entry.1, change entry.2)
        else entry) =
        Prod.fst := by
      funext entry
      simp only [Function.comp]
      split <;> rfl
    rw [List.map_map, same]
    exact map.nodup⟩

/-- Every value is rewritten in place. -/
def mapValues (map : KeyMap κ α) (change : κ → α → α) : KeyMap κ α :=
  ⟨map.entries.map fun entry => (entry.1, change entry.1 entry.2), by
    rw [List.map_map]
    exact map.nodup⟩

/-- Insertion rewrites a bound key in place and appends a new one. -/
def insert (map : KeyMap κ α) (key : κ) (value : α) : KeyMap κ α :=
  if bound : key ∈ map.keys then map.modify key fun _ => value
  else ⟨map.entries ++ [(key, value)], by
    rw [List.map_append, List.nodup_append_comm]
    exact List.nodup_cons.2 ⟨bound, map.nodup⟩⟩

def remove (map : KeyMap κ α) (key : κ) : KeyMap κ α :=
  ⟨map.entries.filter fun entry => entry.1 ≠ key, map.nodup.sublist (List.filter_sublist.map _)⟩

/-- The keys of a map are the keys of its entries. -/
theorem mem_keys (map : KeyMap κ α) (key : κ) : key ∈ map.keys ↔ (map.get? key).isSome := by
  unfold keys get?
  induction map.entries with
  | nil => simp
  | cons entry rest ih =>
      rw [List.map_cons, List.mem_cons, List.lookup_cons]
      by_cases same : key = entry.1
      · simp [same]
      · simp [same, beq_false_of_ne same, ih]

/-- The entries of a map are its bindings. -/
theorem mem_entries (map : KeyMap κ α) (key : κ) (value : α) :
    (key, value) ∈ map.entries ↔ map.get? key = some value := by
  obtain ⟨entries, nodup⟩ := map
  unfold get?
  induction entries with
  | nil => simp
  | cons entry rest ih =>
      obtain ⟨fresh, nodup⟩ := List.nodup_cons.1 nodup
      rw [List.mem_cons, List.lookup_cons, ih nodup]
      by_cases same : key = entry.1
      · subst same
        have absent : rest.lookup entry.1 ≠ some value := fun bound =>
          fresh (List.mem_map.2 ⟨_, (ih nodup).2 bound, rfl⟩)
        simp [absent, Prod.ext_iff, eq_comm]
      · simp [beq_false_of_ne same, Prod.ext_iff, same]

/-- A lookup after a rewrite of one binding. -/
@[simp] theorem get?_modify (map : KeyMap κ α) (key other : κ) (change : α → α) :
    (map.modify key change).get? other = if other = key then (map.get? other).map change
      else map.get? other := by
  unfold modify get?
  simp only
  induction map.entries with
  | nil => simp
  | cons entry rest ih =>
      rw [List.map_cons, List.lookup_cons, List.lookup_cons, ih]
      by_cases atKey : entry.1 = key
      · by_cases same : other = entry.1
        · simp [atKey, same]
        · have different : other ≠ key := atKey ▸ same
          simp [atKey, different, beq_false_of_ne different]
      · by_cases same : other = entry.1
        · simp [atKey, same]
        · simp [atKey, beq_false_of_ne same]

/-- A lookup after a rewrite of every binding. -/
@[simp] theorem get?_mapValues (map : KeyMap κ α) (change : κ → α → α) (key : κ) :
    (map.mapValues change).get? key = (map.get? key).map (change key) := by
  unfold mapValues get?
  simp only
  induction map.entries with
  | nil => simp
  | cons entry rest ih =>
      rw [List.map_cons, List.lookup_cons, List.lookup_cons, ih]
      by_cases same : key = entry.1
      · simp [same]
      · simp [beq_false_of_ne same]

/-- A lookup after an insertion. -/
@[simp] theorem get?_insert (map : KeyMap κ α) (key other : κ) (value : α) :
    (map.insert key value).get? other = if other = key then some value else map.get? other := by
  unfold insert
  split
  · rename_i bound
    rw [get?_modify]
    split
    · rename_i same
      obtain ⟨old, found⟩ := Option.isSome_iff_exists.1 ((mem_keys map key).1 bound)
      rw [same, found]
      rfl
    · rfl
  · rename_i unbound
    have absent : map.get? key = none := by
      rw [← Option.not_isSome_iff_eq_none, ← mem_keys]
      exact unbound
    unfold get? at *
    simp only [List.lookup_append]
    by_cases same : other = key
    · subst same
      simp [absent]
    · simp [same, List.lookup_cons, beq_false_of_ne same]

/-- A lookup after a removal. -/
@[simp] theorem get?_remove (map : KeyMap κ α) (key other : κ) :
    (map.remove key).get? other = if other = key then none else map.get? other := by
  unfold remove get?
  simp only
  induction map.entries with
  | nil => simp
  | cons entry rest ih =>
      rw [List.filter_cons, List.lookup_cons]
      by_cases removed : entry.1 = key
      · simp only [removed, ne_eq, not_true_eq_false, decide_false, Bool.false_eq_true, if_false, ih]
        by_cases same : other = key
        · simp [same]
        · simp [same, beq_false_of_ne same]
      · rw [if_pos (by simpa using removed), List.lookup_cons, ih]
        by_cases same : other = entry.1
        · simp [same, removed]
        · simp [beq_false_of_ne same]

@[simp] theorem get?_empty (key : κ) : (empty : KeyMap κ α).get? key = none := rfl

end KeyMap

end RaftRs.Library
