/-!
# Tables

A table files values under keys and keeps the keys in the order of their first entry. It is meant
for the few clients and topics of a broker; a look-up walks the whole list.
-/

namespace BrokerTopology

/-- Values filed under keys. -/
structure Table (α : Type) where
  entries : List (String × α)
  deriving DecidableEq, Repr

namespace Table

variable {α : Type}

/-- A table without entries. -/
def empty : Table α := ⟨[]⟩

instance : Inhabited (Table α) := ⟨empty⟩

/-- All keys with their values, the oldest key first. -/
def toList (t : Table α) : List (String × α) := t.entries

/-- All keys, the oldest first. -/
def keys (t : Table α) : List String := t.entries.map (·.1)

/-- All values, that of the oldest key first. -/
def values (t : Table α) : List α := t.entries.map (·.2)

/-- The value filed under a key. -/
def find? (t : Table α) (key : String) : Option α := t.entries.lookup key

/-- Whether a value is filed under a key. -/
def contains (t : Table α) (key : String) : Bool := (t.find? key).isSome

/-- The entries with the value of a key replaced, or filed at the end. -/
def setEntry (key : String) (value : α) : List (String × α) → List (String × α)
  | [] => [(key, value)]
  | e :: es => if e.1 = key then (key, value) :: es else e :: setEntry key value es

/-- Files a value under a key, in place of what was filed there. -/
def set (t : Table α) (key : String) (value : α) : Table α :=
  ⟨setEntry key value t.entries⟩

/-- Takes out what is filed under a key. -/
def erase (t : Table α) (key : String) : Table α :=
  ⟨t.entries.filter fun e => e.1 != key⟩

@[simp] theorem find?_empty (key : String) : (empty : Table α).find? key = none := rfl

theorem find?_set_self (t : Table α) (key : String) (value : α) :
    (t.set key value).find? key = some value := by
  unfold find? set
  induction t.entries with
  | nil => exact List.lookup_cons_self
  | cons e es ih =>
    obtain ⟨k, v⟩ := e
    by_cases h : k = key
    · rw [setEntry, if_pos h]
      exact List.lookup_cons_self
    · have other : (key == k) = false := by simpa using fun same => h same.symm
      rw [setEntry, if_neg h, List.lookup_cons, other]
      exact ih

/-- What is filed under other keys stays. -/
theorem find?_set_of_ne (t : Table α) {key other : String} (h : other ≠ key) (value : α) :
    (t.set key value).find? other = t.find? other := by
  have apart : (other == key) = false := by simpa using h
  unfold find? set
  induction t.entries with
  | nil => rw [setEntry, List.lookup_cons, apart]
  | cons e es ih =>
    obtain ⟨k, v⟩ := e
    by_cases same : k = key
    · subst same
      rw [setEntry, if_pos rfl, List.lookup_cons, List.lookup_cons, apart]
    · rw [setEntry, if_neg same, List.lookup_cons, List.lookup_cons, ih]

/-- What is taken out is not found. -/
theorem find?_erase_self (t : Table α) (key : String) : (t.erase key).find? key = none := by
  unfold find? erase
  induction t.entries with
  | nil => rfl
  | cons e es ih =>
    obtain ⟨k, v⟩ := e
    by_cases same : k = key
    · rw [List.filter_cons_of_neg (by simp [same])]
      exact ih
    · have apart : (key == k) = false := by simpa using fun h => same h.symm
      rw [List.filter_cons_of_pos (by simpa using same), List.lookup_cons, apart]
      exact ih

/-- What is filed under other keys stays. -/
theorem find?_erase_of_ne (t : Table α) {key other : String} (h : other ≠ key) :
    (t.erase key).find? other = t.find? other := by
  unfold find? erase
  induction t.entries with
  | nil => rfl
  | cons e es ih =>
    obtain ⟨k, v⟩ := e
    by_cases same : k = key
    · have apart : (other == k) = false := by simpa [same] using h
      rw [List.filter_cons_of_neg (by simp [same]), List.lookup_cons, apart]
      exact ih
    · rw [List.filter_cons_of_pos (by simpa using same), List.lookup_cons, List.lookup_cons, ih]

end Table

end BrokerTopology
