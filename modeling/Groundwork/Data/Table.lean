/-!
# Tables: lists of named entries

A table is a list of pairs whose names are distinct.  Two orders occur: tables that keep the order in
which names first arrived (`put`), and tables sorted by name (`file`).  Names are compared by code
point, which is also the order of their UTF-8 bytes.

Main statements: writing under a name makes that name read back (`lookup_put_self`,
`lookup_file_self`) and leaves every other name alone (`lookup_put_ne`, `lookup_file_ne`).
-/

namespace Groundwork

/-- A list of named entries. -/
abbrev Table (α : Type) := List (String × α)

namespace Table

variable {α β : Type}

/-- The names of a table, in order. -/
def keys (t : Table α) : List String := t.map (·.1)

/-- The entries of a table, in order of their names. -/
def values (t : Table α) : List α := t.map (·.2)

/-- Writes an entry: a known name keeps its place, a new one goes to the end. -/
def put : Table α → String → α → Table α
  | [], k, v => [(k, v)]
  | (k', v') :: t, k, v => if k' = k then (k, v) :: t else (k', v') :: put t k v

/-- Writes an entry into a table sorted by name. -/
def file : Table α → String → α → Table α
  | [], k, v => [(k, v)]
  | (k', v') :: t, k, v =>
      if k' = k then (k, v) :: t
      else if k < k' then (k, v) :: (k', v') :: t
      else (k', v') :: file t k v

/-- Whether a name occurs. -/
def has (t : Table α) (k : String) : Bool := (t.lookup k).isSome

/-- Leaves out the entry of one name. -/
def erase (t : Table α) (k : String) : Table α := t.filter (·.1 ≠ k)

/-- The table of a list of pairs, in order of first arrival; of equal names the last entry counts. -/
def ofPairs (ps : List (String × α)) : Table α := ps.foldl (fun t p => t.put p.1 p.2) []

/-- The sorted table of a list of pairs; of equal names the last entry counts. -/
def sorted (ps : List (String × α)) : Table α := ps.foldl (fun t p => t.file p.1 p.2) []

/-- Changes every entry, keeping names and order. -/
def mapValues (f : α → β) (t : Table α) : Table β := t.map fun p => (p.1, f p.2)

theorem lookup_put_self (t : Table α) (k : String) (v : α) : (t.put k v).lookup k = some v := by
  induction t with
  | nil => simp [put]
  | cons p t ih =>
    obtain ⟨k', v'⟩ := p
    by_cases h : k' = k
    · simp [put, h]
    · have h' : (k == k') = false := by simp [Ne.symm h]
      simp [put, h, List.lookup_cons, h', ih]

theorem lookup_put_ne (t : Table α) {k l : String} (v : α) (h : l ≠ k) :
    (t.put k v).lookup l = t.lookup l := by
  induction t with
  | nil =>
    have h' : (l == k) = false := by simp [h]
    simp [put, List.lookup_cons, h']
  | cons p t ih =>
    obtain ⟨k', v'⟩ := p
    by_cases hk : k' = k
    · subst hk
      have h' : (l == k') = false := by simp [h]
      simp [put, List.lookup_cons, h']
    · simp only [put, hk, if_false, List.lookup_cons, ih]

theorem lookup_file_self (t : Table α) (k : String) (v : α) : (t.file k v).lookup k = some v := by
  induction t with
  | nil => simp [file]
  | cons p t ih =>
    obtain ⟨k', v'⟩ := p
    by_cases h : k' = k
    · simp [file, h]
    · have h' : (k == k') = false := by simp [Ne.symm h]
      by_cases hlt : k < k'
      · simp [file, h, hlt]
      · simp [file, h, hlt, List.lookup_cons, h', ih]

theorem lookup_file_ne (t : Table α) {k l : String} (v : α) (h : l ≠ k) :
    (t.file k v).lookup l = t.lookup l := by
  have hlk : (l == k) = false := by simp [h]
  induction t with
  | nil => simp [file, List.lookup_cons, hlk]
  | cons p t ih =>
    obtain ⟨k', v'⟩ := p
    by_cases hk : k' = k
    · subst hk
      simp [file, List.lookup_cons, hlk]
    · by_cases hlt : k < k'
      · simp only [file, hk, if_false, hlt, if_true, List.lookup_cons, hlk]
      · simp only [file, hk, if_false, hlt, List.lookup_cons, ih]

end Table

end Groundwork
