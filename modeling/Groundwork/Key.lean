import Groundwork.Data.Decode
import Groundwork.Text.Blank

/-!
# Keys: the logical identity of nodes

A key names a node by its type and name, within a component and an environment if it has them.  Its id joins
these parts with slashes, after dots and blanks in them became dashes; so an id never holds a dot, and can
stand before the dot of a reference.

Main statements: `dot_not_mem_id` and `isBlank_of_mem_id`.
-/

namespace Groundwork

/-- The logical identity of a node. -/
structure Key where
  resourceType : String
  name : String
  component : Option String
  environment : Option String
  deriving DecidableEq, Repr, Inhabited

namespace Key

/-- A key outside of components and environments. -/
def unscoped (resourceType name : String) : Key := ⟨resourceType, name, none, none⟩

/-- A character of a part within an id. -/
def cleanChar (c : Char) : Char := if c = '.' || Text.isBlank c then '-' else c

/-- A part within an id. -/
def clean (s : String) : List Char := s.toList.map cleanChar

/-- An optional part with the slash after it. -/
def cleanScope : Option String → List Char
  | some s => clean s ++ ['/']
  | none => []

/-- The id of a key, as characters. -/
def idChars (k : Key) : List Char :=
  cleanScope k.environment ++ cleanScope k.component ++ clean k.resourceType ++ '/' :: clean k.name

/-- The id of a key. -/
def id (k : Key) : String := String.ofList k.idChars

/-- The fields of a key. -/
def toFields (k : Key) : List (String × Value) :=
  [("type", .str k.resourceType), ("name", .str k.name)]
    ++ Encode.optional "component" .str k.component
    ++ Encode.optional "environment" .str k.environment

/-- The names of the fields of a key. -/
def fieldNames : List String := ["type", "name", "component", "environment"]

/-- Reads a key from fields. -/
def ofFields? (t : Table Value) : Option Key := do
  return {
    resourceType := ← Decode.needed Decode.text t "type"
    name := ← Decode.needed Decode.text t "name"
    component := ← Decode.optional Decode.text t "component"
    environment := ← Decode.optional Decode.text t "environment" }

/-- Reads a key. -/
def ofValue? (v : Value) : Option Key := (Decode.parts fieldNames v).bind ofFields?

/-- The comparison of optional texts: a missing one comes first. -/
def compareOption : Option String → Option String → Ordering
  | none, none => .eq
  | none, some _ => .lt
  | some _, none => .gt
  | some a, some b => compare a b

/-- The order of keys: by type, name, component and environment. -/
def compareKeys (a b : Key) : Ordering :=
  (compare a.resourceType b.resourceType).then <| (compare a.name b.name).then <|
    (compareOption a.component b.component).then (compareOption a.environment b.environment)

theorem cleanChar_ne_dot (c : Char) : cleanChar c ≠ '.' := by
  unfold cleanChar
  split
  · decide
  · simp_all

theorem isBlank_cleanChar (c : Char) : Text.isBlank (cleanChar c) = false := by
  unfold cleanChar
  split
  · decide
  · simp_all

theorem mem_idChars {k : Key} {c : Char} (h : c ∈ k.idChars) : c = '/' ∨ ∃ d, c = cleanChar d := by
  have hc : ∀ s : String, c ∈ clean s → ∃ d, c = cleanChar d := by
    intro s hs
    obtain ⟨d, -, hd⟩ := List.mem_map.1 hs
    exact ⟨d, hd.symm⟩
  have hs : ∀ o : Option String, c ∈ cleanScope o → c = '/' ∨ ∃ d, c = cleanChar d := by
    intro o ho
    cases o with
    | none => simp [cleanScope] at ho
    | some s =>
      simp only [cleanScope, List.mem_append, List.mem_singleton] at ho
      exact ho.symm.imp_right (hc s)
  simp only [idChars, List.mem_append, List.mem_cons] at h
  rcases h with ((h | h) | h) | h | h
  · exact hs _ h
  · exact hs _ h
  · exact .inr (hc _ h)
  · exact .inl h
  · exact .inr (hc _ h)

theorem dot_not_mem_id (k : Key) : '.' ∉ k.idChars := by
  intro h
  rcases mem_idChars h with h | ⟨d, h⟩
  · exact absurd h (by decide)
  · exact cleanChar_ne_dot d h.symm

theorem isBlank_of_mem_id {k : Key} {c : Char} (h : c ∈ k.idChars) : Text.isBlank c = false := by
  rcases mem_idChars h with h | ⟨d, h⟩
  · subst h; decide
  · exact h ▸ isBlank_cleanChar d

end Key

end Groundwork
