import Groundwork.Proofs.Data.Outcome
import Groundwork.Proofs.Variable.Order

/-!
# Schemas

A schema has the metadata of declared variables and records which of their fields refer to which other variables: a
variable refers to another if a token in some field of its metadata names it.  So the search through a schema can be
read as one through the declarations.  What several variables refer to is no cycle, but a variable that refers to
itself is one.

Main statements: a schema records all references, and they are to variables that are declared (`lookup_schema`,
`grounded_schema`, `dependsOn_iff_refersTo`); declared variables can be listed exactly if none refers back to itself,
and otherwise the failure names two that follow each other on such a way back (`sort_declared`).
-/

namespace Groundwork.Variable

open Relation
open Template

variable {declared : Table Metadata} {s : Schema}

/-! ### What is recorded -/

theorem mem_usesOf {m : Metadata} {u : VariableUse} :
    u ∈ usesOf m ↔ ∃ p ∈ m.fields, p.1 = u.field ∧ ∃ e ∈ visitExpressions p.2, named? e = some u.name := by
  simp only [usesOf, List.mem_flatMap, List.mem_map, List.mem_filterMap]
  constructor
  · rintro ⟨p, hp, name, ⟨e, he, hname⟩, rfl⟩
    exact ⟨p, hp, rfl, e, he, hname⟩
  · rintro ⟨p, hp, hfield, e, he, hname⟩
    exact ⟨p, hp, u.name, ⟨e, he, hname⟩, by rw [hfield]⟩

theorem mem_fields_of_default {m : Metadata} {d : Value} (h : m.default = some d) : ("default", d) ∈ m.fields := by
  simp [Metadata.fields, Encode.optional, h]

/-- What a default refers to is recorded. -/
theorem mem_usesOf_of_default {m : Metadata} {d : Value} {e a : String} (h : m.default = some d)
    (he : e ∈ visitExpressions d) (ha : named? e = some a) : (⟨"default", a⟩ : VariableUse) ∈ usesOf m :=
  mem_usesOf.2 ⟨_, mem_fields_of_default h, rfl, e, he, ha⟩

theorem recordUses_eq_ok {k : String} {m m' : Metadata} (h : recordUses declared k m = .ok m') :
    m' = { m with uses := usesOf m } ∧ ∀ u ∈ usesOf m, declared.has u.name = true := by
  unfold recordUses at h
  dsimp only at h
  split at h
  · cases h
  · rename_i hfind
    cases h
    refine ⟨rfl, fun u hu => ?_⟩
    simpa using List.find?_eq_none.1 hfind u hu

theorem entry_of_schema (h : schema declared = .ok s) (k : String) :
    s.lookup k = (declared.lookup k).map (fun m => { m with uses := usesOf m }) ∧
      ∀ m, declared.lookup k = some m → ∀ u ∈ usesOf m, declared.has u.name = true := by
  have hall : ∀ {l : Table Metadata} {t : Schema},
      l.mapM (fun p => (recordUses declared p.1 p.2).map fun m => (p.1, m)) = .ok t →
      t.lookup k = (l.lookup k).map (fun m => { m with uses := usesOf m }) ∧
        ∀ m, l.lookup k = some m → ∀ u ∈ usesOf m, declared.has u.name = true := by
    intro l
    induction l with
    | nil =>
      intro t ht
      rw [List.mapM_nil] at ht
      cases ht
      exact ⟨rfl, nofun⟩
    | cons p l ih =>
      intro t ht
      rw [List.mapM_cons] at ht
      obtain ⟨q, hq, ht⟩ := bind_eq_ok ht
      obtain ⟨r, hr, ht⟩ := bind_eq_ok ht
      cases ht
      obtain ⟨m, hm, hq⟩ := bind_eq_ok (x := recordUses declared p.1 p.2) (f := fun m => .ok (p.1, m)) (by
        cases hp : recordUses declared p.1 p.2 <;> rw [hp] at hq <;> exact hq)
      cases hq
      obtain ⟨rfl, hknown⟩ := recordUses_eq_ok hm
      rw [List.lookup_cons, List.lookup_cons]
      cases k == p.1 with
      | true =>
        refine ⟨rfl, fun m hm => ?_⟩
        cases hm
        exact hknown
      | false => exact ih hr
  exact hall h

/-- **The schema has the declared metadata with its references recorded.** -/
theorem lookup_schema (h : schema declared = .ok s) (k : String) :
    s.lookup k = (declared.lookup k).map fun m => { m with uses := usesOf m } := (entry_of_schema h k).1

theorem mem_keys_schema_iff (h : schema declared = .ok s) {k : String} : k ∈ s.keys ↔ declared.has k = true := by
  rw [Table.mem_keys_iff, lookup_schema h, Table.has, Option.isSome_iff_exists]
  cases declared.lookup k <;> simp

/-- **All that variables of a schema refer to is declared.** -/
theorem grounded_schema (h : schema declared = .ok s) : Grounded s := by
  intro a b hab
  cases hm : declared.lookup a with
  | none =>
    rw [DependsOn, dependencies, lookup_schema h, hm] at hab
    cases hab
  | some m =>
    have hs : s.lookup a = some { m with uses := usesOf m } := by rw [lookup_schema h, hm]; rfl
    rw [DependsOn, dependencies_eq hs, mem_dependenciesOf] at hab
    obtain ⟨u, hu, rfl⟩ := hab
    exact (mem_keys_schema_iff h).2 ((entry_of_schema h a).2 m hm u hu)

/-! ### What declarations refer to -/

/-- Whether a token in some field of the metadata of a declared variable names another variable. -/
def RefersTo (declared : Table Metadata) (a b : String) : Prop :=
  ∃ m, declared.lookup a = some m ∧ ∃ p ∈ m.fields, ∃ e ∈ visitExpressions p.2, named? e = some b

/-- Whether no declared variable refers back to itself, directly or through others. -/
def Unlooped (declared : Table Metadata) : Prop := ∀ a, ¬ TransGen (RefersTo declared) a a

theorem mem_dependenciesOf_recorded {m : Metadata} {b : String} :
    b ∈ dependenciesOf { m with uses := usesOf m } ↔
      ∃ p ∈ m.fields, ∃ e ∈ visitExpressions p.2, named? e = some b := by
  rw [mem_dependenciesOf]
  constructor
  · rintro ⟨u, hu, rfl⟩
    obtain ⟨p, hp, -, hnamed⟩ := mem_usesOf.1 hu
    exact ⟨p, hp, hnamed⟩
  · rintro ⟨p, hp, e, he, hnamed⟩
    exact ⟨⟨p.1, b⟩, mem_usesOf.2 ⟨p, hp, rfl, e, he, hnamed⟩, rfl⟩

/-- **The schema depends on what the declarations refer to.** -/
theorem dependsOn_iff_refersTo (h : schema declared = .ok s) {a b : String} :
    DependsOn s a b ↔ RefersTo declared a b := by
  have hlookup := lookup_schema h a
  cases hm : declared.lookup a with
  | none =>
    rw [hm] at hlookup
    simp [DependsOn, dependencies, hlookup, RefersTo, hm]
  | some m =>
    rw [hm] at hlookup
    rw [DependsOn, dependencies_eq hlookup, mem_dependenciesOf_recorded]
    constructor
    · intro hnamed
      exact ⟨m, hm, hnamed⟩
    · rintro ⟨m', hm', hnamed⟩
      rw [hm] at hm'
      cases hm'
      exact hnamed

/-- What metadata refers to is told once, in the order of names. -/
theorem dependenciesOf_pairwise (m : Metadata) : (dependenciesOf m).Pairwise (· < ·) :=
  Table.ascending_iff_keys.1 (Table.ascending_sorted _)

/-! ### The listing -/

/-- What is said of a list of declared variables in order: each is there once, with its metadata and with what this
refers to, and comes after that. -/
structure Arranged (declared : Table Metadata) (l : List Sorted) : Prop where
  once : (l.map (·.name)).Nodup
  all : ∀ a, a ∈ l.map (·.name) ↔ a ∈ declared.keys
  entries : ∀ v ∈ l, ∃ m, declared.lookup v.name = some m ∧ v.metadata = { m with uses := usesOf m }
  dependencies : ∀ v ∈ l, v.dependencies.Pairwise (· < ·) ∧ ∀ b, b ∈ v.dependencies ↔ RefersTo declared v.name b
  after : ∀ past v later, l = past ++ v :: later → ∀ b, RefersTo declared v.name b → b ∈ past.map (·.name)

/-- A list of a schema in order is one of what was declared. -/
theorem Listed.arranged {l : List Sorted} (hl : Listed s l) (h : schema declared = .ok s) : Arranged declared l := by
  have hexact : ∀ v ∈ l, ∀ b, b ∈ v.dependencies ↔ RefersTo declared v.name b := by
    intro v hv b
    obtain ⟨hlookup, hdependencies⟩ := hl.entries v hv
    rw [← dependsOn_iff_refersTo h, DependsOn, dependencies_eq hlookup, hdependencies]
  refine ⟨hl.nodup, ?_, ?_, ?_, ?_⟩
  · intro a
    rw [hl.complete, mem_keys_schema_iff h, Table.has, Option.isSome_iff_exists, Table.mem_keys_iff]
  · intro v hv
    have hlookup := (hl.entries v hv).1
    rw [lookup_schema h, Option.map_eq_some_iff] at hlookup
    obtain ⟨m, hm, hrecorded⟩ := hlookup
    exact ⟨m, hm, hrecorded.symm⟩
  · intro v hv
    refine ⟨?_, hexact v hv⟩
    rw [(hl.entries v hv).2]
    exact dependenciesOf_pairwise v.metadata
  · intro past v later hsplit b hb
    have hv : v ∈ l := by simp [hsplit]
    exact hl.ordered past v later hsplit b ((hexact v hv b).2 hb)

/-- **Declared variables can be listed exactly if none refers back to itself.**  In the list each is there once,
after all that it refers to; and a failure names a variable and one that it refers to directly, from which there is
a way back. -/
theorem sort_declared (h : schema declared = .ok s) :
    ((∃ l, sort s = .ok l) ↔ Unlooped declared) ∧
      match sort s with
      | .ok l => Arranged declared l
      | .error e => ∃ source target, e = .circularVariableDependency source target ∧
          RefersTo declared source target ∧ ReflTransGen (RefersTo declared) target source := by
  have hsame : DependsOn s = RefersTo declared := by
    funext a b
    exact propext (dependsOn_iff_refersTo h)
  constructor
  · rw [← acyclic_iff_sort (grounded_schema h), Acyclic, hsame]
    rfl
  · rcases sort_cases (grounded_schema h) with ⟨l, hsort, hl⟩ | ⟨a, b, hsort, hab, hba⟩
    · rw [hsort]
      exact hl.arranged h
    · rw [hsort]
      rw [hsame] at hab hba
      exact ⟨a, b, rfl, hab, hba⟩

/-! ### Some declarations -/

/-- A variable that refers to two others, which share a third; with `back` this refers to the first again. -/
def shared (back : Option Value) : Table Metadata :=
  [("url", { Metadata.ofType "string" with default := some (.str "$\x7b var.host \x7d:$\x7b var.port \x7d") }),
    ("host", { Metadata.ofType "string" with description := some "in $\x7b variable.region \x7d" }),
    ("port", { Metadata.ofType "number" with extra := [("of", .arr [.str "$\x7b\x7b variables.region \x7d\x7d"])] }),
    ("region", { Metadata.ofType "string" with default := back })]

/-- What is shared is no cycle, and a way back to the first is found from the last. -/
theorem sort_shared :
    (∃ s l, schema (shared none) = .ok s ∧ sort s = .ok l ∧
      l.map (·.name) = ["region", "host", "port", "url"] ∧ Unlooped (shared none) ∧ Arranged (shared none) l) ∧
    ∃ s, schema (shared (some (.str "$\x7b var.url \x7d"))) = .ok s ∧
      sort s = .error (.circularVariableDependency "region" "url") ∧
      ¬ Unlooped (shared (some (.str "$\x7b var.url \x7d"))) := by
  constructor
  · obtain ⟨s, l, hs, hl, hnames⟩ : ∃ s l, schema (shared none) = .ok s ∧ sort s = .ok l ∧
        l.map (·.name) = ["region", "host", "port", "url"] :=
      ⟨_, _, eq_ok_getD (by decide +kernel) [], eq_ok_getD (by decide +kernel) [], by decide +kernel⟩
    obtain ⟨hiff, hcases⟩ := sort_declared hs
    rw [hl] at hcases
    exact ⟨s, l, hs, hl, hnames, hiff.1 ⟨l, hl⟩, hcases⟩
  · obtain ⟨s, hs, hsort⟩ : ∃ s, schema (shared (some (.str "$\x7b var.url \x7d"))) = .ok s ∧
        sort s = .error (.circularVariableDependency "region" "url") :=
      ⟨_, eq_ok_getD (by decide +kernel) [], by decide +kernel⟩
    refine ⟨s, hs, hsort, fun hunlooped => ?_⟩
    obtain ⟨l, hl⟩ := (sort_declared hs).1.2 hunlooped
    rw [hsort] at hl
    cases hl

end Groundwork.Variable
