import Groundwork.Proofs.Template.Filling
import Groundwork.Proofs.Variable.Order
import Groundwork.Variable.Resolve

/-!
# What defaults mean

A reference is an expression that starts with one of the words for variables, and the path after it is looked up in
a table of values.  A lenient context leaves a reference in place that leads nowhere.  In a strict one it is a
failure, and so is one that leads to null.

The default of a variable means what one interpolation makes of it with the values of the variables that it refers
to (`Means`).  Values come to a default along another way: each is filled into the later variables as soon as it is
known, and what is left is interpolated in the end.  Both come to the same if what is filled in can be read as it was
(`Tame`).

Main statements: a strict interpolation gives what a lenient one does, exactly if every reference leads to a value
that is not null (`apply_strict_eq_ok_iff`), and fails for one that does not (`of_apply_strict_eq_error`); a variable
means one value (`Means.unique`), and a value that is filled into a variable passes over its default as often as that
refers to it (`exists_fill`).
-/

namespace Groundwork.Variable

open Template

/-! ### References -/

section References

/-- The path after the word for variables that an expression starts with, if there is one. -/
def reference? (e : String) : Option Path :=
  match Path.parse? e with
  | some (.field root :: path) => if scopes.contains root then some path else none
  | _ => none

/-- What a reference leads to in a table of values. -/
def found (values : Table Value) (e : String) : Option Value := (reference? e).bind (Path.find? (.obj values))

theorem named?_eq_some_iff {e a : String} : named? e = some a ↔ ∃ p, reference? e = some (.field a :: p) := by
  unfold named? reference?
  cases Path.parse? e with
  | none => simp
  | some path =>
    match path with
    | [] => simp
    | .index n :: p => simp
    | [.field root] => simp
    | .field root :: .index n :: p => simp
    | .field root :: .field name :: p => simp

theorem found_field {values : Table Value} {e a : String} {p : Path} (h : reference? e = some (.field a :: p)) :
    found values e = (values.lookup a).bind fun v => Path.find? v p := by
  rw [found, h]
  rfl

theorem found_of_not_reference {values : Table Value} {e : String} (h : reference? e = none) :
    found values e = none := by
  rw [found, h]
  rfl

variable {values : Table Value}

theorem lookup_foldl_scopes {v : Value} {f : Context → String → Context}
    (hf : ∀ c scope, (f c scope).scopes = c.scopes.file scope v) (names : List String) (c : Context) (root : String) :
    (names.foldl f c).scopes.lookup root = if names.contains root then some v else c.scopes.lookup root := by
  induction names generalizing c with
  | nil => rfl
  | cons name names ih =>
    rw [List.foldl_cons, ih, hf]
    by_cases h : root = name
    · subst h
      simp [Table.lookup_file_self]
    · simp [Table.lookup_file_ne _ _ h, h]

theorem lookup_lenientContext (root : String) :
    (lenientContext values).scopes.lookup root = if scopes.contains root then some (.obj values) else none :=
  lookup_foldl_scopes (fun _ _ => rfl) scopes Context.empty root

theorem lookup_strictContext (root : String) :
    (strictContext values).scopes.lookup root = if scopes.contains root then some (.obj values) else none :=
  lookup_foldl_scopes (fun _ _ => rfl) scopes Context.empty root

theorem strict_strictContext (root : String) :
    (strictContext values).strict.contains root = scopes.contains root := by
  show scopes.reverse.contains root = _
  rw [Bool.eq_iff_iff, List.contains_iff_mem, List.contains_iff_mem, List.mem_reverse]

theorem resolve_lenient (e : String) : (lenientContext values).resolve e = .ok (found values e) := by
  unfold Context.resolve found reference?
  cases Path.parse? e with
  | none => rfl
  | some path =>
    match path with
    | [] => rfl
    | .index n :: p => rfl
    | .field root :: p =>
      dsimp only
      rw [lookup_lenientContext]
      cases scopes.contains root <;> rfl

/-- A strict look-up gives what is found, or it fails since nothing is, or null. -/
theorem resolve_strict (values : Table Value) (e : String) :
    ((strictContext values).resolve e = .ok (found values e) ∧
        ∀ path, reference? e = some path → ∃ v, found values e = some v ∧ v ≠ .null) ∨
      ∃ path, reference? e = some path ∧ (found values e = none ∨ found values e = some .null) ∧
        (strictContext values).resolve e = .error (.unresolvedVariable (Context.missingName e path)) := by
  unfold Context.resolve found reference?
  cases Path.parse? e with
  | none => exact Or.inl ⟨rfl, nofun⟩
  | some path =>
    match path with
    | [] => exact Or.inl ⟨rfl, nofun⟩
    | .index n :: p => exact Or.inl ⟨rfl, nofun⟩
    | .field root :: p =>
      dsimp only
      rw [lookup_strictContext, strict_strictContext]
      cases hroot : scopes.contains root with
      | false => exact Or.inl ⟨rfl, nofun⟩
      | true =>
        rw [if_pos rfl, if_pos rfl, Option.bind_some]
        dsimp only
        cases hfound : Path.find? (.obj values) p with
        | none => exact Or.inr ⟨p, rfl, Or.inl rfl, rfl⟩
        | some v =>
          cases v with
          | null => exact Or.inr ⟨p, rfl, Or.inr rfl, rfl⟩
          | _ => exact Or.inl ⟨rfl, fun _ _ => ⟨_, rfl, nofun⟩⟩

theorem apply_lenient (d : Value) : (lenientContext values).apply d = .ok (splice (found values) d) := by
  have hresolve : (lenientContext values).resolve = fun e => (pure (found values e) : Except CompileError _) :=
    funext resolve_lenient
  rw [Context.apply, hresolve, mapExpressions_pure]
  rfl

/-- **A strict interpolation succeeds exactly if every reference leads to a value that is not null**, and then it
gives what a lenient one does. -/
theorem apply_strict_eq_ok_iff {d v : Value} : (strictContext values).apply d = .ok v ↔
    v = splice (found values) d ∧
      ∀ e ∈ visitExpressions d, ∀ path, reference? e = some path → ∃ x, found values e = some x ∧ x ≠ .null := by
  have hagree : (∀ e ∈ visitExpressions d, (strictContext values).resolve e = .ok (found values e)) →
      (strictContext values).apply d = .ok (splice (found values) d) := by
    intro h
    have hsame : mapExpressions (strictContext values).resolve d
        = mapExpressions (fun e => (pure (found values e) : Except CompileError _)) d := mapExpressions_congr h
    rw [Context.apply, hsame, mapExpressions_pure]
    rfl
  constructor
  · intro h
    have hall : ∀ e ∈ visitExpressions d, (strictContext values).resolve e = .ok (found values e) ∧
        ∀ path, reference? e = some path → ∃ x, found values e = some x ∧ x ≠ .null := by
      intro e he
      obtain ⟨x, hx⟩ := exists_eq_ok_of_mapExpressions h e he
      refine (resolve_strict values e).resolve_right ?_
      rintro ⟨path, -, -, hfail⟩
      rw [hx] at hfail
      cases hfail
    rw [hagree fun e he => (hall e he).1] at h
    exact ⟨(Except.ok.inj h).symm, fun e he => (hall e he).2⟩
  · rintro ⟨rfl, h⟩
    refine hagree fun e he => ?_
    rcases resolve_strict values e with ⟨hok, -⟩ | ⟨path, hpath, hlost, -⟩
    · exact hok
    · obtain ⟨x, hx, hnull⟩ := h e he path hpath
      rcases hlost with hlost | hlost
      · rw [hx] at hlost
        cases hlost
      · rw [hx] at hlost
        exact absurd (Option.some.inj hlost) hnull

/-- What a strict interpolation fails for. -/
theorem of_apply_strict_eq_error {d : Value} {err : CompileError} (h : (strictContext values).apply d = .error err) :
    ∃ e ∈ visitExpressions d, ∃ path, reference? e = some path ∧
      (found values e = none ∨ found values e = some .null) ∧
      err = .unresolvedVariable (Context.missingName e path) := by
  obtain ⟨e, he, herror⟩ := exists_eq_error_of_mapExpressions h
  rcases resolve_strict values e with ⟨hok, -⟩ | ⟨path, hpath, hlost, hfail⟩
  · rw [herror] at hok
    cases hok
  · rw [herror] at hfail
    exact ⟨e, he, path, hpath, hlost, Except.error.inj hfail⟩

end References

variable (declared : Table Metadata) (overrides : Table Value)

/-! ### Meanings -/

/-- The values that variables mean: the override, or what an interpolation makes of the default with values that are
meant. -/
inductive Means : String → Value → Prop
  | override {k : String} {v : Value} (hk : declared.has k = true) (hv : overrides.lookup k = some v) : Means k v
  | default {k : String} {m : Metadata} {d : Value} {values : Table Value} (hk : declared.lookup k = some m)
      (hfree : overrides.lookup k = none) (hd : m.default = some d)
      (hvalues : ∀ a x, values.lookup a = some x → Means a x)
      (hfound : ∀ e ∈ visitExpressions d, ∀ path, reference? e = some path → ∃ x, found values e = some x) :
      Means k (splice (found values) d)

/-- Whether all values of a table are meant. -/
def Meant (values : Table Value) : Prop := ∀ a x, values.lookup a = some x → Means declared overrides a x

/-- Whether defaults can be filled in a value at a time: their tokens are whole, their references name variables, and
what these mean can be read as it was. -/
def Tame : Prop :=
  ∀ k m d, declared.lookup k = some m → overrides.lookup k = none → m.default = some d →
    ∀ t ∈ d.texts, ∀ e ∈ expressions (parse t), IsWhole e ∧ ∀ path, reference? e = some path →
      ∃ a p, path = .field a :: p ∧
        ∀ v x, Means declared overrides a v → Path.find? v p = some x → Takes t x

/-- Whether a default refers to a part of a variable for which there is no value. -/
def Dangling (a : String) : Prop :=
  ∃ k m d e p, declared.lookup k = some m ∧ overrides.lookup k = none ∧ m.default = some d ∧
    e ∈ visitExpressions d ∧ reference? e = some (.field a :: p) ∧
    ∀ v, Means declared overrides a v → Path.find? v p = none

variable {declared overrides} {values : Table Value} {k : String} {m : Metadata} {d : Value}

theorem Means.known {v : Value} (h : Means declared overrides k v) :
    ∃ m, declared.lookup k = some m ∧ (overrides.has k = true ∨ m.default.isSome = true) := by
  cases h with
  | override hk hv =>
    obtain ⟨m, hm⟩ := Option.isSome_iff_exists.1 hk
    exact ⟨m, hm, Or.inl (by rw [Table.has, hv]; rfl)⟩
  | default hk hfree hd hvalues hfound => exact ⟨_, hk, Or.inr (by rw [hd]; rfl)⟩

theorem Tame.names (ht : Tame declared overrides) (hk : declared.lookup k = some m)
    (hfree : overrides.lookup k = none) (hd : m.default = some d) {e : String} (he : e ∈ visitExpressions d)
    {path : Path} (hpath : reference? e = some path) : ∃ a p, path = .field a :: p := by
  obtain ⟨t, htext, het⟩ := mem_visitExpressions_iff.1 he
  obtain ⟨a, p, hname, -⟩ := (ht k m d hk hfree hd t htext e het).2 path hpath
  exact ⟨a, p, hname⟩

/-- Values that are meant can be filled in. -/
theorem Tame.fits (ht : Tame declared overrides) (hk : declared.lookup k = some m)
    (hfree : overrides.lookup k = none) (hd : m.default = some d) (hvalues : Meant declared overrides values) :
    Fits (found values) d := by
  intro t htext e he
  obtain ⟨hwhole, htakes⟩ := ht k m d hk hfree hd t htext e he
  refine ⟨hwhole, fun x hx => ?_⟩
  cases hpath : reference? e with
  | none =>
    rw [found_of_not_reference hpath] at hx
    cases hx
  | some path =>
    obtain ⟨a, p, rfl, htakes⟩ := htakes path hpath
    rw [found_field hpath] at hx
    obtain ⟨v, hv, hx⟩ := Option.bind_eq_some_iff.1 hx
    exact htakes v x (hvalues a v hv) hx

/-- Tables that agree where both have values find the same where both find something. -/
theorem splice_found_eq (ht : Tame declared overrides) (hk : declared.lookup k = some m)
    (hfree : overrides.lookup k = none) (hd : m.default = some d) {values' : Table Value}
    (hsame : ∀ a v v', values.lookup a = some v → values'.lookup a = some v' → v = v')
    (h : ∀ e ∈ visitExpressions d, ∀ path, reference? e = some path → ∃ x, found values e = some x)
    (h' : ∀ e ∈ visitExpressions d, ∀ path, reference? e = some path → ∃ x, found values' e = some x) :
    splice (found values) d = splice (found values') d := by
  refine splice_congr fun e he => ?_
  cases hpath : reference? e with
  | none => rw [found_of_not_reference hpath, found_of_not_reference hpath]
  | some path =>
    obtain ⟨a, p, rfl⟩ := ht.names hk hfree hd he hpath
    obtain ⟨x, hx⟩ := h e he _ hpath
    obtain ⟨x', hx'⟩ := h' e he _ hpath
    rw [found_field hpath] at hx hx' ⊢
    rw [found_field hpath]
    obtain ⟨v, hv, -⟩ := Option.bind_eq_some_iff.1 hx
    obtain ⟨v', hv', -⟩ := Option.bind_eq_some_iff.1 hx'
    rw [hv, hv', hsame a v v' hv hv']

/-- **A variable means one value.** -/
theorem Means.unique (ht : Tame declared overrides) {v v' : Value} (h : Means declared overrides k v)
    (h' : Means declared overrides k v') : v = v' := by
  induction h generalizing v' with
  | override hk hv =>
    cases h' with
    | override _ hv' =>
      rw [hv] at hv'
      exact Option.some.inj hv'
    | default _ hfree => 
      rw [hv] at hfree
      cases hfree
  | @default k m d values hk hfree hd hvalues hfound ih =>
    cases h' with
    | override _ hv' =>
      rw [hfree] at hv'
      cases hv'
    | @default _ m' d' values' hk' _ hd' hvalues' hfound' =>
      rw [hk] at hk'
      cases hk'
      rw [hd] at hd'
      cases hd'
      exact splice_found_eq ht hk hfree hd (fun a x x' hx hx' => ih a x hx (hvalues' a x' hx')) hfound hfound'

theorem Meant.file (h : Meant declared overrides values) {v : Value} (hv : Means declared overrides k v) :
    Meant declared overrides (values.file k v) := by
  intro a x hx
  by_cases ha : a = k
  · subst ha
    rw [Table.lookup_file_self] at hx
    cases hx
    exact hv
  · rw [Table.lookup_file_ne _ _ ha] at hx
    exact h a x hx

/-! ### Filling in a value -/

theorem exists_fillField (values : Table Value) (m : Metadata) (k : String) :
    ∃ m', fillField (lenientContext values) m k = .ok m' ∧ m'.uses = m.uses ∧
      m'.default = if k = "default" then m.default.map (splice (found values)) else m.default := by
  unfold fillField
  cases hfield : m.field? k with
  | none =>
    refine ⟨m, rfl, rfl, ?_⟩
    split
    · rename_i hk
      subst hk
      have hnone : m.default = none := hfield
      rw [hnone]
      rfl
    · rfl
  | some v =>
    dsimp only
    rw [apply_lenient]
    refine ⟨_, rfl, ?_⟩
    unfold Metadata.setField
    by_cases hdefault : k = "default"
    · subst hdefault
      have hv : m.default = some v := hfield
      rw [if_neg (by decide), if_neg (by decide), if_pos rfl, if_pos rfl, hv]
      exact ⟨rfl, rfl⟩
    · rw [if_neg hdefault, if_neg hdefault]
      split
      · split <;> exact ⟨rfl, rfl⟩
      · split
        · split <;> exact ⟨rfl, rfl⟩
        · exact ⟨rfl, rfl⟩

/-- Filling a value into fields passes over the default as often as it is one of them. -/
theorem exists_foldlM_fillField (values : Table Value) (keys : List String) (m : Metadata) :
    ∃ m', keys.foldlM (fillField (lenientContext values)) m = .ok m' ∧ m'.uses = m.uses ∧
      m'.default = m.default.map (splice (found values))^[keys.count "default"] := by
  induction keys generalizing m with
  | nil => exact ⟨m, rfl, rfl, by simp⟩
  | cons k keys ih =>
    obtain ⟨m₁, hfirst, huses₁, hdefault₁⟩ := exists_fillField values m k
    obtain ⟨m₂, hrest, huses₂, hdefault₂⟩ := ih m₁
    refine ⟨m₂, ?_, huses₂.trans huses₁, ?_⟩
    · rw [List.foldlM_cons, hfirst]
      exact hrest
    · rw [hdefault₂, hdefault₁]
      by_cases hk : k = "default"
      · subst hk
        rw [if_pos rfl, List.count_cons_self, Option.map_map, Function.iterate_succ]
      · rw [if_neg hk, List.count_cons_of_ne hk]

/-- How often a field is one that refers to a variable. -/
theorem count_fields (field name : String) (uses : List VariableUse) :
    ((uses.filter (·.name = name)).map (·.field)).count field = uses.count ⟨field, name⟩ := by
  rw [List.count, List.countP_map, List.countP_filter, List.count]
  refine List.countP_congr fun u _ => ?_
  obtain ⟨f, n⟩ := u
  simp

/-- A variable into which the value of another is filled: as many passes over its default as that refers to it. -/
structure FilledIn (name : String) (value : Value) (v v' : Sorted) : Prop where
  named : v'.name = v.name
  dependencies : v'.dependencies = v.dependencies
  uses : v'.metadata.uses = v.metadata.uses
  default : v'.metadata.default
    = v.metadata.default.map (splice (found [(name, value)]))^[v.metadata.uses.count ⟨"default", name⟩]

theorem exists_fill (name : String) (value : Value) {v : Sorted} (hv : v.dependencies = dependenciesOf v.metadata) :
    ∃ v', fill name value v = .ok v' ∧ FilledIn name value v v' := by
  unfold fill
  split
  · obtain ⟨m, hm, huses, hdefault⟩ := exists_foldlM_fillField [(name, value)]
      ((v.metadata.uses.filter (·.name = name)).map (·.field)) v.metadata
    rw [count_fields] at hdefault
    refine ⟨{ v with metadata := m }, ?_, rfl, rfl, huses, hdefault⟩
    dsimp only
    rw [hm]
    rfl
  · rename_i hother
    have hcount : v.metadata.uses.count ⟨"default", name⟩ = 0 := by
      refine List.count_eq_zero_of_not_mem fun hmem => hother ?_
      rw [List.contains_iff_mem, hv]
      exact mem_dependenciesOf.2 ⟨_, hmem, rfl⟩
    refine ⟨v, rfl, rfl, rfl, rfl, ?_⟩
    rw [hcount]
    simp

theorem exists_mapM_fill (name : String) (value : Value) {rest : List Sorted}
    (h : ∀ v ∈ rest, v.dependencies = dependenciesOf v.metadata) :
    ∃ rest', rest.mapM (fill name value) = .ok rest' ∧ List.Forall₂ (FilledIn name value) rest rest' := by
  refine exists_mapM_of_forall (f := fun v => (pure v : Except CompileError _)) (fun v hv w hw => ?_)
    (List.mapM_pure.trans (by rw [List.map_id']; rfl))
  cases hw
  exact exists_fill name value (h v hv)

theorem map_name_of_filledIn {name : String} {value : Value} {rest rest' : List Sorted}
    (h : List.Forall₂ (FilledIn name value) rest rest') : rest.map (·.name) = rest'.map (·.name) := by
  induction h with
  | nil => rfl
  | cons hfirst _ ih => rw [List.map_cons, List.map_cons, hfirst.named, ih]

/-- Both what was found and what is found in the new entry is found in the longer table. -/
theorem found_file {name : String} {x : Value} (hnew : values.lookup name = none) {e a : String} {p : Path}
    (hpath : reference? e = some (.field a :: p)) :
    found (values.file name x) e = (found values e).or (found [(name, x)] e) := by
  rw [found_field hpath, found_field hpath, found_field hpath]
  by_cases ha : a = name
  · subst ha
    rw [Table.lookup_file_self, hnew, List.lookup_cons_self, Option.bind_none, Option.none_or]
  · rw [Table.lookup_file_ne _ _ ha, List.lookup_cons, beq_false_of_ne ha, List.lookup_nil, Option.bind_none,
      Option.or_none]

end Groundwork.Variable
