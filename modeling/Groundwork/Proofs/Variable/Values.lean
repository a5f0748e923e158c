import Groundwork.Proofs.Data.Decode
import Groundwork.Proofs.Variable.Meaning
import Groundwork.Proofs.Variable.Schema

/-!
# The values of variables

Variables have their turn one after the other, each after those that it depends on.  At every stage of the run the
values so far are filled into the defaults of the variables that wait (`Stage`), so that what is left of a default
when its turn comes is interpolated to what it means.  A value that is null is filled in like any other, and the
strict interpolation in the end does not see it.

Main statement: which variables have values, which values these are, and when there is a failure
(`values_of_defaults`).
-/

namespace Groundwork.Variable

open Template

variable {declared : Table Metadata} {overrides values : Table Value} {k : String} {m : Metadata} {d : Value}

/-! ### The run -/

/-- Whether the variables of a list come after all that they depend on, and once each, if some have come before. -/
def Ordered : List String → List Sorted → Prop
  | _, [] => True
  | past, v :: rest => v.name ∉ past ∧ (∀ b ∈ v.dependencies, b ∈ past) ∧ Ordered (v.name :: past) rest

theorem Ordered.of_forall₂ {past : List String} {rest rest' : List Sorted} (h : Ordered past rest)
    (hsame : List.Forall₂ (fun v v' : Sorted => v'.name = v.name ∧ v'.dependencies = v.dependencies) rest rest') :
    Ordered past rest' := by
  induction hsame generalizing past with
  | nil => exact trivial
  | cons hfirst _ ih =>
    obtain ⟨hnew, hbelow, hrest⟩ := h
    rw [Ordered, hfirst.1, hfirst.2]
    exact ⟨hnew, hbelow, ih hrest⟩

theorem Listed.ordered_suffix {s : Schema} {l : List Sorted} (hl : Listed s l) {past rest : List Sorted}
    (h : l = past ++ rest) : Ordered (past.map (·.name)).reverse rest := by
  induction rest generalizing past with
  | nil => exact trivial
  | cons v rest ih =>
    have hnodup := hl.nodup
    rw [h, List.map_append, List.map_cons] at hnodup
    refine ⟨fun hmem => ?_, fun b hb => List.mem_reverse.2 (hl.ordered past v rest h b hb), ?_⟩
    · exact (List.nodup_append.1 hnodup).2.2 _ (List.mem_reverse.1 hmem) _ List.mem_cons_self rfl
    · have hrest := ih (show l = past ++ [v] ++ rest by rw [h, List.append_assoc]; rfl)
      rwa [List.map_append, List.reverse_append] at hrest

variable (declared overrides) in
/-- A variable whose turn is still to come, with the values so far filled in. -/
structure Awaits (values : Table Value) (v : Sorted) (m : Metadata) : Prop where
  lookup : declared.lookup v.name = some m
  uses : v.metadata.uses = usesOf m
  dependencies : v.dependencies = dependenciesOf v.metadata
  isSome : v.metadata.default.isSome = m.default.isSome
  filled : Tame declared overrides → overrides.lookup v.name = none → ∀ d₀ d, m.default = some d₀ →
    v.metadata.default = some d → Filled (found values) d₀ d

variable (declared overrides) in
/-- What holds when some variables have had their turn and the others wait for it. -/
structure Stage (past : List String) (values : Table Value) (rest : List Sorted) : Prop where
  ordered : Ordered past rest
  awaits : ∀ v ∈ rest, ∃ m, Awaits declared overrides values v m
  known : ∀ k, values.has k = true ↔
    k ∈ past ∧ ∃ m, declared.lookup k = some m ∧ (overrides.has k = true ∨ m.default.isSome = true)
  overridden : ∀ k x y, values.lookup k = some x → overrides.lookup k = some y → x = y
  meant : Tame declared overrides → Meant declared overrides values

variable {past : List String} {v : Sorted} {rest : List Sorted}

/-- What is left of a default is a declared one with values filled in. -/
theorem Awaits.exists_filled (h : Awaits declared overrides values v m) (ht : Tame declared overrides)
    (hfree : overrides.lookup v.name = none) (hd : v.metadata.default = some d) :
    ∃ d₀, m.default = some d₀ ∧ Filled (found values) d₀ d := by
  obtain ⟨d₀, hd₀⟩ : ∃ d₀, m.default = some d₀ := by
    rw [← Option.isSome_iff_exists, ← h.isSome, hd]
    rfl
  exact ⟨d₀, hd₀, h.filled ht hfree d₀ d hd₀ hd⟩

/-- A default refers to variables that come before. -/
theorem Awaits.mem_dependencies (h : Awaits declared overrides values v m) (hd : m.default = some d) {e a : String}
    {p : Path} (he : e ∈ visitExpressions d) (hpath : reference? e = some (.field a :: p)) : a ∈ v.dependencies := by
  rw [h.dependencies]
  refine mem_dependenciesOf.2 ⟨⟨"default", a⟩, ?_, rfl⟩
  rw [h.uses]
  exact mem_usesOf_of_default hd he (named?_eq_some_iff.2 ⟨p, hpath⟩)

/-- A value is filled into a variable that waits. -/
theorem Awaits.next (h : Awaits declared overrides values v m) {name : String} {x : Value} {v' : Sorted}
    (hv' : FilledIn name x v v') (hnew : values.lookup name = none)
    (hmeant : Tame declared overrides → Meant declared overrides (values.file name x)) :
    Awaits declared overrides (values.file name x) v' m where
  lookup := by rw [hv'.named, h.lookup]
  uses := hv'.uses.trans h.uses
  dependencies := by rw [hv'.dependencies, h.dependencies, dependenciesOf, dependenciesOf, hv'.uses]
  isSome := by rw [hv'.default, Option.isSome_map, h.isSome]
  filled ht hfree d₀ d' hd₀ hd' := by
    rw [hv'.named] at hfree
    rw [hv'.default] at hd'
    obtain ⟨d, hd, rfl⟩ := Option.map_eq_some_iff.1 hd'
    have hfilled := h.filled ht hfree d₀ d hd₀ hd
    cases hcount : v.metadata.uses.count ⟨"default", name⟩ with
    | zero =>
      -- the default does not refer to what is filled in
      refine hfilled.congr fun e he => ?_
      cases hpath : reference? e with
      | none => rw [found_of_not_reference hpath, found_of_not_reference hpath]
      | some path =>
        obtain ⟨a, p, rfl⟩ := ht.names h.lookup hfree hd₀ he hpath
        have ha : a ≠ name := by
          rintro rfl
          refine List.count_eq_zero.1 hcount ?_
          rw [h.uses]
          exact mem_usesOf_of_default hd₀ he (named?_eq_some_iff.2 ⟨p, hpath⟩)
        rw [found_field hpath, found_field hpath, Table.lookup_file_ne _ _ ha]
    | succ n =>
      refine hfilled.iterate (ht.fits h.lookup hfree hd₀ (hmeant ht)) (fun e he => ?_) n
      cases hpath : reference? e with
      | none =>
        rw [found_of_not_reference hpath, found_of_not_reference hpath, found_of_not_reference hpath]
        rfl
      | some path =>
        obtain ⟨a, p, rfl⟩ := ht.names h.lookup hfree hd₀ he hpath
        exact found_file hnew hpath

/-- What a variable takes as its value, or that it has none, or the failure. -/
theorem valueOf_cases (overrides values : Table Value) (v : Sorted) :
    (∃ x, overrides.lookup v.name = some x ∧ valueOf overrides values v = .ok (some x)) ∨
      (overrides.lookup v.name = none ∧ v.metadata.default = none ∧ valueOf overrides values v = .ok none) ∨
      ∃ d, overrides.lookup v.name = none ∧ v.metadata.default = some d ∧
        valueOf overrides values v = ((strictContext values).apply d).map some := by
  unfold valueOf
  cases hoverride : overrides.lookup v.name with
  | some x => exact Or.inl ⟨x, rfl, rfl⟩
  | none =>
    cases hdefault : v.metadata.default with
    | none => exact Or.inr (Or.inl ⟨rfl, rfl, rfl⟩)
    | some d => exact Or.inr (Or.inr ⟨d, rfl, rfl, rfl⟩)

/-- Where all references are filled in, what is left of a default is what it means. -/
theorem Awaits.means (h : Awaits declared overrides values v m) (ht : Tame declared overrides)
    (hmeant : Meant declared overrides values) (hfree : overrides.lookup v.name = none) {d x : Value}
    (hd : v.metadata.default = some d) (hx : (strictContext values).apply d = .ok x) :
    Means declared overrides v.name x := by
  obtain ⟨rfl, hall⟩ := apply_strict_eq_ok_iff.1 hx
  obtain ⟨d₀, hd₀, hfilled⟩ := h.exists_filled ht hfree hd
  rw [hfilled.again, splice_congr (g := found values) fun e _ => by cases found values e <;> rfl]
  refine .default h.lookup hfree hd₀ hmeant fun e he path hpath => ?_
  rw [← Option.ne_none_iff_exists']
  intro hnone
  -- a reference that leads nowhere is still there
  have hleft : e ∈ visitExpressions d := by
    rw [hfilled.left]
    exact List.mem_filter.2 ⟨he, by rw [hnone]; rfl⟩
  obtain ⟨y, hy, -⟩ := hall e hleft path hpath
  rw [hnone] at hy
  cases hy

theorem Stage.lookup_eq_none (h : Stage declared overrides past values (v :: rest)) :
    values.lookup v.name = none := by
  rw [← Option.not_isSome_iff_eq_none]
  exact fun hhas => h.ordered.1 ((h.known v.name).1 hhas).1

theorem Stage.waiting (h : Stage declared overrides past values (v :: rest)) :
    ∃ m, Awaits declared overrides values v m := h.awaits v List.mem_cons_self

/-- The turn of a variable that has no value. -/
theorem Stage.skip (h : Stage declared overrides past values (v :: rest)) (hfree : overrides.lookup v.name = none)
    (hd : v.metadata.default = none) : Stage declared overrides (v.name :: past) values rest where
  ordered := h.ordered.2.2
  awaits w hw := h.awaits w (List.mem_cons_of_mem v hw)
  known k := by
    rw [h.known, List.mem_cons]
    refine ⟨fun hk => ⟨Or.inr hk.1, hk.2⟩, ?_⟩
    rintro ⟨rfl | hk, m, hm, hvalue⟩
    · obtain ⟨m', hm'⟩ := h.waiting
      have hsame := hm'.isSome
      rw [hm'.lookup] at hm
      cases hm
      rw [Table.has, hfree, ← hsame, hd] at hvalue
      simp at hvalue
    · exact ⟨hk, m, hm, hvalue⟩
  overridden := h.overridden
  meant := h.meant

/-- The turn of a variable that takes a value: it is filled into the later ones. -/
theorem Stage.take (h : Stage declared overrides past values (v :: rest)) {x : Value}
    (hvalue : overrides.has v.name = true ∨ v.metadata.default.isSome = true)
    (hoverride : ∀ y, overrides.lookup v.name = some y → x = y)
    (hmeans : Tame declared overrides → Means declared overrides v.name x) :
    ∃ rest', rest.mapM (fill v.name x) = .ok rest' ∧ rest'.map (·.name) = rest.map (·.name) ∧
      Stage declared overrides (v.name :: past) (values.file v.name x) rest' := by
  have hwaiting : ∀ w ∈ rest, w.dependencies = dependenciesOf w.metadata := by
    intro w hw
    obtain ⟨m, hm⟩ := h.awaits w (List.mem_cons_of_mem v hw)
    exact hm.dependencies
  obtain ⟨rest', hrest', hfilled⟩ := exists_mapM_fill v.name x hwaiting
  have hmeant : Tame declared overrides → Meant declared overrides (values.file v.name x) :=
    fun ht => (h.meant ht).file (hmeans ht)
  refine ⟨rest', hrest', (map_name_of_filledIn hfilled).symm, ?_, fun w' hw' => ?_, fun k => ?_,
    fun k y z hy hz => ?_, hmeant⟩
  · exact h.ordered.2.2.of_forall₂ (hfilled.imp fun w w' hww' => ⟨hww'.named, hww'.dependencies⟩)
  · obtain ⟨w, hw, hww'⟩ := exists_of_forall₂_of_mem hfilled hw'
    obtain ⟨m, hm⟩ := h.awaits w (List.mem_cons_of_mem v hw)
    exact ⟨m, hm.next hww' h.lookup_eq_none hmeant⟩
  · rw [List.mem_cons]
    by_cases hk : k = v.name
    · subst hk
      obtain ⟨m, hm⟩ := h.waiting
      rw [hm.isSome] at hvalue
      rw [Table.has, Table.lookup_file_self]
      exact iff_of_true rfl ⟨Or.inl rfl, m, hm.lookup, hvalue⟩
    · rw [Table.has, Table.lookup_file_ne _ _ hk, ← Table.has, h.known]
      simp [hk]
  · by_cases hk : k = v.name
    · subst hk
      rw [Table.lookup_file_self] at hy
      cases hy
      exact hoverride z hz
    · rw [Table.lookup_file_ne _ _ hk] at hy
      exact h.overridden k y z hy hz

/-- A failure is about a reference that leads nowhere. -/
theorem Stage.dangling (h : Stage declared overrides past values (v :: rest)) (ht : Tame declared overrides)
    (hfree : overrides.lookup v.name = none) {d : Value} (hd : v.metadata.default = some d) {err : CompileError}
    (herr : (strictContext values).apply d = .error err) :
    ∃ a, err = .unresolvedVariable a ∧ Dangling declared overrides a := by
  obtain ⟨m, hm⟩ := h.waiting
  obtain ⟨d₀, hd₀, hfilled⟩ := hm.exists_filled ht hfree hd
  obtain ⟨e, he, path, hpath, -, rfl⟩ := of_apply_strict_eq_error herr
  rw [hfilled.left, List.mem_filter, Option.isNone_iff_eq_none] at he
  obtain ⟨he, hnone⟩ := he
  obtain ⟨a, p, rfl⟩ := ht.names hm.lookup hfree hd₀ he hpath
  refine ⟨a, rfl, v.name, m, d₀, e, p, hm.lookup, hfree, hd₀, he, hpath, fun x hx => ?_⟩
  -- the variable has had its turn, and so it has the value that it means
  obtain ⟨m', hm', hvalue⟩ := hx.known
  have hpast : a ∈ past := h.ordered.2.1 a (hm.mem_dependencies hd₀ he hpath)
  obtain ⟨y, hy⟩ := Option.isSome_iff_exists.1 ((h.known a).2 ⟨hpast, m', hm', hvalue⟩)
  rw [found_field hpath, hy, (h.meant ht a y hy).unique ht hx] at hnone
  exact hnone

/-- What comes of a run from a stage on. -/
def Stage.Ends (declared : Table Metadata) (overrides : Table Value) (names : List String) :
    Except CompileError (Table Value) → Prop
  | .ok values => ∃ past, names ⊆ past ∧ Stage declared overrides past values []
  | .error err => Tame declared overrides → ∃ a, err = .unresolvedVariable a ∧ Dangling declared overrides a

theorem Stage.Ends.mono {names names' : List String} {r : Except CompileError (Table Value)}
    (h : Stage.Ends declared overrides names' r) (hsub : names ⊆ names') : Stage.Ends declared overrides names r := by
  cases r with
  | error err => exact h
  | ok values =>
    obtain ⟨past, hpast, hstage⟩ := h
    exact ⟨past, List.Subset.trans hsub hpast, hstage⟩

/-- **A run gives all variables their turn, or it fails for a reference that leads nowhere.** -/
theorem Stage.run (h : Stage declared overrides past values rest) :
    Stage.Ends declared overrides (past ++ rest.map (·.name)) (resolveFrom overrides rest.length values rest) := by
  -- the induction is on the number of variables that wait, since their metadata changes
  induction hn : rest.length generalizing past values rest with
  | zero =>
    obtain rfl := List.length_eq_zero_iff.1 hn
    exact ⟨past, by simp, h⟩
  | succ n ih =>
    obtain ⟨v, rest, rfl⟩ := List.exists_cons_of_length_eq_add_one hn
    have hnames : past ++ (v :: rest).map (·.name) ⊆ v.name :: past ++ rest.map (·.name) := by
      intro a ha
      simp only [List.map_cons, List.mem_append, List.mem_cons] at ha ⊢
      tauto
    have htake : ∀ x : Value, (overrides.has v.name = true ∨ v.metadata.default.isSome = true) →
        (∀ y, overrides.lookup v.name = some y → x = y) →
        (Tame declared overrides → Means declared overrides v.name x) →
        Stage.Ends declared overrides (past ++ (v :: rest).map (·.name))
          (rest.mapM (fill v.name x) >>= resolveFrom overrides n (values.file v.name x)) := by
      intro x hvalue hoverride hmeans
      obtain ⟨rest', hrest', hsame, hnext⟩ := h.take hvalue hoverride hmeans
      have hlength : rest'.length = n := by
        rw [← List.length_map (·.name), hsame, List.length_map]
        exact Nat.succ.inj hn
      rw [hrest']
      refine Stage.Ends.mono (ih hnext hlength) ?_
      rwa [hsame]
    obtain ⟨m, hm⟩ := h.waiting
    rw [resolveFrom]
    rcases valueOf_cases overrides values v with
      ⟨x, hoverride, hx⟩ | ⟨hfree, hd, hx⟩ | ⟨d, hfree, hd, hx⟩
    · rw [hx]
      refine htake x (Or.inl (by rw [Table.has, hoverride]; rfl)) (fun y hy => ?_) fun ht => ?_
      · rw [hoverride] at hy
        exact Option.some.inj hy
      · exact .override (by rw [Table.has, hm.lookup]; rfl) hoverride
    · rw [hx]
      exact Stage.Ends.mono (ih (h.skip hfree hd) (Nat.succ.inj hn)) hnames
    · rw [hx]
      cases hstrict : (strictContext values).apply d with
      | error err => exact fun ht => h.dangling ht hfree hd hstrict
      | ok x =>
        refine htake x (Or.inr (by rw [hd]; rfl)) (fun y hy => ?_) fun ht => ?_
        · rw [hfree] at hy
          cases hy
        · exact hm.means ht (h.meant ht) hfree hd hstrict

/-! ### The values of a schema -/

section Schema

variable {s : Schema} {e : String}

/-- At the start nothing is filled in. -/
theorem stage_start (hs : schema declared = .ok s) {l : List Sorted} (hl : Listed s l) :
    Stage declared overrides [] [] l where
  ordered := hl.ordered_suffix (List.nil_append l).symm
  awaits v hv := by
    obtain ⟨hlookup, hdependencies⟩ := hl.entries v hv
    rw [lookup_schema hs] at hlookup
    obtain ⟨m, hm, hmetadata⟩ := Option.map_eq_some_iff.1 hlookup
    refine ⟨m, hm, by rw [← hmetadata], hdependencies, by rw [← hmetadata], fun ht hfree d₀ d hd₀ hd => ?_⟩
    rw [← hmetadata] at hd
    have hd : m.default = some d := hd
    rw [hd₀] at hd
    cases hd
    refine filled_self fun e he => ?_
    cases hpath : reference? e with
    | none => exact found_of_not_reference hpath
    | some path =>
      obtain ⟨a, p, rfl⟩ := ht.names hm hfree hd₀ he hpath
      exact found_field hpath
  known k := by simp [Table.has]
  overridden := nofun
  meant _ := nofun

/-- **The variables of a schema are resolved, or there is a cycle.** -/
theorem resolve_cases (overrides : Table Value) (hs : schema declared = .ok s) :
    (∃ l, sort s = .ok l) ∧ Stage.Ends declared overrides s.keys (resolve s overrides) ∨
      ∃ a b, sort s = .error (.circularVariableDependency a b) ∧
        resolve s overrides = .error (.circularVariableDependency a b) := by
  unfold resolve
  rcases sort_cases (grounded_schema hs) with ⟨l, hsort, hl⟩ | ⟨a, b, hsort, -⟩
  · refine Or.inl ⟨⟨l, hsort⟩, ?_⟩
    rw [hsort]
    exact Stage.Ends.mono (stage_start hs hl).run fun k hk => (hl.complete k).2 hk
  · refine Or.inr ⟨a, b, hsort, ?_⟩
    rw [hsort]
    rfl

theorem stage_of_resolve (hs : schema declared = .ok s) (h : resolve s overrides = .ok values) :
    ∃ past, (∀ k m, declared.lookup k = some m → k ∈ past) ∧ Stage declared overrides past values [] := by
  rcases resolve_cases overrides hs with ⟨-, hends⟩ | ⟨a, b, -, herror⟩
  · rw [h] at hends
    obtain ⟨past, hpast, hstage⟩ := hends
    refine ⟨past, fun k m hm => hpast ((mem_keys_schema_iff hs).2 ?_), hstage⟩
    rw [Table.has, hm]
    rfl
  · rw [h] at herror
    cases herror

/-- The variables that have a value are those with an override or a default. -/
theorem has_resolve_iff (hs : schema declared = .ok s) (h : resolve s overrides = .ok values) (k : String) :
    values.has k = true ↔
      ∃ m, declared.lookup k = some m ∧ (overrides.has k = true ∨ m.default.isSome = true) := by
  obtain ⟨past, hpast, hstage⟩ := stage_of_resolve hs h
  rw [hstage.known]
  exact ⟨fun hk => hk.2, fun ⟨m, hm, hvalue⟩ => ⟨hpast k m hm, m, hm, hvalue⟩⟩

/-- An override is taken as it is. -/
theorem lookup_resolve_of_override (hs : schema declared = .ok s) (h : resolve s overrides = .ok values)
    {v : Value} (hk : declared.has k = true) (hv : overrides.lookup k = some v) : values.lookup k = some v := by
  obtain ⟨m, hm⟩ := Option.isSome_iff_exists.1 hk
  obtain ⟨x, hx⟩ := Option.isSome_iff_exists.1
    ((has_resolve_iff hs h k).2 ⟨m, hm, Or.inl (by rw [Table.has, hv]; rfl)⟩)
  obtain ⟨past, -, hstage⟩ := stage_of_resolve hs h
  rw [hx, hstage.overridden k x v hx hv]

/-- A value that is meant is the one that there is. -/
theorem lookup_of_means (hs : schema declared = .ok s) (h : resolve s overrides = .ok values)
    (ht : Tame declared overrides) {v : Value} (hv : Means declared overrides k v) : values.lookup k = some v := by
  obtain ⟨x, hx⟩ := Option.isSome_iff_exists.1 ((has_resolve_iff hs h k).2 hv.known)
  obtain ⟨past, -, hstage⟩ := stage_of_resolve hs h
  rw [hx, (hstage.meant ht k x hx).unique ht hv]

/-- Whether a value is what one interpolation makes of a default, with a value for each reference: the strict one, if
none of these is null.  Of one token it is what that refers to, of several pieces a text. -/
structure Interpolated (values : Table Value) (d v : Value) : Prop where
  found : ∀ e ∈ visitExpressions d, ∀ path, reference? e = some path → ∃ x, found values e = some x
  once : (lenientContext values).apply d = .ok v
  strict : (strictContext values).apply d = .ok v ↔ ∀ e ∈ visitExpressions d, Variable.found values e ≠ some .null
  token : ∀ t e path, d = .str t → parse t = [.expr e] → reference? e = some path → Variable.found values e = some v
  pieces : ∀ t, d = .str t → (∀ e, parse t ≠ [.expr e]) → ∃ u, v = .str u

theorem interpolated_splice
    (h : ∀ e ∈ visitExpressions d, ∀ path, reference? e = some path → ∃ x, found values e = some x) :
    Interpolated values d (splice (found values) d) where
  found := h
  once := apply_lenient d
  strict := by
    rw [apply_strict_eq_ok_iff, and_iff_right rfl]
    constructor
    · intro hall e he hnull
      cases hpath : reference? e with
      | none =>
        rw [found_of_not_reference hpath] at hnull
        cases hnull
      | some path =>
        obtain ⟨x, hx, hne⟩ := hall e he path hpath
        rw [hnull] at hx
        exact hne (Option.some.inj hx).symm
    · intro hnull e he path hpath
      obtain ⟨x, hx⟩ := h e he path hpath
      exact ⟨x, hx, fun hx' => hnull e he (by rw [hx, hx'])⟩
  token t e path ht hparse hpath := by
    subst ht
    obtain ⟨x, hx⟩ := h e (by rw [visitExpressions, hparse]; exact List.mem_singleton.2 rfl) path hpath
    rw [splice_of_single hparse, hx]
    rfl
  pieces t ht hparse := by
    subst ht
    refine ⟨_, splice_of_not_single ?_⟩
    rw [Option.eq_none_iff_forall_ne_some]
    exact fun e he => hparse e (single?_eq_some he)

/-- **A default has the value of interpolating it once.** -/
theorem interpolated_resolve (hs : schema declared = .ok s) (h : resolve s overrides = .ok values)
    (ht : Tame declared overrides) (hk : declared.lookup k = some m) (hfree : overrides.lookup k = none)
    (hd : m.default = some d) : ∃ v, values.lookup k = some v ∧ Interpolated values d v := by
  obtain ⟨v, hv⟩ := Option.isSome_iff_exists.1
    ((has_resolve_iff hs h k).2 ⟨m, hk, Or.inr (by rw [hd]; rfl)⟩)
  obtain ⟨past, -, hstage⟩ := stage_of_resolve hs h
  refine ⟨v, hv, ?_⟩
  cases hstage.meant ht k v hv with
  | override _ hoverride =>
    rw [hfree] at hoverride
    cases hoverride
  | @default _ m' d' values' hk' _ hd' hvalues hfound' =>
    rw [hk] at hk'
    cases hk'
    rw [hd] at hd'
    cases hd'
    have hfound : ∀ e ∈ visitExpressions d, ∀ path, reference? e = some path → ∃ x, found values e = some x := by
      intro e he path hpath
      obtain ⟨a, p, rfl⟩ := ht.names hk hfree hd he hpath
      obtain ⟨x, hx⟩ := hfound' e he _ hpath
      rw [found_field hpath] at hx
      obtain ⟨w, hw, hx⟩ := Option.bind_eq_some_iff.1 hx
      exact ⟨x, by rw [found_field hpath, lookup_of_means hs h ht (hvalues a w hw)]; exact hx⟩
    have hsame : splice (found values') d = splice (found values) d := by
      refine splice_found_eq ht hk hfree hd (fun a w w' hw hw' => ?_) hfound' hfound
      rw [lookup_of_means hs h ht (hvalues a w hw)] at hw'
      exact Option.some.inj hw'
    rw [hsame]
    exact interpolated_splice hfound

/-- **Variables without a cycle fail exactly for a reference that leads nowhere.** -/
theorem resolve_error_iff (hs : schema declared = .ok s) (ht : Tame declared overrides) (hacyclic : Acyclic s) :
    ((∃ err, resolve s overrides = .error err) ↔ ∃ a, Dangling declared overrides a) ∧
      ∀ err, resolve s overrides = .error err →
        ∃ a, err = .unresolvedVariable a ∧ Dangling declared overrides a := by
  have hends : Stage.Ends declared overrides s.keys (resolve s overrides) := by
    rcases resolve_cases overrides hs with ⟨-, hends⟩ | ⟨a, b, hsort, -⟩
    · exact hends
    · obtain ⟨l, hl⟩ := (acyclic_iff_sort (grounded_schema hs)).1 hacyclic
      rw [hsort] at hl
      cases hl
  have herror : ∀ err, resolve s overrides = .error err →
      ∃ a, err = .unresolvedVariable a ∧ Dangling declared overrides a := by
    intro err h
    rw [h] at hends
    exact hends ht
  refine ⟨⟨fun ⟨err, h⟩ => ?_, ?_⟩, herror⟩
  · obtain ⟨a, -, ha⟩ := herror err h
    exact ⟨a, ha⟩
  · rintro ⟨a, k, m, d, e, p, hk, hfree, hd, he, hpath, hnone⟩
    cases h : resolve s overrides with
    | error err => exact ⟨err, rfl⟩
    | ok values =>
      obtain ⟨v, -, hv⟩ := interpolated_resolve hs h ht hk hfree hd
      obtain ⟨x, hx⟩ := hv.found e he _ hpath
      rw [found_field hpath] at hx
      obtain ⟨w, hw, hx⟩ := Option.bind_eq_some_iff.1 hx
      obtain ⟨past, -, hstage⟩ := stage_of_resolve hs h
      rw [hnone w (hstage.meant ht a w hw)] at hx
      cases hx

/-- **Which variables have values, which these are, and when there is a failure.**  With an override or a default a
variable has a value, and an override is taken as it is.  Where the defaults are tame, each has the value of
interpolating it once; and if there is no cycle, the only failure is a reference that leads nowhere.  A null is a
value here, and where there is one a strict interpolation would have failed. -/
theorem values_of_defaults (overrides : Table Value) (hs : schema declared = .ok s) :
    (∀ values, resolve s overrides = .ok values →
      (∀ k, values.has k = true ↔
        ∃ m, declared.lookup k = some m ∧ (overrides.has k = true ∨ m.default.isSome = true)) ∧
      ∀ k v, declared.has k = true → overrides.lookup k = some v → values.lookup k = some v) ∧
    (Tame declared overrides →
      (∀ values, resolve s overrides = .ok values → ∀ k m d, declared.lookup k = some m →
        overrides.lookup k = none → m.default = some d →
          ∃ v, values.lookup k = some v ∧ Interpolated values d v) ∧
      (Acyclic s →
        ((∃ err, resolve s overrides = .error err) ↔ ∃ a, Dangling declared overrides a) ∧
        ∀ err, resolve s overrides = .error err →
          ∃ a, err = .unresolvedVariable a ∧ Dangling declared overrides a)) :=
  ⟨fun _ h => ⟨has_resolve_iff hs h, fun _ _ hk hv => lookup_resolve_of_override hs h hk hv⟩,
    fun ht => ⟨fun _ h _ _ _ hk hfree hd => interpolated_resolve hs h ht hk hfree hd, resolve_error_iff hs ht⟩⟩

/-! ### Some settings -/

/-- Metadata with a default and nothing else. -/
def defaulting (v : Value) : Metadata := { Metadata.ofType "string" with default := some v }

/-- The values of declared variables. -/
def resolved (declared : Table Metadata) (overrides : Table Value) : Except CompileError (Table Value) :=
  schema declared >>= fun s => resolve s overrides

/-- Two defaults that refer to others, one of which has no default. -/
def settings : Table Metadata :=
  [("db_name", defaulting (.str "$\x7b variable.region \x7d-db")), ("region", defaulting (.str "nyc1")),
    ("token", .ofType "string"), ("header", defaulting (.str "Bearer $\x7b variable.token \x7d"))]

/-- A tame table of defaults, each with one reference at most. -/
theorem tame_settings {overrides : Table Value} (hregion : overrides.lookup "region" = some (.str "sfo3"))
    (htoken : ∀ v, overrides.lookup "token" = some v → v = .str "t") : Tame settings overrides := by
  have hone : ∀ {t e a : String}, expressions (parse t) = [e] → IsWhole e → reference? e = some [.field a] →
      (∀ v, Means settings overrides a v → Takes t v) →
      ∀ e' ∈ expressions (parse t), IsWhole e' ∧ ∀ path, reference? e' = some path →
        ∃ a p, path = .field a :: p ∧
          ∀ v x, Means settings overrides a v → Path.find? v p = some x → Takes t x := by
    intro t e a hparse hwhole hpath htakes e' he'
    rw [hparse, List.mem_singleton] at he'
    subst he'
    refine ⟨hwhole, fun path hpath' => ?_⟩
    rw [hpath] at hpath'
    cases hpath'
    refine ⟨a, [], rfl, fun v x hv hx => ?_⟩
    cases hx
    exact htakes v hv
  intro k m d hk hfree hd t ht
  have hmem : (k, m) ∈ settings := Table.mem_of_lookup hk
  simp only [settings, List.mem_cons, Prod.mk.injEq, List.not_mem_nil, or_false] at hmem
  rcases hmem with ⟨rfl, rfl⟩ | ⟨rfl, rfl⟩ | ⟨rfl, rfl⟩ | ⟨rfl, rfl⟩
  · cases hd
    cases List.mem_singleton.1 ht
    refine hone (e := "variable.region") (a := "region") (by decide +kernel) (by decide) (by decide +kernel) ?_
    intro v hv
    have hv : v = .str "sfo3" := by
      cases hv with
      | override _ hv =>
        rw [hregion] at hv
        exact (Option.some.inj hv).symm
      | default _ hfree =>
        rw [hregion] at hfree
        cases hfree
    subst hv
    decide +kernel
  · rw [hregion] at hfree
    cases hfree
  · cases hd
  · cases hd
    cases List.mem_singleton.1 ht
    refine hone (e := "variable.token") (a := "token") (by decide +kernel) (by decide) (by decide +kernel) ?_
    intro v hv
    have hv : v = .str "t" := by
      cases hv with
      | override _ hv => exact htoken v hv
      | default hk _ hd =>
        cases hk
        cases hd
    subst hv
    decide +kernel

/-- The values of the settings, if there is a token. -/
def settingsValues : Table Value :=
  [("db_name", .str "sfo3-db"), ("header", .str "Bearer t"), ("region", .str "sfo3"), ("token", .str "t")]

/-- With a token each default is interpolated once, and without one there is no value for what a default refers to. -/
theorem values_of_settings :
    (resolved settings [("region", .str "sfo3"), ("token", .str "t")] = .ok settingsValues ∧
      (∀ k, settingsValues.has k = true ↔ ∃ m, settings.lookup k = some m ∧
        (Table.has [("region", Value.str "sfo3"), ("token", .str "t")] k = true ∨ m.default.isSome = true)) ∧
      Interpolated settingsValues (.str "$\x7b variable.region \x7d-db") (.str "sfo3-db")) ∧
    resolved settings [("region", .str "sfo3")] = .error (.unresolvedVariable "token") ∧
      Dangling settings [("region", .str "sfo3")] "token" := by
  obtain ⟨s, hs⟩ : ∃ s, schema settings = .ok s := ⟨_, eq_ok_getD (by decide +kernel) []⟩
  have hresolved : ∀ overrides, resolved settings overrides = resolve s overrides := by
    intro overrides
    rw [resolved, hs]
    rfl
  have hrun : resolved settings [("region", .str "sfo3"), ("token", .str "t")] = .ok settingsValues := by
    decide +kernel
  have hfail : resolved settings [("region", .str "sfo3")] = .error (.unresolvedVariable "token") := by decide +kernel
  have hacyclic : Acyclic s := by
    rw [acyclic_iff_sort (grounded_schema hs)]
    rcases resolve_cases [("region", .str "sfo3")] hs with ⟨hsort, -⟩ | ⟨a, b, -, hcycle⟩
    · exact hsort
    · rw [← hresolved, hfail] at hcycle
      cases hcycle
  refine ⟨⟨hrun, ?_, ?_⟩, hfail, ?_⟩
  · rw [hresolved] at hrun
    exact ((values_of_defaults _ hs).1 settingsValues hrun).1
  · rw [hresolved] at hrun
    have htame : Tame settings [("region", .str "sfo3"), ("token", .str "t")] :=
      tame_settings rfl fun v hv => (Option.some.inj hv).symm
    obtain ⟨v, hv, hdefault⟩ :=
      ((values_of_defaults _ hs).2 htame).1 settingsValues hrun "db_name" _ _ rfl rfl rfl
    cases hv
    exact hdefault
  · rw [hresolved] at hfail
    have htame : Tame settings [("region", .str "sfo3")] := tame_settings rfl nofun
    obtain ⟨a, herr, ha⟩ := (((values_of_defaults _ hs).2 htame).2 hacyclic).2 _ hfail
    cases herr
    exact ha

/-- **A null is not seen, and values are read again.**  Where a default refers to a null, the value is null, or the
text without it, though a strict interpolation fails.  A text that becomes empty leaves the token after it to be
all of the default; tokens in a value are interpolated in turn; and a dollar sign escapes the token after it. -/
theorem defaults_misread :
    (resolved [("a", .ofType "string"), ("b", defaulting (.str "$\x7b variable.a \x7d"))] [("a", .null)]
        = .ok [("a", .null), ("b", .null)] ∧
      (strictContext [("a", .null)]).apply (.str "$\x7b variable.a \x7d") = .error (.unresolvedVariable "a")) ∧
    (resolved [("a", .ofType "string"), ("b", defaulting (.str "x$\x7b variable.a \x7dy"))] [("a", .null)]
        = .ok [("a", .null), ("b", .str "xy")] ∧
      (strictContext [("a", .null)]).apply (.str "x$\x7b variable.a \x7dy") = .error (.unresolvedVariable "a")) ∧
    (resolved [("a", defaulting (.str "")), ("c", defaulting (.ofInt 3)),
        ("b", defaulting (.str "$\x7b variable.a \x7d$\x7b variable.c \x7d"))] []
        = .ok [("a", .str ""), ("b", .ofInt 3), ("c", .ofInt 3)] ∧
      (strictContext [("a", .str ""), ("c", .ofInt 3)]).apply (.str "$\x7b variable.a \x7d$\x7b variable.c \x7d")
        = .ok (.str "3")) ∧
    (resolved [("a", .ofType "string"), ("c", defaulting (.str "x")),
        ("b", defaulting (.str "$\x7b variable.a \x7d"))] [("a", .str "$\x7b variable.c \x7d")]
        = .ok [("a", .str "$\x7b variable.c \x7d"), ("b", .str "x"), ("c", .str "x")] ∧
      (strictContext [("a", .str "$\x7b variable.c \x7d"), ("c", .str "x")]).apply (.str "$\x7b variable.a \x7d")
        = .ok (.str "$\x7b variable.c \x7d")) ∧
    (resolved [("a", defaulting (.str "$")), ("c", defaulting (.str "x")),
        ("b", defaulting (.str "$\x7b variable.a \x7d$\x7b variable.c \x7d"))] []
        = .ok [("a", .str "$"), ("b", .str "$$\x7b\x7b variable.c \x7d\x7d"), ("c", .str "x")] ∧
      (strictContext [("a", .str "$"), ("c", .str "x")]).apply (.str "$\x7b variable.a \x7d$\x7b variable.c \x7d")
        = .ok (.str "$x")) := by
  decide +kernel

end Schema

end Groundwork.Variable
