import Groundwork.Definition.Build

/-!
# What building does to a definition

Modules stand in tables of a definition, of its environment blocks, and of the hooks of each type of app node.  A
visit to all of them goes through one list, and whatever it does to the modules, it leaves everything around them as
it is.  A definition is known by the two: the list of its modules, and what is around them.

Building asks for an image for each module that names a directory, in the order of that list.  The images take the
places of the sources, up to the first module for which there is none.

Main statements: a visit is one walk along the list of the modules (`Definition.visits`), the list and what is around
it determine a definition (`Definition.determined`), and building replaces the sources of the modules that name
directories, and nothing else (`Definition.building_replaces_local_sources`).
-/

namespace Groundwork

/-! ### Modules and what is around them -/

/-- The modules of a hook, in order. -/
def Hook.moduleDefs (h : Hook) : List ModuleDef := h.modules.values

/-- The modules of an environment block, in order: its own, then those of its hooks. -/
def EnvironmentDef.moduleDefs (e : EnvironmentDef) : List ModuleDef :=
  e.modules.values ++ e.hooks.values.flatMap fun hooks => hooks.flatMap Hook.moduleDefs

/-- The modules of a definition, in order: those of the datacenter, then those of each block. -/
def Definition.moduleDefs (d : Definition) : List ModuleDef :=
  d.modules.values ++ d.environments.flatMap EnvironmentDef.moduleDefs

/-- A hook with nothing in the places of its modules. -/
def Hook.hull (h : Hook) : Hook := { h with modules := h.modules.mapValues fun _ => default }

/-- An environment block with nothing in the places of its modules. -/
def EnvironmentDef.hull (e : EnvironmentDef) : EnvironmentDef :=
  ⟨e.modules.mapValues fun _ => default, e.hooks.mapValues fun hooks => hooks.map Hook.hull⟩

/-- A definition with nothing in the places of its modules: their names, and all that is around them. -/
def Definition.hull (d : Definition) : Definition :=
  { d with modules := d.modules.mapValues fun _ => default, environments := d.environments.map EnvironmentDef.hull }

/-! ### Visits -/

section Visits

variable {m : Type → Type u} [Monad m] {α β γ : Type} {f : ModuleDef → m ModuleDef} {modules : α → List ModuleDef}
  {modules' : β → List ModuleDef} {whole : γ → List ModuleDef} {hull : α → α} {hull' : β → β} {around : γ → γ}

/-- Whether a computation visits the modules of `a`: it goes along their list and keeps what is around them. -/
def Visits (f : ModuleDef → m ModuleDef) (modules : α → List ModuleDef) (hull : α → α) (a : α) (x : m α) : Prop :=
  (fun a' => (modules a', hull a')) <$> x = (fun l => (l, hull a)) <$> (modules a).mapM f

/-- Whether what is around the modules tells how many there are, and together with them all there is. -/
def Determined (modules : α → List ModuleDef) (hull : α → α) : Prop :=
  ∀ a a' l l', hull a = hull a' → modules a ++ l = modules a' ++ l' → a = a' ∧ l = l'

variable [LawfulMonad m]

theorem visits_module (d : ModuleDef) : Visits f (fun d => [d]) (fun _ => default) d (f d) := by
  simp only [Visits, List.mapM_cons, List.mapM_nil, map_eq_pure_bind, bind_assoc, pure_bind]

/-- A part of a whole that has no modules elsewhere. -/
theorem Visits.map {a : α} {x : m α} (h : Visits f modules hull a x) {k : α → γ} {j : α → γ}
    (hwhole : ∀ a, whole (k a) = modules a) (haround : ∀ a, around (k a) = j (hull a)) :
    Visits f whole around (k a) (k <$> x) := by
  have hpart : (fun c => (whole c, around c)) <$> k <$> x
      = (fun p => (p.1, j p.2)) <$> (fun a' => (modules a', hull a')) <$> x := by
    simp only [map_eq_pure_bind, bind_assoc, pure_bind, hwhole, haround]
  rw [Visits, hpart, h, hwhole, haround, Functor.map_map]

/-- Two visits, one after the other. -/
theorem Visits.both {a : α} {b : β} {x : m α} {y : m β} (hx : Visits f modules hull a x)
    (hy : Visits f modules' hull' b y) {k j : α → β → γ} (hwhole : ∀ a b, whole (k a b) = modules a ++ modules' b)
    (haround : ∀ a b, around (k a b) = j (hull a) (hull' b)) :
    Visits f whole around (k a b) (x >>= fun a' => y >>= fun b' => pure (k a' b')) := by
  have hparts : (fun c => (whole c, around c)) <$> (x >>= fun a' => y >>= fun b' => pure (k a' b'))
      = ((fun a' => (modules a', hull a')) <$> x) >>= fun p =>
        ((fun b' => (modules' b', hull' b')) <$> y) >>= fun q => pure (p.1 ++ q.1, j p.2 q.2) := by
    simp only [map_eq_pure_bind, bind_assoc, pure_bind, hwhole, haround]
  rw [Visits, hparts, hx, hy, hwhole, haround, List.mapM_append]
  simp only [map_eq_pure_bind, bind_assoc, pure_bind]

/-- A visit with two states ends where the walk along the list ends. -/
theorem Visits.run {σ τ : Type} {f : ModuleDef → StateT σ (StateM τ) ModuleDef} {a : α} {x : StateT σ (StateM τ) α}
    (h : Visits f modules hull a x) {s s' : σ} {t t' : τ} {l : List ModuleDef}
    (hrun : (((modules a).mapM f).run s).run t = ((l, s'), t')) :
    ∃ a', (x.run s).run t = ((a', s'), t') ∧ modules a' = l ∧ hull a' = hull a := by
  have hends := congrArg (fun y => (y.run s).run t) h
  simp only [StateT.run_map, hrun] at hends
  rcases hx : (x.run s).run t with ⟨⟨a', s₁⟩, t₁⟩
  rw [hx] at hends
  have hparts : (((modules a', hull a'), s₁), t₁) = (((l, hull a), s'), t') := hends
  simp only [Prod.mk.injEq] at hparts
  obtain ⟨⟨⟨hl, ha⟩, rfl⟩, rfl⟩ := hparts
  exact ⟨a', rfl, hl, ha⟩

/-- Visits to the items of a list, in order. -/
theorem Visits.visitAll {go : α → m α} (h : ∀ a, Visits f modules hull a (go a)) (l : List α) :
    Visits f (fun l => l.flatMap modules) (List.map hull) l (List.visitAll go l) := by
  induction l with
  | nil => simp only [Visits, List.visitAll, List.flatMap_nil, List.map_nil, List.mapM_nil, map_pure]
  | cons a l ih => exact (h a).both ih (fun _ _ => List.flatMap_cons) fun _ _ => List.map_cons

/-- Visits to the entries of a table, in order. -/
theorem Visits.traverse {go : α → m α} (h : ∀ a, Visits f modules hull a (go a)) (t : Table α) :
    Visits f (fun t => t.values.flatMap modules) (Table.mapValues hull) t (Table.traverse go t) := by
  induction t with
  | nil =>
    simp only [Visits, Table.traverse, Table.values, Table.mapValues, List.map_nil, List.flatMap_nil, List.mapM_nil,
      map_pure]
  | cons p t ih =>
    exact (h p.2).both ih (j := fun a t => (p.1, a) :: t) (fun _ _ => List.flatMap_cons) fun _ _ => rfl

theorem flatMap_values_singleton (t : Table ModuleDef) : (t.values.flatMap fun d => [d]) = t.values := by
  simp

theorem Hook.visits (h : Hook) : Visits f Hook.moduleDefs Hook.hull h (h.traverse f) := by
  have hparts : Visits f Hook.moduleDefs Hook.hull h
      ((fun modules => { h with modules }) <$> Table.traverse f h.modules) :=
    (Visits.traverse visits_module h.modules).map (k := fun modules => { h with modules })
      (j := fun modules => { h with modules }) (fun t => (flatMap_values_singleton t).symm) fun _ => rfl
  rwa [map_eq_pure_bind] at hparts

theorem EnvironmentDef.visits (e : EnvironmentDef) :
    Visits f EnvironmentDef.moduleDefs EnvironmentDef.hull e (e.traverse f) :=
  (Visits.traverse visits_module e.modules).both (Visits.traverse (Visits.visitAll Hook.visits) e.hooks)
    (fun t _ => by rw [flatMap_values_singleton]; rfl) fun _ _ => rfl

/-- **A visit to all modules of a definition goes along their list** and keeps what is around them. -/
theorem Definition.visits (d : Definition) : Visits f Definition.moduleDefs Definition.hull d (d.traverse f) :=
  (Visits.traverse visits_module d.modules).both (Visits.visitAll EnvironmentDef.visits d.environments)
    (k := fun modules environments => { d with modules, environments })
    (j := fun modules environments => { d with modules, environments })
    (fun t _ => by rw [flatMap_values_singleton]; rfl) fun _ _ => rfl

end Visits

/-! ### What determines a definition -/

section Determined

variable {α β γ : Type} {modules : α → List ModuleDef} {hull : α → α}

theorem determined_module : Determined (fun d => [d]) fun _ => default := by
  intro d d' l l' _ h
  exact List.cons.inj h

theorem Determined.flatMap (h : Determined modules hull) :
    Determined (fun l : List α => l.flatMap modules) (List.map hull) := by
  intro as
  induction as with
  | nil =>
    intro as' l l' hhull hmodules
    cases List.map_eq_nil_iff.1 hhull.symm
    exact ⟨rfl, hmodules⟩
  | cons a as ih =>
    intro as' l l' hhull hmodules
    cases as' with
    | nil => cases hhull
    | cons a' as' =>
      obtain ⟨hfirst, hrest⟩ := List.cons.inj hhull
      simp only [List.flatMap_cons, List.append_assoc] at hmodules
      obtain ⟨rfl, hbehind⟩ := h _ _ _ _ hfirst hmodules
      obtain ⟨rfl, hl⟩ := ih as' l l' hrest hbehind
      exact ⟨rfl, hl⟩

theorem Determined.table (h : Determined modules hull) :
    Determined (fun t : Table α => t.values.flatMap modules) (Table.mapValues hull) := by
  intro t
  induction t with
  | nil =>
    intro t' l l' hhull hmodules
    cases List.map_eq_nil_iff.1 hhull.symm
    exact ⟨rfl, hmodules⟩
  | cons p t ih =>
    intro t' l l' hhull hmodules
    cases t' with
    | nil => cases hhull
    | cons p' t' =>
      obtain ⟨hfirst, hrest⟩ := List.cons.inj hhull
      obtain ⟨hname, hfirst⟩ := Prod.mk.inj hfirst
      simp only [Table.values, List.map_cons, List.flatMap_cons, List.append_assoc] at hmodules
      obtain ⟨hentry, hbehind⟩ := h _ _ _ _ hfirst hmodules
      obtain ⟨rfl, hl⟩ := ih t' l l' hrest hbehind
      exact ⟨congrArg (· :: t) (Prod.ext hname hentry), hl⟩

theorem determined_values : Determined Table.values (Table.mapValues fun _ => default) := by
  have h := determined_module.table
  simpa only [flatMap_values_singleton] using h

theorem Hook.determined : Determined Hook.moduleDefs Hook.hull := by
  intro h h' l l' hhull hmodules
  obtain ⟨hcondition, htable, houtputs⟩ := Hook.mk.inj hhull
  obtain ⟨htable, hl⟩ := determined_values _ _ _ _ htable hmodules
  cases h
  cases h'
  cases hcondition
  cases htable
  cases houtputs
  exact ⟨rfl, hl⟩

theorem EnvironmentDef.determined : Determined EnvironmentDef.moduleDefs EnvironmentDef.hull := by
  intro e e' l l' hhull hmodules
  obtain ⟨hown, hhooks⟩ := EnvironmentDef.mk.inj hhull
  rw [EnvironmentDef.moduleDefs, EnvironmentDef.moduleDefs, List.append_assoc, List.append_assoc] at hmodules
  obtain ⟨hown, hmodules⟩ := determined_values _ _ _ _ hown hmodules
  obtain ⟨hhooks, hl⟩ := Hook.determined.flatMap.table _ _ _ _ hhooks hmodules
  cases e
  cases e'
  cases hown
  cases hhooks
  exact ⟨rfl, hl⟩

/-- **A definition is determined by the list of its modules and what is around them.** -/
theorem Definition.determined : Determined Definition.moduleDefs Definition.hull := by
  intro d d' l l' hhull hmodules
  obtain ⟨hdeclarations, hown, hblocks⟩ := Definition.mk.inj hhull
  rw [Definition.moduleDefs, Definition.moduleDefs, List.append_assoc, List.append_assoc] at hmodules
  obtain ⟨hown, hmodules⟩ := determined_values _ _ _ _ hown hmodules
  obtain ⟨hblocks, hl⟩ := EnvironmentDef.determined.flatMap _ _ _ _ hblocks hmodules
  cases d
  cases d'
  cases hdeclarations
  cases hown
  cases hblocks
  exact ⟨rfl, hl⟩

theorem Definition.eq_of_hull {d d' : Definition} (hhull : d.hull = d'.hull) (h : d.moduleDefs = d'.moduleDefs) :
    d = d' := (Definition.determined d d' [] [] hhull (by rw [h])).1

end Determined

/-! ### Building -/

namespace Definition

/-- What a builder is called for: a kind of plugin, and a directory. -/
abbrev BuilderCall := PluginKind × String

/-- A builder that gives one reply after the other and takes down its calls. -/
def replying (replies : Nat → Except PluginError String) (plugin : PluginKind) (directory : String) :
    StateM (List BuilderCall) (Except PluginError String) :=
  fun calls => (replies calls.length, calls ++ [(plugin, directory)])

section

variable (isDirectory : String → Bool) (base : String) (replies : Nat → Except PluginError String)

/-- The call for a module, if its source names a directory that there is. -/
def builderCall? (d : ModuleDef) : Option BuilderCall :=
  let path := File.join base d.source
  if looksLocal d.source ∧ isDirectory path then some (d.plugin, path) else none

/-- The calls for some modules, in order. -/
def builderCalls (l : List ModuleDef) : List BuilderCall := l.filterMap (builderCall? isDirectory base)

/-- Modules with images in the places of the first sources that name directories, as far as there are images. -/
def furnished : List String → List ModuleDef → List ModuleDef
  | image :: images, d :: l =>
      if (builderCall? isDirectory base d).isSome then { d with source := image } :: furnished images l
      else d :: furnished (image :: images) l
  | _, l => l

/-- What comes of building with such a builder: the result, the definition that is left, and the calls. -/
def built (d : Definition) : (Except PluginError Nat × Definition) × List BuilderCall :=
  (d.buildModules (fun path => pure (isDirectory path)) base (replying replies)).run []

/-- Building one module. -/
abbrev buildStep : ModuleDef → StateT Building (StateM (List BuilderCall)) ModuleDef :=
  buildModule (fun path => pure (isDirectory path)) base (replying replies)

variable {isDirectory base replies} {d : ModuleDef} {l : List ModuleDef} {images : List String}

@[simp] theorem furnished_nil_left (l : List ModuleDef) : furnished isDirectory base [] l = l := by
  cases l <;> rfl

theorem furnished_of_none (h : builderCall? isDirectory base d = none) :
    furnished isDirectory base images (d :: l) = d :: furnished isDirectory base images l := by
  cases images with
  | nil => rw [furnished_nil_left, furnished_nil_left]
  | cons image images => rw [furnished, h, if_neg (by simp)]

theorem furnished_of_some {call : BuilderCall} (h : builderCall? isDirectory base d = some call) (image : String) :
    furnished isDirectory base (image :: images) (d :: l)
      = { d with source := image } :: furnished isDirectory base images l := by
  rw [furnished, h, Option.isSome_some, if_pos rfl]

theorem plugin_of_builderCall? {call : BuilderCall} (h : builderCall? isDirectory base d = some call) :
    call.1 = d.plugin := by
  unfold builderCall? at h
  obtain ⟨-, h⟩ := Option.ite_none_right_eq_some.1 h
  rw [← Option.some.inj h]

theorem localDirectory_eq {m : Type → Type u} [Monad m] [LawfulMonad m] (d : ModuleDef) :
    localDirectory (fun path => (pure (isDirectory path) : m Bool)) base d
      = pure ((builderCall? isDirectory base d).map Prod.snd) := by
  unfold localDirectory builderCall?
  cases looksLocal d.source <;> cases hpath : isDirectory (File.join base d.source) <;> simp [hpath]

/-- Nothing is built after a failure. -/
theorem buildStep_of_failure (d : ModuleDef) (n : Nat) (e : PluginError) (calls : List BuilderCall) :
    ((buildStep isDirectory base replies d).run ⟨n, some e⟩).run calls = ((d, ⟨n, some e⟩), calls) := rfl

theorem buildStep_of_none (h : builderCall? isDirectory base d = none) (n : Nat) (calls : List BuilderCall) :
    ((buildStep isDirectory base replies d).run ⟨n, none⟩).run calls = ((d, ⟨n, none⟩), calls) := by
  rw [buildStep, buildModule, localDirectory_eq, h]
  rfl

variable (replies) in
theorem buildStep_of_some {call : BuilderCall} (h : builderCall? isDirectory base d = some call) (n : Nat)
    (calls : List BuilderCall) :
    ((buildStep isDirectory base replies d).run ⟨n, none⟩).run calls =
      match replies calls.length with
      | .ok image => (({ d with source := image }, ⟨n + 1, none⟩), calls ++ [call])
      | .error e => ((d, ⟨n, some e⟩), calls ++ [call]) := by
  have hbuild : (replying replies d.plugin call.2).run calls = (replies calls.length, calls ++ [call]) := by
    rw [← plugin_of_builderCall? h]
    rfl
  rw [buildStep, buildModule, localDirectory_eq, h]
  simp only [StateT.run_bind, StateT.run_get, pure_bind, Option.isSome_none, Bool.false_eq_true, if_false,
    StateT.run_lift, Option.map_some, bind_assoc, hbuild]
  cases replies calls.length <;> rfl

/-! ### The walk along the modules -/

theorem run_mapM_cons {d' : ModuleDef} {l' : List ModuleDef} {s s' s'' : Building}
    {calls calls' calls'' : List BuilderCall}
    (hfirst : ((buildStep isDirectory base replies d).run s).run calls = ((d', s'), calls'))
    (hrest : ((l.mapM (buildStep isDirectory base replies)).run s').run calls' = ((l', s''), calls'')) :
    (((d :: l).mapM (buildStep isDirectory base replies)).run s).run calls = ((d' :: l', s''), calls'') := by
  rw [List.mapM_cons, StateT.run_bind, StateT.run_bind, hfirst]
  show StateT.run (StateT.run (_ >>= _) s') calls' = _
  rw [StateT.run_bind, StateT.run_bind, hrest]
  rfl

theorem run_mapM_of_failure (l : List ModuleDef) (n : Nat) (e : PluginError) (calls : List BuilderCall) :
    ((l.mapM (buildStep isDirectory base replies)).run ⟨n, some e⟩).run calls = ((l, ⟨n, some e⟩), calls) := by
  induction l with
  | nil => rfl
  | cons d l ih => exact run_mapM_cons (buildStep_of_failure d n e calls) ih

/-- Whether the replies from a place on begin with images. -/
def Given (replies : Nat → Except PluginError String) (k : Nat) (images : List String) : Prop :=
  ∀ i image, images[i]? = some image → replies (k + i) = .ok image

theorem Given.cons {k : Nat} {image : String} (hfirst : replies k = .ok image) (h : Given replies (k + 1) images) :
    Given replies k (image :: images) := by
  intro i x hx
  cases i with
  | zero =>
    cases hx
    exact hfirst
  | succ i =>
    rw [← Nat.succ_add_eq_add_succ]
    exact h i x hx

/-- How a row of calls ends: with an image for each, or at the first reply that is an error. -/
inductive Ended (replies : Nat → Except PluginError String) (k : Nat) (images : List String) (due : List BuilderCall) :
    Option PluginError → List BuilderCall → Prop
  | through (all : images.length = due.length) : Ended replies k images due none due
  | stopped {e : PluginError} (before : images.length < due.length)
      (reply : replies (k + images.length) = .error e) :
      Ended replies k images due (some e) (due.take (images.length + 1))

theorem Ended.cons {k : Nat} {due made : List BuilderCall} {failure : Option PluginError}
    (h : Ended replies (k + 1) images due failure made) (image : String) (call : BuilderCall) :
    Ended replies k (image :: images) (call :: due) failure (call :: made) := by
  cases h with
  | through all => exact .through (congrArg Nat.succ all)
  | stopped before reply =>
    have hlater : k + 1 + images.length = k + (image :: images).length := by
      rw [List.length_cons]
      omega
    exact Ended.stopped (Nat.succ_lt_succ before) (hlater ▸ reply)

variable (isDirectory base replies) in
/-- The walk along some modules: images take the places of the sources that name directories, until a reply is an
error. -/
theorem exists_ended (l : List ModuleDef) (n : Nat) (calls : List BuilderCall) :
    ∃ images failure made, Given replies calls.length images ∧
      Ended replies calls.length images (builderCalls isDirectory base l) failure made ∧
      ((l.mapM (buildStep isDirectory base replies)).run ⟨n, none⟩).run calls
        = ((furnished isDirectory base images l, ⟨n + images.length, failure⟩), calls ++ made) := by
  induction l generalizing n calls with
  | nil => exact ⟨[], none, [], nofun, .through rfl, by rw [List.append_nil]; rfl⟩
  | cons d l ih =>
    cases hcall : builderCall? isDirectory base d with
    | none =>
      obtain ⟨images, failure, made, hgiven, hended, hrun⟩ := ih n calls
      refine ⟨images, failure, made, hgiven, ?_, ?_⟩
      · rwa [builderCalls, List.filterMap_cons_none hcall]
      · rw [furnished_of_none hcall]
        exact run_mapM_cons (buildStep_of_none hcall n calls) hrun
    | some call =>
      have hdue : builderCalls isDirectory base (d :: l) = call :: builderCalls isDirectory base l :=
        List.filterMap_cons_some hcall
      have hfirst := buildStep_of_some replies hcall n calls
      cases hreply : replies calls.length with
      | ok image =>
        rw [hreply] at hfirst
        obtain ⟨images, failure, made, hgiven, hended, hrun⟩ := ih (n + 1) (calls ++ [call])
        rw [List.length_append, List.length_singleton] at hgiven hended
        refine ⟨image :: images, failure, call :: made, hgiven.cons hreply, ?_, ?_⟩
        · rw [hdue]
          exact hended.cons image call
        · rw [furnished_of_some hcall, List.length_cons, ← Nat.add_assoc, Nat.add_right_comm, List.append_cons]
          exact run_mapM_cons hfirst hrun
      | error e =>
        rw [hreply] at hfirst
        refine ⟨[], some e, [call], nofun, ?_, ?_⟩
        · rw [hdue]
          exact .stopped (Nat.succ_pos _) hreply
        · rw [furnished_nil_left]
          exact run_mapM_cons hfirst (run_mapM_of_failure l n e _)

variable (isDirectory base replies) in
/-- Building a definition is the walk along its modules. -/
theorem exists_built (d : Definition) :
    ∃ d' images failure made, Given replies 0 images ∧
      Ended replies 0 images (builderCalls isDirectory base d.moduleDefs) failure made ∧ d'.hull = d.hull ∧
      d'.moduleDefs = furnished isDirectory base images d.moduleDefs ∧
      built isDirectory base replies d = ((failure.elim (.ok images.length) .error, d'), made) := by
  obtain ⟨images, failure, made, hgiven, hended, hrun⟩ :=
    exists_ended isDirectory base replies d.moduleDefs 0 []
  obtain ⟨d', hvisit, hmodules, hhull⟩ := (d.visits (f := buildStep isDirectory base replies)).run hrun
  refine ⟨d', images, failure, made, hgiven, hended, hhull, hmodules, ?_⟩
  rw [built, buildModules, StateT.run_bind, hvisit, Nat.zero_add]
  cases failure <;> rfl

/-- Modules that name no directories any more. -/
theorem builderCalls_furnished {l : List ModuleDef}
    (hnone : ∀ image ∈ images, ¬ (looksLocal image ∧ isDirectory (File.join base image)))
    (hall : images.length = (builderCalls isDirectory base l).length) :
    builderCalls isDirectory base (furnished isDirectory base images l) = [] := by
  induction l generalizing images with
  | nil => cases images <;> rfl
  | cons d l ih =>
    cases hcall : builderCall? isDirectory base d with
    | none =>
      rw [builderCalls, List.filterMap_cons_none hcall] at hall
      rw [furnished_of_none hcall, builderCalls, List.filterMap_cons_none hcall]
      exact ih hnone hall
    | some call =>
      rw [builderCalls, List.filterMap_cons_some hcall] at hall
      cases images with
      | nil => cases hall
      | cons image images =>
        obtain ⟨hfirst, hrest⟩ := List.forall_mem_cons.1 hnone
        have himage : builderCall? isDirectory base { d with source := image } = none := if_neg hfirst
        rw [furnished_of_some hcall, builderCalls, List.filterMap_cons_none himage]
        exact ih hrest (Nat.succ.inj hall)

/-- Nothing is done where no module names a directory. -/
theorem built_of_builderCalls_eq_nil {d : Definition} (h : builderCalls isDirectory base d.moduleDefs = []) :
    built isDirectory base replies d = ((.ok 0, d), []) := by
  obtain ⟨d', images, failure, made, -, hended, hhull, hmodules, hbuilt⟩ := exists_built isDirectory base replies d
  rw [h] at hended
  cases hended with
  | through all =>
    rw [List.length_eq_zero_iff.1 all] at hmodules hbuilt
    rw [furnished_nil_left] at hmodules
    rw [hbuilt, eq_of_hull hhull hmodules]
    rfl
  | stopped before => cases before

end

/-- **Building replaces the sources of the modules that name directories, and nothing else.**  The builder is called
for one after the other, and its images take the places of their sources, up to the first reply that is an error.  If
there is none, and no image names a directory, then there is nothing left to build. -/
theorem building_replaces_local_sources (isDirectory : String → Bool) (base : String)
    (replies : Nat → Except PluginError String) (d : Definition) :
    ∃ d' images, d'.hull = d.hull ∧ d'.moduleDefs = furnished isDirectory base images d.moduleDefs ∧
      (∀ i image, images[i]? = some image → replies i = .ok image) ∧
      let due := builderCalls isDirectory base d.moduleDefs
      (images.length = due.length ∧ built isDirectory base replies d = ((.ok due.length, d'), due) ∧
          ((∀ image ∈ images, ¬ (looksLocal image ∧ isDirectory (File.join base image))) →
            ∀ replies', built isDirectory base replies' d' = ((.ok 0, d'), []))) ∨
        ∃ e, images.length < due.length ∧ replies images.length = .error e ∧
          built isDirectory base replies d = ((.error e, d'), due.take (images.length + 1)) := by
  obtain ⟨d', images, failure, made, hgiven, hended, hhull, hmodules, hbuilt⟩ :=
    exists_built isDirectory base replies d
  refine ⟨d', images, hhull, hmodules, fun i image h => by rw [← hgiven i image h, Nat.zero_add], ?_⟩
  cases hended with
  | through all =>
    refine .inl ⟨all, by rw [hbuilt, ← all]; rfl, fun hnone replies' => ?_⟩
    refine built_of_builderCalls_eq_nil ?_
    rw [hmodules]
    exact builderCalls_furnished hnone all
  | @stopped e before reply =>
    rw [Nat.zero_add] at reply
    exact .inr ⟨e, before, reply, hbuilt⟩

/-- A module of the datacenter, one of a hook, and one whose directory is missing; the second build fails. -/
example :
    let source (s : String) : ModuleDef := ⟨s, default, .obj []⟩
    let d (a b c : String) : Definition :=
      ⟨[], [("a", source a)], [⟨[("c", source c)], [("database", [⟨none, [("b", source b)], .null⟩])]⟩]⟩
    let isDirectory (path : String) : Bool := path = "base/./a" ∨ path = "base/./b"
    let replies (n : Nat) : Except PluginError String := if n = 0 then .ok "image:1" else .error (.remote "no")
    built isDirectory "base" replies (d "./a" "./b" "./missing")
      = ((.error (.remote "no"), d "image:1" "./b" "./missing"), [(default, "base/./a"), (default, "base/./b")]) := by
  rfl

end Definition

end Groundwork
