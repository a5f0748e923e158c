import Groundwork.Proofs.Compile.Naming

/-!
# Every declared module and its node

A definition declares modules in three kinds of places: the datacenter, the environment, and the first hook that
serves an app node.  `declarations` lists them as the definition has them, without building a graph.  A compiled
graph knows a module by its id alone, and of modules that give the same id it keeps the last.

Main statement: each declaration has a node of its id, each node is that of the last declaration of its id, and
the nodes are the declarations, one for one and in order, exactly if the ids are distinct; where names are clean,
ids are as distinct as the places and names are (`declarations_stand`).
-/

namespace Groundwork

/-! ### Visiting tables and lists -/

section Visits

variable {ε α β : Type} {f : α → Except ε β}

theorem forall₂_of_traverse {f : α → Except ε α} {t u : Table α} (h : Table.traverse f t = .ok u) :
    List.Forall₂ (fun p q => p.1 = q.1 ∧ f p.2 = .ok q.2) t u := by
  induction t generalizing u with
  | nil =>
    cases h
    exact .nil
  | cons p t ih =>
    obtain ⟨a, ha, h⟩ := bind_eq_ok h
    obtain ⟨t', ht, h⟩ := bind_eq_ok h
    cases h
    exact .cons ⟨rfl, ha⟩ (ih ht)

theorem forall₂_of_visitAll {f : α → Except ε α} {l k : List α} (h : List.visitAll f l = .ok k) :
    List.Forall₂ (fun a b => f a = .ok b) l k := by
  induction l generalizing k with
  | nil =>
    cases h
    exact .nil
  | cons a l ih =>
    obtain ⟨b, hb, h⟩ := bind_eq_ok h
    obtain ⟨k', hk, h⟩ := bind_eq_ok h
    cases h
    exact .cons hb (ih hk)

theorem forall₂_of_mapM {l : List α} {k : List β} (h : l.mapM f = .ok k) :
    List.Forall₂ (fun a b => f a = .ok b) l k := by
  induction l generalizing k with
  | nil =>
    rw [List.mapM_nil] at h
    cases h
    exact .nil
  | cons a l ih =>
    rw [List.mapM_cons] at h
    obtain ⟨b, hb, h⟩ := bind_eq_ok h
    obtain ⟨k', hk, h⟩ := bind_eq_ok h
    cases h
    exact .cons hb (ih hk)

/-- Searches by corresponding tests find corresponding items. -/
theorem rel_find? {R : α → β → Prop} {p : α → Bool} {q : β → Bool} (hpq : ∀ a b, R a b → p a = q b)
    {l : List α} {k : List β} (h : List.Forall₂ R l k) : Option.Rel R (l.find? p) (k.find? q) := by
  induction h with
  | nil => exact .none
  | @cons a b l k hab _ ih =>
    rw [List.find?_cons, List.find?_cons, hpq a b hab]
    cases q b with
    | true => exact .some hab
    | false => exact ih

theorem forall₂_trans {γ : Type} {R : α → β → Prop} {S : β → γ → Prop} {T : α → γ → Prop}
    (hRS : ∀ a b c, R a b → S b c → T a c) {l : List α} {k : List β} {j : List γ} (h : List.Forall₂ R l k)
    (h' : List.Forall₂ S k j) : List.Forall₂ T l j := by
  induction h generalizing j with
  | nil =>
    cases h'
    exact .nil
  | cons hab _ ih =>
    cases h' with
    | cons hbc h' => exact .cons (hRS _ _ _ hab hbc) (ih h')

end Visits

namespace Compile

/-! ### Declarations -/

/-- Where a module is declared. -/
inductive Place where
  | datacenter
  | environment (name : String)
  /-- The hook that serves an app node in an environment. -/
  | hook (environment : String) (n : AppNode)

/-- The scope of the modules of a place. -/
def Place.scope : Place → Scope
  | .datacenter => rootScope
  | .environment name => environmentScope name
  | .hook outer n => instanceScope outer n

/-- A module as it is declared, without its inputs. -/
structure Declaration where
  place : Place
  name : String
  source : String
  plugin : PluginKind

namespace Declaration

/-- What a declaration says of its node: everything but the inputs. -/
def node (x : Declaration) : InfraNode :=
  { InfraNode.create (x.place.scope.key x.name) x.source x.plugin with appNode := x.place.scope.appNode }

/-- The id of the node. -/
def id (x : Declaration) : String := x.node.id

/-- Whether a node is that of a declaration. -/
def IsNode (x : Declaration) (n : InfraNode) : Prop := n = { x.node with inputs := n.inputs }

/-- The place and the name of a declaration, as a path from the outside in. -/
def path (x : Declaration) : List String :=
  match x.place with
  | .datacenter => ["module", x.name]
  | .environment name => [name, "module", x.name]
  | .hook outer n =>
      n.key.environment.getD outer :: (n.key.component.toList ++
        ["module", n.key.resourceType, n.key.name, x.name])

end Declaration

/-- The declarations of a table of modules. -/
def declared (place : Place) (modules : Table ModuleDef) : List Declaration :=
  modules.map fun p => ⟨place, p.1, p.2.source, p.2.plugin⟩

/-- The values that a definition sees. -/
def definitionContext (d : Definition) (options : CompileOptions) : Except CompileError Context := do
  let schema ← Variable.schema d.declarations
  let values ← Variable.resolve schema options.values
  .ok (datacenterContext options values)

/-- The hooks of a type, those of all blocks in the order of declaration. -/
def hooksOf (blocks : List EnvironmentDef) (type : String) : List Hook :=
  blocks.flatMap fun e => (e.hooks.filter (·.1 = type)).flatMap (·.2)

/-- The condition of a hook with values put in: those that the definition sees, then the name of the
environment. -/
def conditionIn (context : Context) (name : String) (h : Hook) : Except CompileError (Option Value) :=
  match h.condition with
  | none => .ok none
  | some v => do
      let v ← context.apply v
      let v ← (environmentContext name).apply v
      .ok (some v)

/-- Whether a condition is absent or holds. -/
def admits (about : Value) (condition : Except CompileError (Option Value)) : Bool :=
  match condition with
  | .ok none => true
  | .ok (some v) =>
      match holds about v with
      | .ok b => b
      | .error _ => false
  | .error _ => false

/-- The first hook of the type of an app node whose condition is absent or holds. -/
def servingHook (d : Definition) (context : Context) (name : String) (n : AppNode) : Option Hook :=
  (hooksOf d.environments n.key.resourceType).find? fun h =>
    admits (conditionContext name n) (conditionIn context name h)

/-- All declarations of a definition for an app graph: those of the datacenter, and those of the environment and
of the hooks that serve app nodes if there is an environment. -/
def declarations (d : Definition) (app : AppGraph) (environment : Option String) (context : Context) :
    List Declaration :=
  declared .datacenter d.modules ++ environment.toList.flatMap fun name =>
    (d.environments.flatMap fun e => declared (.environment name) e.modules) ++ app.nodes.flatMap fun n =>
      (servingHook d context name n).toList.flatMap fun h => declared (.hook name n) h.modules

/-! ### Values put in -/

/-- Putting values into inputs keeps what is declared. -/
theorem declared_of_applyToModules {context : Context} {modules modules' : Table ModuleDef}
    (h : applyToModules context modules = .ok modules') (place : Place) :
    declared place modules' = declared place modules := by
  have hrelated := forall₂_of_traverse h
  clear h
  induction hrelated with
  | nil => rfl
  | @cons p q t u hpq _ ih =>
    obtain ⟨hname, happlied⟩ := hpq
    obtain ⟨inputs, -, hq⟩ : ∃ inputs, context.apply p.2.inputs = .ok inputs ∧ { p.2 with inputs } = q.2 := by
      cases hinputs : context.apply p.2.inputs with
      | error e =>
        rw [hinputs] at happlied
        cases happlied
      | ok inputs =>
        rw [hinputs] at happlied
        exact ⟨inputs, rfl, Except.ok.inj happlied⟩
    rw [declared, List.map_cons, ← hname, ← hq]
    exact congrArg _ ih

/-- What becomes of a hook whose values are put in. -/
theorem applyToHook_eq_ok {context : Context} {h h' : Hook} (happly : applyToHook context h = .ok h') :
    (match h.condition with
      | none => h'.condition = none
      | some v => ∃ w, context.apply v = .ok w ∧ h'.condition = some w) ∧
      applyToModules context h.modules = .ok h'.modules := by
  unfold applyToHook at happly
  cases hc : h.condition with
  | none =>
    rw [hc] at happly
    obtain ⟨condition, hcondition, happly⟩ := bind_eq_ok happly
    obtain ⟨modules, hmodules, happly⟩ := bind_eq_ok happly
    obtain ⟨outputs, -, happly⟩ := bind_eq_ok happly
    cases hcondition
    cases happly
    exact ⟨rfl, hmodules⟩
  | some v =>
    rw [hc] at happly
    obtain ⟨condition, hcondition, happly⟩ := bind_eq_ok happly
    obtain ⟨modules, hmodules, happly⟩ := bind_eq_ok happly
    obtain ⟨outputs, -, happly⟩ := bind_eq_ok happly
    cases happly
    refine ⟨?_, hmodules⟩
    cases hv : context.apply v with
    | error e =>
      rw [hv] at hcondition
      cases hcondition
    | ok w =>
      rw [hv] at hcondition
      cases hcondition
      exact ⟨w, hv, rfl⟩

/-- Whether a hook is what another one has become in a compilation: its condition is that of the declaration with
values put in, and its modules are those declared. -/
structure Prepared (context : Context) (name : String) (h h' : Hook) : Prop where
  condition : conditionIn context name h = .ok h'.condition
  modules : ∀ place, declared place h'.modules = declared place h.modules

theorem prepared_of_apply {context : Context} {name : String} {h h' h'' : Hook}
    (happly : applyToHook context h = .ok h') (happly' : applyToHook (environmentContext name) h' = .ok h'') :
    Prepared context name h h'' := by
  obtain ⟨hcondition, hmodules⟩ := applyToHook_eq_ok happly
  obtain ⟨hcondition', hmodules'⟩ := applyToHook_eq_ok happly'
  refine ⟨?_, fun place => (declared_of_applyToModules hmodules' place).trans
    (declared_of_applyToModules hmodules place)⟩
  unfold conditionIn
  cases hc : h.condition with
  | none =>
    rw [hc] at hcondition
    rw [hcondition] at hcondition'
    dsimp only at hcondition' ⊢
    rw [hcondition']
  | some v =>
    rw [hc] at hcondition
    obtain ⟨w, hw, hcondition⟩ := hcondition
    rw [hcondition] at hcondition'
    obtain ⟨x, hx, hcondition'⟩ := hcondition'
    dsimp only
    rw [hw, hcondition']
    show ((environmentContext name).apply w >>= _) = _
    rw [hx]
    rfl

/-! ### Blocks -/

/-- What becomes of a block whose values are put in. -/
theorem applyToEnvironment_eq_ok {context : Context} {e e' : EnvironmentDef}
    (h : applyToEnvironment context e = .ok e') :
    applyToModules context e.modules = .ok e'.modules ∧
      List.Forall₂ (fun p q : String × List Hook => p.1 = q.1 ∧
        List.Forall₂ (fun h h' => applyToHook context h = .ok h') p.2 q.2) e.hooks e'.hooks := by
  obtain ⟨hooks, hhooks, h⟩ := bind_eq_ok h
  obtain ⟨modules, hmodules, h⟩ := bind_eq_ok h
  cases h
  exact ⟨hmodules, (forall₂_of_traverse hhooks).imp fun p q hpq => ⟨hpq.1, forall₂_of_visitAll hpq.2⟩⟩

/-- Hooks that correspond do so type by type. -/
theorem forall₂_hooksOf {R : Hook → Hook → Prop} {bs bs' : List EnvironmentDef} (type : String)
    (h : List.Forall₂ (fun e e' => List.Forall₂ (fun p q : String × List Hook => p.1 = q.1 ∧
      List.Forall₂ R p.2 q.2) e.hooks e'.hooks) bs bs') :
    List.Forall₂ R (hooksOf bs type) (hooksOf bs' type) := by
  refine List.rel_flatMap h fun e e' hee' => ?_
  refine List.rel_flatMap (List.rel_filter ?_ hee') fun p q hpq => hpq.2
  rintro p q ⟨hpq, -⟩
  simp [hpq]

theorem forall₂_lookup {R : Hook → Hook → Prop} {t u : Table (List Hook)}
    (h : List.Forall₂ (fun p q : String × List Hook => p.1 = q.1 ∧ List.Forall₂ R p.2 q.2) t u) (type : String) :
    List.Forall₂ R ((t.lookup type).getD []) ((u.lookup type).getD []) := by
  induction h with
  | nil => exact .nil
  | @cons p q t u hpq _ ih =>
    obtain ⟨k, l⟩ := p
    obtain ⟨k', l'⟩ := q
    obtain ⟨rfl, hl⟩ := hpq
    rw [List.lookup_cons, List.lookup_cons]
    cases type == k with
    | true => exact hl
    | false => exact ih

/-- The modules of all blocks stand one after another. -/
theorem modules_of_addDeclared {modules modules' t : Table ModuleDef}
    (h : t.foldlM addDeclared modules = .ok modules') :
    modules' = modules ++ t := by
  induction t generalizing modules with
  | nil =>
    cases h
    exact (List.append_nil _).symm
  | cons p t ih =>
    rw [List.foldlM_cons] at h
    obtain ⟨x, hx, h⟩ := bind_eq_ok h
    unfold addDeclared at hx
    split at hx
    · cases hx
    · rename_i hnot
      cases hx
      rw [ih h, Table.put_of_not_has (by simpa using hnot), List.append_assoc]
      rfl

/-- The hooks of a type after those of a block were added. -/
theorem lookup_addHooks (block hooks : Table (List Hook)) (type : String) :
    ((block.foldl (fun hooks p => hooks.put p.1 ((hooks.lookup p.1).getD [] ++ p.2)) hooks).lookup type).getD []
      = (hooks.lookup type).getD [] ++ (block.filter (·.1 = type)).flatMap (·.2) := by
  induction block generalizing hooks with
  | nil => simp
  | cons p block ih =>
    rw [List.foldl_cons, ih]
    by_cases hp : p.1 = type
    · subst hp
      rw [Table.lookup_put_self, List.filter_cons_of_pos (by simp), List.flatMap_cons, ← List.append_assoc]
      rfl
    · rw [Table.lookup_put_ne _ _ (Ne.symm hp), List.filter_cons_of_neg (by simpa using hp)]

theorem mergeEnvironments_eq_ok {blocks : List EnvironmentDef} {merged : EnvironmentDef}
    (h : mergeEnvironments blocks = .ok merged) :
    merged.modules = blocks.flatMap (·.modules) ∧
      ∀ type, (merged.hooks.lookup type).getD [] = hooksOf blocks type := by
  have hfold : ∀ (blocks : List EnvironmentDef) (e : EnvironmentDef),
      blocks.foldlM mergeEnvironment e = .ok merged →
      merged.modules = e.modules ++ blocks.flatMap (·.modules) ∧
        ∀ type, (merged.hooks.lookup type).getD [] = (e.hooks.lookup type).getD [] ++ hooksOf blocks type := by
    intro blocks
    induction blocks with
    | nil =>
      intro e h
      cases h
      exact ⟨(List.append_nil _).symm, fun type => (List.append_nil _).symm⟩
    | cons block blocks ih =>
      intro e h
      rw [List.foldlM_cons] at h
      obtain ⟨x, hx, h⟩ := bind_eq_ok h
      obtain ⟨modules, hmodules, hx⟩ := bind_eq_ok hx
      cases hx
      obtain ⟨hrest, hhooks⟩ := ih _ h
      refine ⟨?_, fun type => ?_⟩
      · rw [hrest, modules_of_addDeclared hmodules, List.flatMap_cons, List.append_assoc]
      · rw [hhooks, lookup_addHooks, hooksOf, hooksOf, List.flatMap_cons, List.append_assoc]
  obtain ⟨hmodules, hhooks⟩ := hfold blocks ⟨[], []⟩ h
  exact ⟨hmodules, fun type => hhooks type⟩

theorem flatMap_declared {place : Place} {bs blocks : List EnvironmentDef}
    (h : List.Forall₂ (fun e e' => declared place e'.modules = declared place e.modules) bs blocks) :
    (blocks.flatMap fun e => declared place e.modules) = bs.flatMap fun e => declared place e.modules := by
  induction h with
  | nil => rfl
  | cons hee' _ ih => rw [List.flatMap_cons, List.flatMap_cons, hee', ih]

/-- The hooks of an environment are those of all blocks in order, with values put in. -/
theorem prepared_of_environmentOf {bs blocks : List EnvironmentDef} {context : Context} {name : String}
    {block : EnvironmentDef} (hblocks : List.visitAll (applyToEnvironment context) bs = .ok blocks)
    (h : environmentOf name blocks = .ok block) :
    (∀ place, declared place block.modules = bs.flatMap fun e => declared place e.modules) ∧
      ∀ type, List.Forall₂ (Prepared context name) (hooksOf bs type) ((block.hooks.lookup type).getD []) := by
  obtain ⟨merged, hmerged, h⟩ := bind_eq_ok h
  obtain ⟨hmodules, hhooks⟩ := mergeEnvironments_eq_ok hmerged
  obtain ⟨hmodules', hhooks'⟩ := applyToEnvironment_eq_ok h
  have happlied := (forall₂_of_visitAll hblocks).imp fun e e' => applyToEnvironment_eq_ok
  refine ⟨fun place => ?_, fun type => ?_⟩
  · rw [declared_of_applyToModules hmodules', hmodules, declared, List.map_flatMap]
    exact flatMap_declared (happlied.imp fun e e' hee' => declared_of_applyToModules hee'.1 place)
  · have hfirst := forall₂_hooksOf type (happlied.imp fun e e' hee' => hee'.2)
    have hsecond := forall₂_lookup hhooks' type
    rw [hhooks] at hsecond
    refine forall₂_trans ?_ hfirst hsecond
    exact fun k k' k'' hk hk' => prepared_of_apply hk hk'

/-! ### Hooks that serve app nodes -/

theorem admits_some {about v : Value} {b : Bool} (h : holds about v = .ok b) : admits about (.ok (some v)) = b := by
  rw [admits, h]

/-- The first hook whose condition is found to hold is the first whose condition is absent or holds. -/
theorem firstHook_eq_find? {about : Value} {hooks : List Hook} {r : Option Hook}
    (h : firstHook about hooks = .ok r) : r = hooks.find? fun k => admits about (.ok k.condition) := by
  induction hooks with
  | nil =>
    cases h
    rfl
  | cons k hooks ih =>
    rw [firstHook] at h
    rw [List.find?_cons]
    cases hc : k.condition with
    | none =>
      rw [hc] at h
      cases h
      rfl
    | some v =>
      rw [hc] at h
      obtain ⟨b, hb, h⟩ := bind_eq_ok h
      rw [admits_some hb]
      cases b with
      | true =>
        cases h
        rfl
      | false => exact ih h

theorem hookFor_eq_find? {c : HookContext} {n : AppNode} {r : Option Hook} (h : hookFor c n = .ok r) :
    r = ((c.hooks.lookup n.key.resourceType).getD []).find? fun k =>
      admits (conditionContext c.environment n) (.ok k.condition) := by
  unfold hookFor at h
  cases hooks : c.hooks.lookup n.key.resourceType with
  | none =>
    rw [hooks] at h
    cases h
    rfl
  | some l =>
    rw [hooks] at h
    exact firstHook_eq_find? h

/-! ### Declarations and modules -/

/-- Whether a module is the one of a declaration. -/
def Declares (x : Declaration) (m : Member) : Prop := x.IsNode m.node

theorem forall₂_declared (place : Place) {r : Region} (h : r.scope = place.scope) :
    List.Forall₂ Declares (declared place r.modules) r.members := by
  rw [declared, Region.members, List.forall₂_map_left_iff, List.forall₂_map_right_iff, List.forall₂_same]
  intro p _
  show (r.member p).node = _
  rw [Member.node]
  simp only [Region.member, Declaration.node, Scope.node, h]

/-- The modules that serve an app node are those of its hook. -/
theorem forall₂_serviceOf {d : Definition} {context : Context} {c : HookContext} {n : AppNode}
    {a : Option Service} (h : serviceOf c n = .ok a)
    (hprepared : List.Forall₂ (Prepared context c.environment) (hooksOf d.environments n.key.resourceType)
      ((c.hooks.lookup n.key.resourceType).getD [])) :
    List.Forall₂ Declares
      ((servingHook d context c.environment n).toList.flatMap fun k => declared (.hook c.environment n) k.modules)
      (a.toList.flatMap (·.region.members)) := by
  obtain ⟨hook, hhook, h⟩ := bind_eq_ok h
  have hserving : Option.Rel (Prepared context c.environment) (servingHook d context c.environment n) hook := by
    rw [hookFor_eq_find? hhook]
    exact rel_find? (fun k k' hk => by rw [hk.condition]) hprepared
  generalize servingHook d context c.environment n = serving at hserving ⊢
  cases hserving with
  | none =>
    cases h
    exact .nil
  | @some k k' hk =>
    obtain ⟨modules, hmodules, h⟩ := bind_eq_ok h
    obtain ⟨outputs, -, h⟩ := bind_eq_ok h
    cases h
    have hdeclared := forall₂_declared (.hook c.environment n)
      (r := ⟨instanceScope c.environment n, modules, c.visible⟩) rfl
    rw [declared_of_applyToModules hmodules, hk.modules] at hdeclared
    simpa using hdeclared

/-- **The modules of the stages are those declared, one for one and in order.** -/
theorem forall₂_declarations {d : Definition} {app : AppGraph} {options : CompileOptions} {s : Stages}
    (h : stages d app options = .ok s) :
    ∃ context, definitionContext d options = .ok context ∧
      List.Forall₂ Declares (declarations d app options.environment context) s.members := by
  obtain ⟨⟨modules, blocks⟩, hvariables, h⟩ := bind_eq_ok h
  obtain ⟨schema, hschema, hvariables⟩ := bind_eq_ok hvariables
  obtain ⟨values, hvalues, hvariables⟩ := bind_eq_ok hvariables
  obtain ⟨modules', hmodules, hvariables⟩ := bind_eq_ok hvariables
  obtain ⟨blocks', hblocks, hvariables⟩ := bind_eq_ok hvariables
  cases hvariables
  refine ⟨datacenterContext options values, ?_, ?_⟩
  · rw [definitionContext, hschema]
    show (Variable.resolve schema options.values >>= _) = _
    rw [hvalues]
    rfl
  have hroot := forall₂_declared .datacenter (r := ⟨rootScope, modules, []⟩) rfl
  rw [declared_of_applyToModules hmodules] at hroot
  cases henv : options.environment with
  | none =>
    simp only [henv] at h
    cases h
    exact List.rel_append hroot .nil
  | some name =>
    simp only [henv] at h
    obtain ⟨block, hblock, h⟩ := bind_eq_ok h
    obtain ⟨services, hservices, h⟩ := bind_eq_ok h
    cases h
    obtain ⟨hblockModules, hprepared⟩ := prepared_of_environmentOf hblocks hblock
    have henvironment := forall₂_declared (.environment name)
      (r := ⟨environmentScope name, block.modules, Region.ids ⟨rootScope, modules, []⟩⟩) rfl
    rw [hblockModules] at henvironment
    have hserved : List.Forall₂ Declares
        (app.nodes.flatMap fun n => (servingHook d (datacenterContext options values) name n).toList.flatMap fun k =>
          declared (.hook name n) k.modules)
        (services.flatMap fun a => a.toList.flatMap (·.region.members)) :=
      List.rel_flatMap (forall₂_of_mapM hservices) fun n a ha =>
        forall₂_serviceOf ha (hprepared n.key.resourceType)
    have hsome : (services.flatMap fun a => a.toList.flatMap (·.region.members))
        = (services.filterMap fun a => a).flatMap (·.region.members) := by
      rw [List.filterMap_eq_flatMap_toList, List.flatMap_assoc]
    rw [hsome] at hserved
    have hall := List.rel_append hroot (List.rel_append henvironment hserved)
    simpa [declarations, Stages.members] using hall

/-! ### Paths and ids -/

/-- Whether a name comes into an id as it is, as one part: no slash, no dot and no blank. -/
def CleanName (s : String) : Prop := ∀ c ∈ s.toList, c ≠ '/' ∧ c ≠ '.' ∧ Text.isBlank c = false

-- by a search of the name and not of all characters, which are finitely many too
instance : DecidablePred CleanName := fun s =>
  List.decidableBAll (fun c => c ≠ '/' ∧ c ≠ '.' ∧ Text.isBlank c = false) s.toList

theorem CleanName.clean {s : String} (h : CleanName s) : Key.clean s = s.toList := by
  rw [Key.clean]
  refine (List.map_congr_left fun c hc => ?_).trans (List.map_id _)
  obtain ⟨-, hdot, hblank⟩ := h c hc
  simp [Key.cleanChar, hdot, hblank]

theorem clean_join (s t : String) : Key.clean (s ++ "/" ++ t) = Key.clean s ++ '/' :: Key.clean t := by
  simp [Key.clean, Key.cleanChar, Text.isBlank, String.toList_append]

/-- The id of a declaration joins its path. -/
theorem Declaration.idChars_eq {x : Declaration} (h : ∀ p ∈ x.path, CleanName p) :
    (x.place.scope.key x.name).idChars = ['/'].intercalate (x.path.map String.toList) := by
  obtain ⟨place, name, source, plugin⟩ := x
  have hclean : ∀ p ∈ (⟨place, name, source, plugin⟩ : Declaration).path, p.toList = Key.clean p :=
    fun p hp => (h p hp).clean.symm
  rw [List.map_congr_left hclean]
  clear h hclean
  cases place with
  | datacenter => simp [Place.scope, rootScope, Scope.key, Key.idChars, Key.cleanScope, path]
  | environment outer => simp [Place.scope, environmentScope, Scope.key, Key.idChars, Key.cleanScope, path]
  | hook outer n =>
    have hname : Key.clean (n.key.resourceType ++ "/" ++ n.key.name ++ "/" ++ name)
        = Key.clean n.key.resourceType ++ '/' :: (Key.clean n.key.name ++ '/' :: Key.clean name) := by
      rw [clean_join, clean_join, List.append_assoc]
      rfl
    cases hcomponent : n.key.component with
    | none => simp [Place.scope, instanceScope, Scope.key, Key.idChars, Key.cleanScope, path, hcomponent, hname]
    | some component =>
      simp [Place.scope, instanceScope, Scope.key, Key.idChars, Key.cleanScope, path, hcomponent, hname]

/-- **Clean paths can be read off ids.** -/
theorem Declaration.id_eq_id_iff {x y : Declaration} (hx : ∀ p ∈ x.path, CleanName p)
    (hy : ∀ p ∈ y.path, CleanName p) : x.id = y.id ↔ x.path = y.path := by
  have hkeys : x.id = y.id ↔ (x.place.scope.key x.name).idChars = (y.place.scope.key y.name).idChars := by
    show InfraNode.idOf (x.place.scope.key x.name) .blue = InfraNode.idOf (y.place.scope.key y.name) .blue ↔ _
    rw [InfraNode.idOf_eq_idOf_iff, and_iff_left rfl, Key.id, Key.id, ← String.toList_inj]
    simp
  have hsplit : ∀ {z : Declaration}, (∀ p ∈ z.path, CleanName p) →
      (['/'].intercalate (z.path.map String.toList)).splitOn '/' = z.path.map String.toList := by
    intro z hz
    refine List.splitOn_intercalate '/' (fun p hp hslash => ?_) (fun hnil => ?_)
    · obtain ⟨q, hq, rfl⟩ := List.mem_map.1 hp
      exact (hz q hq '/' hslash).1 rfl
    · have hpath := List.map_eq_nil_iff.1 hnil
      unfold path at hpath
      split at hpath <;> cases hpath
  rw [hkeys, idChars_eq hx, idChars_eq hy]
  constructor
  · intro h
    have hparts := congrArg (List.splitOn '/') h
    rw [hsplit hx, hsplit hy] at hparts
    exact List.map_injective_iff.2 (fun _ _ => String.toList_inj.1) hparts
  · intro h
    rw [h]

/-! ### Nodes of declarations -/

theorem Declaration.IsNode.id {x : Declaration} {n : InfraNode} (h : x.IsNode n) : x.id = n.id := by
  rw [h]
  rfl

theorem ids_of_isNode {l : List Declaration} {ns : List InfraNode} (h : List.Forall₂ Declaration.IsNode l ns) :
    l.map Declaration.id = idsOf ns := by
  induction h with
  | nil => rfl
  | cons hxn _ ih => rw [List.map_cons, ih, hxn.id]; rfl

/-- Linking changes inputs only. -/
theorem Declares.linked {x : Declaration} {m : Member} (h : Declares x m) (s : Stages) : x.IsNode (s.linked m) := by
  rw [Declaration.IsNode]
  conv_lhs => rw [s.linked_eq m]
  rw [show m.node = { x.node with inputs := m.node.inputs } from h]

/-- **Each declaration has a node of its id, and each node is that of the last declaration of its id.**  The nodes
are the declarations, one for one and in order, exactly if the ids are distinct; and where all names are clean, ids
are distinct exactly if no two declarations have both their place and their name in common. -/
theorem declarations_stand {d : Definition} {app : AppGraph} {options : CompileOptions} {g : Infrastructure}
    (h : d.compile app options = .ok g) :
    ∃ context, definitionContext d options = .ok context ∧
      let l := declarations d app options.environment context
      (∀ x ∈ l, x.id ∈ g.ids) ∧
      (∀ n ∈ g.nodes, ∃ x, l.reverse.find? (·.id = n.id) = some x ∧ x.IsNode n) ∧
      ((l.map Declaration.id).Nodup ↔ List.Forall₂ Declaration.IsNode l g.nodes) ∧
      ((∀ x ∈ l, ∀ p ∈ x.path, CleanName p) →
        ((l.map Declaration.id).Nodup ↔ (l.map Declaration.path).Nodup)) := by
  obtain ⟨s, hstages, hcompiled⟩ := exists_stages h
  obtain ⟨context, hcontext, hdeclared⟩ := forall₂_declarations hstages
  refine ⟨context, hcontext, ?_⟩
  generalize declarations d app options.environment context = l at hdeclared ⊢
  have hnodes : List.Forall₂ Declaration.IsNode l (s.members.map s.linked) :=
    List.forall₂_map_right_iff.2 (hdeclared.imp fun x m hxm => hxm.linked s)
  refine ⟨fun x hx => ?_, fun n hn => ?_, ⟨fun hids => ?_, fun hall => ?_⟩, fun hclean => ?_⟩
  · rw [hcompiled.assembled.mem_ids, ← ids_of_isNode hnodes]
    exact List.mem_map_of_mem hx
  · have hfound := Graph.node?_id hn
    rw [hcompiled.assembled.node?] at hfound
    have hrelated := rel_find? (p := fun x => decide (x.id = n.id)) (q := fun m => decide (Identified.id m = n.id))
      (fun x m hxm => by rw [hxm.id]; rfl) (List.rel_reverse hnodes)
    rw [show (s.members.map s.linked).reverse.find? (fun m => decide (Identified.id m = n.id)) = some n from hfound]
      at hrelated
    generalize l.reverse.find? (fun x => decide (x.id = n.id)) = found at hrelated ⊢
    cases hrelated with
    | @some x _ hx => exact ⟨x, rfl, hx⟩
  · rw [hcompiled.assembled.nodes (by rw [← ids_of_isNode hnodes]; exact hids)]
    exact hnodes
  · rw [ids_of_isNode hall]
    exact g.ids_nodup
  · rw [List.Nodup, List.pairwise_map, List.Nodup, List.pairwise_map]
    exact List.Pairwise.iff_of_mem fun {x y} hx hy =>
      not_congr (Declaration.id_eq_id_iff (hclean x hx) (hclean y hy))

/-- In the small datacenter each declaration has a node of its own. -/
theorem declarations_stand_market :
    market.compile marketApp marketOptions = .ok marketGraph ∧
      ∃ context, definitionContext market marketOptions = .ok context ∧
        (declarations market marketApp (some "prod") context).map Declaration.path
          = [["module", "db"], ["prod", "module", "queue"], ["prod", "module", "store", "main", "keys"],
            ["prod", "module", "site", "shop", "web"]] ∧
        List.Forall₂ Declaration.IsNode (declarations market marketApp (some "prod") context) marketGraph.nodes := by
  obtain ⟨context, hcontext, -, -, hone, hclean⟩ := declarations_stand compile_market
  have hvalue : definitionContext market marketOptions = .ok (datacenterContext marketOptions []) := rfl
  rw [hvalue] at hcontext
  cases hcontext
  have hpaths : (∀ x ∈ declarations market marketApp (some "prod") (datacenterContext marketOptions []),
      ∀ p ∈ x.path, CleanName p) ∧
      (declarations market marketApp (some "prod") (datacenterContext marketOptions [])).map Declaration.path
        = [["module", "db"], ["prod", "module", "queue"], ["prod", "module", "store", "main", "keys"],
          ["prod", "module", "site", "shop", "web"]] := by decide +kernel
  refine ⟨compile_market, _, hvalue, hpaths.2, hone.1 ((hclean hpaths.1).2 ?_)⟩
  show ((declarations market marketApp (some "prod") (datacenterContext marketOptions [])).map _).Nodup
  rw [hpaths.2]
  decide

/-- One hook for secrets. -/
def vault : Definition :=
  ⟨[], [], [⟨[], [("secret", [⟨none, [("m", ⟨"img", .pulumi, .obj []⟩)], .obj [("data", .str "x")]⟩])]⟩]⟩

/-- Two secrets of one name.  The key of the one leaves out the environment, the key of the other names it. -/
def twoSecrets : AppGraph :=
  Graph.ofParts [⟨⟨"secret", "k", none, none⟩, .obj []⟩, ⟨⟨"secret", "k", none, some "prod"⟩, .obj []⟩] []

/-- **A declared module can be lost.**  In the environment that the one key leaves out and the other names, the
module of the one secret takes the place of the module of the other. -/
theorem lost_module_twoSecrets :
    ∃ g context, vault.compile twoSecrets ⟨"dc", some "prod", []⟩ = .ok g ∧
      definitionContext vault ⟨"dc", some "prod", []⟩ = .ok context ∧
      (declarations vault twoSecrets (some "prod") context).map (·.place.scope.appNode)
        = [some "secret/k", some "prod/secret/k"] ∧
      g.nodes.map (·.appNode) = [some "prod/secret/k"] :=
  ⟨_, datacenterContext ⟨"dc", some "prod", []⟩ [], eq_ok_getD (by decide +kernel) Graph.empty, rfl,
    by decide +kernel, by decide +kernel⟩

end Compile

end Groundwork
