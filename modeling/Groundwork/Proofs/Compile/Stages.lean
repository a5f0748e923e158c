import Groundwork.Proofs.Compile.Closed
import Groundwork.Proofs.Compile.Linking
import Groundwork.Proofs.Graph.Contents
import Mathlib.Data.List.Forall2

/-!
# What a compilation puts together

A compiled graph is put together from the modules of three kinds of regions: that of the datacenter, that of the
environment, and one for each app node that a hook serves.  `stages` computes the regions without the graph, and
`Compiled` says how the graph comes from them: each module gives a node and its dependencies, the nodes of app
nodes are linked to the outputs, and further dependencies are read off the linked inputs.

Main statement: a compilation that succeeds has stages, and its graph is put together from them
(`exists_stages`).  Proofs about compiled graphs use the stages and do not follow the compilation again.
-/

namespace Groundwork

open Template

namespace Compile

/-! ### Regions and their modules -/

/-- A scope with its modules, all values put in, and the modules of the scopes around it. -/
structure Region where
  scope : Scope
  modules : Table ModuleDef
  around : Table String

/-- A module with what it can name. -/
structure Member where
  scope : Scope
  name : String
  /-- The declaration, all values put in. -/
  declared : ModuleDef
  own : Table String
  around : Table String

namespace Region

/-- The ids of the modules of a region. -/
def ids (r : Region) : Table String := r.scope.ids r.modules

/-- A module of a region. -/
def member (r : Region) (p : String × ModuleDef) : Member := ⟨r.scope, p.1, p.2, r.ids, r.around⟩

/-- The modules of a region. -/
def members (r : Region) : List Member := r.modules.map r.member

theorem mem_members {r : Region} {m : Member} : m ∈ r.members ↔ ∃ p ∈ r.modules, r.member p = m := List.mem_map

/-- The module of a name, of the region or else of the scopes around it. -/
def lookup (r : Region) (name : String) : Option String := (r.ids.lookup name).or (r.around.lookup name)

end Region

namespace Member

/-- The id of the node of a module. -/
def id (m : Member) : String := (m.scope.node m.name m.declared).id

/-- The module that another one names. -/
def lookup (m : Member) (reference : String) : Option String :=
  Scope.visibleFrom m.own m.around m.name reference

/-- The inputs with references to nodes in the place of references to modules. -/
def inputs (m : Member) : Value := splice (replacement (resolveModule m.lookup)) m.declared.inputs

/-- The node of a module. -/
def node (m : Member) : InfraNode := { m.scope.node m.name m.declared with inputs := m.inputs }

/-- The dependencies that the references to modules show. -/
def edges (m : Member) : List Edge :=
  (moduleTargets m.lookup m.declared.inputs).map fun target => ⟨m.id, target⟩

/-- Whether all references to modules name one that there is. -/
def Resolvable (m : Member) : Prop :=
  ∀ e ∈ visitExpressions m.declared.inputs, ∃ x, resolveModule m.lookup e = .ok x

end Member

theorem addModule_eq_ok {r : Region} {g k : Infrastructure} {p : String × ModuleDef}
    (h : r.scope.addModule r.ids r.around g p = .ok k) :
    (r.member p).Resolvable ∧ k = (g.insertNode (r.member p).node).insertEdges (r.member p).edges := by
  unfold Scope.addModule at h
  dsimp only at h
  split at h
  · cases h
  · rename_i inputs hinputs
    cases h
    refine ⟨exists_eq_ok_of_mapExpressions hinputs, ?_⟩
    rw [eq_splice_of_mapExpressions hinputs]
    rfl

/-- What holds after the modules of a list were added. -/
theorem assembled_foldlM {r : Region} {l : Table ModuleDef} {g k : Infrastructure} {ms : List Member}
    (h : l.foldlM (r.scope.addModule r.ids r.around) g = .ok k)
    (hg : g.Assembled (ms.map Member.node) (ms.flatMap Member.edges)) (hms : ∀ m ∈ ms, m.Resolvable) :
    k.Assembled ((ms ++ l.map r.member).map Member.node) ((ms ++ l.map r.member).flatMap Member.edges) ∧
      ∀ m ∈ ms ++ l.map r.member, m.Resolvable := by
  induction l generalizing g ms with
  | nil =>
    cases h
    rw [List.map_nil, List.append_nil]
    exact ⟨hg, hms⟩
  | cons p l ih =>
    rw [List.foldlM_cons] at h
    obtain ⟨x, hx, h⟩ := bind_eq_ok h
    obtain ⟨hresolvable, rfl⟩ := addModule_eq_ok hx
    have hstep := (hg.insertNode (r.member p).node).insertEdges (r.member p).edges
    have hnext : ∀ m ∈ ms ++ [r.member p], m.Resolvable := by
      intro m hm
      rcases List.mem_append.1 hm with hm | hm
      · exact hms m hm
      · rw [List.mem_singleton.1 hm]
        exact hresolvable
    have hrest := ih h (by simpa using hstep) hnext
    rw [List.append_assoc] at hrest
    exact hrest

/-- **The graph of a scope is put together from its modules.** -/
theorem assembled_build {r : Region} {built : ScopedGraph} (h : r.scope.build r.modules r.around = .ok built) :
    built.ids = r.ids ∧
      built.graph.Assembled (r.members.map Member.node) (r.members.flatMap Member.edges) ∧
      ∀ m ∈ r.members, m.Resolvable := by
  obtain ⟨g, hg, h⟩ := bind_eq_ok h
  cases h
  have hnone : ∀ m ∈ ([] : List Member), m.Resolvable := fun m hm => by cases hm
  exact ⟨rfl, assembled_foldlM hg Graph.assembled_empty hnone⟩

/-! ### App nodes that are served -/

/-- An app node with the region and the outputs of its hook. -/
structure Service where
  appNode : AppNode
  region : Region
  /-- The outputs, all values put in. -/
  written : Value

/-- The outputs that others see, with references to nodes in the place of references to modules. -/
def Service.outputs (a : Service) : Value := splice (replacement (resolveModule a.region.lookup)) a.written

/-- What serves an app node. -/
def serviceOf (c : HookContext) (n : AppNode) : Except CompileError (Option Service) := do
  match ← hookFor c n with
  | none => .ok none
  | some h => do
      let modules ← applyToModules (Context.empty.withScope "node" n.context) h.modules
      let region : Region := ⟨instanceScope c.environment n, modules, c.visible⟩
      let written ← (Context.empty.withScope "node" n.context).apply h.outputs
      .ok (some ⟨n, region, written⟩)

theorem instanceOutputs_eq_ok {c : HookContext} {n : AppNode} {h : Hook} {r : Region} {o : Value}
    (ho : instanceOutputs c n h r.ids = .ok o) (hr : r.around = c.visible) :
    ∃ written, (Context.empty.withScope "node" n.context).apply h.outputs = .ok written ∧
      o = (⟨n, r, written⟩ : Service).outputs := by
  obtain ⟨written, hwritten, ho⟩ := bind_eq_ok ho
  dsimp only at ho
  rw [← hr] at ho
  split at ho
  · cases ho
  · rename_i outputs houtputs
    split at ho
    · cases ho
      exact ⟨written, hwritten, eq_splice_of_mapExpressions houtputs⟩
    · cases ho

/-- Whether an instance is what a service gives. -/
structure Realizes (i : Instance) (a : Service) : Prop where
  appNode : i.appNode = a.appNode.id
  outputs : i.outputs = a.outputs
  assembled : i.graph.Assembled (a.region.members.map Member.node) (a.region.members.flatMap Member.edges)
  resolvable : ∀ m ∈ a.region.members, m.Resolvable

theorem exists_serviceOf {c : HookContext} {n : AppNode} {i : Option Instance} (h : instantiate c n = .ok i) :
    ∃ a, serviceOf c n = .ok a ∧ Option.Rel Realizes i a := by
  obtain ⟨hook, hhook, h⟩ := bind_eq_ok h
  cases hook with
  | none =>
    cases h
    refine ⟨none, ?_, .none⟩
    rw [serviceOf, hhook]
    rfl
  | some hook =>
    obtain ⟨built, hbuilt, h⟩ := bind_eq_ok h
    obtain ⟨outputs, houtputs, h⟩ := bind_eq_ok h
    cases h
    obtain ⟨modules, hmodules, hbuilt⟩ := bind_eq_ok hbuilt
    obtain ⟨hids, hassembled, hresolvable⟩ :=
      assembled_build (r := ⟨instanceScope c.environment n, modules, c.visible⟩) hbuilt
    rw [hids] at houtputs
    obtain ⟨written, hwritten, rfl⟩ := instanceOutputs_eq_ok houtputs rfl
    refine ⟨some ⟨n, ⟨instanceScope c.environment n, modules, c.visible⟩, written⟩, ?_,
      .some ⟨rfl, rfl, hassembled, hresolvable⟩⟩
    rw [serviceOf, hhook]
    show (applyToModules _ _ >>= _) = _
    rw [hmodules]
    show (Context.apply _ _ >>= _) = _
    rw [hwritten]
    rfl

/-- Merging what realizes services adds the modules of all of them. -/
theorem assembled_mergeAll {is : List Instance} {as : List Service} (h : List.Forall₂ Realizes is as)
    {g : Infrastructure} {ms : List Member} (hg : g.Assembled (ms.map Member.node) (ms.flatMap Member.edges)) :
    (is.foldl (fun g i => g.merge i.graph) g).Assembled
      ((ms ++ as.flatMap (·.region.members)).map Member.node)
      ((ms ++ as.flatMap (·.region.members)).flatMap Member.edges) := by
  induction h generalizing g ms with
  | nil => simpa using hg
  | @cons i a is as hia _ ih =>
    have hmerged := hg.merge hia.assembled
    rw [← List.map_append, ← List.flatMap_append] at hmerged
    have hrest := ih hmerged
    rw [List.append_assoc] at hrest
    exact hrest

theorem resolvable_of_realizes {is : List Instance} {as : List Service} (h : List.Forall₂ Realizes is as) :
    ∀ a ∈ as, ∀ m ∈ a.region.members, m.Resolvable := by
  induction h with
  | nil => exact fun a ha => by cases ha
  | cons hia _ ih =>
    intro b hb
    rcases List.mem_cons.1 hb with rfl | hb
    · exact hia.resolvable
    · exact ih b hb

theorem outputs_of_realizes {is : List Instance} {as : List Service} (h : List.Forall₂ Realizes is as) :
    is.map (fun i => (i.appNode, i.outputs)) = as.map fun a => (a.appNode.id, a.outputs) := by
  induction h with
  | nil => rfl
  | cons hia _ ih => rw [List.map_cons, List.map_cons, ih, hia.appNode, hia.outputs]

/-! ### Links -/

/-- The dependencies that are read off linked inputs. -/
theorem mem_linkEdges {g : Infrastructure} {e : Edge} :
    e ∈ linkEdges g ↔
      ∃ n ∈ g.nodes, n.appNode.isSome ∧ e.source = n.id ∧ e.target ∈ n.referencedIds ∧ e.target ∈ g.ids := by
  simp only [linkEdges, List.mem_flatMap, List.mem_filter, List.mem_map, Graph.contains_iff,
    InfraNode.referencedIds, List.mem_eraseDups]
  constructor
  · rintro ⟨n, ⟨hn, happ⟩, r, ⟨hr, hid⟩, rfl⟩
    exact ⟨n, hn, happ, rfl, ⟨r, hr, rfl⟩, hid⟩
  · rintro ⟨n, hn, happ, hsource, ⟨r, hr, htarget⟩, hid⟩
    refine ⟨n, ⟨hn, happ⟩, r, ⟨hr, htarget ▸ hid⟩, ?_⟩
    rw [htarget, ← hsource]

theorem linkEdges_congr {g k : Infrastructure} (h : g.nodes = k.nodes) : linkEdges g = linkEdges k := by
  have hcontains : ∀ id, g.contains id = k.contains id := by
    intro id
    rw [Graph.contains, Graph.contains, Graph.node?, Graph.node?, h]
  unfold linkEdges
  simp only [h, hcontains]

/-- A linked graph is put together from the linked nodes. -/
theorem assembled_link {g : Infrastructure} {outputs : Table Value} {ns : List InfraNode} {es : List Edge}
    (hg : g.Assembled ns es) (hnone : outputs = [] → ∀ n ∈ ns, n.appNode = none) :
    (link outputs g).Assembled (ns.map (linkNode outputs)) (es ++ linkEdges (link outputs g)) := by
  cases outputs with
  | nil =>
    have hnodes : ns.map (linkNode []) = ns :=
      (List.map_congr_left fun n _ => linkNode_nil n).trans (List.map_id' ns)
    have hedges : linkEdges g = [] := by
      refine List.eq_nil_iff_forall_not_mem.2 fun e he => ?_
      obtain ⟨n, hn, happ, -⟩ := mem_linkEdges.1 he
      rw [hnone rfl n (hg.mem_of_mem_nodes hn)] at happ
      cases happ
    show g.Assembled _ (es ++ linkEdges g)
    rw [hnodes, hedges, List.append_nil]
    exact hg
  | cons o outputs =>
    have hmapped := hg.mapNodes (linkNode (o :: outputs)) (id_linkNode (o :: outputs))
    have hsame : linkEdges (link (o :: outputs) g)
        = linkEdges (g.mapNodes (linkNode (o :: outputs)) (id_linkNode (o :: outputs))) :=
      linkEdges_congr (Graph.nodes_insertEdges _ _)
    rw [hsame]
    exact hmapped.insertEdges _

/-! ### Stages -/

/-- What a compilation puts together. -/
structure Stages where
  root : Region
  environment : Option Region
  services : List Service

namespace Stages

/-- Nothing to put together. -/
def empty : Stages := ⟨⟨rootScope, [], []⟩, none, []⟩

/-- All modules, in the order in which their nodes are written. -/
def members (s : Stages) : List Member :=
  s.root.members ++ (s.environment.toList.flatMap Region.members ++ s.services.flatMap (·.region.members))

/-- The outputs of the app nodes, by their ids. -/
def outputs (s : Stages) : Table Value := s.services.map fun a => (a.appNode.id, a.outputs)

/-- The node of a module after linking. -/
def linked (s : Stages) (m : Member) : InfraNode := linkNode s.outputs m.node

/-- The ids of all modules. -/
def ids (s : Stages) : List String := s.members.map Member.id

theorem id_linked (s : Stages) (m : Member) : (s.linked m).id = m.id := id_linkNode s.outputs m.node

theorem idsOf_linked (s : Stages) : idsOf (s.members.map s.linked) = s.ids := by
  rw [idsOf, List.map_map]
  exact List.map_congr_left fun m _ => s.id_linked m

/-- How the regions lie within each other. -/
structure Nested (s : Stages) (app : AppGraph) : Prop where
  root : s.root.scope = rootScope ∧ s.root.around = []
  environment : ∀ r, s.environment = some r →
    (∃ name, r.scope = environmentScope name) ∧ r.around = s.root.ids
  services : ∀ a ∈ s.services, a.appNode ∈ app.nodes ∧ ∃ r, s.environment = some r ∧
    (∃ name, r.scope = environmentScope name ∧ a.region.scope = instanceScope name a.appNode) ∧
    a.region.around = r.ids ++ s.root.ids

end Stages

/-- The stages of a compilation for an environment. -/
def environmentStages (name : String) (blocks : List EnvironmentDef) (app : AppGraph) (root : Region) :
    Except CompileError Stages := do
  let block ← environmentOf name blocks
  let environment : Region := ⟨environmentScope name, block.modules, root.ids⟩
  let services ← app.nodes.mapM (serviceOf ⟨name, block.hooks, environment.ids ++ root.ids⟩)
  .ok ⟨root, some environment, services.filterMap fun a => a⟩

/-- The stages of a compilation, without the graph. -/
def stages (d : Definition) (app : AppGraph) (options : CompileOptions) : Except CompileError Stages := do
  let (modules, blocks) ← applyVariables d options
  let root : Region := ⟨rootScope, modules, []⟩
  match options.environment with
  | none => .ok ⟨root, none, []⟩
  | some name => environmentStages name blocks app root

/-- How a compiled graph comes from the stages. -/
structure Compiled (s : Stages) (g : Infrastructure) : Prop where
  assembled : g.Assembled (s.members.map s.linked) (s.members.flatMap Member.edges ++ linkEdges g)
  resolvable : ∀ m ∈ s.members, m.Resolvable
  closed : Closed g

theorem Compiled.mem_ids {s : Stages} {g : Infrastructure} (h : Compiled s g) {id : String} :
    id ∈ g.ids ↔ id ∈ s.ids := by
  rw [h.assembled.mem_ids, s.idsOf_linked]

theorem appNode_of_mem_serviceOf {c : HookContext} {n : AppNode} {a : Service}
    (h : serviceOf c n = .ok (some a)) : a.appNode = n ∧ a.region.scope = instanceScope c.environment n ∧
      a.region.around = c.visible := by
  obtain ⟨hook, -, h⟩ := bind_eq_ok h
  cases hook with
  | none => cases h
  | some hook =>
    obtain ⟨modules, -, h⟩ := bind_eq_ok h
    obtain ⟨outputs, -, h⟩ := bind_eq_ok h
    cases h
    exact ⟨rfl, rfl, rfl⟩

/-- The regions lie within each other: no module of a scope sees one of a scope within it. -/
theorem nested_of_stages {d : Definition} {app : AppGraph} {options : CompileOptions} {s : Stages}
    (h : stages d app options = .ok s) : s.Nested app := by
  obtain ⟨⟨modules, blocks⟩, -, h⟩ := bind_eq_ok h
  dsimp only at h
  split at h
  · cases h
    exact ⟨⟨rfl, rfl⟩, fun r hr => (by cases hr), fun a ha => by cases ha⟩
  · rename_i name _
    obtain ⟨block, -, h⟩ := bind_eq_ok h
    obtain ⟨services, hservices, h⟩ := bind_eq_ok h
    cases h
    refine ⟨⟨rfl, rfl⟩, ?_, ?_⟩
    · intro r hr
      cases hr
      exact ⟨⟨name, rfl⟩, rfl⟩
    · intro a ha
      obtain ⟨x, hx, rfl⟩ := List.mem_filterMap.1 ha
      obtain ⟨n, hn, ha⟩ := exists_of_mem_mapM hservices hx
      obtain ⟨rfl, hscope, haround⟩ := appNode_of_mem_serviceOf ha
      exact ⟨hn, _, rfl, ⟨name, rfl, hscope⟩, haround⟩

/-- Linking is the last step of putting a graph together. -/
theorem assembled_linked {s : Stages} {g : Infrastructure}
    (hg : g.Assembled (s.members.map Member.node) (s.members.flatMap Member.edges))
    (hnone : s.services = [] → ∀ m ∈ s.members, m.scope.appNode = none) :
    (link s.outputs g).Assembled (s.members.map s.linked)
      (s.members.flatMap Member.edges ++ linkEdges (link s.outputs g)) := by
  have hlinked : (link s.outputs g).Assembled _ _ := assembled_link hg fun hnil n hn => by
    obtain ⟨m, hm, rfl⟩ := List.mem_map.1 hn
    exact hnone (List.map_eq_nil_iff.1 hnil) m hm
  rw [List.map_map] at hlinked
  exact hlinked

/-- Adding hooks adds the modules of the services, and then links. -/
theorem assembled_addHooks {c : HookContext} {app : AppGraph} {g k : Infrastructure} {ms : List Member}
    (h : addHooks c app g = .ok k) (hg : g.Assembled (ms.map Member.node) (ms.flatMap Member.edges)) :
    ∃ services as raw, app.nodes.mapM (serviceOf c) = .ok services ∧ as = services.filterMap (fun a => a) ∧
      raw.Assembled ((ms ++ as.flatMap (·.region.members)).map Member.node)
        ((ms ++ as.flatMap (·.region.members)).flatMap Member.edges) ∧
      (∀ a ∈ as, ∀ m ∈ a.region.members, m.Resolvable) ∧
      k = link (as.map fun a => (a.appNode.id, a.outputs)) raw := by
  obtain ⟨⟨⟩, -, h⟩ := bind_eq_ok h
  obtain ⟨instances, hinstances, h⟩ := bind_eq_ok h
  dsimp only at h
  split at h
  · cases h
  cases h
  obtain ⟨services, hservices, hrealized⟩ := exists_mapM_of_forall (fun n _ i => exists_serviceOf) hinstances
  have hrealizes : List.Forall₂ Realizes _ _ := List.rel_filterMap (fun _ _ hia => hia) hrealized
  refine ⟨services, _, _, hservices, rfl, assembled_mergeAll hrealizes hg, resolvable_of_realizes hrealizes, ?_⟩
  rw [outputs_of_realizes hrealizes]

/-- The stages for an environment, given the graph of the datacenter. -/
theorem exists_environmentStages {name : String} {blocks : List EnvironmentDef} {app : AppGraph} {r : Region}
    {root : ScopedGraph} {g : Infrastructure} (h : addEnvironment name blocks app root = .ok g)
    (hids : root.ids = r.ids)
    (hroot : root.graph.Assembled (r.members.map Member.node) (r.members.flatMap Member.edges))
    (hresolvable : ∀ m ∈ r.members, m.Resolvable) (hnone : r.scope.appNode = none) :
    ∃ s, environmentStages name blocks app r = .ok s ∧ (∀ m ∈ s.members, m.Resolvable) ∧
      g.Assembled (s.members.map s.linked) (s.members.flatMap Member.edges ++ linkEdges g) := by
  obtain ⟨block, hblock, h⟩ := bind_eq_ok h
  obtain ⟨environment, henvironment, h⟩ := bind_eq_ok h
  rw [hids] at henvironment
  have hbuilt := assembled_build (r := ⟨environmentScope name, block.modules, r.ids⟩) henvironment
  generalize hregion : (⟨environmentScope name, block.modules, r.ids⟩ : Region) = e at hbuilt
  obtain ⟨heIds, heGraph, heResolvable⟩ := hbuilt
  have hmerged := hroot.merge heGraph
  rw [← List.map_append, ← List.flatMap_append] at hmerged
  obtain ⟨services, as, raw, hservices, rfl, hraw, hserved, rfl⟩ := assembled_addHooks h hmerged
  rw [visibleModules, hids, heIds] at hservices
  let s : Stages := ⟨r, some e, services.filterMap fun a => a⟩
  have hmembers : s.members = (r.members ++ e.members) ++ s.services.flatMap (·.region.members) := by
    show r.members ++ ([e].flatMap Region.members ++ _) = _
    rw [List.flatMap_singleton, ← List.append_assoc]
  rw [← hmembers] at hraw
  refine ⟨s, ?_, ?_, assembled_linked hraw fun hnil => ?_⟩
  · rw [environmentStages, hblock]
    subst hregion
    show (app.nodes.mapM _ >>= fun services => Except.ok (⟨r, _, services.filterMap fun a => a⟩ : Stages)) = _
    rw [hservices]
    rfl
  · intro m hm
    rw [hmembers, List.mem_append, List.mem_append, List.mem_flatMap] at hm
    rcases hm with (hm | hm) | ⟨a, ha, hm⟩
    · exact hresolvable m hm
    · exact heResolvable m hm
    · exact hserved a ha m hm
  · intro m hm
    rw [hmembers, hnil, List.flatMap_nil, List.append_nil, List.mem_append] at hm
    rcases hm with hm | hm
    · obtain ⟨p, -, rfl⟩ := Region.mem_members.1 hm
      exact hnone
    · obtain ⟨p, -, rfl⟩ := Region.mem_members.1 hm
      rw [← hregion]
      rfl

/-- **A compiled graph is put together from its stages.** -/
theorem exists_stages {d : Definition} {app : AppGraph} {options : CompileOptions} {g : Infrastructure}
    (h : d.compile app options = .ok g) : ∃ s, stages d app options = .ok s ∧ Compiled s g := by
  have hclosed := closed_of_compile h
  obtain ⟨⟨modules, blocks⟩, hvariables, h⟩ := bind_eq_ok h
  obtain ⟨root, hroot, h⟩ := bind_eq_ok h
  obtain ⟨hids, hgraph, hresolvable⟩ := assembled_build (r := ⟨rootScope, modules, []⟩) hroot
  dsimp only at h
  cases henv : options.environment with
  | none =>
    rw [henv] at h
    obtain ⟨graph, hgraph', h⟩ := bind_eq_ok h
    cases hgraph'
    obtain ⟨⟨⟩, -, h⟩ := bind_eq_ok h
    obtain ⟨⟨⟩, -, h⟩ := bind_eq_ok h
    cases h
    let s : Stages := ⟨⟨rootScope, modules, []⟩, none, []⟩
    have hmembers : s.members = s.root.members := List.append_nil _
    refine ⟨s, ?_, ?_, ?_, hclosed⟩
    · simp only [stages, hvariables, henv]
      rfl
    · rw [← hmembers] at hgraph
      refine assembled_linked hgraph fun _ m hm => ?_
      rw [hmembers] at hm
      obtain ⟨p, -, rfl⟩ := Region.mem_members.1 hm
      rfl
    · rw [hmembers]
      exact hresolvable
  | some name =>
    rw [henv] at h
    obtain ⟨graph, hgraph', h⟩ := bind_eq_ok h
    obtain ⟨⟨⟩, -, h⟩ := bind_eq_ok h
    obtain ⟨⟨⟩, -, h⟩ := bind_eq_ok h
    cases h
    obtain ⟨s, hs, hmembers, hassembled⟩ := exists_environmentStages hgraph' hids hgraph hresolvable rfl
    refine ⟨s, ?_, hassembled, hmembers, hclosed⟩
    simp only [stages, hvariables, henv]
    exact hs

/-! ### A small datacenter -/

/-- A database, a queue for each environment, and hooks for stores and for sites.  A site is given what it needs
by its app node. -/
def market : Definition :=
  ⟨[], [("db", ⟨"pg", .pulumi, .obj []⟩)],
    [⟨[("queue", ⟨"mq", .pulumi, .obj [("url", .str "$\x7b\x7b module.db.url \x7d\x7d")]⟩)],
      [("store", [⟨none, [("keys", ⟨"kv", .pulumi, .obj [("zone", .str "$\x7b\x7b module.db.zone \x7d\x7d")]⟩)],
          .obj [("host", .str "$\x7b\x7b module.keys.host \x7d\x7d")]⟩]),
        ("site", [⟨none, [("web", ⟨"www", .opentofu, .obj
          [("needs", .str "$\x7b\x7b node.inputs.store \x7d\x7d"),
            ("queue", .str "$\x7b\x7b module.queue.url \x7d\x7d")]⟩)], .obj []⟩])]⟩]⟩

/-- A store. -/
def mainStore : AppNode := ⟨⟨"store", "main", none, none⟩, .null⟩

/-- A site that needs the store. -/
def shopSite : AppNode :=
  ⟨⟨"site", "shop", none, none⟩, .obj [("store", .str "$\x7b\x7b store/main.host \x7d\x7d")]⟩

/-- A store and a site. -/
def marketApp : AppGraph := Graph.ofParts [mainStore, shopSite] [⟨"site/shop", "store/main"⟩]

/-- The datacenter is compiled for this environment. -/
def marketOptions : CompileOptions := ⟨"dc", some "prod", []⟩

/-- What the datacenter is compiled into. -/
def marketGraph : Infrastructure := ((market.compile marketApp marketOptions).toOption).getD Graph.empty

theorem compile_market : market.compile marketApp marketOptions = .ok marketGraph :=
  eq_ok_getD (by decide +kernel) Graph.empty

end Compile

end Groundwork
