import Groundwork.Proofs.Compile.Dependencies

/-!
# A further app node

The outputs of all app nodes are in one table, and the number of passes that link inputs to them grows with it.  So
the modules of one app node could depend on whether there is another one.  They do not if linking came to rest
before the passes were used up and met no token that names the other one (`Steady`).

Main statements: with a further app node the graph has all that it had before and more only for that node
(`compile_insertNode_local`), in particular where inputs are legible and the app nodes are apart
(`steady_of_apart`).
-/

namespace Groundwork.Compile

open Template

variable {s s' : Stages} {g g' : Infrastructure} {app : AppGraph} {n : AppNode} {m : Member}

/-! ### Stages with a further app node -/

/-- Whether stages are others with modules and outputs of one more app node at the end. -/
structure Extended (s s' : Stages) (n : AppNode) : Prop where
  members : ∃ more, s'.members = s.members ++ more ∧ ∀ m ∈ more, m.scope.appNode = some n.id
  outputs : ∃ more, s'.outputs = s.outputs ++ more ∧ ∀ p ∈ more, p.1 = n.id

theorem extended_services {new : List Service}
    (h : ∀ a ∈ new, a.appNode = n ∧ a.region.scope.appNode = some n.id) :
    Extended s { s with services := s.services ++ new } n where
  members := by
    refine ⟨new.flatMap (·.region.members), ?_, fun m hm => ?_⟩
    · simp [Stages.members, List.append_assoc]
    · obtain ⟨a, ha, hm⟩ := List.mem_flatMap.1 hm
      rw [(Region.of_mem_members hm).1]
      exact (h a ha).2
  outputs := by
    refine ⟨new.map fun a => (a.appNode.id, a.outputs), by simp [Stages.outputs], fun p hp => ?_⟩
    obtain ⟨a, ha, rfl⟩ := List.mem_map.1 hp
    rw [(h a ha).1]

theorem mapM_serviceOf_insertNode {c : HookContext} {services services' : List (Option Service)}
    (hn : n.id ∉ app.ids) (h : app.nodes.mapM (serviceOf c) = .ok services)
    (h' : (app.insertNode n).nodes.mapM (serviceOf c) = .ok services') :
    ∃ a, serviceOf c n = .ok a ∧ services' = services ++ [a] := by
  rw [Graph.nodes_insertNode_of_not_mem hn, List.mapM_append, h, List.mapM_cons, List.mapM_nil] at h'
  cases ha : serviceOf c n with
  | error e =>
    rw [ha] at h'
    cases h'
  | ok a =>
    rw [ha] at h'
    cases h'
    exact ⟨a, rfl, rfl⟩

/-- **A further app node adds its modules and its outputs at the end.** -/
theorem extended_of_stages {d : Definition} {options : CompileOptions} (hn : n.id ∉ app.ids)
    (h : stages d app options = .ok s) (h' : stages d (app.insertNode n) options = .ok s') : Extended s s' n := by
  obtain ⟨⟨modules, blocks⟩, hvariables, h⟩ := bind_eq_ok h
  obtain ⟨variables', hvariables', h'⟩ := bind_eq_ok h'
  obtain rfl := Except.ok.inj (hvariables.symm.trans hvariables')
  dsimp only at h h'
  cases hname : options.environment with
  | none =>
    rw [hname] at h h'
    cases h
    cases h'
    exact extended_services fun a (ha : a ∈ []) => by cases ha
  | some name =>
    rw [hname] at h h'
    obtain ⟨block, hblock, h⟩ := bind_eq_ok h
    obtain ⟨block', hblock', h'⟩ := bind_eq_ok h'
    obtain rfl := Except.ok.inj (hblock.symm.trans hblock')
    obtain ⟨services, hservices, h⟩ := bind_eq_ok h
    obtain ⟨services', hservices', h'⟩ := bind_eq_ok h'
    obtain ⟨a, ha, rfl⟩ := mapM_serviceOf_insertNode hn hservices hservices'
    cases h
    cases h'
    rw [List.filterMap_append]
    refine extended_services fun b hb => ?_
    obtain ⟨x, hx, rfl⟩ := List.mem_filterMap.1 hb
    rw [← List.mem_singleton.1 hx] at ha
    obtain ⟨happ, hscope, -⟩ := appNode_of_mem_serviceOf ha
    refine ⟨happ, ?_⟩
    rw [hscope]
    rfl

/-! ### Graphs with a further app node -/

/-- The node of an id is that of the last module of the id. -/
theorem Compiled.node?_eq (h : Compiled s g) (id : String) :
    g.node? id = (s.members.reverse.find? (·.id = id)).map s.linked := by
  rw [h.assembled.node?, ← List.map_reverse, List.find?_map]
  congr 2
  funext m
  exact congrArg (fun x => decide (x = id)) (s.id_linked m)

theorem Compiled.exists_of_mem_nodes (h : Compiled s g) {x : InfraNode} (hx : x ∈ g.nodes) :
    ∃ m, s.members.reverse.find? (·.id = x.id) = some m ∧ m ∈ s.members ∧ s.linked m = x := by
  have hnode := Graph.node?_id hx
  rw [h.node?_eq] at hnode
  obtain ⟨m, hm, hlinked⟩ := Option.map_eq_some_iff.1 hnode
  exact ⟨m, hm, List.mem_reverse.1 (List.mem_of_find?_eq_some hm), hlinked⟩

/-- Whether a graph is another one with the modules of a further app node, whose ids are new. -/
structure Grown (s s' : Stages) (n : AppNode) (g g' : Infrastructure) : Prop where
  before : Compiled s g
  after : Compiled s' g'
  extended : Extended s s' n
  fresh : ∀ x ∈ g'.nodes, x.appNode = some n.id → x.id ∉ g.ids

namespace Grown

/-- The modules of the further app node have other ids than those before. -/
theorem exists_more (h : Grown s s' n g g') :
    ∃ more, s'.members = s.members ++ more ∧ ∀ m ∈ more, m.scope.appNode = some n.id ∧ m.id ∉ g.ids := by
  obtain ⟨more, hmembers, hmore⟩ := h.extended.members
  refine ⟨more, hmembers, fun m hm => ⟨hmore m hm, ?_⟩⟩
  -- the last module of the id of `m` is one of the further ones too
  obtain ⟨m', hm'⟩ : ∃ m', more.reverse.find? (·.id = m.id) = some m' :=
    Option.isSome_iff_exists.1 (List.find?_isSome.2 ⟨m, List.mem_reverse.2 hm, by simp⟩)
  have hlast : s'.members.reverse.find? (·.id = m.id) = some m' := by
    rw [hmembers, List.reverse_append, List.find?_append, hm']
    rfl
  have hnode : g'.node? m.id = some (s'.linked m') := by
    rw [h.after.node?_eq, hlast]
    rfl
  obtain ⟨hmem, hid⟩ := Graph.node?_eq_some_iff.1 hnode
  rw [← hid]
  refine h.fresh _ hmem ?_
  rw [Stages.appNode_linked]
  exact hmore m' (List.mem_reverse.1 (List.mem_of_find?_eq_some hm'))

/-- A node from before is there with what its module is linked to now. -/
theorem exists_of_mem (h : Grown s s' n g g') {x : InfraNode} (hx : x ∈ g.nodes) :
    ∃ m ∈ s.members, s.linked m = x ∧ s'.linked m ∈ g'.nodes := by
  obtain ⟨m, hlast, hm, hlinked⟩ := h.before.exists_of_mem_nodes hx
  refine ⟨m, hm, hlinked, ?_⟩
  obtain ⟨more, hmembers, hmore⟩ := h.exists_more
  have hnone : more.reverse.find? (·.id = x.id) = none := by
    refine List.find?_eq_none.2 fun m' hm' heq => ?_
    have hid := of_decide_eq_true heq
    exact (hmore m' (List.mem_reverse.1 hm')).2 (hid ▸ Graph.id_mem_ids hx)
  have hnode : g'.node? x.id = some (s'.linked m) := by
    rw [h.after.node?_eq, hmembers, List.reverse_append, List.find?_append, hnone, Option.none_or, hlast]
    rfl
  exact (Graph.node?_eq_some_iff.1 hnode).1

/-- **Nodes that were not there before belong to the further app node.** -/
theorem appNode (h : Grown s s' n g g') {x : InfraNode} (hx : x ∈ g'.nodes) (hnew : x.id ∉ g.ids) :
    x.appNode = some n.id := by
  obtain ⟨m, -, hm, rfl⟩ := h.after.exists_of_mem_nodes hx
  obtain ⟨more, hmembers, hmore⟩ := h.exists_more
  rw [hmembers] at hm
  rcases List.mem_append.1 hm with hm | hm
  · refine absurd ?_ hnew
    rw [s'.id_linked, h.before.mem_ids]
    exact Stages.id_mem_ids hm
  · rw [Stages.appNode_linked]
    exact (hmore m hm).1

/-- **A node that stays has the dependencies that it had.** -/
theorem mem_edges_iff (h : Grown s s' n g g') {x : InfraNode} (hx : x ∈ g.nodes) (hx' : x ∈ g'.nodes) (id : String) :
    (⟨x.id, id⟩ : Edge) ∈ g'.edges ↔ (⟨x.id, id⟩ : Edge) ∈ g.edges := by
  obtain ⟨more, hmembers, hmore⟩ := h.exists_more
  rw [Compile.mem_edges_iff h.after hx', Compile.mem_edges_iff h.before hx, hmembers]
  refine or_congr_right (and_congr_right fun _ => ⟨?_, ?_⟩)
  · rintro ⟨m, hm, hedge⟩
    rcases List.mem_append.1 hm with hm | hm
    · exact ⟨m, hm, hedge⟩
    · have hsource : x.id = m.id := (Member.mem_edges.1 hedge).1
      exact absurd (hsource ▸ Graph.id_mem_ids hx) (hmore m hm).2
  · rintro ⟨m, hm, hedge⟩
    exact ⟨m, List.mem_append_left more hm, hedge⟩

end Grown

/-! ### Steady links -/

/-- Whether in the nodes of a graph linking came to rest and met no token that names an app node. -/
def Steady (s : Stages) (g : Infrastructure) (n : AppNode) : Prop :=
  ∀ m ∈ s.members, s.linked m ∈ g.nodes → m.scope.appNode.isSome → Settled s.outputs (s.linked m).inputs ∧
    ∀ k, ∀ e ∈ visitExpressions (linkInputs s.outputs k m.inputs), ∀ r, Reference.ofExpression? e = some r →
      r.node ≠ n.id

theorem lookup_outputs (h : Extended s s' n) {id : String} (hid : id ≠ n.id) :
    s'.outputs.lookup id = s.outputs.lookup id := by
  obtain ⟨more, houtputs, hmore⟩ := h.outputs
  rw [houtputs, List.lookup_append]
  have hnone : more.lookup id = none := by
    rw [List.lookup_eq_none_iff]
    intro p hp
    rw [hmore p hp]
    simpa using hid
  rw [hnone, Option.or_none]

/-- **Steady links do not depend on the further app node.** -/
theorem linked_congr (h : Extended s s' n) (hsteady : Steady s g n) (hm : m ∈ s.members)
    (hnode : s.linked m ∈ g.nodes) :
    s'.linked m = s.linked m := by
  cases happ : m.scope.appNode with
  | none => rw [Stages.linked_of_none s happ, Stages.linked_of_none s' happ]
  | some id =>
    have hsome : m.scope.appNode.isSome := by rw [happ]; rfl
    obtain ⟨hsettled, havoids⟩ := hsteady m hm hnode hsome
    rw [Stages.inputs_linked_of_isSome s hsome] at hsettled
    have hagree : ∀ k, ∀ e ∈ visitExpressions (linkInputs s.outputs k m.inputs),
        linked? s'.outputs e = linked? s.outputs e :=
      fun k e he => linked?_congr fun r hr => lookup_outputs h (havoids k e he r hr)
    have hlength : s.outputs.length + 1 ≤ s'.outputs.length + 1 := by
      obtain ⟨more, houtputs, -⟩ := h.outputs
      rw [houtputs, List.length_append]
      omega
    have hinputs : (s'.linked m).inputs = (s.linked m).inputs := by
      rw [Stages.inputs_linked_of_isSome s hsome, Stages.inputs_linked_of_isSome s' hsome, linkInputs_congr hagree,
        linkInputs_of_le hlength hsettled]
    rw [s'.linked_eq m, s.linked_eq m, hinputs]

/-- **Links are steady where inputs are legible and the app nodes are apart.**  A token that named the further app
node on the way would still be there at the end. -/
theorem steady_of_apart (h : Compiled s g) (hnested : s.Nested app) (hlegible : s.Legible) (hapart : s.Apart)
    (hn : n.id ∉ app.ids) (hid : n.id ∉ g.ids) : Steady s g n := by
  intro m hm hnode hsome
  have hleft : ∀ e ∈ visitExpressions (s.linked m).inputs, ∀ r, Reference.ofExpression? e = some r →
      r.node ∈ g.ids := by
    intro e he r hr
    obtain ⟨r', hr', hmem, -⟩ := h.closed.tokens _ hnode e he
    rw [hr] at hr'
    cases hr'
    exact hmem
  have hsettled : Settled s.outputs (s.linked m).inputs := fun e he =>
    linked?_eq_none fun r hr => hapart.lookup_outputs (h.mem_ids.1 (hleft e he r hr))
  refine ⟨hsettled, fun k e he r hr hname => hid ?_⟩
  rw [Stages.inputs_linked_of_isSome s hsome] at hsettled hleft
  have hnone : linked? s.outputs e = none := by
    refine linked?_eq_none fun r' hr' => ?_
    obtain rfl := Option.some.inj (hr.symm.trans hr')
    cases ho : s.outputs.lookup r.node with
    | none => rfl
    | some o =>
      obtain ⟨a, ha, happ, -⟩ := Stages.exists_of_lookup_outputs ho
      refine absurd ?_ hn
      rw [← hname, ← happ]
      exact Graph.id_mem_ids (hnested.services a ha).1
  have htidy := (linked_linkInputs hlegible.tidyOutputs k (hlegible.tidy_inputs hnested hm)).tidy
  have hstays := (linked_linkInputs hlegible.tidyOutputs (s.outputs.length + 1) htidy).kept e he hnone
  rw [← linkInputs_add, linkInputs_of_le (Nat.le_add_left _ k) hsettled] at hstays
  rw [← hname]
  exact hleft e hstays r hr

/-! ### Compiling with a further app node -/

/-- **With a further app node a graph has more only for that node.**  Let the app node have an id of its own and
nodes of new ids.  Then each node that was not there before is one of its nodes, the nodes of no app node stay, and
a node that stays keeps its dependencies.  If linking came to rest before and met no token that names the further
app node, all nodes stay, and each dependency that was not there before is one of the nodes of the further app node.
Linking did so if nothing but tokens holds dollar signs, nothing holds the end of a token, and no app node has the
id of a module. -/
theorem compile_insertNode_local {d : Definition} {options : CompileOptions}
    (h : d.compile app options = .ok g) (h' : d.compile (app.insertNode n) options = .ok g')
    (hn : n.id ∉ app.ids) (hid : n.id ∉ g.ids) (hfresh : ∀ x ∈ g'.nodes, x.appNode = some n.id → x.id ∉ g.ids) :
    (∀ x ∈ g'.nodes, x.id ∉ g.ids → x.appNode = some n.id) ∧
      (∀ x ∈ g.nodes, x.appNode = none → x ∈ g'.nodes) ∧
      (∀ x ∈ g.nodes, x ∈ g'.nodes → ∀ id, (⟨x.id, id⟩ : Edge) ∈ g'.edges ↔ (⟨x.id, id⟩ : Edge) ∈ g.edges) ∧
      ∃ s, stages d app options = .ok s ∧ (s.Legible → s.Apart → Steady s g n) ∧
        (Steady s g n → g.nodes ⊆ g'.nodes ∧
          ∀ e ∈ g'.edges, e ∉ g.edges → ∃ x ∈ g'.nodes, x.id = e.source ∧ x.id ∉ g.ids ∧ x.appNode = some n.id) := by
  obtain ⟨s, hstages, hbefore⟩ := exists_stages h
  obtain ⟨s', hstages', hafter⟩ := exists_stages h'
  have hgrown : Grown s s' n g g' := ⟨hbefore, hafter, extended_of_stages hn hstages hstages', hfresh⟩
  refine ⟨fun x hx hnew => hgrown.appNode hx hnew, fun x hx hnone => ?_, fun x hx hx' => hgrown.mem_edges_iff hx hx',
    s, hstages, fun hlegible hapart => steady_of_apart hbefore (nested_of_stages hstages) hlegible hapart hn hid,
    fun hsteady => ?_⟩
  · obtain ⟨m, -, rfl, hmem⟩ := hgrown.exists_of_mem hx
    rw [Stages.appNode_linked] at hnone
    rw [Stages.linked_of_none s' hnone, ← Stages.linked_of_none s hnone] at hmem
    exact hmem
  · have hstay : g.nodes ⊆ g'.nodes := by
      intro x hx
      obtain ⟨m, hm, rfl, hmem⟩ := hgrown.exists_of_mem hx
      rw [linked_congr hgrown.extended hsteady hm hx] at hmem
      exact hmem
    refine ⟨hstay, fun e he hnew => ?_⟩
    obtain ⟨hends, -⟩ := (Graph.validate_eq_ok_iff g').1 hafter.closed.valid
    obtain ⟨x, hx, hsource⟩ := Graph.mem_ids_iff.1 (hends e he).1
    have hout : x.id ∉ g.ids := by
      intro hmem
      obtain ⟨y, hy, hyx⟩ := Graph.mem_ids_iff.1 hmem
      obtain rfl := Graph.eq_of_id_eq (hstay hy) hx hyx
      have hedge : e = ⟨y.id, e.target⟩ := by
        rw [show y.id = e.source from hsource]
      rw [hedge] at he hnew
      exact hnew ((hgrown.mem_edges_iff hy hx e.target).1 he)
    exact ⟨x, hx, hsource, hout, hgrown.appNode hx hout⟩

/-- A second store. -/
def spareStore : AppNode := ⟨⟨"store", "spare", none, none⟩, .null⟩

/-- What the small datacenter is compiled into with a second store. -/
def spareGraph : Infrastructure :=
  ((market.compile (marketApp.insertNode spareStore) marketOptions).toOption).getD Graph.empty

/-- The small datacenter compiles with the second store, whose id is new and whose nodes have new ids. -/
theorem fresh_spare :
    (market.compile (marketApp.insertNode spareStore) marketOptions).toOption.isSome ∧
      spareStore.id ∉ marketApp.ids ∧ spareStore.id ∉ marketGraph.ids ∧
      ∀ x ∈ spareGraph.nodes, x.appNode = some spareStore.id → x.id ∉ marketGraph.ids := by decide +kernel

/-- The second store adds nothing but itself to the small datacenter. -/
theorem compile_insertNode_local_market :
    market.compile (marketApp.insertNode spareStore) marketOptions = .ok spareGraph ∧
      marketGraph.nodes ⊆ spareGraph.nodes ∧
      ∀ e ∈ spareGraph.edges, e ∉ marketGraph.edges →
        ∃ x ∈ spareGraph.nodes, x.id = e.source ∧ x.id ∉ marketGraph.ids ∧ x.appNode = some spareStore.id := by
  obtain ⟨hsome, hn, hid, hfresh⟩ := fresh_spare
  have hspare : market.compile (marketApp.insertNode spareStore) marketOptions = .ok spareGraph :=
    eq_ok_getD hsome Graph.empty
  obtain ⟨-, -, -, s, hs, hsteady, hlocal⟩ := compile_insertNode_local compile_market hspare hn hid hfresh
  rw [stages_market] at hs
  cases hs
  obtain ⟨-, -, hlegible, hapart⟩ := regular_market
  exact ⟨hspare, hlocal (hsteady hlegible hapart)⟩

/-- The one app node of type `prod` has the id of the module `x` of the environment, and its outputs lead from one
to the next. -/
def chainedOutputs : Definition :=
  ⟨[], [], [⟨[("x", ⟨"img", .pulumi, .obj []⟩)],
    [("prod", [⟨none, [("m", ⟨"img", .pulumi, .obj [("t", .str "$\x7b\x7b module.x.a \x7d\x7d")]⟩)],
      .obj [("a", .str "$\x7b\x7b module.x.b \x7d\x7d"), ("b", .str "$\x7b\x7b module.x.c \x7d\x7d"),
        ("c", .str "v")]⟩])]⟩]⟩

/-- An app node whose id is that of a module. -/
def moduleNamesake : AppNode := ⟨⟨"prod", "module/x@blue", none, none⟩, .null⟩

/-- A further app node. -/
def bystander : AppNode := ⟨⟨"prod", "z", none, none⟩, .null⟩

/-- **A further app node can change the inputs of others.**  There is one more pass with it, and that pass finds a
token that was left before. -/
theorem input_changes_chainedOutputs :
    ∃ g g', chainedOutputs.compile (Graph.ofParts [moduleNamesake] []) ⟨"dc", some "prod", []⟩ = .ok g ∧
      chainedOutputs.compile ((Graph.ofParts [moduleNamesake] []).insertNode bystander) ⟨"dc", some "prod", []⟩
        = .ok g' ∧
      bystander.id ∉ (Graph.ofParts [moduleNamesake] []).ids ∧ bystander.id ∉ g.ids ∧ bystander.id ∉ g'.ids ∧
      (∀ x ∈ g'.nodes, x.appNode = some bystander.id → x.id ∉ g.ids) ∧
      (∃ x ∈ g.nodes, x.id = "prod/module/prod/module/x@blue/m@blue" ∧
        x.inputs = .obj [("t", .str "$\x7b\x7b prod/module/x@blue.c \x7d\x7d")]) ∧
      (∃ x ∈ g'.nodes, x.id = "prod/module/prod/module/x@blue/m@blue" ∧ x.inputs = .obj [("t", .str "v")]) ∧
      ¬ g.nodes ⊆ g'.nodes :=
  exists_eq_ok_and Graph.empty Graph.empty (by decide +kernel)

end Groundwork.Compile
