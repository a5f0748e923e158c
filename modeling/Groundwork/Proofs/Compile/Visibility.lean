import Groundwork.Proofs.Compile.Dependencies

/-!
# What a module can depend on

A module names others by their names, and sees those of its own region and of the regions around it.  It names app
nodes by their ids, and gets what the outputs of their hooks name.  References to modules become ids before
references to app nodes are looked up, so a name that stands for a module can be taken for that of an app node.

Main statements: modules of no app node depend on what their names stand for; where inputs are legible and the app
nodes apart, modules of an app node depend on what their names stand for and on what the outputs of app nodes that
they reach stand for (`edges_follow_scopes`).
-/

namespace Groundwork.Compile

open Template

variable {s : Stages} {g : Infrastructure} {app : AppGraph} {m : Member} {a b : Service} {r : Region}
  {rs : List Region} {v : Value} {e id : String}

/-! ### Names in values -/

/-- Whether a token of a value names the module of an id, by a name that stands for it in some regions. -/
def NamesModule (v : Value) (rs : List Region) (id : String) : Prop :=
  ∃ e ∈ visitExpressions v, ∃ x key m, moduleReference? e = some (.ok (x, key)) ∧ StandsFor x m rs ∧ m.id = id

/-- Whether a token of a value names an app node. -/
def NamesNode (v : Value) (n : AppNode) : Prop := ∃ r ∈ Reference.all v, r.node = n.id

/-- The app nodes that a value reaches: those that it names, and those that their outputs name. -/
inductive Reached (s : Stages) (v : Value) : Service → Prop
  | direct {b : Service} (hb : b ∈ s.services) (h : NamesNode v b.appNode) : Reached s v b
  | onward {b c : Service} (hb : Reached s v b) (hc : c ∈ s.services) (h : NamesNode b.written c.appNode) :
    Reached s v c

namespace Stages

/-- Whether no token that was written names a module by its id. -/
structure Unspelled (s : Stages) : Prop where
  inputs : ∀ m ∈ s.members, ∀ r ∈ Reference.all m.declared.inputs, r.node ∉ s.ids
  outputs : ∀ a ∈ s.services, ∀ r ∈ Reference.all a.written, r.node ∉ s.ids

instance (s : Stages) : Decidable s.Unspelled :=
  decidable_of_iff ((∀ m ∈ s.members, ∀ r ∈ Reference.all m.declared.inputs, r.node ∉ s.ids) ∧
    ∀ a ∈ s.services, ∀ r ∈ Reference.all a.written, r.node ∉ s.ids)
    ⟨fun h => ⟨h.1, h.2⟩, fun h => ⟨h.inputs, h.outputs⟩⟩

/-- Whether dollar signs occur in the outputs of hooks only as part of tokens, and an output that is written out
within a text has no tokens but those of its texts. -/
structure Verbatim (s : Stages) : Prop where
  tidy : ∀ a ∈ s.services, TidyTexts a.written
  mentions : ∀ a ∈ s.services, ∀ e ∈ a.outputs.mentions, e ∈ visitExpressions a.outputs

instance (s : Stages) : Decidable s.Verbatim :=
  decidable_of_iff ((∀ a ∈ s.services, TidyTexts a.written) ∧
    ∀ a ∈ s.services, ∀ e ∈ a.outputs.mentions, e ∈ visitExpressions a.outputs)
    ⟨fun h => ⟨h.1, h.2⟩, fun h => ⟨h.tidy, h.mentions⟩⟩

end Stages

/-! ### Dependencies that were recorded -/

/-- A dependency of a module was recorded for it, or its app node has it from linked inputs. -/
theorem edge_cases (h : Compiled s g) (hids : s.ids.Nodup) (hm : m ∈ s.members)
    (he : (⟨m.id, id⟩ : Edge) ∈ g.edges) :
    (⟨m.id, id⟩ : Edge) ∈ m.edges ∨ m.scope.appNode.isSome ∧ id ∈ (s.linked m).referencedIds ∧ id ∈ s.ids := by
  rcases List.mem_append.1 ((h.assembled.edges _).1 he).1 with hmem | hmem
  · obtain ⟨m', hm', hedge⟩ := List.mem_flatMap.1 hmem
    have hid : m.id = m'.id := (Member.mem_edges.1 hedge).1
    rw [List.inj_on_of_nodup_map hids hm hm' hid] at hedge ⊢
    exact Or.inl hedge
  · obtain ⟨n, hn, happ, hsource, htarget, hids'⟩ := mem_linkEdges.1 hmem
    have hsame : n = s.linked m :=
      Graph.eq_of_id_eq hn (linked_mem_nodes h hids hm) (hsource.symm.trans (s.id_linked m).symm)
    rw [hsame] at happ htarget
    rw [Stages.appNode_linked] at happ
    exact Or.inr ⟨happ, htarget, h.mem_ids.1 hids'⟩

/-- **What was recorded for a module is what it names**, in its region and those around. -/
theorem namesModule_of_mem_edges (hnested : s.Nested app) (hr : s.Enclosed r rs) (hm : m ∈ r.members)
    (he : (⟨m.id, id⟩ : Edge) ∈ m.edges) : NamesModule m.declared.inputs (r :: rs) id := by
  obtain ⟨-, e, he, x, key, href, hlookup⟩ := Member.mem_edges.1 he
  obtain ⟨m', -, hm', hid⟩ := hnested.exists_of_lookup hr (Region.lookup_of_mem hm hlookup).2
  exact ⟨e, he, x, key, m', href, hm', hid⟩

/-- **Modules of no app node depend on what they name.** -/
theorem namesModule_of_none (h : Compiled s g) (hnested : s.Nested app) (hids : s.ids.Nodup) (hr : s.Enclosed r rs)
    (hscope : r.scope.appNode = none) (hm : m ∈ r.members) (he : (⟨m.id, id⟩ : Edge) ∈ g.edges) :
    NamesModule m.declared.inputs (r :: rs) id := by
  rcases edge_cases h hids (hr.mem_members List.mem_cons_self hm) he with he | ⟨happ, -⟩
  · exact namesModule_of_mem_edges hnested hr hm he
  · rw [(Region.of_mem_members hm).1, hscope] at happ
    cases happ

/-! ### Tokens of linked inputs -/

/-- What a token names after references to modules were resolved, it named before, or it named the module. -/
theorem all_or_namesModule {lookup : String → Option String}
    (hlookup : ∀ x id, lookup x = some id → ∃ m ∈ s.members, StandsFor x m rs ∧ m.id = id)
    (he : e ∈ visitExpressions v) {t : Reference}
    (ht : Reference.ofExpression? (resolvedExpression lookup e) = some t) :
    t ∈ Reference.all v ∨ t.node ∈ s.ids ∧ NamesModule v rs t.node := by
  rcases node_resolvedExpression (fun x id hx => (hlookup x id hx).imp fun _ h => h.2.2) ht with
    ht | ⟨x, key, href, hfound⟩
  · exact Or.inl (List.mem_filterMap.2 ⟨e, he, ht⟩)
  · obtain ⟨m, hm, hx, hid⟩ := hlookup x t.node hfound
    exact Or.inr ⟨hid ▸ Stages.id_mem_ids hm, e, he, x, key, m, href, hx, hid⟩

theorem all_or_namesModule_inputs (hnested : s.Nested app) (hr : s.Enclosed r rs) (hm : m ∈ r.members)
    (he : e ∈ visitExpressions m.declared.inputs) {t : Reference}
    (ht : Reference.ofExpression? (resolvedExpression m.lookup e) = some t) :
    t ∈ Reference.all m.declared.inputs ∨ t.node ∈ s.ids ∧ NamesModule m.declared.inputs (r :: rs) t.node :=
  all_or_namesModule (fun _ _ hx => hnested.exists_of_lookup hr (Region.lookup_of_mem hm hx).2) he ht

theorem all_or_namesModule_outputs (hnested : s.Nested app) (hb : b ∈ s.services)
    (he : e ∈ visitExpressions b.written) {t : Reference}
    (ht : Reference.ofExpression? (resolvedExpression b.region.lookup e) = some t) :
    t ∈ Reference.all b.written ∨ t.node ∈ s.ids ∧ NamesModule b.written (b.region :: s.shared) t.node :=
  all_or_namesModule (fun _ _ hx => hnested.exists_of_lookup (.service hb) hx) he ht

/-- The tokens of the outputs that others see are those of the hook, resolved one by one. -/
theorem visitExpressions_outputs (hnested : s.Nested app) (hlegible : s.Legible) (hverbatim : s.Verbatim)
    (ha : a ∈ s.services) :
    visitExpressions a.outputs = (visitExpressions a.written).map (resolvedExpression a.region.lookup) := by
  refine visitExpressions_mapExpressions (rewrites_resolveModule _)
    (plain_resolvedExpression (fun x id hx => ?_) (hverbatim.tidy a ha))
  obtain ⟨m, hm, -, rfl⟩ := hnested.exists_of_lookup (.service ha) hx
  exact ⟨⟨m, rfl⟩, hlegible.ids m.id (Stages.id_mem_ids hm)⟩

/-- Where a token of linked inputs comes from: the inputs of the module, or the outputs of an app node that they
reach. -/
def Origin (s : Stages) (m : Member) (e : String) : Prop :=
  (∃ x ∈ visitExpressions m.declared.inputs, resolvedExpression m.lookup x = e) ∨
    ∃ b ∈ s.services, Reached s m.declared.inputs b ∧
      ∃ x ∈ visitExpressions b.written, resolvedExpression b.region.lookup x = e

/-- **All tokens of linked inputs come from the inputs or from the outputs of app nodes that they reach**, if no app
node has the id of a module. -/
theorem origin_of_follows (hnested : s.Nested app) (hlegible : s.Legible) (hverbatim : s.Verbatim)
    (hapart : s.Apart) (ha : a ∈ s.services) (hm : m ∈ a.region.members)
    (he : Follows s.outputs (visitExpressions m.inputs) e) : Origin s m e := by
  induction he with
  | start he =>
    rw [hlegible.visitExpressions_inputs hnested (Stages.mem_members.2 (Or.inr (Or.inr ⟨a, ha, hm⟩)))] at he
    exact Or.inl (List.mem_map.1 he)
  | @put e e' w _ hw he' ih =>
    obtain ⟨t, o, ht, ho, hpart⟩ := exists_of_linked? hw
    obtain ⟨b, hb, hname, rfl⟩ := Stages.exists_of_lookup_outputs ho
    -- a token that names an app node was no reference to a module
    have hoff : t.node ∉ s.ids := hname ▸ hapart b hb
    have hreached : Reached s m.declared.inputs b := by
      rcases ih with ⟨x, hx, rfl⟩ | ⟨c, hc, hreached, x, hx, rfl⟩
      · rcases all_or_namesModule_inputs hnested (.service ha) hm hx ht with ht | ⟨hin, -⟩
        · exact .direct hb ⟨t, ht, hname.symm⟩
        · exact absurd hin hoff
      · rcases all_or_namesModule_outputs hnested hc hx ht with ht | ⟨hin, -⟩
        · exact .onward hreached hb ⟨t, ht, hname.symm⟩
        · exact absurd hin hoff
    have hvisited := hverbatim.mentions b hb e' (Value.mentions_subset hpart he')
    rw [visitExpressions_outputs hnested hlegible hverbatim hb] at hvisited
    exact Or.inr ⟨b, hb, hreached, List.mem_map.1 hvisited⟩

/-- **What the linked inputs of a module name, the module names or an app node that it reaches names.** -/
theorem namesModule_of_mem_referencedIds (hnested : s.Nested app) (hlegible : s.Legible) (hverbatim : s.Verbatim)
    (hunspelled : s.Unspelled) (hapart : s.Apart) (ha : a ∈ s.services) (hm : m ∈ a.region.members)
    (hid : id ∈ (s.linked m).referencedIds) (hmodule : id ∈ s.ids) :
    NamesModule m.declared.inputs (a.region :: s.shared) id ∨
      ∃ b ∈ s.services, Reached s m.declared.inputs b ∧ NamesModule b.written (b.region :: s.shared) id := by
  obtain ⟨e, he, t, ht, rfl⟩ := InfraNode.mem_referencedIds.1 hid
  have hmem : m ∈ s.members := Stages.mem_members.2 (Or.inr (Or.inr ⟨a, ha, hm⟩))
  have hfollows := (hlegible.linked hnested hmem).source e he
  rcases origin_of_follows hnested hlegible hverbatim hapart ha hm hfollows with
    ⟨x, hx, rfl⟩ | ⟨b, hb, hreached, x, hx, rfl⟩
  · rcases all_or_namesModule_inputs hnested (.service ha) hm hx ht with ht | ⟨-, hnames⟩
    · exact absurd hmodule (hunspelled.inputs m hmem t ht)
    · exact Or.inl hnames
  · rcases all_or_namesModule_outputs hnested hb hx ht with ht | ⟨-, hnames⟩
    · exact absurd hmodule (hunspelled.outputs b hb t ht)
    · exact Or.inr ⟨b, hb, hreached, hnames⟩

/-! ### Dependencies and scopes -/

/-- **Dependencies follow the scopes.**  Let the ids of all modules be distinct.  Then a module of the datacenter
depends on modules of the datacenter that it names, and a module of the environment on those that it names, where
one of the environment comes before one of the datacenter.  Let, moreover, dollar signs occur only as part of tokens,
no token name a module by its id, and no app node have the id of a module.  Then a module of an app node depends on
what it names, of its own instance, of the environment, or of the datacenter, and on what the outputs of an app node
name that it reaches through tokens that name app nodes. -/
theorem edges_follow_scopes {d : Definition} {options : CompileOptions} (h : d.compile app options = .ok g) :
    ∃ s, stages d app options = .ok s ∧ (s.ids.Nodup →
      (∀ m ∈ s.root.members, ∀ id, (⟨m.id, id⟩ : Edge) ∈ g.edges → NamesModule m.declared.inputs [s.root] id) ∧
      (∀ r, s.environment = some r → ∀ m ∈ r.members, ∀ id, (⟨m.id, id⟩ : Edge) ∈ g.edges →
        NamesModule m.declared.inputs [r, s.root] id) ∧
      (s.Legible → s.Verbatim → s.Unspelled → s.Apart →
        ∀ a ∈ s.services, ∀ m ∈ a.region.members, ∀ id, (⟨m.id, id⟩ : Edge) ∈ g.edges →
          NamesModule m.declared.inputs (a.region :: s.shared) id ∨
            ∃ b ∈ s.services, Reached s m.declared.inputs b ∧ NamesModule b.written (b.region :: s.shared) id)) := by
  obtain ⟨s, hstages, hcompiled⟩ := exists_stages h
  have hnested := nested_of_stages hstages
  refine ⟨s, hstages, fun hids => ⟨fun m hm id he => ?_, fun r hr m hm id he => ?_,
    fun hlegible hverbatim hunspelled hapart a ha m hm id he => ?_⟩⟩
  · exact namesModule_of_none hcompiled hnested hids .root (by rw [hnested.root.1]; rfl) hm he
  · obtain ⟨⟨name, hscope⟩, -⟩ := hnested.environment r hr
    exact namesModule_of_none hcompiled hnested hids (.environment hr) (by rw [hscope]; rfl) hm he
  · rcases edge_cases hcompiled hids (Stages.mem_members.2 (Or.inr (Or.inr ⟨a, ha, hm⟩))) he with
      he | ⟨-, hid, hmodule⟩
    · exact Or.inl (namesModule_of_mem_edges hnested (.service ha) hm he)
    · exact namesModule_of_mem_referencedIds hnested hlegible hverbatim hunspelled hapart ha hm hid hmodule

/-- The modules of the store and of the site depend on what they and the outputs of the store name. -/
theorem edges_follow_scopes_market :
    market.compile marketApp marketOptions = .ok marketGraph ∧
      ∀ a ∈ marketStages.services, ∀ m ∈ a.region.members, ∀ id, (⟨m.id, id⟩ : Edge) ∈ marketGraph.edges →
        NamesModule m.declared.inputs (a.region :: marketStages.shared) id ∨
          ∃ b ∈ marketStages.services, Reached marketStages m.declared.inputs b ∧
            NamesModule b.written (b.region :: marketStages.shared) id := by
  obtain ⟨-, hids, hlegible, hapart⟩ := regular_market
  have hwritten : marketStages.Verbatim ∧ marketStages.Unspelled := by decide +kernel
  obtain ⟨s, hs, hscopes⟩ := edges_follow_scopes compile_market
  rw [stages_market] at hs
  cases hs
  exact ⟨compile_market, (hscopes hids).2.2 hlegible hwritten.1 hwritten.2 hapart⟩

/-- A value that names no app node reaches none. -/
theorem not_reached (h : ∀ r ∈ Reference.all v, ∀ b ∈ s.services, r.node ≠ b.appNode.id) (b : Service) :
    ¬ Reached s v b := by
  intro hreached
  induction hreached with
  | direct hb hname =>
    obtain ⟨r, hr, hnode⟩ := hname
    exact h r hr _ hb hnode
  | onward _ _ _ ih => exact ih

/-- A cache and its database, by a hook. -/
def cacheHook : Definition :=
  ⟨[], [], [⟨[], [("cache", [⟨none,
    [("app", ⟨"img", .pulumi, .obj [("host", .str "$\x7b\x7b module.db.host \x7d\x7d")]⟩),
      ("db", ⟨"img", .pulumi, .obj []⟩)],
    .obj [("host", .str "$\x7b\x7b module.db.host \x7d\x7d")]⟩])]⟩]⟩

/-- Two caches: the id of the second is that of the database of the first. -/
def namesakeCaches : AppGraph :=
  Graph.ofParts [⟨⟨"cache", "k", none, some "prod"⟩, .null⟩,
    ⟨⟨"cache", "k/db@blue", some "module", some "prod"⟩, .null⟩] []

/-- **A module can depend on one of another instance by a name of its own.**  The first cache names its own
database, which has the id of the second cache, and gets the output of the second cache in its place. -/
theorem captured_name_cacheHook :
    ∃ g s, cacheHook.compile namesakeCaches ⟨"dc", some "prod", []⟩ = .ok g ∧
      stages cacheHook namesakeCaches ⟨"dc", some "prod", []⟩ = .ok s ∧
      s.ids.Nodup ∧ s.Legible ∧ s.Verbatim ∧ s.Unspelled ∧
      ∃ a ∈ s.services, ∃ m ∈ a.region.members, ∃ id ∈ s.ids, (⟨m.id, id⟩ : Edge) ∈ g.edges ∧
        (∀ r ∈ a.region :: s.shared, ∀ m' ∈ r.members, m'.id ≠ id) ∧ ∀ b, ¬ Reached s m.declared.inputs b := by
  have hfound : ∃ g s, cacheHook.compile namesakeCaches ⟨"dc", some "prod", []⟩ = .ok g ∧
      stages cacheHook namesakeCaches ⟨"dc", some "prod", []⟩ = .ok s ∧
      s.ids.Nodup ∧ s.Legible ∧ s.Verbatim ∧ s.Unspelled ∧
      ∃ a ∈ s.services, ∃ m ∈ a.region.members, ∃ id ∈ s.ids, (⟨m.id, id⟩ : Edge) ∈ g.edges ∧
        (∀ r ∈ a.region :: s.shared, ∀ m' ∈ r.members, m'.id ≠ id) ∧
        ∀ r ∈ Reference.all m.declared.inputs, ∀ b ∈ s.services, r.node ≠ b.appNode.id :=
    exists_eq_ok_and Graph.empty Stages.empty (by decide +kernel)
  obtain ⟨g, s, hg, hs, hids, hlegible, hverbatim, hunspelled, a, ha, m, hm, id, hid, hedge, hapart, hnone⟩ := hfound
  exact ⟨g, s, hg, hs, hids, hlegible, hverbatim, hunspelled, a, ha, m, hm, id, hid, hedge, hapart,
    not_reached hnone⟩

end Groundwork.Compile
