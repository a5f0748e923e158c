import Groundwork.Proofs.Compile.Stages
import Groundwork.Proofs.Reference.Renaming

/-!
# What modules name

A reference to a module becomes a reference to its node before anything is linked.  The ids of nodes are names of
the same kind as the ids of app nodes, and stand in the same tokens; what linking then does to such a token depends
on whether the text around it is tidy (`Legible`) and whether an app node has the id of a module (`Apart`).

Main statements: what a module finds by a name is what the name stands for, in its region and those around it
(`exists_of_lookup`); in legible stages the tokens of the inputs of a module are those of its declaration, resolved
one by one (`visitExpressions_inputs`), and in legible stages apart from the app nodes a token that names a module is
never linked (`mem_visitExpressions_linked`).
-/

namespace Groundwork

namespace Compile

open Template

/-! ### References to modules -/

/-- The expression of a token after references to modules were resolved. -/
def resolvedExpression (lookup : String → Option String) (e : String) : String :=
  match moduleReference? e with
  | some (.ok (name, key)) => (lookup name).elim e fun node => Reference.expression ⟨node, key⟩
  | _ => e

/-- A token stays, or it is a reference to a module and becomes one to its node. -/
theorem resolvedExpression_cases (lookup : String → Option String) (e : String) :
    (replacement (resolveModule lookup) e = none ∧ resolvedExpression lookup e = e) ∨
      ∃ name key node, moduleReference? e = some (.ok (name, key)) ∧ lookup name = some node ∧
        replacement (resolveModule lookup) e = some (.str (Reference.token ⟨node, key⟩)) ∧
        resolvedExpression lookup e = Reference.expression ⟨node, key⟩ := by
  unfold replacement resolveModule resolvedExpression
  cases hm : moduleReference? e with
  | none => exact Or.inl ⟨rfl, rfl⟩
  | some m =>
    cases m with
    | error x => exact Or.inl ⟨rfl, rfl⟩
    | ok p =>
      obtain ⟨name, key⟩ := p
      cases hlookup : lookup name with
      | none => exact Or.inl ⟨by simp [hlookup], by simp [hlookup]⟩
      | some node => exact Or.inr ⟨name, key, node, rfl, hlookup, by simp [hlookup], by simp [hlookup]⟩

theorem rewrites_resolveModule (lookup : String → Option String) :
    Rewrites (resolvedExpression lookup) fun e => (pure (replacement (resolveModule lookup) e) : Id _) := by
  intro e
  rcases resolvedExpression_cases lookup e with ⟨hnone, hsame⟩ | ⟨name, key, node, -, -, hsome, hresolved⟩
  · exact Or.inl ⟨hnone, hsame⟩
  · refine Or.inr ?_
    rw [hresolved]
    exact hsome

theorem toList_of_moduleReference? {e name key : String} (h : moduleReference? e = some (.ok (name, key))) :
    e.toList = "module.".toList ++ name.toList ++ '.' :: key.toList := by
  obtain ⟨rest, hrest, h⟩ := Option.map_eq_some_iff.1 h
  split at h
  · rename_i a b hcut
    cases h
    rw [Text.dropStart_eq hrest, Text.cut_eq hcut]
    simp
  · cases h

/-- A reference to a node is plain where the reference to the module was and the id is whole. -/
theorem plain_of_moduleReference? {e name key : String} (h : moduleReference? e = some (.ok (name, key)))
    (he : Plain e) {k : Key} {c : Color} (hid : IsWhole (InfraNode.idOf k c)) :
    Plain (Reference.expression ⟨InfraNode.idOf k c, key⟩) := by
  have htext := toList_of_moduleReference? h
  refine ⟨Reference.trim_expression_of_forall (fun x hx => (InfraNode.mem_idOf hx).2) fun x hx => ?_, ?_⟩
  · -- the last character is that of the key, so that of the token
    obtain ⟨l, hl⟩ := List.getLast?_eq_some_iff.1 hx
    have hlast : e.toList.getLast? = some x := by
      rw [htext, show key.toList = l ++ [x] from hl]
      simp [List.getLast?_append, List.getLast?_cons]
    rw [← he.1] at hlast
    exact Text.getLast_trim hlast
  · rw [Reference.toList_expression]
    refine Text.contains_join (by decide) (by decide) hid ?_
    have hwhole := he.2
    rw [htext] at hwhole
    have htail := Text.contains_append_right hwhole
    rw [Text.contains_cons, Bool.or_eq_false_iff] at htail
    exact htail.2

/-- A token that refers to an incarnation refers to nothing else. -/
theorem eq_of_ofExpression?_expression {k : Key} {c : Color} {key : String} {r : Reference}
    (h : Reference.ofExpression? (Reference.expression ⟨InfraNode.idOf k c, key⟩) = some r) :
    r = ⟨InfraNode.idOf k c, key⟩ := by
  by_cases hkey : key = ""
  · subst hkey
    obtain ⟨p, hp, -⟩ := Option.map_eq_some_iff.1 h
    rw [Reference.toList_expression, Reference.splitChars?, Reference.cut_dot fun hdot => (InfraNode.mem_idOf hdot).1 rfl] at hp
    simp at hp
  · rw [Reference.ofExpression?_expression hkey] at h
    exact (Option.some.inj h).symm

/-! ### Members of regions -/

theorem Region.of_mem_members {r : Region} {m : Member} (h : m ∈ r.members) :
    m.scope = r.scope ∧ m.own = r.ids ∧ m.around = r.around := by
  obtain ⟨p, -, rfl⟩ := Region.mem_members.1 h
  exact ⟨rfl, rfl, rfl⟩

/-- Whether a name stands for a module: that of the innermost of some regions that has one of the name. -/
inductive StandsFor (x : String) (m : Member) : List Region → Prop
  | here {r : Region} {rs : List Region} (hm : m ∈ r.members) (hx : m.name = x) : StandsFor x m (r :: rs)
  | outward {r : Region} {rs : List Region} (hnone : ∀ m' ∈ r.members, m'.name ≠ x) (h : StandsFor x m rs) :
    StandsFor x m (r :: rs)

theorem StandsFor.exists_mem {x : String} {m : Member} {rs : List Region} (h : StandsFor x m rs) :
    ∃ r ∈ rs, m ∈ r.members := by
  induction h with
  | here hm _ => exact ⟨_, List.mem_cons_self, hm⟩
  | outward _ _ ih =>
    obtain ⟨r, hr, hm⟩ := ih
    exact ⟨r, List.mem_cons_of_mem _ hr, hm⟩

/-- What is found among the ids of some regions is the id of the module that the name stands for. -/
theorem standsFor_of_lookup {rs : List Region} {x id : String} (h : (rs.flatMap Region.ids).lookup x = some id) :
    ∃ m, StandsFor x m rs ∧ m.id = id := by
  induction rs with
  | nil => cases h
  | cons r rs ih =>
    rw [List.flatMap_cons, List.lookup_append] at h
    rcases Option.or_eq_some_iff.1 h with h | ⟨hnone, h⟩
    · obtain ⟨p, hp, heq⟩ := List.mem_map.1 (Table.mem_of_lookup h)
      cases heq
      exact ⟨r.member p, .here (Region.mem_members.2 ⟨p, hp, rfl⟩) rfl, rfl⟩
    · obtain ⟨m, hm, hid⟩ := ih h
      refine ⟨m, .outward (fun m' hm' hx => ?_) hm, hid⟩
      obtain ⟨p, hp, rfl⟩ := Region.mem_members.1 hm'
      have hdiffers := List.lookup_eq_none_iff.1 hnone _ (List.mem_map_of_mem hp)
      subst hx
      simp [Region.member] at hdiffers

/-- The module of a name in a region is what the name stands for in the region and those around it. -/
theorem Region.exists_of_lookup {r : Region} {rs : List Region} (hr : r.around = rs.flatMap Region.ids)
    {x id : String} (h : r.lookup x = some id) : ∃ m, StandsFor x m (r :: rs) ∧ m.id = id := by
  refine standsFor_of_lookup ?_
  rw [List.flatMap_cons, List.lookup_append, ← hr]
  exact h

theorem Member.id_eq (m : Member) : m.id = InfraNode.idOf (m.scope.key m.name) .blue := rfl

/-- A module names another one, of its own region or of one around it. -/
theorem Region.lookup_of_mem {r : Region} {m : Member} (hm : m ∈ r.members) {x id : String}
    (h : m.lookup x = some id) : x ≠ m.name ∧ r.lookup x = some id := by
  obtain ⟨-, hown, haround⟩ := Region.of_mem_members hm
  unfold Member.lookup Scope.visibleFrom at h
  split at h
  · cases h
  · rename_i hname
    rw [hown, haround] at h
    exact ⟨hname, h⟩

/-- Tidy values name nodes by plain expressions where they name modules. -/
theorem plain_resolvedExpression {lookup : String → Option String} {v : Value}
    (hlookup : ∀ x id, lookup x = some id → (∃ m : Member, m.id = id) ∧ IsWhole id) (hv : TidyTexts v) :
    ∀ e ∈ visitExpressions v, Plain (resolvedExpression lookup e) := by
  intro e he
  obtain ⟨t, ht, he⟩ := mem_visitExpressions_iff.1 he
  have hplain := plain_of_tidyText (hv t ht) e he
  rcases resolvedExpression_cases lookup e with ⟨-, hsame⟩ | ⟨name, key, node, href, hfound, -, hresolved⟩
  · rw [hsame]
    exact hplain
  · obtain ⟨⟨m, rfl⟩, hwhole⟩ := hlookup name node hfound
    rw [hresolved]
    exact plain_of_moduleReference? href hplain hwhole

/-- A token that was resolved names what it named before, or the node of the module that it named. -/
theorem node_resolvedExpression {lookup : String → Option String}
    (hlookup : ∀ x id, lookup x = some id → ∃ m : Member, m.id = id) {e : String} {r : Reference}
    (hr : Reference.ofExpression? (resolvedExpression lookup e) = some r) :
    Reference.ofExpression? e = some r ∨
      ∃ name key, moduleReference? e = some (.ok (name, key)) ∧ lookup name = some r.node := by
  rcases resolvedExpression_cases lookup e with ⟨-, hsame⟩ | ⟨name, key, node, href, hfound, -, hresolved⟩
  · rw [hsame] at hr
    exact Or.inl hr
  · obtain ⟨m, rfl⟩ := hlookup name node hfound
    rw [hresolved] at hr
    refine Or.inr ⟨name, key, href, ?_⟩
    rw [eq_of_ofExpression?_expression hr]
    exact hfound

theorem Member.mem_edges {m : Member} {e : Edge} :
    e ∈ m.edges ↔ e.source = m.id ∧ ∃ x ∈ visitExpressions m.declared.inputs, ∃ name key,
      moduleReference? x = some (.ok (name, key)) ∧ m.lookup name = some e.target := by
  rw [Member.edges, List.mem_map]
  constructor
  · rintro ⟨target, ht, rfl⟩
    obtain ⟨x, hx, h⟩ := List.mem_filterMap.1 ht
    refine ⟨rfl, x, hx, ?_⟩
    split at h
    · rename_i name key hm
      exact ⟨name, key, hm, h⟩
    · cases h
  · rintro ⟨hsource, x, hx, name, key, hm, hlookup⟩
    refine ⟨e.target, List.mem_filterMap.2 ⟨x, hx, ?_⟩, by rw [← hsource]⟩
    rw [hm]
    exact hlookup

namespace Stages

theorem mem_members {s : Stages} {m : Member} :
    m ∈ s.members ↔ m ∈ s.root.members ∨ (∃ r, s.environment = some r ∧ m ∈ r.members) ∨
      ∃ a ∈ s.services, m ∈ a.region.members := by
  simp [members, List.mem_append, List.mem_flatMap]

theorem id_mem_ids {s : Stages} {m : Member} (h : m ∈ s.members) : m.id ∈ s.ids := List.mem_map_of_mem h

/-- The regions that all app nodes see, from the inside out. -/
def shared (s : Stages) : List Region := s.environment.toList ++ [s.root]

/-- The regions around a region, from the inside out. -/
inductive Enclosed (s : Stages) : Region → List Region → Prop
  | root : Enclosed s s.root []
  | environment {r : Region} (h : s.environment = some r) : Enclosed s r [s.root]
  | service {a : Service} (h : a ∈ s.services) : Enclosed s a.region s.shared

theorem exists_enclosed {s : Stages} {m : Member} (h : m ∈ s.members) :
    ∃ r rs, s.Enclosed r rs ∧ m ∈ r.members := by
  rcases mem_members.1 h with hm | ⟨r, hr, hm⟩ | ⟨a, ha, hm⟩
  · exact ⟨_, _, .root, hm⟩
  · exact ⟨_, _, .environment hr, hm⟩
  · exact ⟨_, _, .service ha, hm⟩

/-- The members of a region and of those around it are modules of the stages. -/
theorem Enclosed.mem_members {s : Stages} {r r' : Region} {rs : List Region} (h : s.Enclosed r rs)
    (hr' : r' ∈ r :: rs) {m : Member} (hm : m ∈ r'.members) : m ∈ s.members := by
  refine Stages.mem_members.2 ?_
  cases h with
  | root => exact Or.inl (List.mem_singleton.1 hr' ▸ hm)
  | environment h =>
    rcases List.mem_cons.1 hr' with rfl | hr'
    · exact Or.inr (Or.inl ⟨_, h, hm⟩)
    · exact Or.inl (List.mem_singleton.1 hr' ▸ hm)
  | service h =>
    rcases List.mem_cons.1 hr' with rfl | hr'
    · exact Or.inr (Or.inr ⟨_, h, hm⟩)
    · rcases List.mem_append.1 hr' with hr' | hr'
      · exact Or.inr (Or.inl ⟨r', Option.mem_toList.1 hr', hm⟩)
      · exact Or.inl (List.mem_singleton.1 hr' ▸ hm)

variable {s : Stages} {app : AppGraph} {m : Member} {r : Region} {rs : List Region}

/-- What a region sees is what the regions around it have. -/
theorem Nested.around (h : s.Nested app) (hr : s.Enclosed r rs) : r.around = rs.flatMap Region.ids := by
  cases hr with
  | root => exact h.root.2
  | environment hr => rw [(h.environment r hr).2, List.flatMap_singleton]
  | service ha =>
    obtain ⟨-, r', hr', -, haround⟩ := h.services _ ha
    rw [haround, shared, hr', Option.toList_some, List.flatMap_append, List.flatMap_singleton, List.flatMap_singleton]

/-- The module of a name in a region is a module of the stages. -/
theorem Nested.exists_of_lookup (h : s.Nested app) (hr : s.Enclosed r rs) {x id : String}
    (hx : r.lookup x = some id) : ∃ m ∈ s.members, StandsFor x m (r :: rs) ∧ m.id = id := by
  obtain ⟨m, hm, hid⟩ := Region.exists_of_lookup (h.around hr) hx
  obtain ⟨r', hr', hmem⟩ := hm.exists_mem
  exact ⟨m, hr.mem_members hr' hmem, hm, hid⟩

/-- What a module names is a module of the stages. -/
theorem Nested.exists_of_member_lookup (h : s.Nested app) (hm : m ∈ s.members) {x id : String}
    (hx : m.lookup x = some id) : ∃ m' ∈ s.members, m'.id = id := by
  obtain ⟨r, rs, hr, hmr⟩ := exists_enclosed hm
  obtain ⟨m', hm', -, hid⟩ := h.exists_of_lookup hr (Region.lookup_of_mem hmr hx).2
  exact ⟨m', hm', hid⟩

/-! ### Legible stages -/

/-- Whether dollar signs occur in inputs and outputs only as part of tokens, and nothing holds the end of a token:
no id of a module, and no token. -/
structure Legible (s : Stages) : Prop where
  ids : ∀ id ∈ s.ids, IsWhole id
  inputs : ∀ m ∈ s.members, TidyTexts m.declared.inputs
  outputs : ∀ a ∈ s.services, TidyParts a.outputs

instance (s : Stages) : Decidable s.Legible :=
  decidable_of_iff ((∀ id ∈ s.ids, IsWhole id) ∧ (∀ m ∈ s.members, TidyTexts m.declared.inputs) ∧
    ∀ a ∈ s.services, TidyParts a.outputs)
    ⟨fun h => ⟨h.1, h.2.1, h.2.2⟩, fun h => ⟨h.ids, h.inputs, h.outputs⟩⟩

/-- Whether no app node that is served has the id of a module. -/
def Apart (s : Stages) : Prop := ∀ a ∈ s.services, a.appNode.id ∉ s.ids

instance (s : Stages) : Decidable s.Apart := inferInstanceAs (Decidable (∀ a ∈ s.services, _))

theorem exists_of_lookup_outputs {id : String} {o : Value} (h : s.outputs.lookup id = some o) :
    ∃ a ∈ s.services, a.appNode.id = id ∧ a.outputs = o := by
  obtain ⟨a, ha, heq⟩ := List.mem_map.1 (Table.mem_of_lookup h)
  cases heq
  exact ⟨a, ha, rfl, rfl⟩

theorem Legible.tidyOutputs (h : s.Legible) : TidyOutputs s.outputs := by
  intro id o ho
  obtain ⟨a, ha, -, rfl⟩ := exists_of_lookup_outputs ho
  exact h.outputs a ha

theorem Apart.lookup_outputs (h : s.Apart) {id : String} (hid : id ∈ s.ids) : s.outputs.lookup id = none := by
  cases ho : s.outputs.lookup id with
  | none => rfl
  | some o =>
    obtain ⟨a, ha, rfl, -⟩ := exists_of_lookup_outputs ho
    exact absurd hid (h a ha)

theorem Legible.plain (h : s.Legible) (hnested : s.Nested app) (hm : m ∈ s.members) :
    ∀ e ∈ visitExpressions m.declared.inputs, Plain (resolvedExpression m.lookup e) := by
  refine plain_resolvedExpression (fun x id hx => ?_) (h.inputs m hm)
  obtain ⟨m', hm', rfl⟩ := hnested.exists_of_member_lookup hm hx
  exact ⟨⟨m', rfl⟩, h.ids m'.id (id_mem_ids hm')⟩

/-- **The tokens of the inputs of a module are those of its declaration, resolved one by one.** -/
theorem Legible.visitExpressions_inputs (h : s.Legible) (hnested : s.Nested app) (hm : m ∈ s.members) :
    visitExpressions m.inputs = (visitExpressions m.declared.inputs).map (resolvedExpression m.lookup) :=
  visitExpressions_mapExpressions (rewrites_resolveModule m.lookup) (h.plain hnested hm)

theorem Legible.tidy_inputs (h : s.Legible) (hnested : s.Nested app) (hm : m ∈ s.members) :
    TidyTexts m.inputs := by
  refine (spliced_splice (h.inputs m hm) fun e he w hw => ?_).tidy
  have hplain := h.plain hnested hm e he
  rcases resolvedExpression_cases m.lookup e with ⟨hnone, -⟩ | ⟨name, key, node, -, -, hsome, hresolved⟩
  · rw [hnone] at hw
    cases hw
  · rw [hsome] at hw
    cases hw
    rw [hresolved] at hplain
    intro t ht
    rw [List.mem_singleton.1 ht]
    exact tidyText_of_reads (reads_renderToken hplain)

/-! ### Linked nodes -/

theorem appNode_linked (s : Stages) (m : Member) : (s.linked m).appNode = m.scope.appNode := by
  unfold linked linkNode
  split <;> rfl

/-- Linking changes inputs only. -/
theorem linked_eq (s : Stages) (m : Member) : s.linked m = { m.node with inputs := (s.linked m).inputs } := by
  unfold linked linkNode
  split <;> rfl

/-- Nodes of no app node are not linked. -/
theorem linked_of_none (s : Stages) (h : m.scope.appNode = none) : s.linked m = m.node := by
  rw [linked, linkNode, if_neg]
  show ¬ m.scope.appNode.isSome = true
  simp [h]

theorem inputs_linked_of_isSome (s : Stages) (h : m.scope.appNode.isSome) :
    (s.linked m).inputs = linkInputs s.outputs (s.outputs.length + 1) m.inputs := by
  have hsome : m.node.appNode.isSome = true := h
  rw [linked, linkNode, hsome]
  rfl

/-- Linking loses no token of a module and makes none up. -/
theorem Legible.linked (h : s.Legible) (hnested : s.Nested app) (hm : m ∈ s.members) :
    Linked s.outputs (visitExpressions m.inputs) (s.linked m).inputs := by
  have htidy := h.tidy_inputs hnested hm
  cases happ : m.scope.appNode with
  | none =>
    rw [linked_of_none s happ]
    exact ⟨htidy, fun e he _ => he, fun e he => .start he⟩
  | some id =>
    rw [inputs_linked_of_isSome s (by rw [happ]; rfl)]
    exact linked_linkInputs h.tidyOutputs _ htidy

/-- **A token that names a module is never linked**, if no app node has the id of one. -/
theorem Legible.mem_visitExpressions_linked (h : s.Legible) (hapart : s.Apart) (hnested : s.Nested app)
    (hm : m ∈ s.members) {e : String} (he : e ∈ visitExpressions m.inputs)
    (hid : ∀ r, Reference.ofExpression? e = some r → r.node ∈ s.ids) :
    e ∈ visitExpressions (s.linked m).inputs :=
  (h.linked hnested hm).kept e he (linked?_eq_none fun r hr => hapart.lookup_outputs (hid r hr))

end Stages

/-- The stages of the small datacenter. -/
def marketStages : Stages := ((stages market marketApp marketOptions).toOption).getD Stages.empty

/-- The small datacenter has stages; its modules have distinct ids, its inputs are legible, and its app nodes are
apart. -/
theorem regular_market : (stages market marketApp marketOptions).toOption.isSome ∧
    marketStages.ids.Nodup ∧ marketStages.Legible ∧ marketStages.Apart := by decide +kernel

theorem stages_market : stages market marketApp marketOptions = .ok marketStages :=
  eq_ok_getD regular_market.1 Stages.empty

end Compile

end Groundwork
