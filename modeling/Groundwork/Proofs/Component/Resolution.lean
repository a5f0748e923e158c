import Groundwork.Component
import Groundwork.Proofs.Data.Outcome
import Groundwork.Proofs.Graph.Contents
import Groundwork.Proofs.Reference.Renaming
import Groundwork.Proofs.Template.Replacing

/-!
# Resolved components

A token of a component names a resource by its place in the component, or in one that the component depends on.
Resolving puts a reference to the node that is meant in the place of the token, and records that the owner of the
inputs depends on that node.  A database is reached through a user, which is added to the graph.

The id of a node holds a slash and no dot.  So a reference has two parts, the first of which is no word that a token
of a component starts with, and is not taken for such a token.

Main statements: what tokens name (`target_eq_iff`), when inputs are resolved and to what (`resolve_eq_ok_iff`), and
that resolving turns the tokens of a component into references, adds to the graph what they depend on, and changes
nothing when it is done again (`resolved_of_resolve`).
-/

namespace Groundwork

namespace Text

/-- The pieces of a text hold only characters of the text, and no separator. -/
theorem of_mem_splitOn {sep : Char} {s p : List Char} (h : p ∈ splitOn sep s) : sep ∉ p ∧ p ⊆ s := by
  induction s generalizing p with
  | nil =>
    cases List.mem_singleton.1 h
    exact ⟨List.not_mem_nil, List.Subset.refl _⟩
  | cons x s ih =>
    unfold splitOn at h
    split at h
    · rcases List.mem_cons.1 h with rfl | h
      · exact ⟨List.not_mem_nil, List.nil_subset _⟩
      · exact ⟨(ih h).1, List.subset_cons_of_subset x (ih h).2⟩
    · rename_i hx
      split at h
      · rename_i hnil
        exact absurd hnil (splitOn_ne_nil sep s)
      · rename_i piece pieces hpieces
        rw [hpieces] at ih
        rcases List.mem_cons.1 h with rfl | h
        · have hpiece := ih List.mem_cons_self
          refine ⟨fun hmem => ?_, List.cons_subset_cons x hpiece.2⟩
          exact (List.mem_cons.1 hmem).elim (fun heq => hx heq.symm) hpiece.1
        · have hrest := ih (List.mem_cons_of_mem piece h)
          exact ⟨hrest.1, List.subset_cons_of_subset x hrest.2⟩

end Text

namespace Component

open Template

variable {c : Component} {owner : String} {v w : Value} {g g' : AppGraph}

/-! ### What tokens name -/

/-- The words for resources that any component has, with their types. -/
def sharedWords : Table String := [("services", "service"), ("ingresses", "ingressRule")]

/-- The words for resources with outputs of their own, with their types. -/
def ownWords : Table String := ("builds", "dockerBuild") :: sharedWords

/-- What the parts of a token name. -/
inductive Names (c : Component) : List String → Target → Prop
  /-- The name of the environment. -/
  | environment : c.Names ["environment", "name"] .environment
  /-- A variable of the component, under any of the words for one. -/
  | secret {word : String} (hword : word ∈ ["variables", "secrets", "parameters", "vars"]) (name : String) :
      c.Names [word, name] (.resource (c.keyOf "secret" name c.name) "data")
  /-- An output of a database. -/
  | database (name output : String) : c.Names ["databases", name, output] (.database name output)
  /-- An output of another resource of the component. -/
  | resource {word resourceType : String} (hword : (word, resourceType) ∈ ownWords) (name output : String) :
      c.Names [word, name, output] (.resource (c.keyOf resourceType name c.name) output)
  /-- What a component that this one depends on gives out. -/
  | secretOf {handle component : String} (hcomponent : c.dependencies.lookup handle = some component)
      (name : String) :
      c.Names ["dependencies", handle, "outputs", name] (.resource (c.keyOf "secret" name component) "data")
  /-- An output of a resource of such a component. -/
  | resourceOf {word resourceType handle component : String} (hword : (word, resourceType) ∈ sharedWords)
      (hcomponent : c.dependencies.lookup handle = some component) (name output : String) :
      c.Names ["dependencies", handle, word, name, output] (.resource (c.keyOf resourceType name component) output)

theorem dependency_eq_ok_iff {handle component : String} :
    c.dependency handle = .ok component ↔ c.dependencies.lookup handle = some component := by
  unfold dependency
  cases c.dependencies.lookup handle <;> simp

/-- **The targets of tokens are what their parts name.** -/
theorem target_eq_iff {parts : List String} {t : Target} : c.target parts = .ok (some t) ↔ c.Names parts t := by
  constructor
  · intro h
    unfold target at h
    split at h
    case h_1 =>
      cases h
      exact .environment
    case h_2 | h_3 | h_4 | h_5 =>
      cases h
      exact .secret (by decide) _
    case h_6 =>
      cases h
      exact .database _ _
    case h_7 | h_8 | h_9 =>
      cases h
      exact .resource (by decide) _ _
    case h_10 =>
      obtain ⟨component, hcomponent, h⟩ := bind_eq_ok h
      cases h
      exact .secretOf (dependency_eq_ok_iff.1 hcomponent) _
    case h_11 | h_12 =>
      obtain ⟨component, hcomponent, h⟩ := bind_eq_ok h
      cases h
      exact .resourceOf (by decide) (dependency_eq_ok_iff.1 hcomponent) _ _
    case h_13 => cases h
  · intro h
    cases h with
    | environment => rfl
    | secret hword name =>
      simp only [List.mem_cons, List.not_mem_nil, or_false] at hword
      rcases hword with rfl | rfl | rfl | rfl <;> rfl
    | database name output => rfl
    | resource hword name output =>
      simp only [ownWords, sharedWords, List.mem_cons, Prod.mk.injEq, List.not_mem_nil, or_false] at hword
      rcases hword with ⟨rfl, rfl⟩ | ⟨rfl, rfl⟩ | ⟨rfl, rfl⟩ <;> rfl
    | secretOf hcomponent name =>
      show c.dependency _ >>= _ = _
      rw [dependency_eq_ok_iff.2 hcomponent]
      rfl
    | resourceOf hword hcomponent name output =>
      simp only [sharedWords, List.mem_cons, Prod.mk.injEq, List.not_mem_nil, or_false] at hword
      rcases hword with ⟨rfl, rfl⟩ | ⟨rfl, rfl⟩
      all_goals
        show c.dependency _ >>= _ = _
        rw [dependency_eq_ok_iff.2 hcomponent]
        rfl

/-- A first part with a slash in it is no word for anything. -/
theorem target_of_slash {node key : String} (h : '/' ∈ node.toList) : c.target [node, key] = .ok none := by
  have hword : ∀ {word : String}, '/' ∉ word.toList → node ≠ word := fun hslash heq => hslash (heq ▸ h)
  unfold target
  split
  case h_1 heq | h_2 heq | h_3 heq | h_4 heq | h_5 heq => exact absurd (List.cons.inj heq).1 (hword (by decide))
  case h_6 heq | h_7 heq | h_8 heq | h_9 heq | h_10 heq | h_11 heq | h_12 heq => cases heq
  case h_13 => rfl

/-! ### Parts of expressions -/

/-- Whether a text can be the id or the key of a reference that has no other parts. -/
def IsPart (s : String) : Prop := s ≠ "" ∧ Nameable s

/-- The parts of an expression without closing brace are such. -/
theorem isPart_of_partsOf? {e : String} {parts : List String} (h : partsOf? e = some parts)
    (he : '\x7d' ∉ e.toList) : ∀ p ∈ parts, IsPart p := by
  unfold partsOf? at h
  dsimp only at h
  split at h
  · cases h
  · rename_i hparts
    cases h
    intro p hp
    obtain ⟨q, hq, rfl⟩ := List.mem_map.1 hp
    rw [Bool.not_eq_true, List.any_eq_false] at hparts
    have hpart := hparts q hq
    rw [Bool.not_eq_true, Bool.or_eq_false_iff, List.any_eq_false] at hpart
    obtain ⟨hdot, hsubset⟩ := Text.of_mem_splitOn hq
    refine ⟨by simpa using hpart.1, fun x hx => ?_⟩
    rw [String.toList_ofList] at hx
    exact ⟨fun heq => hdot (heq ▸ hx), by simpa using hpart.2 x hx, fun heq => he (heq ▸ hsubset hx)⟩

/-- A reference that has no other parts has its id and its key. -/
theorem partsOf?_expression {r : Reference} (hnode : IsPart r.node) (hkey : IsPart r.key) :
    partsOf? r.expression = some [r.node, r.key] := by
  have hdot : ∀ {s : String}, IsPart s → '.' ∉ s.toList := fun hs hmem => (hs.2 _ hmem).1 rfl
  have hpart : ∀ {s : String}, IsPart s → (s.toList.isEmpty || s.toList.any Text.isBlank) = false := by
    intro s hs
    rw [Bool.or_eq_false_iff, List.any_eq_false]
    exact ⟨by simpa using hs.1, fun x hx => by simp [(hs.2 x hx).2.1]⟩
  have hsplit : Text.splitOn '.' r.expression.toList = [r.node.toList, r.key.toList] := by
    rw [Reference.toList_expression, Text.splitOn_append, Text.splitOn_of_not_mem (hdot hnode),
      Text.splitOn_of_not_mem (hdot hkey)]
    rfl
  unfold partsOf?
  rw [hsplit]
  simp [List.any_cons, hpart hnode, hpart hkey]

/-! ### What stands in the place of tokens -/

/-- What an expression stands for; nothing if it is not about the component. -/
def meaning (c : Component) (e : String) : Except CompileError (Option Target) :=
  match partsOf? e with
  | none => .ok none
  | some parts => c.target parts

/-- What an expression stands for, unless that cannot be told. -/
def known (c : Component) (e : String) : Option Target :=
  match c.meaning e with
  | .ok t => t
  | .error _ => none

/-- Whether an expression is about the component, and stands for a target. -/
def Means (c : Component) (e : String) (t : Target) : Prop := ∃ parts, partsOf? e = some parts ∧ c.Names parts t

/-- The reference in the place of a token, if one comes there. -/
def reference? (c : Component) (owner : String) : Target → Option Reference
  | .environment => none
  | .resource key output => some ⟨key.id, output⟩
  | .database name output => some ⟨(c.databaseUser owner name).id, output⟩

/-- The piece in the place of a token; nothing if it stays. -/
def piece? (c : Component) (owner : String) (t : Target) : Option Segment :=
  match c.reference? owner t with
  | some r => some (.expr r.expression)
  | none => c.environment.map .text

/-- The piece in the place of an expression. -/
def piece (c : Component) (owner e : String) : Segment := ((c.known e).bind (c.piece? owner)).getD (.expr e)

theorem known_eq_some_iff {e : String} {t : Target} : c.known e = some t ↔ c.Means e t := by
  have hmeaning : c.known e = some t ↔ c.meaning e = .ok (some t) := by
    unfold known
    cases c.meaning e <;> simp
  rw [hmeaning, Means, meaning]
  cases hparts : partsOf? e with
  | none => simp
  | some parts => simp [target_eq_iff]

/-- Whether names and expressions can be parts of tokens: there is no closing brace in any, and no dollar sign in the
name of the environment, which is put in as text. -/
structure Clear (c : Component) (owner : String) (v : Value) : Prop where
  name : '\x7d' ∉ c.name.toList
  environment : ∀ s, c.environment = some s → '$' ∉ s.toList ∧ '\x7d' ∉ s.toList
  components : ∀ s ∈ c.dependencies.values, '\x7d' ∉ s.toList
  owner : '\x7d' ∉ owner.toList
  expressions : ∀ e ∈ visitExpressions v, '\x7d' ∉ e.toList

/-- Whether a reference cannot be taken for a token of a component. -/
structure Foreign (r : Reference) : Prop where
  node : IsPart r.node
  key : IsPart r.key
  slash : '/' ∈ r.node.toList

theorem slash_mem_id (k : Key) : '/' ∈ k.id.toList := by
  simp [Key.id, Key.idChars]

theorem not_mem_toList_of_mem_ownWords {word resourceType : String} (h : (word, resourceType) ∈ ownWords) :
    '\x7d' ∉ resourceType.toList := by
  have hall : ∀ p ∈ ownWords, '\x7d' ∉ p.2.toList := by decide
  exact hall _ h

section Clear

variable (hc : c.Clear owner v)

include hc

/-- The id of a resource is part of a reference. -/
theorem Clear.isPart_id {resourceType name component : String} (htype : '\x7d' ∉ resourceType.toList)
    (hname : '\x7d' ∉ name.toList) (hcomponent : '\x7d' ∉ component.toList) :
    IsPart (c.keyOf resourceType name component).id := by
  refine ⟨fun hnil => ?_, Key.nameable_id htype hname ?_ fun s hs => (hc.environment s hs).2⟩
  · have hslash := slash_mem_id (c.keyOf resourceType name component)
    rw [hnil] at hslash
    exact List.not_mem_nil hslash
  · intro s hs
    cases hs
    exact hcomponent

/-- **The references in the place of tokens cannot be taken for tokens.** -/
theorem Clear.foreign {e : String} (he : e ∈ visitExpressions v) {t : Target} (ht : c.Means e t) {r : Reference}
    (hr : c.reference? owner t = some r) : Foreign r := by
  obtain ⟨parts, hparts, hnames⟩ := ht
  have hpart := isPart_of_partsOf? hparts (hc.expressions e he)
  have hbrace : ∀ {p : String}, p ∈ parts → '\x7d' ∉ p.toList := fun hp hmem => ((hpart _ hp).2 _ hmem).2.2 rfl
  have hdata : IsPart "data" := ⟨by decide, by decide⟩
  have hcomponent : ∀ {handle component : String}, c.dependencies.lookup handle = some component →
      '\x7d' ∉ component.toList := fun h => hc.components _ (List.mem_map_of_mem (Table.mem_of_lookup h))
  cases hnames with
  | environment => cases hr
  | secret hword name =>
    cases hr
    exact ⟨hc.isPart_id (by decide) (hbrace (by simp)) hc.name, hdata, slash_mem_id _⟩
  | database name output =>
    cases hr
    refine ⟨hc.isPart_id (by decide) ?_ hc.name, hpart _ (by simp), slash_mem_id _⟩
    rw [String.toList_append, String.toList_append, List.mem_append, List.mem_append, not_or, not_or]
    exact ⟨⟨hc.owner, by decide⟩, hbrace (by simp)⟩
  | resource hword name output =>
    cases hr
    have htype := not_mem_toList_of_mem_ownWords hword
    exact ⟨hc.isPart_id htype (hbrace (by simp)) hc.name, hpart _ (by simp), slash_mem_id _⟩
  | secretOf hlookup name =>
    cases hr
    exact ⟨hc.isPart_id (by decide) (hbrace (by simp)) (hcomponent hlookup), hdata, slash_mem_id _⟩
  | resourceOf hword hlookup name output =>
    cases hr
    have htype := not_mem_toList_of_mem_ownWords (List.mem_cons_of_mem _ hword)
    exact ⟨hc.isPart_id htype (hbrace (by simp)) (hcomponent hlookup), hpart _ (by simp), slash_mem_id _⟩

end Clear

theorem Foreign.plain {r : Reference} (hr : Foreign r) : Plain r.expression :=
  Reference.plain_expression_of_forall hr.node.2 hr.key.2

/-- A reference stands for nothing of a component. -/
theorem Foreign.meaning {r : Reference} (hr : Foreign r) : c.meaning r.expression = .ok none := by
  rw [Component.meaning, partsOf?_expression hr.node hr.key]
  exact target_of_slash hr.slash

/-! ### What a token does to the graph -/

/-- The nodes that a target adds. -/
def users (c : Component) (owner : String) : Option Target → List AppNode
  | some (.database name _) => [c.databaseUser owner name]
  | _ => []

/-- The edges that a target adds. -/
def links (c : Component) (owner : String) : Option Target → List Edge
  | some (.database name _) =>
      [⟨(c.databaseUser owner name).id, (c.keyOf "database" name c.name).id⟩, ⟨owner, (c.databaseUser owner name).id⟩]
  | some (.resource key _) => [⟨owner, key.id⟩]
  | _ => []

/-- The graph with what a target adds. -/
def record (c : Component) (owner : String) (t : Option Target) (g : AppGraph) : AppGraph :=
  (g.insertNodes (c.users owner t)).insertEdges (c.links owner t)

/-- The graph with what all tokens of a value add. -/
def recorded (c : Component) (owner : String) (v : Value) (g : AppGraph) : AppGraph :=
  (g.insertNodes ((visitExpressions v).flatMap fun e => c.users owner (c.known e))).insertEdges
    ((visitExpressions v).flatMap fun e => c.links owner (c.known e))

/-- What an expression does, apart from the value for it. -/
def note (c : Component) (owner e : String) : ExceptT CompileError (StateM AppGraph) PUnit := do
  let t ← resolveExpression.liftExcept (c.meaning e)
  modify (c.record owner t)

/-- The value for an expression. -/
def answer (c : Component) (owner e : String) : Option Value :=
  ((c.known e).bind (c.piece? owner)).map fun x => .str (written x)

theorem answers (c : Component) (owner : String) : Answers (c.piece owner) (c.answer owner) := by
  intro e
  unfold piece answer
  cases (c.known e).bind (c.piece? owner) with
  | none => exact Or.inl ⟨rfl, rfl⟩
  | some x => exact Or.inr rfl

theorem resolveExpression_eq_noted (c : Component) (owner : String) :
    c.resolveExpression owner = noted (c.note owner) (c.answer owner) := by
  funext e g
  unfold resolveExpression noted note answer known meaning
  cases partsOf? e with
  | none => rfl
  | some parts =>
    dsimp only
    cases c.target parts with
    | error cause => rfl
    | ok t =>
      rcases t with - | - | ⟨key, output⟩ | ⟨name, output⟩
      · rfl
      · have htext : c.environment.map Value.str
            = (c.environment.map Segment.text).map fun x => .str (written x) := by
          cases c.environment <;> rfl
        exact congrArg (fun x => (Except.ok x, g)) htext
      · rfl
      · -- the edge from the owner to the user is added twice
        let value : Value := .str (Reference.token ⟨(c.databaseUser owner name).id, output⟩)
        exact congrArg (fun h => (Except.ok (some value), h)) (Graph.insertEdge_insertEdge_self _ _)

/-! ### Resolving -/

/-- What tokens add one after the other comes to all that they add. -/
theorem foldl_record (c : Component) (owner : String) (v : Value) (g : AppGraph) :
    (visitExpressions v).foldl (fun g e => c.record owner (c.known e) g) g = c.recorded owner v g := by
  rw [recorded]
  induction visitExpressions v generalizing g with
  | nil => rfl
  | cons e es ih =>
    rw [List.foldl_cons, ih, record, Graph.insertNodes_insertEdges]
    simp only [List.flatMap_cons, Graph.insertNodes, Graph.insertEdges, List.foldl_append]

/-- What an expression does where its meaning can be told. -/
theorem note_run_of_ok {e : String} {t : Option Target} (h : c.meaning e = .ok t) (g : AppGraph) :
    (c.note owner e).run.run g = (.ok (), c.record owner t g) := by
  unfold note
  rw [h]
  rfl

theorem note_run_of_error {e : String} {cause : CompileError} (h : c.meaning e = .error cause) (g : AppGraph) :
    (c.note owner e).run.run g = (.error cause, g) := by
  unfold note
  rw [h]
  rfl

theorem known_eq_of_ok {e : String} {t : Option Target} (h : c.meaning e = .ok t) : c.known e = t := by
  rw [known, h]

/-- The expressions of a list do what they do one after the other, if the meaning of each can be told. -/
theorem forM_note_run_iff {es : List String} {g g' : AppGraph} :
    (forM es (c.note owner)).run.run g = (.ok (), g') ↔
      (∀ e ∈ es, ∃ t, c.meaning e = .ok t) ∧ g' = es.foldl (fun g e => c.record owner (c.known e) g) g := by
  induction es generalizing g with
  | nil =>
    have hrun : (forM [] (c.note owner)).run.run g = (.ok (), g) := rfl
    rw [hrun, Prod.mk.injEq]
    simp [eq_comm]
  | cons e es ih =>
    rw [List.forM_cons, List.foldl_cons, List.forall_mem_cons]
    cases hmeaning : c.meaning e with
    | error cause =>
      rw [run_bind_of_error (note_run_of_error hmeaning g)]
      refine iff_of_false (fun heq => ?_) fun hall => ?_
      · cases congrArg Prod.fst heq
      · obtain ⟨⟨⟨t, ht⟩, -⟩, -⟩ := hall
        cases ht
    | ok t =>
      rw [run_bind_of_ok (note_run_of_ok hmeaning g), ih, known_eq_of_ok hmeaning]
      simp

/-- **When inputs are resolved, and to what**: all that is about the component can be told, each text is written with
other pieces in the place of its tokens, and the graph has all that the tokens add. -/
theorem resolve_eq_ok_iff : c.resolve owner v g = (.ok w, g') ↔
    (∀ e ∈ visitExpressions v, ∃ t, c.meaning e = .ok t) ∧ w = v.mapTexts (replaced (c.piece owner)) ∧
      g' = c.recorded owner v g := by
  rw [resolve, resolveExpression_eq_noted, mapExpressions_noted, splice_eq_mapTexts (c.answers owner), ← foldl_record]
  rcases hrun : (forM (visitExpressions v) (c.note owner)).run.run g with ⟨_ | ⟨⟩, h⟩
  · rw [run_bind_of_error hrun]
    refine iff_of_false (fun heq => ?_) fun hall => ?_
    · cases congrArg Prod.fst heq
    · cases congrArg Prod.fst (hrun.symm.trans (forM_note_run_iff.2 ⟨hall.1, rfl⟩))
  · rw [run_bind_of_ok hrun]
    obtain ⟨hall, rfl⟩ := forM_note_run_iff.1 hrun
    constructor
    · intro heq
      exact ⟨hall, (Except.ok.inj (congrArg Prod.fst heq)).symm, (congrArg Prod.snd heq).symm⟩
    · rintro ⟨-, rfl, rfl⟩
      rfl

/-! ### Pieces that are read again -/

theorem piece_of_reference? {e : String} {t : Target} (ht : c.Means e t) {r : Reference}
    (hr : c.reference? owner t = some r) : c.piece owner e = .expr r.expression := by
  rw [piece, known_eq_some_iff.2 ht]
  show (c.piece? owner t).getD _ = _
  rw [piece?, hr]
  rfl

theorem piece_of_environment {e : String} (ht : c.Means e .environment) :
    c.piece owner e = c.environment.elim (.expr e) .text := by
  rw [piece, known_eq_some_iff.2 ht]
  show (c.environment.map Segment.text).getD _ = _
  cases c.environment <;> rfl

theorem piece_of_not_means {e : String} (h : ∀ t, ¬ c.Means e t) : c.piece owner e = .expr e := by
  have hknown : c.known e = none := by
    rw [Option.eq_none_iff_forall_ne_some]
    exact fun t ht => h t (known_eq_some_iff.1 ht)
  rw [piece, hknown]
  rfl

/-- Whether an expression does nothing and stays. -/
def Idle (c : Component) (e : String) : Prop :=
  c.meaning e = .ok none ∨ (c.meaning e = .ok (some .environment) ∧ c.environment = none)

theorem Idle.answer {e : String} (h : c.Idle e) : c.answer owner e = none := by
  rcases h with h | ⟨h, henvironment⟩
  · rw [Component.answer, known_eq_of_ok h]
    rfl
  · rw [Component.answer, known_eq_of_ok h]
    show (c.environment.map Segment.text).map _ = none
    rw [henvironment]
    rfl

theorem Idle.users {e : String} (h : c.Idle e) : c.users owner (c.known e) = [] := by
  rcases h with h | ⟨h, -⟩ <;> rw [known_eq_of_ok h] <;> rfl

theorem Idle.links {e : String} (h : c.Idle e) : c.links owner (c.known e) = [] := by
  rcases h with h | ⟨h, -⟩ <;> rw [known_eq_of_ok h] <;> rfl

/-- What is put in the place of tokens. -/
theorem piece_cases (owner : String) {e : String} (hmeaning : ∃ t, c.meaning e = .ok t) :
    (∃ t r, c.Means e t ∧ c.reference? owner t = some r ∧ c.piece owner e = .expr r.expression) ∨
      (∃ s, c.environment = some s ∧ c.piece owner e = .text s) ∨ (c.Idle e ∧ c.piece owner e = .expr e) := by
  obtain ⟨t, ht⟩ := hmeaning
  rcases t with - | t
  · refine Or.inr (Or.inr ⟨Or.inl ht, ?_⟩)
    rw [piece, known_eq_of_ok ht]
    rfl
  · have hmeans : c.Means e t := known_eq_some_iff.1 (known_eq_of_ok ht)
    cases hr : c.reference? owner t with
    | some r => exact Or.inl ⟨t, r, hmeans, hr, piece_of_reference? hmeans hr⟩
    | none =>
      cases t with
      | resource => cases hr
      | database => cases hr
      | environment =>
        have hpiece : c.piece owner e = c.environment.elim (.expr e) .text := piece_of_environment hmeans
        cases henvironment : c.environment with
        | some s =>
          rw [henvironment] at hpiece
          exact Or.inr (Or.inl ⟨s, rfl, hpiece⟩)
        | none =>
          rw [henvironment] at hpiece
          exact Or.inr (Or.inr ⟨Or.inr ⟨ht, henvironment⟩, hpiece⟩)

section Clear

variable (hc : c.Clear owner v) (hall : ∀ e ∈ visitExpressions v, ∃ t, c.meaning e = .ok t)

include hc hall

theorem Clear.legible : ∀ e ∈ visitExpressions v, Legible (c.piece owner e) := by
  intro e he
  rcases piece_cases owner (hall e he) with ⟨t, r, ht, hr, hpiece⟩ | ⟨s, hs, hpiece⟩ | ⟨-, hpiece⟩
  · rw [hpiece]
    exact (hc.foreign he ht hr).plain
  · rw [hpiece]
    have hdollar := (hc.environment s hs).1
    exact ⟨(Reads.of_not_mem hdollar).expressions_parse, settled_of_not_mem hdollar⟩
  · rw [hpiece]
    exact ⟨trim_of_mem_visitExpressions he, Text.contains_of_not_mem (hc.expressions e he)⟩

theorem Clear.idle : ∀ e ∈ visitExpressions (v.mapTexts (replaced (c.piece owner))), c.Idle e := by
  intro e' he'
  rw [visitExpressions_replaced (hc.legible hall)] at he'
  obtain ⟨e, he, he'⟩ := List.mem_flatMap.1 he'
  rcases piece_cases owner (hall e he) with ⟨t, r, ht, hr, hpiece⟩ | ⟨s, hs, hpiece⟩ | ⟨hidle, hpiece⟩
  · rw [hpiece] at he'
    rw [List.mem_singleton.1 he']
    exact Or.inl (hc.foreign he ht hr).meaning
  · rw [hpiece] at he'
    cases he'
  · rw [hpiece] at he'
    rw [List.mem_singleton.1 he']
    exact hidle

/-- **Resolved inputs stay as they are**, and so does the graph. -/
theorem Clear.resolve_mapTexts (k : AppGraph) :
    c.resolve owner (v.mapTexts (replaced (c.piece owner))) k = (.ok (v.mapTexts (replaced (c.piece owner))), k) := by
  have hidle := hc.idle hall
  refine resolve_eq_ok_iff.2 ⟨fun e he => ?_, ?_, ?_⟩
  · rcases hidle e he with h | ⟨h, -⟩
    · exact ⟨_, h⟩
    · exact ⟨_, h⟩
  · rw [← splice_eq_mapTexts (c.answers owner) (v.mapTexts _)]
    refine (splice_eq_self_of_canonical (fun s hs => ?_) fun e he => (hidle e he).answer).symm
    rw [Value.texts_mapTexts] at hs
    obtain ⟨s', hs', rfl⟩ := List.mem_map.1 hs
    exact canonical_replaced fun e he => hc.legible hall e (mem_visitExpressions_iff.2 ⟨s', hs', he⟩)
  · rw [recorded, List.flatMap_eq_nil_iff.2 fun e he => (hidle e he).users,
      List.flatMap_eq_nil_iff.2 fun e he => (hidle e he).links]
    rfl

end Clear

/-! ### Users of databases -/

theorem idChars_keyOf (resourceType name component : String) :
    (c.keyOf resourceType name component).idChars
      = (Key.cleanScope c.environment ++ Key.cleanScope (some component)) ++
        (Key.clean resourceType ++ '/' :: Key.clean name) := by
  rw [Key.idChars, List.append_assoc]
  rfl

/-- Users of different databases have different ids. -/
theorem databaseUser_id_inj {a b : String} (ha : Nameable a) (hb : Nameable b)
    (h : (c.databaseUser owner a).id = (c.databaseUser owner b).id) : a = b := by
  have hclean : ∀ x : String, Key.clean (owner ++ "/" ++ x) = Key.clean owner ++ '/' :: Key.clean x := by
    intro x
    rw [Key.clean, String.toList_append, String.toList_append, List.map_append, List.map_append, List.append_assoc]
    rfl
  have hchars : (c.keyOf "databaseUser" (owner ++ "/" ++ a) c.name).idChars
      = (c.keyOf "databaseUser" (owner ++ "/" ++ b) c.name).idChars := String.ofList_injective h
  rw [idChars_keyOf, idChars_keyOf, hclean, hclean, Key.clean_of_nameable ha, Key.clean_of_nameable hb] at hchars
  have hnames := (List.cons.inj (List.append_cancel_left (List.append_cancel_left hchars))).2
  exact String.toList_inj.1 (List.cons.inj (List.append_cancel_left hnames)).2

/-- The user of a database is not a database. -/
theorem databaseUser_id_ne (a b : String) : (c.databaseUser owner a).id ≠ (c.keyOf "database" b c.name).id := by
  intro h
  have hchars : (c.keyOf "databaseUser" (owner ++ "/" ++ a) c.name).idChars = (c.keyOf "database" b c.name).idChars :=
    String.ofList_injective h
  rw [idChars_keyOf, idChars_keyOf] at hchars
  have hwords := List.append_cancel_left hchars
  have hword : Key.clean "databaseUser" = Key.clean "database" ++ ['U', 's', 'e', 'r'] := by decide
  rw [hword, List.append_assoc] at hwords
  cases List.append_cancel_left hwords

/-- Whether inputs refer to a database. -/
def Uses (c : Component) (v : Value) (name : String) : Prop :=
  ∃ e ∈ visitExpressions v, ∃ output, c.Means e (.database name output)

/-- Whether inputs refer to a node by a token of the component. -/
def Refers (c : Component) (owner : String) (v : Value) (r : Reference) : Prop :=
  ∃ e ∈ visitExpressions v, ∃ t, c.Means e t ∧ c.reference? owner t = some r

theorem mem_users_iff {n : AppNode} :
    (n ∈ (visitExpressions v).flatMap fun e => c.users owner (c.known e)) ↔
      ∃ name, c.Uses v name ∧ n = c.databaseUser owner name := by
  rw [List.mem_flatMap]
  constructor
  · rintro ⟨e, he, hn⟩
    rcases ht : c.known e with - | - | ⟨key, output⟩ | ⟨name, output⟩
    all_goals rw [ht] at hn
    · cases hn
    · cases hn
    · cases hn
    · exact ⟨name, ⟨e, he, output, known_eq_some_iff.1 ht⟩, List.mem_singleton.1 hn⟩
  · rintro ⟨name, ⟨e, he, output, ht⟩, rfl⟩
    refine ⟨e, he, ?_⟩
    rw [known_eq_some_iff.2 ht]
    exact List.mem_singleton.2 rfl

theorem mem_links_iff {x : Edge} :
    (x ∈ (visitExpressions v).flatMap fun e => c.links owner (c.known e)) ↔
      (∃ r, c.Refers owner v r ∧ x = ⟨owner, r.node⟩) ∨
        ∃ name, c.Uses v name ∧ x = ⟨(c.databaseUser owner name).id, (c.keyOf "database" name c.name).id⟩ := by
  rw [List.mem_flatMap]
  constructor
  · rintro ⟨e, he, hx⟩
    rcases ht : c.known e with - | - | ⟨key, output⟩ | ⟨name, output⟩
    all_goals rw [ht] at hx
    · cases hx
    · cases hx
    · exact Or.inl ⟨⟨key.id, output⟩, ⟨e, he, _, known_eq_some_iff.1 ht, rfl⟩, List.mem_singleton.1 hx⟩
    · rcases List.mem_cons.1 hx with hx | hx
      · exact Or.inr ⟨name, ⟨e, he, output, known_eq_some_iff.1 ht⟩, hx⟩
      · exact Or.inl ⟨⟨_, output⟩, ⟨e, he, _, known_eq_some_iff.1 ht, rfl⟩, List.mem_singleton.1 hx⟩
  · rintro (⟨r, ⟨e, he, t, ht, hr⟩, rfl⟩ | ⟨name, ⟨e, he, output, ht⟩, rfl⟩)
    all_goals
      refine ⟨e, he, ?_⟩
      rw [known_eq_some_iff.2 ht]
    · cases t with
      | environment => cases hr
      | resource key output =>
        cases hr
        exact List.mem_singleton.2 rfl
      | database name output =>
        cases hr
        exact List.mem_cons_of_mem _ (List.mem_singleton.2 rfl)
    · exact List.mem_cons_self

theorem Clear.nameable_of_uses (hc : c.Clear owner v) {name : String} (h : c.Uses v name) : Nameable name := by
  obtain ⟨e, he, output, parts, hparts, hnames⟩ := h
  have hpart := isPart_of_partsOf? hparts (hc.expressions e he)
  cases hnames with
  | database name output => exact (hpart name (by simp)).2

/-- **The nodes of the graph with what tokens add**: the users of databases take the places of others with their
ids. -/
theorem mem_nodes_recorded (hc : c.Clear owner v) {n : AppNode} : n ∈ (c.recorded owner v g).nodes ↔
    (∃ name, c.Uses v name ∧ n = c.databaseUser owner name) ∨
      (n ∈ g.nodes ∧ ∀ name, c.Uses v name → n.id ≠ (c.databaseUser owner name).id) := by
  rw [recorded, Graph.nodes_insertEdges, Graph.mem_nodes_insertNodes ?_, mem_users_iff]
  · refine or_congr_right (and_congr_right fun _ => ?_)
    constructor
    · intro hnot name hname heq
      exact hnot (List.mem_map.2 ⟨_, mem_users_iff.2 ⟨name, hname, rfl⟩, heq.symm⟩)
    · intro hne hmem
      obtain ⟨m, hm, heq⟩ := List.mem_map.1 hmem
      obtain ⟨name, hname, rfl⟩ := mem_users_iff.1 hm
      exact hne name hname heq.symm
  · intro m hm n hn heq
    obtain ⟨a, ha, rfl⟩ := mem_users_iff.1 hm
    obtain ⟨b, hb, rfl⟩ := mem_users_iff.1 hn
    rw [databaseUser_id_inj (hc.nameable_of_uses ha) (hc.nameable_of_uses hb) heq]

/-- **The edges of the graph with what tokens add**: those from the owner to what is referred to, and those from the
users of databases to these. -/
theorem mem_edges_recorded {x : Edge} : x ∈ (c.recorded owner v g).edges ↔
    x ∈ g.edges ∨ (x.source ≠ x.target ∧
      ((∃ r, c.Refers owner v r ∧ x = ⟨owner, r.node⟩) ∨
        ∃ name, c.Uses v name ∧ x = ⟨(c.databaseUser owner name).id, (c.keyOf "database" name c.name).id⟩)) := by
  have hloop : x.isLoop = false ↔ x.source ≠ x.target := decide_eq_false_iff_not
  rw [recorded, Graph.mem_edges_insertEdges, Graph.edges_insertNodes, mem_links_iff, hloop,
    and_comm (b := x.source ≠ x.target)]

/-! ### Resolved inputs -/

/-- What resolving the tokens of a component in the inputs of a node comes to. -/
structure Resolved (c : Component) (owner : String) (v : Value) (g : AppGraph) (w : Value) (g' : AppGraph) :
    Prop where
  /-- Each text is written anew, and read in the pieces that it had with others in the place of tokens. -/
  texts : w = v.mapTexts (replaced (c.piece owner)) ∧ ∀ s ∈ v.texts,
    parse (replaced (c.piece owner) s) = gather [] ((parse s).map (substitute (c.piece owner)))
  /-- A token that refers to a node became a reference to it, and the owner depends on the node. -/
  reference : ∀ e ∈ visitExpressions v, ∀ t r, c.Means e t → c.reference? owner t = some r →
    c.piece owner e = .expr r.expression ∧ r.expression ∈ visitExpressions w ∧
      (r.node ≠ owner → ⟨owner, r.node⟩ ∈ g'.edges)
  /-- A token for the name of the environment became that name, if there is one. -/
  environment : ∀ e, c.Means e .environment → c.piece owner e = c.environment.elim (.expr e) .text
  /-- All other tokens stayed. -/
  rest : ∀ e, (∀ t, ¬ c.Means e t) → c.piece owner e = .expr e
  /-- A database that is referred to has a user, which depends on it. -/
  database : ∀ name, c.Uses v name → c.databaseUser owner name ∈ g'.nodes ∧
    ⟨(c.databaseUser owner name).id, (c.keyOf "database" name c.name).id⟩ ∈ g'.edges
  /-- The users of databases are all that changed among the nodes. -/
  nodes : ∀ n, n ∈ g'.nodes ↔ (∃ name, c.Uses v name ∧ n = c.databaseUser owner name) ∨
    (n ∈ g.nodes ∧ ∀ name, c.Uses v name → n.id ≠ (c.databaseUser owner name).id)
  /-- The edges to what is referred to, and from the users of databases to these, are all that came in. -/
  edges : ∀ x, x ∈ g'.edges ↔ x ∈ g.edges ∨ (x.source ≠ x.target ∧
    ((∃ r, c.Refers owner v r ∧ x = ⟨owner, r.node⟩) ∨
      ∃ name, c.Uses v name ∧ x = ⟨(c.databaseUser owner name).id, (c.keyOf "database" name c.name).id⟩))
  /-- Resolving once more changes nothing. -/
  again : ∀ k, c.resolve owner w k = (.ok w, k)

/-- **Resolving turns the tokens of a component into references**, adds what they depend on to the graph, and is done
then. -/
theorem resolved_of_resolve (hc : c.Clear owner v) (h : c.resolve owner v g = (.ok w, g')) :
    c.Resolved owner v g w g' := by
  obtain ⟨hall, rfl, rfl⟩ := resolve_eq_ok_iff.1 h
  have hlegible := hc.legible hall
  refine
    { texts := ⟨rfl, fun s hs => parse_replaced fun e he => hlegible e (mem_visitExpressions_iff.2 ⟨s, hs, he⟩)⟩
      reference := fun e he t r ht hr => ⟨piece_of_reference? ht hr, ?_, fun hne => ?_⟩
      environment := fun e he => piece_of_environment he
      rest := fun e he => piece_of_not_means he
      database := fun name hname => ⟨(mem_nodes_recorded hc).2 (Or.inl ⟨name, hname, rfl⟩), ?_⟩
      nodes := fun n => mem_nodes_recorded hc
      edges := fun x => mem_edges_recorded
      again := hc.resolve_mapTexts hall }
  · rw [visitExpressions_replaced hlegible]
    refine List.mem_flatMap.2 ⟨e, he, ?_⟩
    rw [piece_of_reference? ht hr]
    exact List.mem_singleton.2 rfl
  · exact mem_edges_recorded.2 (Or.inr ⟨hne.symm, Or.inl ⟨r, ⟨e, he, t, ht, hr⟩, rfl⟩⟩)
  · exact mem_edges_recorded.2 (Or.inr ⟨databaseUser_id_ne name name, Or.inr ⟨name, hname, rfl⟩⟩)

/-- A component that depends on another one. -/
def shop : Component := ⟨"shop", some "dev", [("auth", "acme/auth")]⟩

/-- Inputs with tokens of several kinds, in both forms. -/
def shopInputs : Value :=
  .obj
    [("db", .str "$\x7b\x7b databases.main.url \x7d\x7d"),
     ("links", .arr
       [.str "$\x7benvironment.name\x7d: $\x7bservices.web.host\x7d:$\x7bport\x7d",
        .str "$$\x7b\x7b $\x7bdependencies.auth.outputs.key\x7d"])]

/-- The same inputs with references to nodes. -/
def shopResolved : Value :=
  .obj
    [("db", .str "$\x7b\x7b dev/shop/databaseUser/dev/shop/api/main.url \x7d\x7d"),
     ("links", .arr
       [.str "dev: $\x7b\x7b dev/shop/service/web.host \x7d\x7d:$\x7b\x7b port \x7d\x7d",
        .str "$$\x7b\x7b $\x7b\x7b dev/acme/auth/secret/key.data \x7d\x7d"])]

/-- The inputs are resolved, and then stay. -/
theorem resolved_of_resolve_shop :
    shop.Clear "dev/shop/api" shopInputs ∧
      ∃ g : AppGraph, shop.resolve "dev/shop/api" shopInputs Graph.empty = (.ok shopResolved, g) ∧
        g.ids = ["dev/shop/databaseUser/dev/shop/api/main"] ∧
        g.edges =
          [⟨"dev/shop/databaseUser/dev/shop/api/main", "dev/shop/database/main"⟩,
           ⟨"dev/shop/api", "dev/shop/databaseUser/dev/shop/api/main"⟩,
           ⟨"dev/shop/api", "dev/shop/service/web"⟩, ⟨"dev/shop/api", "dev/acme/auth/secret/key"⟩] ∧
        shop.resolve "dev/shop/api" shopResolved g = (.ok shopResolved, g) := by
  have henvironment : ∀ s, shop.environment = some s → '$' ∉ s.toList ∧ '\x7d' ∉ s.toList := by
    intro s hs
    cases hs
    decide
  have hclear : shop.Clear "dev/shop/api" shopInputs :=
    { name := by decide
      environment := henvironment
      components := by decide
      owner := by decide
      expressions := by decide +kernel }
  have hvalues : (shop.resolve "dev/shop/api" shopInputs Graph.empty).1 = .ok shopResolved ∧
      (shop.resolve "dev/shop/api" shopInputs Graph.empty).2.ids = ["dev/shop/databaseUser/dev/shop/api/main"] ∧
      (shop.resolve "dev/shop/api" shopInputs Graph.empty).2.edges =
        [⟨"dev/shop/databaseUser/dev/shop/api/main", "dev/shop/database/main"⟩,
         ⟨"dev/shop/api", "dev/shop/databaseUser/dev/shop/api/main"⟩,
         ⟨"dev/shop/api", "dev/shop/service/web"⟩, ⟨"dev/shop/api", "dev/acme/auth/secret/key"⟩] := by
    decide +kernel
  have hrun : shop.resolve "dev/shop/api" shopInputs Graph.empty
      = (.ok shopResolved, (shop.resolve "dev/shop/api" shopInputs Graph.empty).2) := Prod.ext hvalues.1 rfl
  exact ⟨hclear, _, hrun, hvalues.2.1, hvalues.2.2, (resolved_of_resolve hclear hrun).again _⟩

end Component

end Groundwork
