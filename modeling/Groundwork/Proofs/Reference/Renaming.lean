import Groundwork.Proofs.Data.Table
import Groundwork.Proofs.Infrastructure.Changes
import Groundwork.Proofs.Template.Recoloring

/-!
# References under new names

A reference is an expression, and giving its node another name gives another expression.  The incarnations
of a key have ids that differ in their colors only, so a reference to the one is plain if a reference to the
other is.

Main statements: a reference is plain if its id and its key can stand in references (`plain_expression_of_forall`), a
renamed value holds the renamed expressions (`visitExpressions_rename`), a renamed reference to an incarnation is
plain again (`plain_expression`), and references that can be resolved resolve to the same with more outputs
(`resolve_of_within`).
-/

namespace Groundwork

/-! ### Ids in references -/

namespace InfraNode

/-- The characters of an id: those of the key, an at-sign and the color. -/
theorem toList_idOf (k : Key) (c : Color) : (idOf k c).toList = k.idChars ++ '@' :: c.name.toList := by
  simp [idOf, Key.id, String.toList_append]

theorem mem_idOf {k : Key} {c : Color} {x : Char} (h : x ∈ (idOf k c).toList) :
    x ≠ '.' ∧ Text.isBlank x = false := by
  rw [toList_idOf] at h
  rcases List.mem_append.1 h with h | h
  · exact ⟨fun e => Key.dot_not_mem_id k (e ▸ h), Key.isBlank_of_mem_id h⟩
  · have hall : ('@' :: c.name.toList).all (fun y => y != '.' && !Text.isBlank y) = true := by
      cases c <;> rfl
    have hx := List.all_eq_true.1 hall x h
    simpa using hx

theorem toList_idOf_ne_nil (k : Key) (c : Color) : (idOf k c).toList ≠ [] := by
  rw [toList_idOf]
  exact List.append_ne_nil_of_right_ne_nil _ (List.cons_ne_nil _ _)

theorem mem_referencedIds {n : InfraNode} {id : String} :
    id ∈ n.referencedIds ↔
      ∃ e ∈ Template.visitExpressions n.inputs, ∃ r, Reference.ofExpression? e = some r ∧ r.node = id := by
  rw [referencedIds, List.mem_eraseDups, List.mem_map]
  constructor
  · rintro ⟨r, hr, hid⟩
    obtain ⟨e, he, hr⟩ := List.mem_filterMap.1 hr
    exact ⟨e, he, r, hr, hid⟩
  · rintro ⟨e, he, r, hr, hid⟩
    exact ⟨r, List.mem_filterMap.2 ⟨e, he, hr⟩, hid⟩

end InfraNode

/-- Whether an id holds no dot, no blank and no closing brace. -/
def Nameable (id : String) : Prop := ∀ c ∈ id.toList, c ≠ '.' ∧ Text.isBlank c = false ∧ c ≠ '\x7d'

instance : DecidablePred Nameable := fun id => List.decidableBAll _ id.toList

namespace Key

/-- Only dashes come into an id. -/
theorem mem_of_mem_clean {s : String} {x : Char} (hx : x ≠ '-') (h : x ∈ clean s) : x ∈ s.toList := by
  obtain ⟨y, hy, hclean⟩ := List.mem_map.1 h
  unfold cleanChar at hclean
  split at hclean
  · exact absurd hclean.symm hx
  · exact hclean ▸ hy

/-- Parts that can stand in references stay as they are within ids. -/
theorem clean_of_nameable {s : String} (hs : Nameable s) : clean s = s.toList := by
  have hchar : ∀ x ∈ s.toList, cleanChar x = x := fun x hx => if_neg (by simp [(hs x hx).1, (hs x hx).2.1])
  rw [clean, List.map_congr_left hchar, List.map_id']

/-- The id of a key can stand in references if there is no closing brace in the key. -/
theorem nameable_id {k : Key} (htype : '\x7d' ∉ k.resourceType.toList) (hname : '\x7d' ∉ k.name.toList)
    (hcomponent : ∀ s, k.component = some s → '\x7d' ∉ s.toList)
    (henvironment : ∀ s, k.environment = some s → '\x7d' ∉ s.toList) : Nameable k.id := by
  have hclean : ∀ {s : String}, '\x7d' ∉ s.toList → '\x7d' ∉ clean s :=
    fun hs hmem => hs (mem_of_mem_clean (by decide) hmem)
  have hscope : ∀ o : Option String, (∀ s, o = some s → '\x7d' ∉ s.toList) → '\x7d' ∉ cleanScope o := by
    intro o ho
    cases o with
    | none => exact List.not_mem_nil
    | some s => simpa [cleanScope] using hclean (ho s rfl)
  have hbrace : '\x7d' ∉ k.idChars := by
    simp [idChars, hscope _ hcomponent, hscope _ henvironment, hclean htype, hclean hname]
  intro x hx
  rw [id, String.toList_ofList] at hx
  exact ⟨fun hdot => dot_not_mem_id k (hdot ▸ hx), isBlank_of_mem_id hx, fun heq => hbrace (heq ▸ hx)⟩

end Key

namespace Reference

open Template

/-- A reference splits an expression in two. -/
theorem eq_expression_of_ofExpression? {e : String} {r : Reference} (h : ofExpression? e = some r) :
    e = r.expression ∧ r.key ≠ "" := by
  obtain ⟨p, hp, rfl⟩ := Option.map_eq_some_iff.1 h
  unfold splitChars? at hp
  split at hp
  · rename_i id key hcut
    split at hp
    · cases hp
    · rename_i hparts
      cases hp
      simp only [Bool.or_eq_true, List.isEmpty_iff, not_or] at hparts
      refine ⟨String.toList_inj.1 ?_, fun hkey => hparts.1.2 ?_⟩
      · rw [Text.cut_eq hcut]
        simp [expression, String.toList_append]
      · simpa using congrArg String.toList hkey
  · cases hp

theorem toList_expression (r : Reference) : r.expression.toList = r.node.toList ++ '.' :: r.key.toList := by
  simp [expression, String.toList_append]

/-- A reference ends as its key does. -/
theorem getLast?_expression (id : String) {key : String} (hkey : key ≠ "") :
    (expression ⟨id, key⟩).toList.getLast? = key.toList.getLast? := by
  rw [toList_expression]
  cases hl : key.toList with
  | nil => exact absurd (String.toList_inj.1 hl) hkey
  | cons a l => simp [List.getLast?_append, List.getLast?_cons]

/-- A reference has no blanks at its ends if its id holds none and its key does not end in one. -/
theorem trim_expression_of_forall {r : Reference} (hnode : ∀ c ∈ r.node.toList, Text.isBlank c = false)
    (hend : ∀ c, r.key.toList.getLast? = some c → Text.isBlank c = false) :
    Text.trim r.expression.toList = r.expression.toList := by
  rw [toList_expression]
  refine Text.trim_eq_self (fun c hc => ?_) fun c hc => ?_
  · cases hn : r.node.toList with
    | nil =>
      rw [hn] at hc
      cases hc
      decide
    | cons a l =>
      rw [hn] at hc hnode
      exact hnode c (List.mem_of_head? hc)
  · cases hk : r.key.toList with
    | nil =>
      rw [hk, List.getLast?_append] at hc
      cases hc
      decide
    | cons a l =>
      refine hend c ?_
      rw [hk] at hc ⊢
      simpa [List.getLast?_append, List.getLast?_cons] using hc

/-- A reference reads back, unless its id holds a dot or a blank or is empty, or its key is. -/
theorem ofExpression?_of_forall {r : Reference} (hid : r.node ≠ "") (hkey : r.key ≠ "")
    (h : ∀ c ∈ r.node.toList, c ≠ '.' ∧ Text.isBlank c = false) : ofExpression? r.expression = some r := by
  have hsplit : splitChars? (r.node.toList ++ '.' :: r.key.toList) = some (r.node.toList, r.key.toList) :=
    split?_join (fun hdot => (h _ hdot).1 rfl) (fun c hc => (h c hc).2) (by simpa using hid) (by simpa using hkey)
  rw [ofExpression?, toList_expression, hsplit]
  simp

/-- A reference to an incarnation reads back. -/
theorem ofExpression?_expression {k : Key} {c : Color} {key : String} (h : key ≠ "") :
    ofExpression? (expression ⟨InfraNode.idOf k c, key⟩) = some ⟨InfraNode.idOf k c, key⟩ :=
  ofExpression?_of_forall (fun hid => InfraNode.toList_idOf_ne_nil k c (by simpa using hid)) h
    fun _ => InfraNode.mem_idOf

/-- References to two incarnations of a key differ in their colors. -/
theorem expression_recolored (k : Key) (c d : Color) (key : String) :
    Recolored (expression ⟨InfraNode.idOf k c, key⟩).toList (expression ⟨InfraNode.idOf k d, key⟩).toList := by
  have hchars : ∀ x : Color, (expression ⟨InfraNode.idOf k x, key⟩).toList
      = k.idChars ++ (x.mark ++ key.toList) := by
    intro x
    simp [expression, InfraNode.toList_idOf, String.toList_append, Color.mark]
  rw [hchars, hchars]
  exact (Recolored.refl _).append (.mark c d (.refl _))

/-- A reference to an incarnation has no blanks at its ends if one to another incarnation of the key has none. -/
theorem trim_expression {k : Key} {c d : Color} {key : String} (hkey : key ≠ "")
    (h : Text.trim (expression ⟨InfraNode.idOf k c, key⟩).toList = (expression ⟨InfraNode.idOf k c, key⟩).toList) :
    Text.trim (expression ⟨InfraNode.idOf k d, key⟩).toList = (expression ⟨InfraNode.idOf k d, key⟩).toList := by
  refine trim_expression_of_forall (fun x hx => (InfraNode.mem_idOf hx).2) fun x hx => ?_
  rw [← getLast?_expression (InfraNode.idOf k c) hkey, ← h] at hx
  exact Text.getLast_trim hx

/-- **A reference to an incarnation is plain if one to another incarnation of the key is.** -/
theorem plain_expression {k : Key} {c d : Color} {key : String} (hkey : key ≠ "")
    (h : Plain (expression ⟨InfraNode.idOf k c, key⟩)) : Plain (expression ⟨InfraNode.idOf k d, key⟩) := by
  refine ⟨trim_expression hkey h.1, ?_⟩
  rw [← contains_closer_recolored (expression_recolored k c d key)]
  exact h.2

/-- **A reference by an id that can stand in references is plain** if its key could stand there too. -/
theorem plain_expression_of_forall {r : Reference} (hnode : Nameable r.node) (hkey : Nameable r.key) :
    Plain r.expression := by
  have hbrace : ∀ x ∈ r.expression.toList, x ≠ '\x7d' := by
    rw [toList_expression, List.forall_mem_append, List.forall_mem_cons]
    exact ⟨fun x hx => (hnode x hx).2.2, by decide, fun x hx => (hkey x hx).2.2⟩
  refine ⟨trim_expression_of_forall (fun x hx => (hnode x hx).2.1) fun x hx => ?_, ?_⟩
  · exact (hkey x (List.mem_of_getLast? hx)).2.1
  · exact Text.contains_of_not_mem fun hmem => hbrace _ hmem rfl

/-! ### Renaming -/

/-- An expression with another name for the node that it refers to, if there is one. -/
def renameExpression (names : Table String) (e : String) : String :=
  match ofExpression? e with
  | none => e
  | some r => (names.lookup r.node).elim e fun node => expression ⟨node, r.key⟩

/-- What renaming puts in the place of a token. -/
def renamedToken (names : Table String) (e : String) : Id (Option Value) := pure do
  let r ← ofExpression? e
  let node ← names.lookup r.node
  some (.str (token ⟨node, r.key⟩))

theorem rename_eq (names : Table String) (v : Value) :
    rename names v = Id.run (mapExpressions (renamedToken names) v) := rfl

theorem rewrites_renamedToken (names : Table String) :
    Rewrites (renameExpression names) (renamedToken names) := by
  intro e
  unfold renamedToken renameExpression
  cases ofExpression? e with
  | none => exact Or.inl ⟨rfl, rfl⟩
  | some r =>
    cases hnode : names.lookup r.node with
    | none =>
      refine Or.inl ⟨?_, ?_⟩
      · show ((names.lookup r.node).bind fun node => some (Value.str (token ⟨node, r.key⟩))) = none
        rw [hnode]
        rfl
      · show (names.lookup r.node).elim e (fun node => expression ⟨node, r.key⟩) = e
        rw [hnode]
        rfl
    | some node =>
      refine Or.inr ?_
      show ((names.lookup r.node).bind fun node => some (Value.str (token ⟨node, r.key⟩)))
        = some (.str (renderToken ((names.lookup r.node).elim e fun node => expression ⟨node, r.key⟩)))
      rw [hnode]
      rfl

/-- **A renamed value holds the renamed expressions.** -/
theorem visitExpressions_rename {names : Table String} {v : Value}
    (h : ∀ e ∈ visitExpressions v, Plain (renameExpression names e)) :
    visitExpressions (rename names v) = (visitExpressions v).map (renameExpression names) :=
  visitExpressions_mapExpressions (rewrites_renamedToken names) h

/-- Renaming depends on the names of nodes that a value refers to only. -/
theorem rename_congr {names names' : Table String} {v : Value}
    (h : ∀ e ∈ visitExpressions v, ∀ r, ofExpression? e = some r → names.lookup r.node = names'.lookup r.node) :
    rename names v = rename names' v := by
  have hagree : ∀ e ∈ visitExpressions v, renamedToken names e = renamedToken names' e := by
    intro e he
    unfold renamedToken
    cases hr : ofExpression? e with
    | none => rfl
    | some r =>
      show (pure ((names.lookup r.node).bind _) : Id _) = pure ((names'.lookup r.node).bind _)
      rw [h e he r hr]
  rw [rename_eq, rename_eq, mapExpressions_congr hagree]

/-! ### Renaming in two ways -/

/-- Whether two ids are the same up to their colors. -/
def Namesakes (a b : List Char) : Prop :=
  a = b ∨ ∃ (k : List Char) (c d : Color), a = k ++ '@' :: c.name.toList ∧ b = k ++ '@' :: d.name.toList

theorem Namesakes.cons {a b : List Char} (h : Namesakes a b) (x : Char) : Namesakes (x :: a) (x :: b) := by
  rcases h with rfl | ⟨k, c, d, rfl, rfl⟩
  · exact Or.inl rfl
  · exact Or.inr ⟨x :: k, c, d, rfl, rfl⟩

/-- What an id of a key has as a namesake is an id of that key. -/
theorem Namesakes.exists_color {a : List Char} {k : Key} {c : Color}
    (h : Namesakes a (InfraNode.idOf k c).toList) : ∃ d, a = (InfraNode.idOf k d).toList := by
  rcases h with rfl | ⟨l, d, e, rfl, hid⟩
  · exact ⟨c, rfl⟩
  · rw [InfraNode.toList_idOf] at hid
    refine ⟨d, ?_⟩
    rw [InfraNode.toList_idOf, (Color.append_name_inj hid).1]

theorem Namesakes.any_isBlank {a b : List Char} (h : Namesakes a b) :
    a.any Text.isBlank = b.any Text.isBlank := by
  have hcolor : ∀ c : Color, ('@' :: c.name.toList).any Text.isBlank = false := fun c => by cases c <;> rfl
  rcases h with rfl | ⟨k, c, d, rfl, rfl⟩
  · rfl
  · rw [List.any_append, List.any_append, hcolor, hcolor]

theorem Namesakes.isEmpty {a b : List Char} (h : Namesakes a b) : a.isEmpty = b.isEmpty := by
  rcases h with rfl | ⟨k, c, d, rfl, rfl⟩
  · rfl
  · cases k <;> rfl

/-- The first dots of texts that differ in colors divide ids that differ in colors from what follows. -/
theorem cut_dot_recolored {s t : List Char} (h : Recolored s t) :
    ∀ b y, Text.cut ['.'] t = some (b, y) →
      ∃ a x, Text.cut ['.'] s = some (a, x) ∧ Namesakes a b ∧ Recolored x y := by
  have hdot : ∀ (c : Color) (u : List Char), Text.cut ['.'] (c.mark ++ u) = some ('@' :: c.name.toList, u) := by
    intro c u
    have hname : '.' ∉ '@' :: c.name.toList := by cases c <;> decide
    rw [← cut_dot hname, Color.mark]
    simp
  induction h with
  | nil =>
    intro b y hcut
    cases hcut
  | mark c d h ih =>
    intro b y hcut
    rw [hdot] at hcut
    cases hcut
    exact ⟨_, _, hdot c _, Or.inr ⟨[], c, d, rfl, rfl⟩, h⟩
  | cons c h ih =>
    intro b y hcut
    by_cases hc : '.' = c
    · subst hc
      have hstart : ∀ u : List Char, Text.cut ['.'] ('.' :: u) = some ([], u) :=
        fun u => @cut_dot [] u List.not_mem_nil
      rw [hstart] at hcut
      cases hcut
      exact ⟨_, _, hstart _, Or.inl rfl, h⟩
    · have hstep : ∀ u : List Char,
          Text.cut ['.'] (c :: u) = (Text.cut ['.'] u).map fun p => (c :: p.1, p.2) := by
        intro u
        rw [Text.cut, show Text.dropStart ['.'] (c :: u) = none from if_neg hc]
      rw [hstep] at hcut
      obtain ⟨⟨b', y'⟩, hcut', hparts⟩ := Option.map_eq_some_iff.1 hcut
      cases hparts
      obtain ⟨a, x, ha, hids, hkeys⟩ := ih b' y' hcut'
      exact ⟨c :: a, x, by rw [hstep, ha]; rfl, hids.cons c, hkeys⟩

/-- **Expressions that differ in colors refer to incarnations of the same keys.** -/
theorem ofExpression?_recolored {e e' : String} (h : Recolored e.toList e'.toList) {s : Reference}
    (hs : ofExpression? e' = some s) :
    ∃ r, ofExpression? e = some r ∧ ∀ k c, s.node = InfraNode.idOf k c → ∃ d, r.node = InfraNode.idOf k d := by
  obtain ⟨⟨b, y⟩, hsplit, rfl⟩ := Option.map_eq_some_iff.1 hs
  unfold splitChars? at hsplit
  split at hsplit
  · rename_i b' y' hcut
    split at hsplit
    · cases hsplit
    · rename_i hparts
      cases hsplit
      obtain ⟨a, x, hcut', hids, hkeys⟩ := cut_dot_recolored h b y hcut
      have hsplit' : splitChars? e.toList = some (a, x) := by
        unfold splitChars?
        rw [hcut']
        dsimp only
        rw [hids.isEmpty, hkeys.isEmpty, hids.any_isBlank, if_neg hparts]
      refine ⟨⟨String.ofList a, String.ofList x⟩, by rw [ofExpression?, hsplit']; rfl, fun k c hnode => ?_⟩
      have hb : b = (InfraNode.idOf k c).toList := by
        rw [← hnode, String.toList_ofList]
      rw [hb] at hids
      obtain ⟨d, hd⟩ := hids.exists_color
      refine ⟨d, ?_⟩
      rw [hd]
      exact String.ofList_toList
  · cases hsplit

/-! ### Resolving -/

theorem lookup_eq_ok_iff {outputs : Table Value} {e : String} {v : Value} :
    lookup outputs e = .ok v ↔
      ∃ r o, ofExpression? e = some r ∧ outputs.lookup r.node = some o ∧ output? o r.key = some v := by
  unfold lookup
  cases ofExpression? e with
  | none => simp
  | some r =>
    cases ho : outputs.lookup r.node with
    | none => simp [ho]
    | some o =>
      cases hv : output? o r.key with
      | none => simp [ho, hv]
      | some w => simp [ho, hv]

/-- A reference to a node with outputs fails only for the key. -/
theorem lookup_eq_error {outputs : Table Value} {e : String} {r : Reference} {o : Value}
    {cause : ExpressionError} (hr : ofExpression? e = some r) (ho : outputs.lookup r.node = some o)
    (h : lookup outputs e = .error cause) : cause = .missingOutputKey r.node r.key ∧ output? o r.key = none := by
  unfold lookup at h
  rw [hr] at h
  dsimp only at h
  rw [ho] at h
  cases hv : output? o r.key with
  | none =>
    simp only [hv, Except.error.injEq] at h
    exact ⟨h.symm, rfl⟩
  | some v =>
    simp only [hv] at h
    cases h

/-- What cannot be resolved holds an expression that is not found. -/
theorem exists_lookup_eq_error {outputs : Table Value} {v : Value} {cause : ExpressionError}
    (h : resolve outputs v = .error cause) : ∃ e ∈ visitExpressions v, lookup outputs e = .error cause := by
  obtain ⟨e, he, herr⟩ := exists_eq_error_of_mapExpressions h
  refine ⟨e, he, ?_⟩
  cases hv : lookup outputs e with
  | error err =>
    rw [hv] at herr
    exact congrArg Except.error (Except.error.inj herr)
  | ok y =>
    rw [hv] at herr
    cases herr

/-- What can be resolved is resolved in the same way by outputs that agree where it matters. -/
theorem resolve_mono {outputs outputs' : Table Value} {v w : Value} (h : resolve outputs v = .ok w)
    (ho : ∀ e ∈ visitExpressions v, ∀ r, ofExpression? e = some r → ∀ o,
      outputs.lookup r.node = some o → outputs'.lookup r.node = some o) : resolve outputs' v = .ok w := by
  refine mapExpressions_mono h fun e he x hx => ?_
  cases hv : lookup outputs e with
  | error err =>
    rw [hv] at hx
    cases hx
  | ok y =>
    obtain ⟨r, o, hr, hlookup, hkey⟩ := lookup_eq_ok_iff.1 hv
    have hv' : lookup outputs' e = .ok y := lookup_eq_ok_iff.2 ⟨r, o, hr, ho e he r hr o hlookup, hkey⟩
    rw [hv] at hx
    rw [hv']
    exact hx

/-- **More outputs resolve what could be resolved before to the same.** -/
theorem resolve_of_within {outputs outputs' : Table Value} {v w : Value} (ho : outputs.Within outputs')
    (h : resolve outputs v = .ok w) : resolve outputs' v = .ok w :=
  resolve_mono h fun _ _ r _ o => ho r.node o

/-- Every expression of what can be resolved is found. -/
theorem exists_lookup_eq_ok {outputs : Table Value} {v w : Value} (h : resolve outputs v = .ok w) {e : String}
    (he : e ∈ visitExpressions v) : ∃ y, lookup outputs e = .ok y := by
  obtain ⟨x, hx⟩ := exists_eq_ok_of_mapExpressions h e he
  cases hv : lookup outputs e with
  | error err =>
    rw [hv] at hx
    cases hx
  | ok y => exact ⟨y, rfl⟩

/-- **What can be resolved refers to nodes with outputs only.** -/
theorem exists_output_of_referenced {outputs : Table Value} {n : InfraNode} {w : Value}
    (h : resolve outputs n.inputs = .ok w) {id : String} (hid : id ∈ n.referencedIds) :
    ∃ v, outputs.lookup id = some v := by
  obtain ⟨e, he, r, hr, rfl⟩ := InfraNode.mem_referencedIds.1 hid
  obtain ⟨y, hy⟩ := exists_lookup_eq_ok h he
  obtain ⟨r', v, hr', hlookup, -⟩ := lookup_eq_ok_iff.1 hy
  have hsame : r' = r := Option.some.inj (hr'.symm.trans hr)
  subst hsame
  exact ⟨v, hlookup⟩

end Reference

end Groundwork
