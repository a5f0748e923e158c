import Groundwork.Compile.Hook
import Groundwork.Proofs.Data.Table
import Groundwork.Proofs.Graph.Contents
import Groundwork.Proofs.Template.Splicing
import Mathlib.Data.List.Nodup
import Mathlib.Data.List.Perm.Subperm
import Mathlib.Logic.Relation

/-!
# Linking inputs to outputs

Linking replaces the tokens that name an output of an app node, pass after pass, until none is left or the passes
are used up.  Where inputs and outputs are tidy a pass neither loses a token nor makes one up: a token that no
output belongs to stays to the end, and every token of the end was there at the beginning or came in with an
output that was named on the way (`linked_linkInputs`).

Each pass goes on by one app node along the outputs that name further ones.  If no app node leads back to itself, no
chain is longer than there are app nodes, and that many passes leave nothing to link.

Main statements: inputs that are settled stay as they are with any further pass (`linkInputs_of_le`), outputs that
agree on all tokens that come up on the way link alike (`linkInputs_congr`), and linking follows the outputs to the
end (`settled_of_mem_link`).
-/

namespace Groundwork.Compile

open Template

variable {outputs outputs' : Table Value} {v : Value}

/-! ### One pass -/

/-- An output that an expression names is a part of the outputs of a node. -/
theorem exists_of_linked? {e : String} {w : Value} (h : linked? outputs e = some w) :
    ∃ r o, Reference.ofExpression? e = some r ∧ outputs.lookup r.node = some o ∧ w ∈ o.parts := by
  obtain ⟨r, hr, h⟩ := Option.bind_eq_some_iff.1 h
  obtain ⟨o, ho, h⟩ := Option.bind_eq_some_iff.1 h
  refine ⟨r, o, hr, ho, ?_⟩
  rcases Option.or_eq_some_iff.1 h with hkey | ⟨-, hpath⟩
  · exact Value.mem_parts_of_get? hkey
  · obtain ⟨p, -, hfound⟩ := Option.bind_eq_some_iff.1 hpath
    exact Value.mem_parts_of_find? hfound

theorem linked?_eq_output? {e : String} {r : Reference} {o : Value} (hr : Reference.ofExpression? e = some r)
    (ho : outputs.lookup r.node = some o) : linked? outputs e = Reference.output? o r.key := by
  rw [linked?, hr]
  show (outputs.lookup r.node).bind _ = _
  rw [ho]
  rfl

theorem linked?_eq_none {e : String} (h : ∀ r, Reference.ofExpression? e = some r → outputs.lookup r.node = none) :
    linked? outputs e = none := by
  rw [linked?]
  cases hr : Reference.ofExpression? e with
  | none => rfl
  | some r =>
    show (outputs.lookup r.node).bind _ = none
    rw [h r hr]
    rfl

theorem linked?_congr {e : String}
    (h : ∀ r, Reference.ofExpression? e = some r → outputs'.lookup r.node = outputs.lookup r.node) :
    linked? outputs' e = linked? outputs e := by
  rw [linked?, linked?]
  cases hr : Reference.ofExpression? e with
  | none => rfl
  | some r =>
    show (outputs'.lookup r.node).bind _ = (outputs.lookup r.node).bind _
    rw [h r hr]

/-- Whether the outputs of all app nodes are tidy. -/
def TidyOutputs (outputs : Table Value) : Prop := ∀ id o, outputs.lookup id = some o → TidyParts o

theorem TidyOutputs.linked? (h : TidyOutputs outputs) {e : String} {w : Value}
    (hw : Compile.linked? outputs e = some w) : TidyParts w := by
  obtain ⟨r, o, -, ho, hpart⟩ := exists_of_linked? hw
  exact (h r.node o ho).part hpart

/-- One pass over tidy inputs. -/
theorem spliced_linkOnce (ho : TidyOutputs outputs) (hv : TidyTexts v) :
    Spliced (linked? outputs) (visitExpressions v) (linkOnce outputs v) :=
  spliced_splice hv fun _ _ _ hw => ho.linked? hw

/-! ### All passes -/

/-- The tokens that linking can come to from some tokens: themselves, and those in the outputs that they name. -/
inductive Follows (outputs : Table Value) (l : List String) : String → Prop
  | start {e : String} (h : e ∈ l) : Follows outputs l e
  | put {e e' : String} {w : Value} (h : Follows outputs l e) (hw : linked? outputs e = some w)
      (he' : e' ∈ w.mentions) : Follows outputs l e'

/-- What linking makes of tidy inputs: they are tidy, the tokens that no output belongs to are still there, and
all tokens follow from those at the beginning. -/
structure Linked (outputs : Table Value) (l : List String) (w : Value) : Prop where
  tidy : TidyTexts w
  kept : ∀ e ∈ l, linked? outputs e = none → e ∈ visitExpressions w
  source : ∀ e ∈ visitExpressions w, Follows outputs l e

/-- What follows from the tokens after a pass follows from those before it. -/
theorem Follows.of_splice {l : List String} (h : Spliced (linked? outputs) l v) {e : String}
    (he : Follows outputs (visitExpressions v) e) : Follows outputs l e := by
  induction he with
  | start he =>
    rcases h.source _ he with ⟨he, -⟩ | ⟨e, he, w, hw, hmentions⟩
    · exact .start he
    · exact .put (.start he) hw hmentions
  | put _ hw hmentions ih => exact .put ih hw hmentions

/-- **Linking tidy inputs loses no token and makes none up.** -/
theorem linked_linkInputs (ho : TidyOutputs outputs) (n : Nat) (hv : TidyTexts v) :
    Linked outputs (visitExpressions v) (linkInputs outputs n v) := by
  have hsame : Linked outputs (visitExpressions v) v := ⟨hv, fun e he _ => he, fun e he => .start he⟩
  induction n generalizing v with
  | zero => exact hsame
  | succ n ih =>
    rw [linkInputs]
    split
    · have hpass := spliced_linkOnce ho hv
      have hrest := ih hpass.tidy ⟨hpass.tidy, fun e he _ => he, fun e he => .start he⟩
      exact ⟨hrest.tidy, fun e he hnone => hrest.kept e (hpass.kept e he hnone) hnone,
        fun e he => (hrest.source e he).of_splice hpass⟩
    · exact hsame

/-! ### Settled inputs -/

/-- Whether no token names an output. -/
def Settled (outputs : Table Value) (v : Value) : Prop := ∀ e ∈ visitExpressions v, linked? outputs e = none

theorem linkInputs_of_settled (h : Settled outputs v) (n : Nat) : linkInputs outputs n v = v := by
  cases n with
  | zero => rfl
  | succ n =>
    have hany : (visitExpressions v).any (fun e => (linked? outputs e).isSome) = false := by
      rw [List.any_eq_false]
      intro e he
      rw [h e he]
      simp
    rw [linkInputs, hany]
    rfl

/-- Passes can be counted in two parts. -/
theorem linkInputs_add (n k : Nat) : linkInputs outputs (n + k) v = linkInputs outputs k (linkInputs outputs n v) := by
  induction n generalizing v with
  | zero => rw [Nat.zero_add, linkInputs]
  | succ n ih =>
    rw [Nat.add_right_comm, linkInputs, linkInputs]
    split
    · exact ih
    · rename_i hnone
      refine (linkInputs_of_settled (fun e he => ?_) k).symm
      rw [Bool.not_eq_true, List.any_eq_false] at hnone
      simpa using hnone e he

/-- **Further passes leave settled inputs as they are.** -/
theorem linkInputs_of_le {n k : Nat} (hnk : n ≤ k) (h : Settled outputs (linkInputs outputs n v)) :
    linkInputs outputs k v = linkInputs outputs n v := by
  rw [← Nat.add_sub_of_le hnk, linkInputs_add]
  exact linkInputs_of_settled h (k - n)

/-! ### Other outputs -/

/-- **Outputs that agree on all tokens that come up link alike.** -/
theorem linkInputs_congr {n : Nat}
    (h : ∀ k, ∀ e ∈ visitExpressions (linkInputs outputs k v), linked? outputs' e = linked? outputs e) :
    linkInputs outputs' n v = linkInputs outputs n v := by
  induction n generalizing v with
  | zero => rfl
  | succ n ih =>
    have hnow : ∀ e ∈ visitExpressions v, linked? outputs' e = linked? outputs e := h 0
    have hany : (visitExpressions v).any (fun e => (linked? outputs' e).isSome)
        = (visitExpressions v).any fun e => (linked? outputs e).isSome := by
      rw [Bool.eq_iff_iff, List.any_eq_true, List.any_eq_true]
      exact exists_congr fun e => and_congr_right fun he => by rw [hnow e he]
    have honce : linkOnce outputs' v = linkOnce outputs v :=
      congrArg Id.run (mapExpressions_congr fun e he => congrArg _ (hnow e he))
    rw [linkInputs, linkInputs, hany, honce]
    split
    · rename_i hsome
      refine ih fun k e he => h (k + 1) e ?_
      rw [linkInputs, if_pos hsome]
      exact he
    · rfl

/-! ### Chains of outputs -/

/-- Whether what can be put in for an app node names another one that has outputs. -/
def Names (outputs : Table Value) (a b : String) : Prop :=
  ∃ o, outputs.lookup a = some o ∧ outputs.has b = true ∧
    ∃ e ∈ o.mentions, ∃ r, Reference.ofExpression? e = some r ∧ r.node = b

/-- **What can still be linked after some passes has come through as many app nodes**, each of which names the one
before it in the list. -/
theorem exists_chain_of_linked? (ho : TidyOutputs outputs) (hv : TidyTexts v) (n : Nat) {e : String} {w : Value}
    (he : e ∈ visitExpressions (linkInputs outputs n v)) (hw : linked? outputs e = some w) :
    ∃ r l, Reference.ofExpression? e = some r ∧ l.length = n ∧
      (r.node :: l).IsChain (fun b a => Names outputs a b) ∧ r.node :: l ⊆ outputs.keys := by
  have hkey : ∀ {a : String} {o : Value}, outputs.lookup a = some o → a ∈ outputs.keys :=
    fun h => Table.mem_keys_iff.2 ⟨_, h⟩
  induction n generalizing e w with
  | zero =>
    obtain ⟨r, o, hr, ho', -⟩ := exists_of_linked? hw
    exact ⟨r, [], hr, rfl, List.IsChain.singleton _, by simpa using hkey ho'⟩
  | succ n ih =>
    have htidy := (linked_linkInputs ho n hv).tidy
    rw [linkInputs_add n 1, linkInputs] at he
    split at he
    · rw [linkInputs] at he
      rcases (spliced_linkOnce ho htidy).source e he with ⟨-, hnone⟩ | ⟨e₀, he₀, x, hx, hmentions⟩
      · rw [hnone] at hw
        cases hw
      · obtain ⟨r₀, l, hr₀, hlength, hchain, hkeys⟩ := ih he₀ hx
        obtain ⟨r, o, hr, ho', -⟩ := exists_of_linked? hw
        obtain ⟨r', o₀, hr', ho₀, hpart⟩ := exists_of_linked? hx
        cases hr₀.symm.trans hr'
        have hnames : Names outputs r₀.node r.node :=
          ⟨o₀, ho₀, by rw [Table.has, ho']; rfl, e, Value.mentions_subset hpart hmentions, r, hr, rfl⟩
        exact ⟨r, r₀.node :: l, hr, congrArg (· + 1) hlength, List.isChain_cons_cons.2 ⟨hnames, hchain⟩,
          List.cons_subset.2 ⟨hkey ho', hkeys⟩⟩
    · -- nothing was left to link before this pass
      rename_i hnone
      rw [Bool.not_eq_true, List.any_eq_false] at hnone
      exact absurd (hw ▸ rfl : (linked? outputs e).isSome = true) (hnone e he)

/-- No app node stands twice in a chain, if none leads back to itself. -/
theorem nodup_of_isChain (hacyclic : ∀ a, ¬ Relation.TransGen (Names outputs) a a) {l : List String}
    (h : l.IsChain fun b a => Names outputs a b) : l.Nodup := by
  have hpairs : l.Pairwise fun b a => Relation.TransGen (Names outputs) a b := by
    have htrans : IsTrans String fun b a => Relation.TransGen (Names outputs) a b :=
      ⟨fun _ _ _ hab hbc => hbc.trans hab⟩
    exact List.isChain_iff_pairwise.1 (h.imp fun _ _ hnames => .single hnames)
  refine List.Pairwise.imp ?_ hpairs
  rintro b _ hlead rfl
  exact hacyclic b hlead

/-- **As many passes as there are app nodes with outputs leave nothing to link**, if no app node leads back to
itself. -/
theorem settled_linkInputs (ho : TidyOutputs outputs) (hv : TidyTexts v)
    (hacyclic : ∀ a, ¬ Relation.TransGen (Names outputs) a a) {n : Nat} (hn : outputs.length ≤ n) :
    Settled outputs (linkInputs outputs n v) := by
  intro e he
  by_contra hsome
  obtain ⟨w, hw⟩ := Option.ne_none_iff_exists'.1 hsome
  obtain ⟨r, l, -, hlength, hchain, hkeys⟩ := exists_chain_of_linked? ho hv n he hw
  have hle := ((nodup_of_isChain hacyclic hchain).subperm hkeys).length_le
  rw [List.length_cons, hlength, Table.keys, List.length_map] at hle
  omega

/-- A pass over settled inputs writes their tokens anew. -/
theorem linkOnce_of_settled (h : Settled outputs v) : linkOnce outputs v = splice (fun _ => none) v :=
  congrArg Id.run (mapExpressions_congr fun e he => congrArg pure (h e he))

theorem linkNode_nil (n : InfraNode) : linkNode [] n = n := by
  unfold linkNode
  split
  · rw [linkInputs_of_settled fun e _ => linked?_eq_none fun _ _ => rfl]
  · rfl

theorem nodes_link (outputs : Table Value) (g : Infrastructure) :
    (link outputs g).nodes = g.nodes.map (linkNode outputs) := by
  unfold link
  cases outputs with
  | nil => exact ((List.map_congr_left fun n _ => linkNode_nil n).trans (List.map_id' g.nodes)).symm
  | cons p outputs => exact Graph.nodes_insertEdges _ _

/-- **Outputs are followed to the end.**  If no app node leads back to itself, a linked graph has no token left in
the inputs of hooks that names an output, however many app nodes stand in a row: more passes than there are app
nodes with outputs change nothing. -/
theorem settled_of_mem_link {g : Infrastructure} (ho : TidyOutputs outputs)
    (hg : ∀ m ∈ g.nodes, m.appNode.isSome → TidyTexts m.inputs)
    (hacyclic : ∀ a, ¬ Relation.TransGen (Names outputs) a a) :
    ∀ n ∈ (link outputs g).nodes, n.appNode.isSome →
      (∀ e ∈ visitExpressions n.inputs, ∀ r o, Reference.ofExpression? e = some r →
        outputs.lookup r.node = some o → Reference.output? o r.key = none) ∧
      linkOnce outputs n.inputs = splice (fun _ => none) n.inputs ∧
      (∀ k, linkInputs outputs k n.inputs = n.inputs) ∧
      ∃ m ∈ g.nodes, m.id = n.id ∧ ∀ k, outputs.length ≤ k → n.inputs = linkInputs outputs k m.inputs := by
  intro n hn happ
  rw [nodes_link] at hn
  obtain ⟨m, hm, rfl⟩ := List.mem_map.1 hn
  rw [linkNode] at happ ⊢
  split at happ
  · rename_i hhook
    have hall : ∀ k, outputs.length ≤ k → Settled outputs (linkInputs outputs k m.inputs) :=
      fun k hk => settled_linkInputs ho (hg m hm hhook) hacyclic hk
    have hsettled := hall (outputs.length + 1) (Nat.le_succ _)
    rw [if_pos hhook]
    refine ⟨fun e he r o hr hlookup => ?_, linkOnce_of_settled hsettled, linkInputs_of_settled hsettled, m, hm,
      rfl, fun k hk => ?_⟩
    · rw [← linked?_eq_output? hr hlookup]
      exact hsettled e he
    · show linkInputs outputs (outputs.length + 1) m.inputs = _
      rw [linkInputs_of_le (Nat.le_succ _) (hall _ (Nat.le_refl _)), linkInputs_of_le hk (hall _ (Nat.le_refl _))]
  · rename_i hhook
    exact absurd happ hhook

/-- A graph of one module whose hook gives it a text. -/
def hooked (text : String) : Infrastructure :=
  Graph.ofParts
    [{ InfraNode.create ⟨"module", "m", none, none⟩ "img" .pulumi with
        appNode := some "site/s", inputs := .obj [("t", .str text)] }] []

/-- Outputs of three app nodes in a row. -/
def row : Table Value :=
  [("cache/a", .obj [("host", .str "$\x7b\x7b cache/b.host \x7d\x7d")]),
    ("cache/b", .obj [("host", .str "$\x7b cache/c.hosts[0] \x7d.local")]),
    ("cache/c", .obj [("hosts", .arr [.str "c"])])]

theorem names_row {a b : String} (h : Names row a b) : row.keys.idxOf a < row.keys.idxOf b := by
  have hall : ∀ p ∈ row, ∀ e ∈ p.2.mentions, ∀ r ∈ Reference.ofExpression? e,
      row.keys.idxOf p.1 < row.keys.idxOf r.node := by decide +kernel
  obtain ⟨o, ho, -, e, he, r, hr, rfl⟩ := h
  exact hall (a, o) (Table.mem_of_lookup ho) e he r hr

/-- Outputs of app nodes in a row are put in one after the other. -/
theorem settled_of_mem_link_row :
    (∀ n ∈ (link row (hooked "at $\x7b cache/a.host \x7d")).nodes, ∀ k, linkInputs row k n.inputs = n.inputs) ∧
      (link row (hooked "at $\x7b cache/a.host \x7d")).nodes.map (·.inputs) = [.obj [("t", .str "at c.local")]] := by
  have ho : TidyOutputs row := by
    have hall : ∀ p ∈ row, TidyParts p.2 := by decide +kernel
    exact fun a o h => hall (a, o) (Table.mem_of_lookup h)
  have hacyclic : ∀ a, ¬ Relation.TransGen (Names row) a a := by
    have hlater : ∀ {a b}, Relation.TransGen (Names row) a b → row.keys.idxOf a < row.keys.idxOf b := by
      intro a b h
      induction h with
      | single h => exact names_row h
      | tail _ h ih => exact Nat.lt_trans ih (names_row h)
    exact fun a h => Nat.lt_irrefl _ (hlater h)
  have hhooks : ∀ n ∈ (link row (hooked "at $\x7b cache/a.host \x7d")).nodes, n.appNode.isSome := by
    decide +kernel
  have hlinked := settled_of_mem_link (g := hooked "at $\x7b cache/a.host \x7d") ho (by decide +kernel) hacyclic
  exact ⟨fun n hn => (hlinked n hn (hhooks n hn)).2.2.1, by decide +kernel⟩

/-- Outputs of an app node that name nothing. -/
def nameless : Table Value := [("site/s", .obj [("o", .str "v")])]

/-- A token, and an output of the app node after the end of a token in it. -/
def knot (rest : String) : String :=
  "$\x7b\x7b site/s.o \x7d\x7d$\x7b module/x@blue.k\x7b\x7b\x7d\x7d" ++ rest ++ " \x7d"

/-- **Tokens that hold the end of a token come up one by one.**  No output names an app node, and each dollar sign of
the inputs lies within a token, but the passes are used up before the last token is there. -/
theorem not_settled_knot :
    (∀ a b, ¬ Names nameless a b) ∧
      (∀ n ∈ (hooked (knot (knot (knot "")))).nodes, ∀ s ∈ n.inputs.texts, ∀ t, Segment.text t ∈ parse s →
        '$' ∉ t.toList) ∧
      ∃ n ∈ (link nameless (hooked (knot (knot (knot ""))))).nodes, n.appNode.isSome ∧
        "site/s.o" ∈ visitExpressions n.inputs ∧ linked? nameless "site/s.o" = some (.str "v") ∧
        linkInputs nameless 1 n.inputs ≠ n.inputs := by
  refine ⟨fun a b h => ?_, ?_, by decide +kernel⟩
  · have hall : ∀ p ∈ nameless, p.2.mentions = [] := by decide +kernel
    obtain ⟨o, ho, -, e, he, -⟩ := h
    rw [hall (a, o) (Table.mem_of_lookup ho)] at he
    cases he
  · -- all of the text is tokens
    have hall : ∀ n ∈ (hooked (knot (knot (knot "")))).nodes, ∀ s ∈ n.inputs.texts, ∀ x ∈ parse s,
        ∃ e ∈ expressions (parse s), x = .expr e := by decide +kernel
    intro n hn s hs t ht
    obtain ⟨e, -, heq⟩ := hall n hn s hs _ ht
    cases heq

end Groundwork.Compile
