import Groundwork.AppGraph
import Groundwork.Proofs.Reference.Renaming
import Groundwork.Proofs.Template.Composition

/-!
# References read back

A reference is written as an id, a dot and a key, and goes into a text as a token.  Whoever meets the token has to
find its end, take the blanks off its expression and divide that at a dot.  All of this gives back what was written,
whatever the parts of the id were chosen to be: dots and blanks in them became dashes.  Keys are written as they are,
so that only a blank at the end of a key, or the end of a token within the expression, could spoil it.

Main statements: a token reads back exactly if its expression is plain (`parse_renderToken_iff`), a reference by the id
of a node is plain if its key ends well and it is whole (`Referent.plain_iff`), and then its token is resolved to the
output that was meant (`references_read_back`).
-/

namespace Groundwork

/-! ### Tokens -/

namespace Template

/-- **The token of an expression reads back exactly if the expression is plain.** -/
theorem parse_renderToken_iff {e : String} : parse (renderToken e) = [.expr e] ↔ Plain e := by
  constructor
  · intro h
    have hread : expressions (parse (renderToken e)) = [e] := by rw [h]; rfl
    have htrim := trim_of_mem_scan [] false (renderToken e).toList e (hread ▸ List.mem_singleton.2 rfl)
    -- whatever is read from a token does not hold the end of one
    obtain ⟨e', l, hwhole, hfirst⟩ := exists_expressions_scan_renderToken e [] []
    rw [List.append_nil] at hfirst
    obtain ⟨rfl, -⟩ := List.cons.inj (hfirst.symm.trans hread)
    exact ⟨htrim, hwhole⟩
  · intro h
    have hscan := scan_renderToken h [] []
    rw [List.append_nil] at hscan
    rw [parse, hscan, scan]
    rfl

end Template

/-! ### Nodes of either kind -/

theorem Key.id_ne_empty (k : Key) : k.id ≠ "" := by
  intro h
  have hnil : k.idChars = [] := by rw [← String.toList_ofList (l := k.idChars)]; exact congrArg String.toList h
  simp [idChars] at hnil

/-- What a reference may refer to: a node of an app graph or of an infrastructure graph. -/
inductive Referent where
  | app (n : AppNode)
  | infra (n : InfraNode)

namespace Referent

/-- The id under which a node is found in its graph. -/
def id : Referent → String
  | .app n => Identified.id n
  | .infra n => Identified.id n

theorem id_ne_empty (n : Referent) : n.id ≠ "" := by
  cases n with
  | app n => exact n.key.id_ne_empty
  | infra n => exact fun h => InfraNode.toList_idOf_ne_nil n.key n.color (congrArg String.toList h)

/-- **Ids hold neither dots nor blanks**, whatever the names are that they are made of. -/
theorem of_mem_id {n : Referent} {c : Char} (h : c ∈ n.id.toList) : c ≠ '.' ∧ Text.isBlank c = false := by
  cases n with
  | app n =>
    have hmem : c ∈ n.key.idChars := by rwa [← String.toList_ofList (l := n.key.idChars)]
    exact ⟨fun hdot => n.key.dot_not_mem_id (hdot ▸ hmem), Key.isBlank_of_mem_id hmem⟩
  | infra n => exact InfraNode.mem_idOf h

open Reference Template

theorem ofExpression?_expression (n : Referent) {key : String} (hkey : key ≠ "") :
    ofExpression? (expression ⟨n.id, key⟩) = some ⟨n.id, key⟩ :=
  ofExpression?_of_forall n.id_ne_empty hkey fun _ => of_mem_id

/-- A reference by the id of a node is plain if its key ends well and it does not hold the end of a token. -/
theorem plain_iff (n : Referent) {key : String}
    (hend : ∀ c, key.toList.getLast? = some c → Text.isBlank c = false) :
    Plain (expression ⟨n.id, key⟩) ↔ IsWhole (expression ⟨n.id, key⟩) :=
  ⟨And.right, fun h => ⟨trim_expression_of_forall (fun _ hc => (of_mem_id hc).2) hend, h⟩⟩

end Referent

/-! ### Resolving tokens -/

namespace Reference

open Template

/-- The output that a reference means, given the outputs of nodes by their ids. -/
def outputOf (outputs : Table Value) (r : Reference) : Except ExpressionError Value :=
  (outputs.lookup r.node).elim (.error (.missingOutputs r.node)) fun o =>
    (output? o r.key).elim (.error (.missingOutputKey r.node r.key)) .ok

theorem lookup_of_ofExpression? {outputs : Table Value} {e : String} {r : Reference}
    (h : ofExpression? e = some r) : lookup outputs e = outputOf outputs r := by
  unfold lookup outputOf
  rw [h]
  cases ho : outputs.lookup r.node with
  | none => simp [ho]
  | some o => cases hv : output? o r.key <;> simp [ho, hv]

/-- A text that is exactly one token is resolved to what its expression stands for. -/
theorem resolve_of_single {outputs : Table Value} {s e : String} (h : parse s = [.expr e]) :
    resolve outputs (.str s) = lookup outputs e := by
  rw [resolve, mapExpressions, mapText_eq, h, expressions, expressions, List.mapM_cons, List.mapM_nil]
  cases lookup outputs e with
  | error cause => rfl
  | ok v => exact congrArg Except.ok (answered_of_single h (some v))

/-- **References read back as written.**  The expression of a reference by the id of any node splits into that id and
the key.  The token of the reference is read as that expression, and as nothing else, exactly if it does not hold the
end of a token.  Resolving then finds what is there for the very node and key, in a graph the output of the one node
with that id. -/
theorem references_read_back (n : Referent) {key : String} (hkey : key ≠ "")
    (hend : ∀ c, key.toList.getLast? = some c → Text.isBlank c = false) :
    ofExpression? (n.id ++ "." ++ key) = some ⟨n.id, key⟩ ∧
    (parse (token ⟨n.id, key⟩) = [.expr (n.id ++ "." ++ key)] ↔
      Text.contains ['\x7d', '\x7d'] (n.id ++ "." ++ key).toList = false) ∧
    (Text.contains ['\x7d', '\x7d'] (n.id ++ "." ++ key).toList = false →
      (∀ outputs, resolve outputs (.str (token ⟨n.id, key⟩)) = outputOf outputs ⟨n.id, key⟩) ∧
      ∀ (g : Infrastructure), ∀ m ∈ g.nodes, m.id = n.id → m.isComplete = true → ∀ o, m.outputs = some o →
        resolve (Infrastructure.outputs g) (.str (token ⟨n.id, key⟩))
          = (output? o key).elim (.error (.missingOutputKey m.id key)) .ok) := by
  have hread := n.ofExpression?_expression hkey
  have hparse : parse (token ⟨n.id, key⟩) = [.expr (n.id ++ "." ++ key)] ↔
      Text.contains ['\x7d', '\x7d'] (n.id ++ "." ++ key).toList = false :=
    parse_renderToken_iff.trans (n.plain_iff hend)
  refine ⟨hread, hparse, fun hwhole => ?_⟩
  have hfound : ∀ outputs, resolve outputs (.str (token ⟨n.id, key⟩)) = outputOf outputs ⟨n.id, key⟩ :=
    fun outputs => (resolve_of_single (hparse.2 hwhole)).trans (lookup_of_ofExpression? hread)
  refine ⟨hfound, fun g m hm hid hcomplete o ho => ?_⟩
  rw [hfound, outputOf, ← hid, Infrastructure.lookup_outputs_of_mem hm hcomplete, ho]
  rfl

/-- A node with dots, blanks and braces in the names that it is known by. -/
def oddlyNamed : InfraNode :=
  InfraNode.create ⟨"data.base", "größe \x7bx\x7d", some "\u3000shop", some "v1.2"⟩ "image" .pulumi

/-- A key with blanks, dots and a brace reads back after such an id. -/
theorem oddlyNamed_read_back :
    oddlyNamed.id = "v1-2/-shop/data-base/größe-\x7bx\x7d@blue" ∧
    "a .b\x7d" ≠ "" ∧ (∀ c, "a .b\x7d".toList.getLast? = some c → Text.isBlank c = false) ∧
    ofExpression? (oddlyNamed.id ++ "." ++ "a .b\x7d") = some ⟨oddlyNamed.id, "a .b\x7d"⟩ ∧
    parse (token ⟨oddlyNamed.id, "a .b\x7d"⟩) = [.expr (oddlyNamed.id ++ "." ++ "a .b\x7d")] ∧
    resolve [(oddlyNamed.id, .obj [("a .b\x7d", .bool true)])] (.str (token ⟨oddlyNamed.id, "a .b\x7d"⟩))
      = .ok (.bool true) := by
  have hkey : "a .b\x7d" ≠ "" := by decide
  have hend : ∀ c, "a .b\x7d".toList.getLast? = some c → Text.isBlank c = false := by
    intro c hc
    have hlast : "a .b\x7d".toList.getLast? = some '\x7d' := by decide
    obtain rfl := Option.some.inj (hlast.symm.trans hc)
    decide
  obtain ⟨hread, hparse, hresolve⟩ := references_read_back (.infra oddlyNamed) hkey hend
  have hwhole := hparse.2 (by decide +kernel)
  have houtput := (hresolve (hparse.1 hwhole)).1 [(oddlyNamed.id, .obj [("a .b\x7d", .bool true)])]
  exact ⟨by decide +kernel, hkey, hend, hread, hwhole, houtput.trans (by decide +kernel)⟩

end Reference

end Groundwork
