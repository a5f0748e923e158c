import Groundwork.Compile.Hook
import Groundwork.Proofs.Guard.Acceptance

/-!
# What guards do not see

A guard reads its context through its paths alone, and each of them starts with the name of a scope.  So what stands
in a scope that no path starts with has no part in the value of the guard, nor in its failure.  Conditions that
mention modules are not accepted; so whatever modules there are, the same hook is chosen.

Main statements: every path of a guard starts with a name (`rooted_of_derives`); contexts that differ in a scope that a
guard does not mention give it the same value or the same failure, and so conditions that were accepted do not
depend on modules (`unmentioned_unseen`).
-/

namespace Groundwork

/-- Whether two tables have the same under every key but one. -/
def Table.AgreeExcept {α : Type} (key : String) (t u : Table α) : Prop := ∀ k, k ≠ key → t.lookup k = u.lookup k

namespace Guard

/-! ### Paths of guards -/

/-- Whether all paths of an expression start with a name.  An index in that place would read the field that its digits
spell, which is not what is looked for when scopes are. -/
def Expr.Rooted : Expr → Prop
  | .literal _ => True
  | .path p => ∃ root q, p = .field root :: q
  | .not e => e.Rooted
  | .binary _ l r => l.Rooted ∧ r.Rooted
  | .text _ a => a.Rooted
  | .test _ a b => a.Rooted ∧ b.Rooted

/-- **Every path of a phrase starts with a name.** -/
theorem rooted_of_derives {k : Phrase} {ts : List Token} {e : Expr} (h : Derives k ts e) : e.Rooted := by
  induction h with
  | conjunction only ih => exact ih
  | or left right ihl ihr => exact ⟨ihl, ihr⟩
  | comparison only ih => exact ih
  | and left right ihl ihr => exact ⟨ihl, ihr⟩
  | operand only ih => exact ih
  | compared left sign right ihl ihr => exact ⟨ihl, ihr⟩
  | primary only ih => exact ih
  | not negated ih => exact ih
  | parentheses inner ih => exact ih
  | string s => trivial
  | number spelled => trivial
  | literalWord literal => trivial
  | text arg ih => exact ih
  | test subject object ihs iho => exact ⟨ihs, iho⟩
  | path root tail => exact ⟨_, _, rfl⟩

theorem rooted_of_parse {source : String} {g : Guard} (h : Guard.parse source = .ok g) : g.expr.Rooted := by
  unfold Guard.parse at h
  split at h
  · rename_i e hread
    cases h
    obtain ⟨ts, -, hts⟩ := bind_eq_ok hread
    exact rooted_of_derives (parseTokens_eq_ok_iff.1 hts)
  · cases h

/-! ### Values of guards -/

section Congruence

variable {scope : String} {t u : Table Value}

theorem find?_congr (hagree : t.AgreeExcept scope u) {root : String} (hroot : root ≠ scope) (p : Path) :
    Path.find? (.obj t) (.field root :: p) = Path.find? (.obj u) (.field root :: p) := by
  show (t.lookup root).bind _ = (u.lookup root).bind _
  rw [hagree root hroot]

/-- **An expression has the same value, or fails in the same way, whatever is in a scope that it does not mention.** -/
theorem Expr.eval_congr (hagree : t.AgreeExcept scope u) {e : Expr} (hrooted : e.Rooted)
    (hunmentioned : e.references scope = false) : e.eval (.obj t) = e.eval (.obj u) := by
  induction e with
  | literal v => rfl
  | path p =>
    obtain ⟨root, q, rfl⟩ := hrooted
    have hroot : root ≠ scope := by
      intro e
      simp [Expr.references, e] at hunmentioned
    simp only [Expr.eval, find?_congr hagree hroot]
  | not e ih => simp only [Expr.eval, ih hrooted hunmentioned]
  | binary op l r ihl ihr =>
    rw [Expr.references, Bool.or_eq_false_iff] at hunmentioned
    simp only [Expr.eval, ihl hrooted.1 hunmentioned.1, ihr hrooted.2 hunmentioned.2]
  | text f a ih => simp only [Expr.eval, ih hrooted hunmentioned]
  | test f a b iha ihb =>
    rw [Expr.references, Bool.or_eq_false_iff] at hunmentioned
    simp only [Expr.eval, iha hrooted.1 hunmentioned.1, ihb hrooted.2 hunmentioned.2]

theorem evaluate_congr (hagree : t.AgreeExcept scope u) {source : String} {g : Guard}
    (hparse : Guard.parse source = .ok g) (hunmentioned : g.references scope = false) :
    g.evaluate (.obj t) = g.evaluate (.obj u) := by
  unfold Guard.evaluate
  rw [Expr.eval_congr hagree (rooted_of_parse hparse) hunmentioned]

end Congruence

end Guard

namespace Compile

/-! ### Conditions -/

/-- A condition is read as a guard, which mentions no modules if the condition is accepted. -/
theorem of_checkCondition {resourceType clause : String} (h : checkCondition resourceType (.str clause) = .ok ()) :
    ∃ source g, Guard.parse source = .ok g ∧ parseCondition clause = .ok g ∧ g.references "module" = false := by
  obtain ⟨g, hg, haccepted⟩ := bind_eq_ok h
  obtain ⟨source, hsource⟩ : ∃ source, Guard.parse source = .ok g := by
    unfold parseCondition at hg
    dsimp only at hg
    split at hg
    · rename_i guard hguard
      cases hg
      exact ⟨_, hguard⟩
    · cases hg
  refine ⟨source, g, hsource, hg, ?_⟩
  by_contra hmentioned
  rw [Bool.not_eq_false] at hmentioned
  rw [if_pos hmentioned] at haccepted
  cases haccepted

variable {t u : Table Value}

/-- **A condition that is accepted holds or fails alike, whatever modules there are.** -/
theorem holds_congr (hagree : t.AgreeExcept "module" u) {resourceType : String} {condition : Value}
    (h : checkCondition resourceType condition = .ok ()) :
    holds (.obj t) condition = holds (.obj u) condition := by
  cases condition with
  | str clause =>
    obtain ⟨source, g, hparse, hcondition, hunmentioned⟩ := of_checkCondition h
    have hsame := Guard.evaluate_congr hagree hparse hunmentioned
    simp only [holds, hcondition, bind, Except.bind, hsame]
  | _ => rfl

theorem of_checkConditions {hooks : Table (List Hook)} (h : checkConditions hooks = .ok ()) {p : String × List Hook}
    (hp : p ∈ hooks) {hook : Hook} (hhook : hook ∈ p.2) {condition : Value} (hcondition : hook.condition = some condition) :
    checkCondition p.1 condition = .ok () := by
  have hblock := of_forM_eq_ok h p hp
  exact of_forM_eq_ok hblock condition (List.mem_filterMap.2 ⟨hook, hhook, hcondition⟩)

/-- The first of hooks whose conditions hold alike is the same. -/
theorem firstHook_congr {c d : Value} {hooks : List Hook}
    (h : ∀ hook ∈ hooks, ∀ condition, hook.condition = some condition → holds c condition = holds d condition) :
    firstHook c hooks = firstHook d hooks := by
  induction hooks with
  | nil => rfl
  | cons hook hooks ih =>
    rw [List.forall_mem_cons] at h
    unfold firstHook
    cases hcondition : hook.condition with
    | none => rfl
    | some condition => simp only [h.1 condition hcondition, ih h.2]

/-- **What is not mentioned is not seen.**  A guard that mentions a scope nowhere has the same value or the same failure
in contexts that differ in that scope alone; and where all conditions are accepted, the same hook is chosen, and
each condition holds or fails alike, whatever modules there are. -/
theorem unmentioned_unseen :
    (∀ source g scope, Guard.parse source = .ok g → g.references scope = false →
      ∀ t u : Table Value, t.AgreeExcept scope u → g.evaluate (.obj t) = g.evaluate (.obj u)) ∧
    ∀ hooks, checkConditions hooks = .ok () → ∀ block ∈ hooks, ∀ t u : Table Value, t.AgreeExcept "module" u →
      firstHook (.obj t) block.2 = firstHook (.obj u) block.2 ∧
        ∀ hook ∈ block.2, ∀ condition, hook.condition = some condition →
          holds (.obj t) condition = holds (.obj u) condition := by
  constructor
  · intro source g scope hparse hunmentioned t u hagree
    exact Guard.evaluate_congr hagree hparse hunmentioned
  · intro hooks haccepted block hblock t u hagree
    have hsame : ∀ hook ∈ block.2, ∀ condition, hook.condition = some condition →
        holds (.obj t) condition = holds (.obj u) condition := by
      intro hook hhook condition hcondition
      exact holds_congr hagree (of_checkConditions haccepted hblock hhook hcondition)
    exact ⟨firstHook_congr hsame, hsame⟩

/-! ### Some hooks -/

/-- Hooks for databases, of which the first is for those that are not called `main` or have a tag. -/
def tagged : List Hook :=
  [⟨some (.str "$\x7b !(node.name == 'main') || contains(node.tags, 'eu') \x7d"), [], .str "first"⟩,
    ⟨none, [], .str "second"⟩]

/-- What a condition about a node is evaluated in, among modules. -/
def among (modules : Value) : Table Value :=
  [("module", modules), ("node", .obj [("name", .str "main"), ("tags", .arr [.str "us", .str "eu"])])]

theorem agreeExcept_among (v w : Value) : (among v).AgreeExcept "module" (among w) := by
  intro k hk
  have hk : (k == "module") = false := beq_eq_false_iff_ne.2 hk
  simp only [among, List.lookup_cons, hk]

/-- The condition of the first hook is accepted and holds whatever modules there are, but one that mentions modules
sees what they are. -/
theorem unseen_by_tagged :
    (∃ g, Guard.parse "!(node.name == 'main') || contains(node.tags, 'eu')" = .ok g ∧ g.references "module" = false ∧
        g.evaluate (.obj (among (.str "a"))) = g.evaluate (.obj (among .null))) ∧
      (checkConditions [("database", tagged)] = .ok () ∧
        firstHook (.obj (among (.str "a"))) tagged = firstHook (.obj (among .null)) tagged ∧
        firstHook (.obj (among .null)) tagged = .ok tagged.head?) ∧
      ∃ g, Guard.parse "node.name == 'main' && module == null" = .ok g ∧ g.references "module" = true ∧
        g.evaluate (.obj (among (.str "a"))) = .ok (.bool false) ∧ g.evaluate (.obj (among .null)) = .ok (.bool true) := by
  refine ⟨?_, ?_, ?_⟩
  · obtain ⟨g, hparse, hunmentioned⟩ : ∃ g,
        Guard.parse "!(node.name == 'main') || contains(node.tags, 'eu')" = .ok g ∧ g.references "module" = false :=
      ⟨_, eq_ok_getD (by decide +kernel) default, by decide +kernel⟩
    exact ⟨g, hparse, hunmentioned,
      unmentioned_unseen.1 _ g "module" hparse hunmentioned _ _ (agreeExcept_among (.str "a") .null)⟩
  · have haccepted : checkConditions [("database", tagged)] = .ok () := by decide +kernel
    have hsame := unmentioned_unseen.2 _ haccepted _ List.mem_cons_self _ _ (agreeExcept_among (.str "a") .null)
    exact ⟨haccepted, hsame.1, by decide +kernel⟩
  · exact ⟨_, eq_ok_getD (by decide +kernel) default, by decide +kernel⟩

end Compile

end Groundwork
