import Groundwork.Proofs.Template.Settling
import Groundwork.Proofs.Template.Splicing

/-!
# One pass after another

A pass over a text asks a resolver for each of its expressions in turn.  The resolver may remember what it was
asked, and it may fail; what becomes of the text depends on its answers alone.  What the next pass finds there are
the tokens that were left in place, if nothing disturbs them: each is whole, so that it reads back from its
canonical form, and what is put in before it is settled.

Main statements: a pass that succeeds puts in the answers of its resolver (`exists_served`), and the tokens after it
are those that it left exactly if these are whole (`tokens_of_pass`).
-/

namespace Groundwork.Template

/-! ### Answers -/

/-- The expressions of the text that a value is; there are none if it is no text. -/
def ownExpressions (v : Value) : List String := v.str?.elim [] fun s => expressions (parse s)

/-- Segments with the answers for their expressions put in.  Tokens without value stay. -/
def fill : List Segment → List (Option Value) → List Segment
  | .text s :: l, xs => .text s :: fill l xs
  | .expr _ :: l, some v :: xs => .text (stringify v) :: fill l xs
  | .expr e :: l, none :: xs => .expr e :: fill l xs
  | _, _ => []

/-- The expressions without value, in order. -/
def left : List String → List (Option Value) → List String
  | _ :: es, some _ :: xs => left es xs
  | e :: es, none :: xs => e :: left es xs
  | _, _ => []

/-- What becomes of a text, given the answers for its expressions. -/
def answered (s : String) (xs : List (Option Value)) : Value :=
  match single? (parse s), xs with
  | some _, [some v] => v
  | _, _ => .str (if hasExpressions (parse s) then String.ofList (rewritten id (fill (parse s) xs)) else s)

/-! ### Asking and answering -/

section Asking

theorem expressions_eq_nil_of_not {l : List Segment} (h : ¬ hasExpressions l = true) : expressions l = [] := by
  simpa [hasExpressions] using h

theorem single?_eq_none_of_nil {l : List Segment} (h : expressions l = []) : single? l = none := by
  rw [Option.eq_none_iff_forall_ne_some]
  intro e he
  rw [single?_eq_some he] at h
  cases h

theorem answered_of_not_single {s : String} (h : single? (parse s) = none) (xs : List (Option Value)) :
    answered s xs
      = .str (if hasExpressions (parse s) then String.ofList (rewritten id (fill (parse s) xs)) else s) := by
  unfold answered
  split
  · rename_i hsingle
    rw [h] at hsingle
    cases hsingle
  · rfl

theorem answered_of_single {s e : String} (h : parse s = [.expr e]) (x : Option Value) :
    answered s [x] = x.getD (.str (renderToken e)) := by
  cases x <;> simp [answered, h, single?, hasExpressions, expressions, fill, rewritten]

variable {m : Type → Type} [Monad m] [LawfulMonad m] (r : String → m (Option Value))

theorem renderSegments_eq (l : List Segment) :
    renderSegments r l = (expressions l).mapM r >>= fun xs => pure (String.ofList (rewritten id (fill l xs))) := by
  induction l with
  | nil =>
    rw [expressions, List.mapM_nil, pure_bind]
    rfl
  | cons y l ih =>
    cases y with
    | text t =>
      rw [renderSegments, renderSegment, pure_bind, ih, expressions, bind_assoc]
      refine congrArg ((expressions l).mapM r >>= ·) (funext fun xs => ?_)
      rw [pure_bind, fill, rewritten, String.ofList_append, String.ofList_toList]
    | expr e =>
      rw [renderSegments, renderSegment, expressions, List.mapM_cons, bind_assoc, bind_assoc, ih]
      refine congrArg (r e >>= ·) (funext fun x => ?_)
      cases x <;> simp [fill, rewritten]

/-- **A pass over a text asks for its expressions in turn**, and then puts in the answers. -/
theorem mapText_eq (s : String) :
    mapText r s = (expressions (parse s)).mapM r >>= fun xs => pure (answered s xs) := by
  by_cases hsome : hasExpressions (parse s) = true
  · cases hsingle : single? (parse s) with
    | some e =>
      have hparse := single?_eq_some hsingle
      rw [mapText, if_pos hsome, hsingle, hparse, expressions, expressions, List.mapM_cons, List.mapM_nil, bind_assoc]
      refine congrArg (r e >>= ·) (funext fun x => ?_)
      rw [pure_bind, pure_bind, answered_of_single hparse]
      cases x <;> rfl
    | none =>
      rw [mapText, if_pos hsome, hsingle, renderSegments_eq, bind_assoc]
      refine congrArg ((expressions (parse s)).mapM r >>= ·) (funext fun xs => ?_)
      rw [pure_bind, answered_of_not_single hsingle, if_pos hsome]
  · have hnone := expressions_eq_nil_of_not hsome
    rw [mapText, if_neg hsome, hnone, List.mapM_nil, pure_bind,
      answered_of_not_single (single?_eq_none_of_nil hnone), if_neg hsome]

end Asking

section Resolving

variable {σ ε : Type} {r : String → StateT σ (Except ε) (Option Value)}

/-- What a resolver answers to some expressions in turn, from one state to another. -/
inductive Served (r : String → StateT σ (Except ε) (Option Value)) :
    σ → List String → List (Option Value) → σ → Prop
  | nil (a : σ) : Served r a [] [] a
  | cons {a b c : σ} {e : String} {x : Option Value} {es : List String} {xs : List (Option Value)}
      (h : (r e).run a = .ok (x, b)) (hrest : Served r b es xs c) : Served r a (e :: es) (x :: xs) c

theorem run_bind_eq_ok {α β : Type} {x : StateT σ (Except ε) α} {f : α → StateT σ (Except ε) β} {a c : σ} {y : β}
    (h : (x >>= f).run a = .ok (y, c)) : ∃ z b, x.run a = .ok (z, b) ∧ (f z).run b = .ok (y, c) := by
  rw [StateT.run_bind] at h
  obtain ⟨⟨z, b⟩, hx, hf⟩ := bind_eq_ok h
  exact ⟨z, b, hx, hf⟩

/-- Answers that are asked for one after the other are served. -/
theorem served_of_mapM {l : List String} {a b : σ} {xs : List (Option Value)} (h : (l.mapM r).run a = .ok (xs, b)) :
    Served r a l xs b := by
  induction l generalizing a xs with
  | nil =>
    cases h
    exact .nil _
  | cons e l ih =>
    rw [List.mapM_cons] at h
    obtain ⟨x, c, hx, h⟩ := run_bind_eq_ok h
    obtain ⟨ys, d, hys, h⟩ := run_bind_eq_ok h
    cases h
    exact .cons hx (ih hys)

/-- **A pass over a text that succeeds puts in the answers of its resolver**, one for each expression. -/
theorem exists_served {s : String} {a b : σ} {w : Value} (h : (mapExpressions r (.str s)).run a = .ok (w, b)) :
    ∃ xs, Served r a (expressions (parse s)) xs b ∧ w = answered s xs := by
  rw [mapExpressions, mapText_eq] at h
  obtain ⟨xs, c, hxs, h⟩ := run_bind_eq_ok h
  cases h
  exact ⟨xs, served_of_mapM hxs, rfl⟩

theorem Served.length {a b : σ} {es : List String} {xs : List (Option Value)} (h : Served r a es xs b) :
    xs.length = es.length := by
  induction h with
  | nil a => rfl
  | cons h hrest ih => rw [List.length_cons, List.length_cons, ih]

end Resolving

/-! ### What the answers make of a text -/

section Answers

variable {l : List Segment} {s : String} {xs : List (Option Value)}

theorem expressions_fill (hlength : xs.length = (expressions l).length) :
    expressions (fill l xs) = left (expressions l) xs := by
  induction l generalizing xs with
  | nil =>
    rw [List.length_eq_zero_iff.1 hlength]
    rfl
  | cons y l ih =>
    cases y with
    | text t => rw [fill, expressions, expressions, ih hlength]
    | expr e =>
      cases xs with
      | nil => cases hlength
      | cons x xs =>
        have hrest := ih (Nat.succ.inj hlength)
        cases x with
        | some v => rw [fill, expressions, expressions, left, hrest]
        | none => rw [fill, expressions, expressions, left, hrest]

/-- Answers without values change nothing. -/
theorem fill_of_none (hlength : xs.length = (expressions l).length) (hxs : ∀ x ∈ xs, x = none) :
    fill l xs = l := by
  induction l generalizing xs with
  | nil => rfl
  | cons y l ih =>
    cases y with
    | text t => rw [fill, ih hlength hxs]
    | expr e =>
      cases xs with
      | nil => cases hlength
      | cons x xs =>
        rw [List.forall_mem_cons] at hxs
        rw [hxs.1, fill, ih (Nat.succ.inj hlength) hxs.2]

theorem left_of_none {es : List String} (hlength : xs.length = es.length) (hxs : ∀ x ∈ xs, x = none) :
    left es xs = es := by
  induction es generalizing xs with
  | nil =>
    rw [List.length_eq_zero_iff.1 hlength]
    rfl
  | cons e es ih =>
    cases xs with
    | nil => cases hlength
    | cons x xs =>
      rw [List.forall_mem_cons] at hxs
      rw [hxs.1, left, ih (Nat.succ.inj hlength) hxs.2]

theorem forall₂_fill (hlength : xs.length = (expressions l).length)
    (htrim : ∀ e ∈ expressions l, Text.trim e.toList = e.toList)
    (hxs : ∀ v, some v ∈ xs → expressions (parse (stringify v)) = [] ∧ Settled (stringify v)) :
    List.Forall₂ Stands l (fill l xs) := by
  induction l generalizing xs with
  | nil =>
    rw [List.length_eq_zero_iff.1 hlength]
    exact .nil
  | cons y l ih =>
    cases y with
    | text t => exact .cons (.text t) (ih hlength htrim hxs)
    | expr e =>
      rw [expressions, List.forall_mem_cons] at htrim
      cases xs with
      | nil => cases hlength
      | cons x xs =>
        have hrest := ih (Nat.succ.inj hlength) htrim.2 fun v hv => hxs v (List.mem_cons_of_mem _ hv)
        cases x with
        | none => exact .cons (.token htrim.1) hrest
        | some v =>
          obtain ⟨hfree, hs⟩ := hxs v List.mem_cons_self
          exact .cons (.value hfree hs) hrest

/-- A text that is one token becomes the value put in; all else becomes a text. -/
theorem answered_cases (s : String) (xs : List (Option Value)) :
    (∃ e v, parse s = [.expr e] ∧ xs = [some v] ∧ answered s xs = v) ∨
      (∀ e v, parse s = [.expr e] → xs ≠ [some v]) ∧ answered s xs
        = .str (if hasExpressions (parse s) then String.ofList (rewritten id (fill (parse s) xs)) else s) := by
  unfold answered
  split
  · rename_i e v hsingle
    exact Or.inl ⟨e, v, single?_eq_some hsingle, rfl, rfl⟩
  · rename_i hother
    refine Or.inr ⟨fun e v hparse hxs => ?_, rfl⟩
    exact hother e v (by rw [hparse]; rfl) hxs

theorem ownExpressions_of_free {v : Value} (h : expressions (parse (stringify v)) = []) : ownExpressions v = [] := by
  cases v with
  | str t => exact h
  | _ => rfl

/-- **The tokens of what becomes of a text are those that are left exactly if these are whole.** -/
theorem ownExpressions_answered_iff (hlength : xs.length = (expressions (parse s)).length)
    (hxs : ∀ v, some v ∈ xs → expressions (parse (stringify v)) = [] ∧
      ((single? (parse s)).isSome = true ∨ Settled (stringify v))) :
    ownExpressions (answered s xs) = left (expressions (parse s)) xs ↔
      ∀ e ∈ left (expressions (parse s)) xs, IsWhole e := by
  rcases answered_cases s xs with ⟨e, v, hparse, rfl, hv⟩ | ⟨hother, htext⟩
  · have hnone : left (expressions (parse s)) [some v] = [] := by
      rw [hparse]
      rfl
    rw [hv, hnone, ownExpressions_of_free (hxs v (List.mem_singleton.2 rfl)).1]
    simp
  · -- only where all of the text is one token a value may be open at its end
    have hsettled : ∀ v, some v ∈ xs → Settled (stringify v) := by
      intro v hv
      refine (hxs v hv).2.resolve_left fun hsingle => ?_
      obtain ⟨e, he⟩ := Option.isSome_iff_exists.1 hsingle
      have hparse := single?_eq_some he
      rw [hparse] at hlength
      obtain ⟨x, rfl⟩ := List.length_eq_one_iff.1 hlength
      exact hother e v hparse (by rw [List.mem_singleton.1 hv])
    rw [htext]
    show expressions (parse _) = _ ↔ _
    split
    · rw [← expressions_fill hlength]
      exact expressions_written_iff (forall₂_fill hlength (trim_of_mem_scan [] false s.toList)
        fun v hv => ⟨(hxs v hv).1, hsettled v hv⟩)
    · rename_i hnone
      have hempty := expressions_eq_nil_of_not hnone
      rw [hempty] at hlength ⊢
      rw [List.length_eq_zero_iff.1 hlength]
      simp [left]

/-- A text whose tokens are all left in place is written in canonical form; if they are whole it has the same
pieces. -/
theorem answered_of_none (hlength : xs.length = (expressions (parse s)).length) (hxs : ∀ x ∈ xs, x = none) :
    answered s xs
      = .str (if hasExpressions (parse s) then String.ofList (rewritten id (parse s)) else s) := by
  rcases answered_cases s xs with ⟨e, v, -, rfl, -⟩ | ⟨-, htext⟩
  · cases hxs (some v) (List.mem_singleton.2 rfl)
  · rw [htext, fill_of_none hlength hxs]

theorem parse_canonical (hwhole : ∀ e ∈ expressions (parse s), IsWhole e) :
    parse (String.ofList (rewritten id (parse s))) = parse s := by
  have hsame : rewriteSegment id = id := by
    funext x
    cases x <;> rfl
  have hplain : ∀ e ∈ expressions (parse s), Plain (id e) :=
    fun e he => ⟨trim_of_mem_scan [] false s.toList e he, hwhole e he⟩
  rw [parse_rewritten hplain, hsame, List.map_id]

end Answers

/-! ### Passes -/

/-- Two tokens side by side. -/
def sideBySide : String := "$\x7b\x7b a \x7d\x7d$\x7b\x7b b \x7d\x7d"

/-- Puts a text in the place of one expression only. -/
def instead (e t e' : String) : Option Value := if e' = e then some (.str t) else none

/-- The second token is found as it is after a text put in for the first exactly if that is settled. -/
theorem ownExpressions_sideBySide_iff {t : String} (hfree : expressions (parse t) = []) :
    ownExpressions (splice (instead "a" t) (.str sideBySide)) = ["b"] ↔ Settled t := by
  have hparse : parse sideBySide = [.expr "a", .expr "b"] := by decide +kernel
  have hsplice : splice (instead "a" t) (.str sideBySide) = .str (t ++ renderToken "b") := by
    show Id.run (mapText _ sideBySide) = _
    rw [mapText, hparse]
    show Value.str (t ++ (renderToken "b" ++ "")) = _
    rw [String.append_empty]
  rw [hsplice]
  show expressions (parse (t ++ renderToken "b")) = ["b"] ↔ _
  have hb : expressions (parse (renderToken "b")) = ["b"] := (reads_renderToken (by decide)).expressions_parse
  constructor
  · intro h
    have hnone : expressions (scan [] false t.toList) = [] := hfree
    have hread : expressions (scan [] false (t.toList ++ (renderToken "b").toList))
        = expressions (scan [] false t.toList) ++ ["b"] := by
      rw [← String.toList_append, hnone]
      exact h
    exact settles_of_expressions hread
  · intro h
    rw [settled_iff.1 h, hfree, hb, List.nil_append]

variable {σ ε : Type} {r : String → StateT σ (Except ε) (Option Value)}

/-- **After a pass that puts in settled texts without tokens, the tokens are those that it left exactly if these
are whole.**  A value that becomes all of the text need not be settled.  A pass that leaves all tokens in place keeps
their expressions in the same way, and if they are whole another such pass changes nothing.  Settled is what texts
have to be: any other text without tokens disturbs a token right after it. -/
theorem tokens_of_pass {s : String} {a b : σ} {w : Value}
    (h : (mapExpressions r (.str s)).run a = .ok (w, b)) :
    ∃ xs, Served r a (expressions (parse s)) xs b ∧
      ((∀ v, some v ∈ xs → expressions (parse (stringify v)) = [] ∧
          ((single? (parse s)).isSome = true ∨ Settled (stringify v))) →
        (ownExpressions w = left (expressions (parse s)) xs ↔
          ∀ e ∈ left (expressions (parse s)) xs, IsWhole e)) ∧
      ((∀ x ∈ xs, x = none) →
        (ownExpressions w = expressions (parse s) ↔ ∀ e ∈ expressions (parse s), IsWhole e) ∧
        ((∀ e ∈ expressions (parse s), IsWhole e) →
          ∀ (r' : String → StateT σ (Except ε) (Option Value)) (a' b' : σ) (w' : Value),
            (mapExpressions r' w).run a' = .ok (w', b') →
            ∃ ys, Served r' a' (ownExpressions w) ys b' ∧ ((∀ y ∈ ys, y = none) → w' = w))) ∧
      ∀ t : String, expressions (parse t) = [] →
        (ownExpressions (splice (instead "a" t) (.str sideBySide)) = ["b"] ↔ Settled t) := by
  obtain ⟨xs, hserved, rfl⟩ := exists_served h
  have hlength := hserved.length
  refine ⟨xs, hserved, ownExpressions_answered_iff hlength, fun hxs => ?_,
    fun t => ownExpressions_sideBySide_iff⟩
  have hiff := ownExpressions_answered_iff hlength fun v hv => by cases hxs _ hv
  rw [left_of_none hlength hxs] at hiff
  refine ⟨hiff, fun hwhole r' a' b' w' h' => ?_⟩
  -- written in canonical form the text has the pieces that it had
  rw [answered_of_none hlength hxs] at h' ⊢
  obtain ⟨ys, hserved', rfl⟩ := exists_served h'
  refine ⟨ys, hserved', fun hys => ?_⟩
  rw [answered_of_none hserved'.length hys]
  split
  · rw [parse_canonical hwhole, if_pos ‹_›]
  · rfl

/-- A resolver that counts what it is asked and knows one expression. -/
def counting (e : String) : StateT Nat (Except Unit) (Option Value) := fun n => .ok (instead "c" "v" e, n + 1)

/-- One of two tokens is left in place, and is found again. -/
theorem tokens_of_counting_pass :
    (mapExpressions counting (.str "x$\x7b a.b \x7d$\x7b\x7b c \x7d\x7dy")).run 0
        = .ok (.str "x$\x7b\x7b a.b \x7d\x7dvy", 2) ∧
      ownExpressions (.str "x$\x7b\x7b a.b \x7d\x7dvy") = left ["a.b", "c"] [none, some (.str "v")] := by
  have hparse : expressions (parse "x$\x7b a.b \x7d$\x7b\x7b c \x7d\x7dy") = ["a.b", "c"] := by decide +kernel
  have hrun : (mapExpressions counting (.str "x$\x7b a.b \x7d$\x7b\x7b c \x7d\x7dy")).run 0
      = .ok (.str "x$\x7b\x7b a.b \x7d\x7dvy", 2) := by decide +kernel
  obtain ⟨xs, hserved, hkept, -⟩ := tokens_of_pass hrun
  rw [hparse] at hserved hkept
  have hxs : xs = [none, some (.str "v")] := by
    cases hserved with
    | cons hfirst hrest =>
      cases hrest with
      | cons hsecond hnil =>
        cases hfirst
        cases hsecond
        cases hnil
        decide
  subst hxs
  refine ⟨hrun, (hkept fun v hv => ?_).2 (by decide)⟩
  have hv : v = .str "v" := by simpa using hv
  subst hv
  exact ⟨by decide +kernel, Or.inr (by decide +kernel)⟩

/-- **Without these conditions tokens are altered, hidden or made up.**  A token that holds its end in quotes is cut
short in canonical form; a dollar sign put in before a token makes that literal; and an opener put in takes the
closing brace of a text after it. -/
theorem tokens_disturbed :
    (expressions (parse "$\x7b \"\x7d\x7d\" \x7d") = ["\"\x7d\x7d\""] ∧
      ownExpressions (splice (fun _ => none) (.str "$\x7b \"\x7d\x7d\" \x7d")) = ["\""]) ∧
    (expressions (parse sideBySide) = ["a", "b"] ∧ expressions (parse "$") = [] ∧
      ownExpressions (splice (instead "a" "$") (.str sideBySide)) = []) ∧
    (expressions (parse "$\x7b\x7b a \x7d\x7dx \x7d") = ["a"] ∧ expressions (parse "$\x7b ") = [] ∧
      ownExpressions (splice (instead "a" "$\x7b ") (.str "$\x7b\x7b a \x7d\x7dx \x7d")) = ["x"]) := by
  decide +kernel

end Groundwork.Template
