import Mathlib.Logic.Function.Basic
import Mathlib.Logic.Relation
import Groundwork.Effect.Ambient

/-!
# Clients of one service

Any number of clients call one service.  Their questions are answered one after the other, in any order, and time
goes on between the answers.  A client is anything that asks: a program, or no more than the stage that a program
has come to on its course.

A client that has looked knows how things are until another one changes them.  `Step` can be told which calls are
made by clients only that know.

Main statement: whatever programs come to that keep to a course, the stages of their courses come to as well
(`exists_stages`).
-/

namespace Groundwork

open Relation

variable {Q : Type → Type} {W C D α ι : Type}

/-- Whether an ambient question may be answered so at some time. -/
def Ambient.Tells (now : Instant) {γ : Type} : Ambient γ → γ → Prop
  | .clock => fun t => t = now
  | _ => fun _ => True

/-- A plain answer to an ambient question at some time, by this name if one is asked for. -/
def Ambient.plain (now : Instant) (name : String) {γ : Type} : Ambient γ → γ
  | .clock => now
  | .freshId => name
  | .holder => name
  | .note _ => ()

theorem Ambient.tells_plain (now : Instant) (name : String) {γ : Type} (q : Ambient γ) :
    q.Tells now (q.plain now name) := by
  cases q <;> trivial

namespace Instant

theorem lt_irrefl (t : Instant) : t.lt t = false := by simp [lt]

theorem lt_of_lt_of_not_lt {a b c : Instant} (hab : a.lt b = true) (hcb : c.lt b = false) : a.lt c = true := by
  simp only [lt, Bool.or_eq_true, Bool.or_eq_false_iff, Bool.and_eq_true, Bool.and_eq_false_iff,
    decide_eq_true_eq, decide_eq_false_iff_not] at hab hcb ⊢
  omega

/-- What is not before something that is not before another is not before that either. -/
theorem not_lt_trans {a b c : Instant} (hba : b.lt a = false) (hcb : c.lt b = false) : c.lt a = false := by
  refine Bool.eq_false_iff.2 fun hca => ?_
  rw [lt_of_lt_of_not_lt hca hba] at hcb
  cases hcb

theorem addSeconds_lt (t : Instant) (n : Nat) : (t.addSeconds n).lt t = false := by
  have h : ¬ t.seconds + n < t.seconds := by omega
  simp [lt, addSeconds, h]

end Instant

/-- How a service answers calls, and what they mean to those who share it. -/
structure Service (Q : Type → Type) (W : Type) where
  answer : {γ : Type} → Q γ → W → γ × W
  /-- Whether a call can fail at any time with this answer, and nothing done. -/
  fails : {γ : Type} → Q γ → γ → Prop
  /-- Whether a call tells how things are. -/
  looks : {γ : Type} → Q γ → Bool
  /-- Whether a call that is answered so has changed how things are. -/
  changes : {γ : Type} → Q γ → γ → Bool
  /-- The times that a clock can show. -/
  times : Instant → Bool

/-- Whether a call may be answered so and leave this behind. -/
def Service.Answers (v : Service Q W) (w : W) {γ : Type} (q : Q γ) (b : γ) (w' : W) : Prop :=
  (b, w') = v.answer q w ∨ v.fails q b ∧ w' = w

/-- A service and its clients. -/
structure Shared (ι W : Type) (C : Type u) where
  world : W
  now : Instant
  /-- Whether a client has looked, and since then nobody else has changed anything. -/
  knows : ι → Bool
  clients : ι → C

namespace Shared

/-- The same service with other clients. -/
def withClients {C : Type u} {D : Type v} (o : Shared ι W C) (clients : ι → D) : Shared ι W D :=
  ⟨o.world, o.now, o.knows, clients⟩

section Steps

variable [DecidableEq ι]

/-- Who knows how things are after a call. -/
def knowsAfter (v : Service Q W) {C : Type u} (o : Shared ι W C) (i : ι) {γ : Type} (q : Q γ) (b : γ) (j : ι) :
    Bool :=
  if j = i then v.looks q || o.knows j else o.knows j && !v.changes q b

/-- A call of another client teaches nobody anything. -/
theorem knows_of_knowsAfter {v : Service Q W} {C : Type u} {o : Shared ι W C} {i j : ι} (hj : j ≠ i) {γ : Type}
    {q : Q γ} {b : γ} (h : o.knowsAfter v i q b j = true) : o.knows j = true := by
  rw [knowsAfter, if_neg hj, Bool.and_eq_true] at h
  exact h.1

/-- After a change, the others do not know how things are. -/
theorem knowsAfter_of_changes {v : Service Q W} {C : Type u} {o : Shared ι W C} {i j : ι} (hj : j ≠ i) {γ : Type}
    {q : Q γ} {b : γ} (h : v.changes q b = true) : o.knowsAfter v i q b j = false := by
  rw [knowsAfter, if_neg hj, h, Bool.not_true, Bool.and_false]

/-- A client goes on, and the service is this afterwards. -/
def goOn {C : Type u} (o : Shared ι W C) (i : ι) (world : W) (knows : ι → Bool) (next : C) : Shared ι W C :=
  ⟨world, o.now, knows, Function.update o.clients i next⟩

/-- Time goes on, or one question of one client is answered.  What the clients ask is given by `asks`; careful
calls are made by those only who know how things are. -/
inductive Step (v : Service Q W) (careful : {γ : Type} → Q γ → Bool) {C : Type u}
    (asks : C → {γ : Type} → Asking Q γ → (γ → C) → Prop) : Shared ι W C → Shared ι W C → Prop
  | tick {o : Shared ι W C} {later : Instant} (onward : later.lt o.now = false) (shown : v.times later) :
      Step v careful asks o { o with now := later }
  | aside {o : Shared ι W C} {i : ι} {γ : Type} {q : Ambient γ} {next : γ → C} {c : γ}
      (turn : asks (o.clients i) (.first q) next) (told : q.Tells o.now c) :
      Step v careful asks o (o.goOn i o.world o.knows (next c))
  | call {o : Shared ι W C} {i : ι} {γ : Type} {q : Q γ} {next : γ → C} {b : γ} {world : W}
      (turn : asks (o.clients i) (.second q) next) (answered : v.Answers o.world q b world)
      (fresh : careful q → o.knows i) :
      Step v careful asks o (o.goOn i world (o.knowsAfter v i q b) (next b))

/-- What a service and its clients come to. -/
abbrev Reaches (v : Service Q W) (careful : {γ : Type} → Q γ → Bool) {C : Type u}
    (asks : C → {γ : Type} → Asking Q γ → (γ → C) → Prop) : Shared ι W C → Shared ι W C → Prop :=
  ReflTransGen (Step v careful asks)

end Steps

end Shared

/-! ### Courses -/

/-- Whether a program asks this next. -/
def Program.Asks (p : Program Q α) {γ : Type} (q : Q γ) (next : γ → Program Q α) : Prop := p = .ask q next

/-- An order in which to ask. -/
structure Course (Q : Type → Type) (α : Type) where
  Stage : Type
  /-- Whether this may be asked at a stage, and answers lead to these stages. -/
  asks : Stage → {γ : Type} → Q γ → (γ → Stage) → Prop
  /-- Whether a program may end so at a stage. -/
  ends : Stage → α → Prop

/-- Whether a program that is at a stage of a course keeps to it. -/
inductive Course.Keeps (c : Course Q α) : c.Stage → Program Q α → Prop
  | done {s : c.Stage} {a : α} (result : c.ends s a) : Keeps c s (.done a)
  | ask {s : c.Stage} {γ : Type} {q : Q γ} {f : γ → c.Stage} {next : γ → Program Q α} (may : c.asks s q f)
      (on : ∀ b, Keeps c (f b) (next b)) : Keeps c s (.ask q next)

theorem Course.Keeps.ends {c : Course Q α} {s : c.Stage} {a : α} (h : c.Keeps s (.done a)) : c.ends s a := by
  cases h with
  | done result => exact result

namespace Shared

variable [DecidableEq ι] {v : Service Q W} {careful : {γ : Type} → Q γ → Bool} {c : Course (Asking Q) α}
  {o o' : Shared ι W (Program (Asking Q) α)} {stage : ι → c.Stage}

/-- Each of the clients keeps to its course when one of them goes on along it. -/
theorem keeps_update {clients : ι → Program (Asking Q) α} (hkeeps : ∀ i, c.Keeps (stage i) (clients i)) {i : ι}
    {s : c.Stage} {next : Program (Asking Q) α} (hs : c.Keeps s next) (j : ι) :
    c.Keeps (Function.update stage i s j) (Function.update clients i next j) := by
  by_cases hj : j = i
  · subst hj
    simpa using hs
  · simpa [hj] using hkeeps j

/-- A step of programs is one of their stages. -/
theorem exists_stages_of_step (hkeeps : ∀ i, c.Keeps (stage i) (o.clients i))
    (h : Step v careful Program.Asks o o') :
    ∃ stage', Step v careful c.asks (o.withClients stage) (o'.withClients stage') ∧
      ∀ i, c.Keeps (stage' i) (o'.clients i) := by
  cases h with
  | tick onward shown => exact ⟨stage, .tick onward shown, hkeeps⟩
  | @aside i γ q next a turn told =>
    have hi := hkeeps i
    rw [show o.clients i = _ from turn] at hi
    cases hi with
    | ask may on => exact ⟨_, .aside (o := o.withClients stage) may told, keeps_update hkeeps (on a)⟩
  | @call i γ q next b world turn answered fresh =>
    have hi := hkeeps i
    rw [show o.clients i = _ from turn] at hi
    cases hi with
    | ask may on => exact ⟨_, .call (o := o.withClients stage) may answered fresh, keeps_update hkeeps (on b)⟩

/-- **Whatever programs come to that keep to a course, their stages come to.** -/
theorem exists_stages (hkeeps : ∀ i, c.Keeps (stage i) (o.clients i)) (h : Reaches v careful Program.Asks o o') :
    ∃ stage', Reaches v careful c.asks (o.withClients stage) (o'.withClients stage') ∧
      ∀ i, c.Keeps (stage' i) (o'.clients i) := by
  induction h with
  | refl => exact ⟨stage, .refl, hkeeps⟩
  | tail _ hstep ih =>
    obtain ⟨stage', hreaches, hkeeps'⟩ := ih
    obtain ⟨stage'', hstep', hkeeps''⟩ := exists_stages_of_step hkeeps' hstep
    exact ⟨stage'', hreaches.tail hstep', hkeeps''⟩

/-! ### Moves -/

/-- What happens next where everything is answered at once. -/
inductive Move (ι : Type) where
  | wait (seconds : Nat)
  /-- A question of this client is answered, by this name if it asks for one. -/
  | turn (i : ι) (name : String)

/-- Makes a move.  A careful call that must not be made waits. -/
def move (v : Service Q W) (careful : {γ : Type} → Q γ → Bool) (o : Shared ι W (Program (Asking Q) α)) :
    Move ι → Shared ι W (Program (Asking Q) α)
  | .wait seconds =>
      let later := o.now.addSeconds seconds
      if v.times later then { o with now := later } else o
  | .turn i name =>
      match o.clients i with
      | .done _ => o
      | .ask (.first q) next => o.goOn i o.world o.knows (next (q.plain o.now name))
      | .ask (.second q) next =>
          if careful q && !o.knows i then o
          else
            let a := v.answer q o.world
            o.goOn i a.2 (o.knowsAfter v i q a.1) (next a.1)

/-- Makes moves. -/
def moves (v : Service Q W) (careful : {γ : Type} → Q γ → Bool) (o : Shared ι W (Program (Asking Q) α))
    (ms : List (Move ι)) : Shared ι W (Program (Asking Q) α) :=
  ms.foldl (move v careful) o

theorem reaches_moves (v : Service Q W) (careful : {γ : Type} → Q γ → Bool)
    (o : Shared ι W (Program (Asking Q) α)) (ms : List (Move ι)) :
    Reaches v careful Program.Asks o (o.moves v careful ms) := by
  induction ms generalizing o with
  | nil => exact .refl
  | cons m ms ih =>
    refine ReflTransGen.trans ?_ (ih (o.move v careful m))
    cases m with
    | wait seconds =>
      simp only [move]
      split
      · exact .single (.tick (Instant.addSeconds_lt o.now seconds) ‹_›)
      · exact .refl
    | turn i name =>
      simp only [move]
      split
      · exact .refl
      · exact .single (.aside ‹_› (Ambient.tells_plain ..))
      · split
        · exact .refl
        · exact .single (.call ‹_› (.inl rfl) (by grind))

/-! ### One client at a time -/

/-- What one client comes to without careful calls while nobody else is answered. -/
inductive Onward (v : Service Q W) (careful : {γ : Type} → Q γ → Bool) (now : Instant) :
    W → Program (Asking Q) α → W → Program (Asking Q) α → Prop
  | refl {w : W} {p : Program (Asking Q) α} : Onward v @careful now w p w p
  | aside {w w' : W} {γ : Type} {q : Ambient γ} {next : γ → Program (Asking Q) α} {p : Program (Asking Q) α} (c : γ)
      (told : q.Tells now c) (on : Onward v @careful now w (next c) w' p) :
      Onward v @careful now w (.ask (.first q) next) w' p
  | call {w w' world : W} {γ : Type} {q : Q γ} {next : γ → Program (Asking Q) α} {p : Program (Asking Q) α} {b : γ}
      (answered : v.Answers w q b world)
      (careless : careful q = false) (on : Onward v @careful now world (next b) w' p) :
      Onward v @careful now w (.ask (.second q) next) w' p

theorem reaches_of_onward {w w' : W} {p p' : Program (Asking Q) α} {now : Instant} (h : Onward v @careful now w p w' p')
    {i : ι} (hworld : o.world = w) (hnow : o.now = now) (hclient : o.clients i = p) :
    ∃ knows, Reaches v careful Program.Asks o (o.goOn i w' knows p') := by
  induction h generalizing o with
  | refl =>
    refine ⟨o.knows, ?_⟩
    have hsame : o.goOn i o.world o.knows (o.clients i) = o := by simp [goOn]
    rw [← hworld, ← hclient, hsame]
  | aside c told on ih =>
    subst hworld hnow
    obtain ⟨knows, hreaches⟩ := ih (o := o.goOn i o.world o.knows _) rfl rfl (Function.update_self ..)
    refine ⟨knows, .head (.aside hclient told) ?_⟩
    simpa [goOn] using hreaches
  | @call _ _ world γ q next p b answered careless on ih =>
    subst hworld hnow
    obtain ⟨knows, hreaches⟩ := ih (o := o.goOn i world (o.knowsAfter v i q b) _) rfl rfl (Function.update_self ..)
    refine ⟨knows, .head (.call hclient answered fun h => absurd (careless.symm.trans h) Bool.false_ne_true) ?_⟩
    simpa [goOn] using hreaches

end Shared

end Groundwork
