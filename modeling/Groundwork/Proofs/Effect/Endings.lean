import Groundwork.Proofs.Effect.Sharing

/-!
# What programs come to

A program that can fail is written step by step, and comes to a plain program in which each step goes on with the
result of the step before or ends with its error.

A program asks, and what it comes to depends on the answers.  The times that a clock shows, the new names and the
names of whoever asks may be given in advance, each in the order in which they are asked for; then the program runs,
and two programs that use different calls can be compared.  Where nothing is given in advance, a call can be answered
in several ways, and time goes on in between.  A program ends in some of the ways that this leaves, with the calls
that it made and their answers.

Main statements: the rules that show what a program that can fail asks (`run_query_bind`, `run_bind_orEnd`), what one
question does to a run (`perform_call`, `perform_clock` and the like), and that runs follow the sequence
(`perform_bind`); what holds of all ends of a program, question by question (`Ensures.call`, `Ensures.aside`) and in
sequence (`Ensures.bind`), that time never goes back (`onward_of_comes`), and that a run under given answers is one of
the ends (`exists_comes_of_perform`).
-/

namespace Groundwork.Program

/-! ### Programs that can fail -/

variable {ε α β : Type} {P Q : Type → Type}

/-- Goes on with a result, or ends with the error. -/
def orEnd (f : α → Program Q (Except ε β)) : Except ε α → Program Q (Except ε β)
  | .ok a => f a
  | .error e => .done (.error e)

@[simp] theorem orEnd_ok (f : α → Program Q (Except ε β)) (a : α) : orEnd f (.ok a) = f a := rfl

@[simp] theorem orEnd_error (f : α → Program Q (Except ε β)) (e : ε) : orEnd f (.error e) = .done (.error e) := rfl

/-- One step after the other, and none after an error. -/
theorem run_bind_orEnd (x : ExceptT ε (Program Q) α) (f : α → ExceptT ε (Program Q) β) :
    (x >>= f).run = x.run.bind (orEnd fun a => (f a).run) := by
  change Program.bind _ _ = Program.bind _ _
  congr

/-- A question first, and then what follows its answer. -/
theorem run_query_bind (q : Q α) (f : α → ExceptT ε (Program Q) β) :
    (ExceptT.lift (query q) >>= f).run = .ask q fun a => (f a).run := rfl

theorem run_query (q : Q α) : (ExceptT.lift (query q) : ExceptT ε (Program Q) α).run = .ask q fun a => .done (.ok a) :=
  rfl

end Groundwork.Program

namespace Groundwork

/-! ### Given answers -/

/-- The names that a run is given. -/
structure Names where
  ids : Nat → String
  holders : Nat → String

/-- How many times and names a run was given. -/
structure Marks where
  read : Nat
  named : Nat
  asked : Nat
  deriving DecidableEq, Repr

namespace Marks

/-- Nothing was given yet. -/
def zero : Marks := ⟨0, 0, 0⟩

/-- After the clock was read. -/
def look (m : Marks) : Marks := { m with read := m.read + 1 }

/-- After the clock was read, and a new name and the holder were asked for. -/
def take (m : Marks) : Marks := ⟨m.read + 1, m.named + 1, m.asked + 1⟩

end Marks

/-- The given answer to an ambient question. -/
def Ambient.told (clock : Nat → Instant) (names : Names) {γ : Type} : Ambient γ → StateM Marks γ
  | .clock => modifyGet fun m => (clock m.read, { m with read := m.read + 1 })
  | .freshId => modifyGet fun m => (names.ids m.named, { m with named := m.named + 1 })
  | .holder => modifyGet fun m => (names.holders m.asked, { m with asked := m.asked + 1 })
  | .note _ => return ()

namespace Program

variable {Q : Type → Type} {W α β γ : Type}

/-- Answers calls, and ambient questions as given. -/
def serve (clock : Nat → Instant) (names : Names) (answer : {γ : Type} → Q γ → StateM W γ) {γ : Type}
    (q : Asking Q γ) : StateM (W × Marks) γ :=
  match q with
  | .first q => fun s => let (a, m) := (q.told clock names).run s.2; (a, (s.1, m))
  | .second q => fun s => let (a, w) := (answer q).run s.1; (a, (w, s.2))

variable {clock : Nat → Instant} {names : Names} {answer : {γ : Type} → Q γ → StateM W γ}

/-- What a run of a program gives and leaves. -/
def perform (clock : Nat → Instant) (names : Names) (answer : {γ : Type} → Q γ → StateM W γ)
    (p : Program (Asking Q) α) (w : W) (m : Marks) : α × W × Marks :=
  (p.run (serve clock names answer)).run (w, m)

theorem perform_done (a : α) (w : W) (m : Marks) :
    perform clock names answer (.done a) w m = (a, w, m) := rfl

theorem perform_call (q : Q γ) (next : γ → Program (Asking Q) α) (w : W) (m : Marks) :
    perform clock names answer (.ask (.second q) next) w m =
      perform clock names answer (next ((answer q).run w).1) ((answer q).run w).2 m := rfl

theorem perform_clock (next : Instant → Program (Asking Q) α) (w : W) (m : Marks) :
    perform clock names answer (.ask (.first .clock) next) w m =
      perform clock names answer (next (clock m.read)) w m.look := rfl

theorem perform_freshId (next : String → Program (Asking Q) α) (w : W) (m : Marks) :
    perform clock names answer (.ask (.first .freshId) next) w m =
      perform clock names answer (next (names.ids m.named)) w { m with named := m.named + 1 } := rfl

theorem perform_holder (next : String → Program (Asking Q) α) (w : W) (m : Marks) :
    perform clock names answer (.ask (.first .holder) next) w m =
      perform clock names answer (next (names.holders m.asked)) w { m with asked := m.asked + 1 } := rfl

theorem perform_note (line : LogLine) (next : Unit → Program (Asking Q) α) (w : W) (m : Marks) :
    perform clock names answer (.ask (.first (.note line)) next) w m =
      perform clock names answer (next ()) w m := rfl

theorem perform_bind (p : Program (Asking Q) α) (f : α → Program (Asking Q) β) (w : W) (m : Marks) :
    perform clock names answer (p.bind f) w m =
      let s := perform clock names answer p w m
      perform clock names answer (f s.1) s.2.1 s.2.2 := by
  simp only [perform, run_bind, StateT.run_bind]
  rfl

end Program

/-! ### Ends under any answers -/

section Ends

variable {Q : Type → Type} {W α β : Type}

/-- A call and its answer. -/
structure Event (Q : Type → Type) : Type 1 where
  {γ : Type}
  question : Q γ
  answer : γ

/-- What is there at some time. -/
structure Moment (W : Type) where
  world : W
  now : Instant

/-- How calls may be answered. -/
structure Setting (Q : Type → Type) (W : Type) where
  /-- Whether a call may be answered so, and at which moment the answer may come. -/
  answers : {γ : Type} → Q γ → Moment W → γ → Moment W → Prop
  onward : ∀ {γ : Type} {q : Q γ} {s s' : Moment W} {b : γ}, answers q s b s' → s'.now.lt s.now = false
  /-- The times that a clock can show. -/
  times : Instant → Prop

namespace Program

/-- Whether a program that begins at one moment may make these calls, come to this result, and end at another
moment. -/
inductive Comes (v : Setting Q W) : Moment W → Program (Asking Q) α → List (Event Q) → α → Moment W → Prop
  | done {s : Moment W} {a : α} : Comes v s (.done a) [] a s
  | aside {s s' : Moment W} {γ : Type} {q : Ambient γ} {next : γ → Program (Asking Q) α} {es : List (Event Q)} {a : α}
      {later : Instant} {b : γ} (onward : later.lt s.now = false) (shown : v.times later) (told : q.Tells later b)
      (on : Comes v ⟨s.world, later⟩ (next b) es a s') : Comes v s (.ask (.first q) next) es a s'
  | call {s t s' : Moment W} {γ : Type} {q : Q γ} {next : γ → Program (Asking Q) α} {es : List (Event Q)} {a : α}
      {b : γ} (answered : v.answers q s b t) (on : Comes v t (next b) es a s') :
      Comes v s (.ask (.second q) next) (⟨q, b⟩ :: es) a s'

/-- One program after the other. -/
theorem Comes.bind {v : Setting Q W} {s t s' : Moment W} {p : Program (Asking Q) β} {f : β → Program (Asking Q) α}
    {es es' : List (Event Q)} {b : β} {a : α} (hp : p.Comes v s es b t) (hf : (f b).Comes v t es' a s') :
    (p.bind f).Comes v s (es ++ es') a s' := by
  induction hp with
  | done => exact hf
  | aside onward shown told on ih => exact .aside onward shown told (ih hf)
  | call answered on ih => exact .call answered (ih hf)

/-- Time goes on. -/
theorem onward_of_comes {v : Setting Q W} {s s' : Moment W} {p : Program (Asking Q) α} {es : List (Event Q)} {a : α}
    (h : p.Comes v s es a s') : s'.now.lt s.now = false := by
  induction h with
  | done => exact Instant.lt_irrefl _
  | aside onward shown told on ih => exact Instant.not_lt_trans onward ih
  | call answered on ih => exact Instant.not_lt_trans (v.onward answered) ih

/-- Whether a program ends like this, whatever is answered. -/
def Ensures (v : Setting Q W) (s : Moment W) (p : Program (Asking Q) α)
    (post : List (Event Q) → α → Moment W → Prop) : Prop :=
  ∀ es a s', p.Comes v s es a s' → post es a s'

section Ensures

variable {v : Setting Q W} {s : Moment W} {post post' : List (Event Q) → α → Moment W → Prop}

theorem Ensures.mono {p : Program (Asking Q) α} (h : p.Ensures v s post)
    (himp : ∀ es a s', post es a s' → post' es a s') : p.Ensures v s post' :=
  fun es a s' hcomes => himp es a s' (h es a s' hcomes)

/-- What is ensured is so at a later time. -/
theorem Ensures.onward {p : Program (Asking Q) α} (h : p.Ensures v s post) :
    p.Ensures v s fun es a s' => post es a s' ∧ s'.now.lt s.now = false :=
  fun es a s' hcomes => ⟨h es a s' hcomes, onward_of_comes hcomes⟩

theorem Ensures.done {a : α} (h : post [] a s) : (Program.done a).Ensures v s post := by
  intro es a' s' hcomes
  cases hcomes
  exact h

/-- An ambient question takes some time. -/
theorem Ensures.aside {γ : Type} {q : Ambient γ} {next : γ → Program (Asking Q) α}
    (h : ∀ later b, later.lt s.now = false → v.times later → q.Tells later b →
      (next b).Ensures v ⟨s.world, later⟩ post) :
    (Program.ask (.first q) next).Ensures v s post := by
  intro es a s' hcomes
  cases hcomes with
  | aside onward shown told on => exact h _ _ onward shown told _ _ _ on

theorem Ensures.call {γ : Type} {q : Q γ} {next : γ → Program (Asking Q) α}
    (h : ∀ b t, v.answers q s b t → (next b).Ensures v t fun es => post (⟨q, b⟩ :: es)) :
    (Program.ask (.second q) next).Ensures v s post := by
  intro es a s' hcomes
  cases hcomes with
  | call answered on => exact h _ _ answered _ _ _ on

/-- One program after the other. -/
theorem Ensures.bind {p : Program (Asking Q) β} {f : β → Program (Asking Q) α}
    (h : p.Ensures v s fun es b t => (f b).Ensures v t fun es' => post (es ++ es')) :
    (p.bind f).Ensures v s post := by
  induction p generalizing s post with
  | done b => exact h [] b s .done
  | ask q next ih =>
    rcases q with q | q
    · refine .aside fun later b onward shown told => ih b ?_
      exact fun es b' t hcomes => h es b' t (.aside onward shown told hcomes)
    · refine .call fun b t answered => ih b ?_
      exact fun es b' t' hcomes => h _ b' t' (.call answered hcomes)

end Ensures

/-- **A run under given answers is one of the ends of a program**, where the time stands still. -/
theorem exists_comes_of_perform {v : Setting Q W} {now : Instant} {names : Names}
    {answer : {γ : Type} → Q γ → StateM W γ}
    (hanswers : ∀ {γ : Type} (q : Q γ) (w : W), v.answers q ⟨w, now⟩ ((answer q).run w).1 ⟨((answer q).run w).2, now⟩)
    (htimes : v.times now) {p : Program (Asking Q) α} {w w' : W} {m m' : Marks} {a : α}
    (h : perform (fun _ => now) names answer p w m = (a, w', m')) : ∃ es, p.Comes v ⟨w, now⟩ es a ⟨w', now⟩ := by
  have honward := Instant.lt_irrefl now
  induction p generalizing w m with
  | done b =>
    rw [perform_done] at h
    obtain ⟨rfl, rfl, -⟩ := h
    exact ⟨[], .done⟩
  | ask q next ih =>
    rcases q with q | q
    · cases q with
      | clock =>
        rw [perform_clock] at h
        obtain ⟨es, hes⟩ := ih now h
        exact ⟨es, .aside honward htimes rfl hes⟩
      | freshId =>
        rw [perform_freshId] at h
        obtain ⟨es, hes⟩ := ih _ h
        exact ⟨es, .aside honward htimes trivial hes⟩
      | holder =>
        rw [perform_holder] at h
        obtain ⟨es, hes⟩ := ih _ h
        exact ⟨es, .aside honward htimes trivial hes⟩
      | note line =>
        rw [perform_note] at h
        obtain ⟨es, hes⟩ := ih () h
        exact ⟨es, .aside honward htimes trivial hes⟩
    · rw [perform_call] at h
      obtain ⟨es, hes⟩ := ih _ h
      exact ⟨_, .call (hanswers q w) hes⟩

end Program

end Ends

end Groundwork
