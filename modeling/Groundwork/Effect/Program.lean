/-!
# Programs that ask their surroundings

A program computes, and at times asks its surroundings something: to read a file, to fetch an object, what
time it is.  What can be asked is a family of types, indexed by the type of the answer.  A program says only
in what order it asks and what it does with the answers, so that the same program can be run against a real
system, against a model of one, or in turns with other programs.

Main statements: programs form a lawful monad (`bind_assoc`), and putting questions in other words and
running follow the sequence (`expand_bind`, `run_bind`).
-/

namespace Groundwork

/-- A program over the questions `Q`. -/
inductive Program (Q : Type → Type) (α : Type) : Type 1 where
  | done (a : α)
  | ask {β : Type} (question : Q β) (next : β → Program Q α)

namespace Program

variable {Q R : Type → Type} {α β γ : Type}

/-- One program after the other. -/
def bind : Program Q α → (α → Program Q β) → Program Q β
  | .done a, f => f a
  | .ask q next, f => .ask q fun b => (next b).bind f

instance : Monad (Program Q) where
  pure := .done
  bind := bind

/-- The program that asks one question. -/
def query (q : Q α) : Program Q α := .ask q .done

/-- The same program with its questions put in other words. -/
def mapQuestions (f : {β : Type} → Q β → R β) : Program Q α → Program R α
  | .done a => .done a
  | .ask q next => .ask (f q) fun b => (next b).mapQuestions f

/-- The same program with every question put through a program of its own. -/
def expand (f : {β : Type} → Q β → Program R β) : Program Q α → Program R α
  | .done a => .done a
  | .ask q next => (f q).bind fun b => (next b).expand f

/-- Runs a program where the questions are answered. -/
def run {m : Type → Type} [Monad m] (answer : {β : Type} → Q β → m β) : Program Q α → m α
  | .done a => pure a
  | .ask q next => do (next (← answer q)).run answer

@[simp] theorem bind_done (a : α) (f : α → Program Q β) : (done a : Program Q α).bind f = f a := rfl

@[simp] theorem bind_ask (q : Q γ) (next : γ → Program Q α) (f : α → Program Q β) :
    (ask q next).bind f = ask q fun b => (next b).bind f := rfl

theorem bind_pure (p : Program Q α) : p.bind .done = p := by
  induction p with
  | done a => rfl
  | ask q next ih => simp only [bind_ask, ih]

theorem bind_assoc (p : Program Q α) (f : α → Program Q β) (g : β → Program Q γ) :
    (p.bind f).bind g = p.bind fun a => (f a).bind g := by
  induction p with
  | done a => rfl
  | ask q next ih => simp only [bind_ask, ih]

theorem run_bind {m : Type → Type} [Monad m] [LawfulMonad m] (answer : {β : Type} → Q β → m β)
    (p : Program Q α) (f : α → Program Q β) :
    (p.bind f).run answer = p.run answer >>= fun a => (f a).run answer := by
  induction p with
  | done a => simp [run]
  | ask q next ih => simp only [bind_ask, run, LawfulMonad.bind_assoc, ih]

theorem expand_bind (f : {β : Type} → Q β → Program R β) (p : Program Q α) (g : α → Program Q β) :
    (p.bind g).expand f = (p.expand f).bind fun a => (g a).expand f := by
  induction p with
  | done a => rfl
  | ask q next ih => simp only [bind_ask, expand, ih, bind_assoc]

end Program

end Groundwork
