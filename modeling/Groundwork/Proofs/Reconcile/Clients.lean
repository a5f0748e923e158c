import Groundwork.Proofs.Plan.Contents
import Groundwork.Proofs.Reconcile.Calls
import Groundwork.Run.Rehearsal
import Mathlib.Logic.Function.Basic
import Mathlib.Logic.Relation

/-!
# Clients of one store

Any number of clients have reconcilers plan and apply, all on one store, and their calls come one after the
other in any order.  The store lends the lock of a key to one of them at a time.  Only who has the lock of a key
writes its record, so that from the moment when a client takes the lock until it saves, the record stays what it
was.  A lock does not look back further, though: nothing compares what is overwritten with what the plan was
made from.

Main statements: an application overwrites the record that was there when it took the lock
(`overwrites_what_it_locked`), which need not be the one that its plan was made from
(`stale_plan_overwrites`).
-/

namespace Groundwork

open Relation

/-! ### Shelves -/

/-- What a store keeps: a record and a lock under each key. -/
structure Shelf where
  records : StateKey → Option Record
  locks : StateKey → Option Lock

namespace Shelf

/-- A store with nothing in it. -/
def empty : Shelf := ⟨fun _ => none, fun _ => none⟩

/-- Writes a record under its own key. -/
def keep (r : Record) (s : Shelf) : Shelf := { s with records := Function.update s.records r.key (some r) }

/-- Removes what is under a key. -/
def clear (key : StateKey) (s : Shelf) : Shelf :=
  ⟨Function.update s.records key none, Function.update s.locks key none⟩

/-- Lends a lock. -/
def lend (l : Lock) (s : Shelf) : Shelf := { s with locks := Function.update s.locks l.key (some l) }

/-- Takes back the lock of a key if it is the one of this id. -/
def takeBack (key : StateKey) (id : String) (s : Shelf) : Shelf :=
  { s with locks := Function.update s.locks key ((s.locks key).filter (·.id ≠ id)) }

/-- Removes the lock of a key. -/
def unlock (key : StateKey) (s : Shelf) : Shelf := { s with locks := Function.update s.locks key none }

@[simp] theorem records_keep (r : Record) (s : Shelf) :
    (s.keep r).records = Function.update s.records r.key (some r) := rfl

@[simp] theorem locks_lend (l : Lock) (s : Shelf) :
    (s.lend l).locks = Function.update s.locks l.key (some l) := rfl

theorem locks_takeBack_of_ne {key other : StateKey} (hne : other ≠ key) (id : String) (s : Shelf) :
    (s.takeBack key id).locks other = s.locks other := Function.update_of_ne hne _ _

/-- Whether every record is kept under its own key. -/
def Labelled (s : Shelf) : Prop := ∀ key r, s.records key = some r → r.key = key

theorem labelled_empty : empty.Labelled := fun _ _ h => nomatch h

theorem Labelled.keep {s : Shelf} (hs : s.Labelled) (r : Record) : (s.keep r).Labelled := by
  intro key q hq
  by_cases hkey : key = r.key
  · subst hkey
    rw [records_keep, Function.update_self, Option.some.injEq] at hq
    exact hq ▸ rfl
  · rw [records_keep, Function.update_of_ne hkey] at hq
    exact hs key q hq

/-- Whether a call has failed and done nothing, or has come to what it should. -/
def Attempt {α : Type} (s : Shelf) (done : α → Shelf → Prop) : Except StateError α → Shelf → Prop
  | .ok a, t => done a t
  | .error _, t => t = s

/-- Whether a call may be answered so and leave this behind.  A lock is lent only if nobody has it, and of the
runs of a graph some take place. -/
def Answers (runs : Infrastructure → Run → Prop) (s : Shelf) {γ : Type} (q : ReconcileCall γ) :
    γ → Shelf → Prop :=
  match q with
  | .load key => s.Attempt fun found t => found = s.records key ∧ t = s
  | .save r => s.Attempt fun _ t => t = s.keep r
  | .delete key => s.Attempt fun _ t => t = s.clear key
  | .hasRecord key => s.Attempt fun b t => b = (s.records key).isSome ∧ t = s
  | .acquire key operation => s.Attempt fun l t =>
      s.locks key = none ∧ (∃ now id holder, l = .take now id holder key operation) ∧ t = s.lend l
  | .release key id => s.Attempt fun _ t => t = s.takeBack key id
  | .forceUnlock key => s.Attempt fun _ t => t = s.unlock key
  | .lock? key => s.Attempt fun l t => l = s.locks key ∧ t = s
  | .isLocked key => s.Attempt fun b t => b = (s.locks key).isSome ∧ t = s
  | .run g => fun run t => runs g run ∧ t = s

/-- Whether an answer leaves the record of a key alone. -/
def Spares (key : StateKey) {γ : Type} (q : ReconcileCall γ) : γ → Prop :=
  match q with
  | .save r => fun b => b.isOk → r.key ≠ key
  | .delete other => fun b => b.isOk → other ≠ key
  | _ => fun _ => True

theorem Answers.records_eq {runs : Infrastructure → Run → Prop} {s t : Shelf} {γ : Type}
    {q : ReconcileCall γ} {b : γ} {key : StateKey} (h : s.Answers runs q b t) (hq : Spares key q b) :
    t.records key = s.records key := by
  cases q with
  | run g => rw [h.2]
  | save r =>
    rcases b with e | a
    · rw [show t = s from h]
    · rw [show t = s.keep r from h]
      exact Function.update_of_ne (hq rfl).symm _ _
  | delete other =>
    rcases b with e | a
    · rw [show t = s from h]
    · rw [show t = s.clear other from h]
      exact Function.update_of_ne (hq rfl).symm _ _
  | acquire other operation =>
    rcases b with e | l
    · rw [show t = s from h]
    · rw [h.2.2]
      rfl
  | load other | hasRecord other | lock? other | isLocked other =>
    rcases b with e | a
    · rw [show t = s from h]
    · rw [h.2]
  | release other id | forceUnlock other =>
    rcases b with e | a
    · rw [show t = s from h]
    · rw [show t = _ from h]
      rfl

/-- The answer to a call and what it leaves, where nothing fails and plans are run like this. -/
def answer (execute : Infrastructure → Run) (s : Shelf) {γ : Type} : ReconcileCall γ → γ × Shelf
  | .load key => (.ok (s.records key), s)
  | .save r => (.ok (), s.keep r)
  | .delete key => (.ok (), s.clear key)
  | .hasRecord key => (.ok (s.records key).isSome, s)
  | .acquire key operation =>
      match s.locks key with
      | some l => (.error l.refusal, s)
      | none =>
          let l := Lock.take Instant.epoch "id" "holder" key operation
          (.ok l, s.lend l)
  | .release key id => (.ok (), s.takeBack key id)
  | .forceUnlock key => (.ok (), s.unlock key)
  | .lock? key => (.ok (s.locks key), s)
  | .isLocked key => (.ok (s.locks key).isSome, s)
  | .run g => (execute g, s)

theorem answers_answer (execute : Infrastructure → Run) (s : Shelf) {γ : Type} (q : ReconcileCall γ) :
    s.Answers (fun g run => run = execute g) q (s.answer execute q).1 (s.answer execute q).2 := by
  cases q with
  | acquire key operation =>
    simp only [answer]
    cases hlock : s.locks key with
    | some l => rfl
    | none => exact ⟨hlock, ⟨_, _, _, rfl⟩, rfl⟩
  | load | hasRecord | lock? | isLocked | run => exact ⟨rfl, rfl⟩
  | save | delete | release | forceUnlock => rfl

end Shelf

/-- The answer to a question where time stands still. -/
def Ambient.still {γ : Type} : Ambient γ → γ
  | .clock => Instant.epoch
  | .freshId => "id"
  | .holder => "holder"
  | .note _ => ()

/-! ### Offices -/

/-- A store and the clients that work with it. -/
structure Office (ι : Type) where
  shelf : Shelf
  /-- What is left to be done, by client. -/
  clients : ι → ReconcileProgram Unit

namespace Office

open Reconciler

variable {ι : Type} [DecidableEq ι] {runs : Infrastructure → Run → Prop}

/-- The clients before the first call. -/
def opened (shelf : Shelf) (cs : ι → Program Errand Unit) : Office ι :=
  ⟨shelf, fun i => (cs i).expand Errand.calls⟩

/-- A client goes on, and the store is this afterwards. -/
def goOn (o : Office ι) (i : ι) (shelf : Shelf) (next : ReconcileProgram Unit) : Office ι :=
  ⟨shelf, Function.update o.clients i next⟩

@[simp] theorem shelf_goOn (o : Office ι) (i : ι) (shelf : Shelf) (next : ReconcileProgram Unit) :
    (o.goOn i shelf next).shelf = shelf := rfl

@[simp] theorem clients_goOn_self (o : Office ι) (i : ι) (shelf : Shelf) (next : ReconcileProgram Unit) :
    (o.goOn i shelf next).clients i = next := Function.update_self ..

theorem clients_goOn_of_ne (o : Office ι) {i j : ι} (hne : j ≠ i) (shelf : Shelf)
    (next : ReconcileProgram Unit) : (o.goOn i shelf next).clients j = o.clients j :=
  Function.update_of_ne hne ..

/-- One question of one client is answered; only these answers to calls are allowed. -/
inductive StepBy (runs : Infrastructure → Run → Prop) (allowed : {γ : Type} → ReconcileCall γ → γ → Prop) :
    Office ι → Office ι → Prop
  | aside {o : Office ι} {i : ι} {γ : Type} {q : Ambient γ} {next : γ → ReconcileProgram Unit} (c : γ)
      (turn : o.clients i = .ask (.first q) next) :
      StepBy runs allowed o (o.goOn i o.shelf (next c))
  | call {o : Office ι} {i : ι} {γ : Type} {q : ReconcileCall γ} {next : γ → ReconcileProgram Unit} {b : γ}
      {shelf : Shelf} (turn : o.clients i = .ask (.second q) next) (answered : o.shelf.Answers runs q b shelf)
      (fine : allowed q b) :
      StepBy runs allowed o (o.goOn i shelf (next b))

/-- One question of one client is answered. -/
abbrev Step (runs : Infrastructure → Run → Prop) : Office ι → Office ι → Prop := StepBy runs fun _ _ => True

/-- What an office comes to. -/
abbrev Reaches (runs : Infrastructure → Run → Prop) : Office ι → Office ι → Prop := ReflTransGen (Step runs)

/-- What an office comes to while nobody saves or deletes the record of a key. -/
abbrev ReachesSparing (runs : Infrastructure → Run → Prop) (key : StateKey) : Office ι → Office ι → Prop :=
  ReflTransGen (StepBy runs (Shelf.Spares key))

/-- Where nobody saves, the record stays. -/
theorem records_eq_of_reachesSparing {key : StateKey} {o q : Office ι} (h : ReachesSparing runs key o q) :
    q.shelf.records key = o.shelf.records key := by
  induction h with
  | refl => rfl
  | tail _ hstep ih =>
    refine Eq.trans ?_ ih
    cases hstep with
    | aside c turn => rfl
    | call turn answered fine => exact answered.records_eq fine

/-! ### Who has which lock -/

/-- Whether a client at this stage has the lock of a key. -/
def Holds (key : StateKey) : Stage → Prop
  | .outside => False
  | .locked p _ _ => p.key = key
  | .loaded p _ _ _ => p.key = key
  | .executed p _ _ _ _ => p.key = key
  | .leaving other _ => other = key

/-- Whether a client began here to apply a plan, and the record of its key is still what it was then. -/
structure Began (runs : Infrastructure → Run → Prop) (start here o : Office ι) (i : ι) (p : KeyPlan)
    (operation : Operation) : Prop where
  reached : Reaches runs start here
  begins : ∃ k, here.clients i = (asking.runPlan p operation).run.bind k
  onward : Reaches runs here o
  same : o.shelf.records p.key = here.shelf.records p.key

/-- What is known of the plan of a client at this stage. -/
def Founded (runs : Infrastructure → Run → Prop) (start o : Office ι) (i : ι) : Stage → Prop
  | .locked p operation _ => ∃ here, Began runs start here o i p operation
  | .loaded p operation _ found =>
      (∃ here, Began runs start here o i p operation) ∧ o.shelf.records p.key = found
  | .executed p operation _ found run =>
      (∃ here, Began runs start here o i p operation) ∧ o.shelf.records p.key = found ∧ runs p.graph run
  | _ => True

/-- What is true of an office whose clients have come to these stages. -/
structure Guarded (runs : Infrastructure → Run → Prop) (start o : Office ι) (stage : ι → Stage) : Prop where
  reached : Reaches runs start o
  labelled : o.shelf.Labelled
  /-- Clients go on in order. -/
  follows : ∀ i, Behaves (stage i) (o.clients i)
  /-- A lock that somebody has is lent. -/
  lent : ∀ i key, Holds key (stage i) → o.shelf.locks key ≠ none
  /-- Nobody else has it. -/
  apart : ∀ i j key, Holds key (stage i) → Holds key (stage j) → i = j
  founded : ∀ i, Founded runs start o i (stage i)

variable {start o : Office ι} {stage : ι → Stage}

theorem guarded_opened {shelf : Shelf} (h : shelf.Labelled) (cs : ι → Program Errand Unit) :
    Guarded runs (opened shelf cs) (opened shelf cs) fun _ => .outside where
  reached := .refl
  labelled := h
  follows i := behaves_calls (cs i)
  lent _ _ := False.elim
  apart _ _ _ := False.elim
  founded _ := trivial

/-- What is known of a plan stays true while its record does. -/
theorem Founded.step {q : Office ι} {i : ι} {s : Stage} (h : Founded runs start o i s)
    (hstep : Step runs o q) (hrecords : ∀ key, Holds key s → q.shelf.records key = o.shelf.records key) :
    Founded runs start q i s := by
  have began : ∀ {p operation}, Holds p.key s → (∃ here, Began runs start here o i p operation) →
      ∃ here, Began runs start here q i p operation := by
    rintro p operation hp ⟨here, hhere⟩
    exact ⟨here, hhere.reached, hhere.begins, hhere.onward.tail hstep, (hrecords _ hp).trans hhere.same⟩
  cases s with
  | outside => trivial
  | leaving key id => trivial
  | locked p operation id => exact began rfl h
  | loaded p operation id found => exact ⟨began rfl h.1, (hrecords _ rfl).trans h.2⟩
  | executed p operation id found run => exact ⟨began rfl h.1, (hrecords _ rfl).trans h.2.1, h.2.2⟩

/-- A client goes on to another stage.  It may take a lock that nobody has, and may change what is under a key
only if it has the lock. -/
theorem Guarded.advance (h : Guarded runs start o stage) {shelf : Shelf} {i : ι} {next : ReconcileProgram Unit}
    (hstep : Step runs o (o.goOn i shelf next)) (labelled : shelf.Labelled) (s : Stage)
    (follows : Behaves s next) (lent : ∀ key, Holds key s → shelf.locks key ≠ none)
    (took : ∀ key, Holds key s → Holds key (stage i) ∨ o.shelf.locks key = none)
    (founded : Founded runs start (o.goOn i shelf next) i s)
    (others : ∀ key, o.shelf.locks key ≠ none → ¬ Holds key (stage i) →
      shelf.records key = o.shelf.records key ∧ shelf.locks key = o.shelf.locks key) :
    Guarded runs start (o.goOn i shelf next) (Function.update stage i s) := by
  have other : ∀ {j}, j ≠ i → ∀ {key}, Holds key (stage j) →
      shelf.records key = o.shelf.records key ∧ shelf.locks key = o.shelf.locks key := fun hne key hkey =>
    others key (h.lent _ _ hkey) fun hi => hne (h.apart _ _ _ hkey hi)
  have alone : ∀ {j}, j ≠ i → ∀ {key}, Holds key (stage j) → ¬ Holds key s := by
    intro j hne key hj hs
    rcases took key hs with hi | hnone
    · exact hne (h.apart _ _ _ hj hi)
    · exact h.lent _ _ hj hnone
  refine ⟨h.reached.tail hstep, labelled, fun j => ?_, fun j key hj => ?_, fun j l key hj hl => ?_,
    fun j => ?_⟩
  · by_cases hne : j = i
    · subst hne
      rw [Function.update_self, clients_goOn_self]
      exact follows
    · rw [Function.update_of_ne hne, clients_goOn_of_ne o hne]
      exact h.follows j
  · by_cases hne : j = i
    · subst hne
      rw [Function.update_self] at hj
      exact lent key hj
    · rw [Function.update_of_ne hne] at hj
      rw [shelf_goOn, (other hne hj).2]
      exact h.lent j key hj
  · by_cases hji : j = i <;> by_cases hli : l = i
    · exact hji.trans hli.symm
    · subst hji
      rw [Function.update_self] at hj
      rw [Function.update_of_ne hli] at hl
      exact absurd hj (alone hli hl)
    · subst hli
      rw [Function.update_self] at hl
      rw [Function.update_of_ne hji] at hj
      exact absurd hl (alone hji hj)
    · rw [Function.update_of_ne hji] at hj
      rw [Function.update_of_ne hli] at hl
      exact h.apart j l key hj hl
  · by_cases hne : j = i
    · subst hne
      rw [Function.update_self]
      exact founded
    · rw [Function.update_of_ne hne]
      exact (h.founded j).step hstep fun key hj => (other hne hj).1

/-- A client goes on within the stages of one lock, and nothing in the store changes. -/
theorem Guarded.proceed (h : Guarded runs start o stage) {i : ι} {next : ReconcileProgram Unit}
    (hstep : Step runs o (o.goOn i o.shelf next)) (s : Stage) (follows : Behaves s next)
    (holds : ∀ key, Holds key s → Holds key (stage i))
    (founded : Founded runs start (o.goOn i o.shelf next) i s) :
    Guarded runs start (o.goOn i o.shelf next) (Function.update stage i s) :=
  h.advance hstep h.labelled s follows (fun key hs => h.lent i key (holds key hs))
    (fun key hs => .inl (holds key hs)) founded fun _ _ _ => ⟨rfl, rfl⟩

/-- The record of an application has the key of its plan. -/
theorem key_written {shelf : Shelf} (h : shelf.Labelled) (p : KeyPlan) (operation : Operation) (run : Run)
    (fresh now : Instant) : (written p operation (shelf.records p.key) run fresh now).key = p.key := by
  show ((shelf.records p.key).getD _).key = p.key
  cases hfound : shelf.records p.key with
  | none => rfl
  | some r => exact h _ r hfound

/-- A client takes a lock that nobody has. -/
theorem Guarded.lend (h : Guarded runs start o stage) {i : ι} {p : KeyPlan} {operation : Operation} {l : Lock}
    {next : ReconcileProgram Unit} (hstep : Step runs o (o.goOn i (o.shelf.lend l) next))
    (free : o.shelf.locks p.key = none) (hkey : l.key = p.key)
    (begins : ∃ k, o.clients i = (asking.runPlan p operation).run.bind k)
    (follows : Behaves (.locked p operation l.id) next) :
    Guarded runs start (o.goOn i (o.shelf.lend l) next) (Function.update stage i (.locked p operation l.id)) := by
  refine h.advance hstep h.labelled _ follows ?_ ?_ ?_ ?_
  · rintro key rfl
    rw [Shelf.locks_lend, hkey]
    exact ne_of_eq_of_ne (Function.update_self ..) (Option.some_ne_none _)
  · rintro key rfl
    exact .inr free
  · exact ⟨o, h.reached, begins, .single hstep, rfl⟩
  · intro key hlent _
    refine ⟨rfl, Function.update_of_ne ?_ ..⟩
    rintro rfl
    exact hlent (hkey ▸ free)

/-- A client that has the lock of a key writes its record. -/
theorem Guarded.keep (h : Guarded runs start o stage) {i : ι} {r : Record} {id : String}
    {next : ReconcileProgram Unit} (hstep : Step runs o (o.goOn i (o.shelf.keep r) next))
    (holds : Holds r.key (stage i)) (follows : Behaves (.leaving r.key id) next) :
    Guarded runs start (o.goOn i (o.shelf.keep r) next) (Function.update stage i (.leaving r.key id)) := by
  refine h.advance hstep (h.labelled.keep r) _ follows ?_ ?_ trivial ?_
  · rintro key rfl
    exact h.lent i _ holds
  · rintro key rfl
    exact .inl holds
  · intro key _ hother
    refine ⟨Function.update_of_ne ?_ .., rfl⟩
    rintro rfl
    exact hother holds

/-- A client gives a lock back that it has. -/
theorem Guarded.takeBack (h : Guarded runs start o stage) {i : ι} {key : StateKey} {id : String}
    {next : ReconcileProgram Unit} (hstep : Step runs o (o.goOn i (o.shelf.takeBack key id) next))
    (holds : Holds key (stage i)) (follows : Behaves .outside next) :
    Guarded runs start (o.goOn i (o.shelf.takeBack key id) next) (Function.update stage i .outside) := by
  refine h.advance hstep h.labelled _ follows (fun _ => False.elim) (fun _ => False.elim) trivial ?_
  intro other _ hother
  refine ⟨rfl, Shelf.locks_takeBack_of_ne ?_ id o.shelf⟩
  rintro rfl
  exact hother holds

/-- **What the clients know of their plans stays true, whoever is answered next.** -/
theorem Guarded.step (h : Guarded runs start o stage) {q : Office ι} (hstep : Step runs o q) :
    ∃ stage', Guarded runs start q stage' := by
  have hstep' := hstep
  cases hstep with
  | @aside i γ a next c turn =>
    have hi := h.follows i
    rw [turn] at hi
    generalize hs : stage i = s at hi
    cases hi with
    | aside on =>
      refine ⟨_, h.proceed hstep' s (on c) (fun key hkey => hs ▸ hkey) ?_⟩
      exact hs ▸ (h.founded i).step hstep' fun _ _ => rfl
  | @call i γ a next b shelf turn answered fine =>
    have hi := h.follows i
    have hfounded := h.founded i
    rw [turn] at hi
    generalize hs : stage i = s at hi hfounded
    -- a call that fails changes nothing
    cases hi with
    | look on =>
      rcases b with e | found
      · obtain rfl : shelf = o.shelf := answered
        exact ⟨_, h.proceed hstep' .outside (on _) (fun _ => False.elim) trivial⟩
      · obtain rfl : shelf = o.shelf := answered.2
        exact ⟨_, h.proceed hstep' .outside (on _) (fun _ => False.elim) trivial⟩
    | @lock p operation _ began refused taken =>
      rcases b with e | l
      · obtain rfl : shelf = o.shelf := answered
        exact ⟨_, h.proceed hstep' .outside (refused _) (fun _ => False.elim) trivial⟩
      · obtain ⟨free, ⟨now, id, holder, rfl⟩, rfl⟩ := answered
        obtain ⟨k, hk⟩ := began
        exact ⟨_, h.lend hstep' free rfl ⟨k, turn.trans hk.symm⟩ (taken _)⟩
    | @load p operation id _ unread read =>
      rcases b with e | found
      · obtain rfl : shelf = o.shelf := answered
        exact ⟨_, h.proceed hstep' (.leaving p.key id) (unread e) (fun key hkey => hs ▸ hkey) trivial⟩
      · obtain ⟨rfl, rfl⟩ := answered
        refine ⟨_, h.proceed hstep' (.loaded p operation id _) (read _) (fun key hkey => hs ▸ hkey) ?_⟩
        exact ⟨Founded.step hfounded hstep' fun _ _ => rfl, rfl⟩
    | @run p operation id found _ on =>
      obtain ⟨hrun, rfl⟩ := answered
      refine ⟨_, h.proceed hstep' (.executed p operation id found b) (on b) (fun key hkey => hs ▸ hkey) ?_⟩
      have hloaded := hfounded.step hstep' fun _ _ => rfl
      exact ⟨hloaded.1, hloaded.2, hrun⟩
    | @save p operation id found run _ fresh now on =>
      rcases b with e | _
      · obtain rfl : shelf = o.shelf := answered
        exact ⟨_, h.proceed hstep' (.leaving p.key id) (on _) (fun key hkey => hs ▸ hkey) trivial⟩
      · obtain rfl : shelf = o.shelf.keep _ := answered
        have hkey : (written p operation found run fresh now).key = p.key :=
          hfounded.2.1 ▸ key_written h.labelled p operation run fresh now
        exact ⟨_, h.keep hstep' (hs ▸ hkey.symm) (hkey ▸ on _)⟩
    | @release key id _ on =>
      rcases b with e | _
      · obtain rfl : shelf = o.shelf := answered
        exact ⟨_, h.proceed hstep' .outside (on _) (fun _ => False.elim) trivial⟩
      · obtain rfl : shelf = o.shelf.takeBack key id := answered
        exact ⟨_, h.takeBack hstep' (hs ▸ rfl) (on _)⟩

theorem guarded_of_reaches {shelf : Shelf} (h : shelf.Labelled) {cs : ι → Program Errand Unit}
    (ho : Reaches runs (opened shelf cs) o) : ∃ stage, Guarded runs (opened shelf cs) o stage := by
  induction ho with
  | refl => exact ⟨_, guarded_opened h cs⟩
  | tail _ hstep ih =>
    obtain ⟨stage, hstage⟩ := ih
    exact hstage.step hstep

/-! ### Turns -/

/-- Answers the next question of a client, where nothing fails and plans are run like this. -/
def turn (execute : Infrastructure → Run) (o : Office ι) (i : ι) : Office ι :=
  match o.clients i with
  | .done _ => o
  | .ask (.first q) next => o.goOn i o.shelf (next q.still)
  | .ask (.second q) next =>
      let a := o.shelf.answer execute q
      o.goOn i a.2 (next a.1)

/-- Answers questions of clients in turns. -/
def turns (execute : Infrastructure → Run) (o : Office ι) (is : List ι) : Office ι := is.foldl (turn execute) o

theorem reaches_turns (execute : Infrastructure → Run) (o : Office ι) (is : List ι) :
    Reaches (fun g run => run = execute g) o (o.turns execute is) := by
  induction is generalizing o with
  | nil => exact .refl
  | cons i is ih =>
    refine ReflTransGen.trans ?_ (ih (o.turn execute i))
    unfold turn
    split
    · exact .refl
    · exact .single (.aside _ ‹_›)
    · exact .single (.call ‹_› (Shelf.answers_answer ..) trivial)

/-! ### Rivals -/

/-- A client that plans and then applies the plan. -/
def planner (key : StateKey) (target : Infrastructure) : Program Errand Unit :=
  .ask (.plan key target) fun b =>
    match b with
    | .ok p => .ask (.apply p) fun _ => .done ()
    | .error _ => .done ()

/-- A target of some modules. -/
def modules (names : List String) : Infrastructure :=
  Graph.empty.insertNodes (names.map fun name => Plan.sample name .create .pending)

/-- Runs a plan with plugins that succeed at once. -/
def execute (g : Infrastructure) : Run := Rehearsal.execute ⟨1, none⟩ [] g

/-- Two clients that want different modules under one key. -/
def rivals : Office Bool :=
  opened .empty fun second => planner (.whole "dc") (modules [if second then "cache" else "db"])

/-- The second client has made its plan. -/
def rivalsPlanned : Office Bool := rivals.turns execute (.replicate 5 true)

/-- Since then the first client has planned and applied its plan, and the second one is about to save. -/
def rivalsSaving : Office Bool := rivalsPlanned.turns execute (.replicate 13 false ++ .replicate 5 true)

theorem reaches_rivalsSaving : Reaches (fun g run => run = execute g) rivals rivalsSaving :=
  (reaches_turns execute rivals _).trans (reaches_turns execute rivalsPlanned _)

/-! ### What is overwritten -/

/-- **An application overwrites the record that was there when it took the lock**, whatever the other clients
do.  What it writes is what the run of its plan left, under the key of the plan.  So it overwrites the graph of
any earlier moment since which nobody has saved, such as the one from which the plan was made (`plan_asking`). -/
theorem overwrites_what_it_locked {shelf : Shelf} (labelled : shelf.Labelled) (cs : ι → Program Errand Unit)
    (ho : Reaches runs (opened shelf cs) o) {i : ι} {r : Record} {next}
    (turn : o.clients i = .ask (.second (.save r)) next) :
    ∃ p operation here, Began runs (opened shelf cs) here o i p operation ∧ r.key = p.key ∧
      (∃ run fresh now, runs p.graph run ∧ r = written p operation (o.shelf.records p.key) run fresh now) ∧
      ∀ earlier, ReachesSparing runs p.key earlier here →
        graphOf (o.shelf.records p.key) = graphOf (earlier.shelf.records p.key) := by
  obtain ⟨stage, h⟩ := guarded_of_reaches labelled ho
  have hwrites : (stage i).Writes r := (turn ▸ h.follows i).fits
  have hfounded := h.founded i
  cases hs : stage i with
  | executed p operation id found run =>
    rw [hs] at hwrites hfounded
    obtain ⟨fresh, now, rfl⟩ := hwrites
    obtain ⟨⟨here, began⟩, rfl, hrun⟩ := hfounded
    refine ⟨p, operation, here, began, key_written h.labelled p operation run fresh now,
      ⟨run, fresh, now, hrun, rfl⟩, fun earlier hearlier => ?_⟩
    rw [began.same, records_eq_of_reachesSparing hearlier]
  | outside | locked | loaded | leaving =>
    rw [hs] at hwrites
    exact hwrites.elim

/-- The second of two rivals overwrites what it locked. -/
theorem overwrites_what_it_locked_rival :
    Shelf.empty.Labelled ∧ Reaches (fun g run => run = execute g) rivals rivalsSaving ∧
    ∃ r next, rivalsSaving.clients true = .ask (.second (.save r)) next ∧
      ∃ p operation here,
        Began (fun g run => run = execute g) rivals here rivalsSaving true p operation ∧ r.key = p.key ∧
        (∃ run fresh now, run = execute p.graph ∧
          r = written p operation (rivalsSaving.shelf.records p.key) run fresh now) ∧
        ∀ earlier, ReachesSparing (fun g run => run = execute g) p.key earlier here →
          graphOf (rivalsSaving.shelf.records p.key) = graphOf (earlier.shelf.records p.key) :=
  ⟨Shelf.labelled_empty, reaches_rivalsSaving, _, _, rfl,
    overwrites_what_it_locked Shelf.labelled_empty _ reaches_rivalsSaving rfl⟩

/-- The nodes that are kept: whether they are complete, and whether their outputs are there. -/
def kept (o : Office Bool) : List (String × Bool × Bool) :=
  (graphOf (o.shelf.records (.whole "dc"))).nodes.map fun n => (n.id, n.isComplete, n.outputs.isSome)

/-- **What another client has saved since the plan was made is lost.**  The second rival has made its plan from
nothing when the first one saves a module with its outputs.  Its application is not refused: it takes the lock,
runs its plan and overwrites that module, which the next plan would have to create again. -/
theorem stale_plan_overwrites :
    let p : KeyPlan :=
      ⟨.whole "dc", plan Instant.epoch (graphOf (rivals.shelf.records (.whole "dc"))) (modules ["cache"])⟩
    rivalsPlanned.clients true = (asking.runPlan p .apply).run.bind (fun _ => .done ()) ∧
    Reaches (fun g run => run = execute g) rivals rivalsPlanned ∧
    Reaches (fun g run => run = execute g) rivalsPlanned rivalsSaving ∧
    (∃ r next, rivalsSaving.clients true = .ask (.second (.save r)) next ∧ r.key = p.key ∧
      r.graph = (execute p.graph).graph) ∧
    rivals.kept = [] ∧ rivalsSaving.kept = [("module/db@blue", true, true)] ∧
    (rivalsSaving.turn execute true).kept = [("module/cache@blue", true, true)] ∧
    (plan Instant.epoch (graphOf ((rivalsSaving.turn execute true).shelf.records (.whole "dc")))
      (modules ["cache", "db"])).nodes.map (fun n => (n.id, n.action))
        = [("module/cache@blue", .noOp), ("module/db@blue", .create)] := by
  refine ⟨rfl, reaches_turns .., reaches_turns .., ⟨_, _, rfl, rfl, rfl⟩, rfl, ?_, ?_, ?_⟩
  · decide +kernel
  · decide +kernel
  · decide +kernel

end Office

end Groundwork
