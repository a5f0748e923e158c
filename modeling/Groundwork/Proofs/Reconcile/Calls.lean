import Groundwork.Effect.Ambient
import Groundwork.Reconcile

/-!
# Reconciling, call by call

A reconciler works through what it is given: a store, something that runs plans, the time and a log.  Given
questions in their place, it is a program, which can be answered by anything and in turns with others.

What such a program asks comes in a fixed order.  A plan asks for one record.  An application asks for the lock
of its key, and if it gets it for the record of the key, then for the run of its plan, and then that the record
is written with the graph that the run left; whatever is answered, it gives the lock back in the end.  `Behaves`
says so of a program that has come to some stage of this.

Main statements: a plan is made from the record that was read (`plan_asking`), all that clients have a
reconciler do is in order (`behaves_calls`), and asking for it and being answered comes to the same as doing it
(`run_calls`).
-/

namespace Groundwork

/-- Calls of a reconciler: the operations of its store, and the runs of its plans. -/
inductive ReconcileCall : Type → Type where
  | load (key : StateKey) : ReconcileCall (Except StateError (Option Record))
  | save (r : Record) : ReconcileCall (Except StateError Unit)
  | delete (key : StateKey) : ReconcileCall (Except StateError Unit)
  | hasRecord (key : StateKey) : ReconcileCall (Except StateError Bool)
  | acquire (key : StateKey) (operation : String) : ReconcileCall (Except StateError Lock)
  | release (key : StateKey) (id : String) : ReconcileCall (Except StateError Unit)
  | forceUnlock (key : StateKey) : ReconcileCall (Except StateError Unit)
  | lock? (key : StateKey) : ReconcileCall (Except StateError (Option Lock))
  | isLocked (key : StateKey) : ReconcileCall (Except StateError Bool)
  | run (g : Infrastructure) : ReconcileCall Run

/-- Programs that reconcile. -/
abbrev ReconcileProgram := Program (Asking ReconcileCall)

namespace Reconciler

variable {α β : Type}

/-- The reconciler whose parts do what is answered. -/
def answering {m : Type → Type u} (answer : {γ : Type} → Asking ReconcileCall γ → m γ) : Reconciler m where
  store :=
    { kind := "answered"
      load := fun key => ExceptT.mk (answer (.second (.load key)))
      save := fun r => ExceptT.mk (answer (.second (.save r)))
      delete := fun key => ExceptT.mk (answer (.second (.delete key)))
      hasRecord := fun key => ExceptT.mk (answer (.second (.hasRecord key)))
      acquire := fun key operation => ExceptT.mk (answer (.second (.acquire key operation)))
      release := fun key id => ExceptT.mk (answer (.second (.release key id)))
      forceUnlock := fun key => ExceptT.mk (answer (.second (.forceUnlock key)))
      lock? := fun key => ExceptT.mk (answer (.second (.lock? key)))
      isLocked := fun key => ExceptT.mk (answer (.second (.isLocked key))) }
  run g := answer (.second (.run g))
  clock := answer (.first .clock)
  note level text := answer (.first (.note ⟨level, text⟩))

/-- The reconciler that asks for all that it does. -/
def asking : Reconciler ReconcileProgram := answering Program.query

/-! ### The time and the log -/

/-- Whether a program asks for the time and the log only, and comes to a result with this property. -/
inductive Aside (P : α → Prop) : ReconcileProgram α → Prop
  | done {a : α} (result : P a) : Aside P (.done a)
  | ask {γ : Type} {q : Ambient γ} {next : γ → ReconcileProgram α} (on : ∀ c, Aside P (next c)) :
      Aside P (.ask (.first q) next)

theorem aside_notes (lines : List LogLine) {P : α → Prop} {k : Except Failure PUnit → ReconcileProgram α}
    (hk : Aside P (k (.ok ⟨⟩))) :
    Aside P ((ExceptT.lift (lines.forM fun line => asking.note line.level line.text)).run.bind k) := by
  show Aside P (((lines.forM fun line => asking.note line.level line.text).bind _).bind k)
  rw [Program.bind_assoc]
  induction lines with
  | nil => exact hk
  | cons line lines ih => exact .ask fun _ => ih

/-! ### Plans -/

/-- The graph of a record, and of a key that has none. -/
def graphOf (found : Option Record) : Infrastructure := (found.map Record.graph).getD Graph.empty

/-- **A plan asks for the record of its key, and is made from the graph that it finds there.** -/
theorem plan_asking (key : StateKey) (target : Infrastructure) :
    ∃ next, (asking.plan key target).run = .ask (.second (.load key)) next ∧
      (∀ e, next (.error e) = .done (.error (.state e))) ∧
      ∀ found, Aside (fun b => ∃ t, b = .ok ⟨key, Groundwork.plan t (graphOf found) target⟩)
        (next (.ok found)) := by
  refine ⟨_, rfl, fun e => rfl, fun found => ?_⟩
  cases found with
  | none => exact .ask fun _ => .ask fun t => aside_notes _ (.ask fun _ => .done ⟨t, rfl⟩)
  | some record => exact .ask fun t => aside_notes _ (.ask fun _ => .done ⟨t, rfl⟩)

/-! ### Stages -/

/-- How far the application of a plan has come. -/
inductive Stage where
  /-- No lock is held. -/
  | outside
  /-- The lock of this id is held. -/
  | locked (p : KeyPlan) (operation : Operation) (id : String)
  /-- The record of the key was read. -/
  | loaded (p : KeyPlan) (operation : Operation) (id : String) (found : Option Record)
  /-- The plan was run. -/
  | executed (p : KeyPlan) (operation : Operation) (id : String) (found : Option Record) (run : Run)
  /-- The record was written or could not be, and the lock is still held. -/
  | leaving (key : StateKey) (id : String)

/-- The error by which a run is remembered. -/
def errorOf (r : Run) : Option String :=
  match r.outcome with
  | .ok _ => none
  | .error e => some e.message

/-- What an application writes: the record that it found, or one of nothing, with the graph that its run left
and an entry about the run. -/
def written (p : KeyPlan) (operation : Operation) (found : Option Record) (run : Run) (fresh now : Instant) :
    Record :=
  ((found.getD (.fresh fresh p.key)).setGraph now run.graph).addEntry
    (.ofRun now operation p.changedIds (errorOf run))

/-- The word to the log before a plan is run. -/
def starting (p : KeyPlan) (operation : Operation) (fresh : Instant) : ReconcileProgram Instant :=
  .ask (.first (.note ⟨.info, "Starting " ++ operation.name ++ " of " ++ p.key.render ++ ": " ++ p.summary.render⟩))
    fun _ => .done fresh

/-- **The work under a lock asks for the record of its key, runs the plan and writes what the run left.**  Before
that and after it, it asks for the time and the log at most. -/
theorem runLocked_asking (p : KeyPlan) (operation : Operation) :
    ∃ (next : _ → _) (opening : _ → ReconcileProgram Instant) (ending : Run → _ → _),
      (asking.runLocked p operation).run = .ask (.second (.load p.key)) next ∧
      (∀ e, next (.error e) = .done (.error (.state e))) ∧
      (∀ found, next (.ok found) = (opening found).bind fun fresh => .ask (.second (.run p.graph)) fun run =>
        .ask (.first .clock) fun now => .ask (.second (.save (written p operation found run fresh now))) (ending run)) ∧
      (∀ found, Aside (fun _ => True) (opening found)) ∧ ∀ run b, Aside (fun _ => True) (ending run b) := by
  -- the record of nothing is made at a time of its own
  refine ⟨_, fun found => found.elim (.ask (.first .clock) (starting p operation)) fun _ =>
    starting p operation Instant.epoch, ?ending, rfl, fun e => rfl, ?work, ?_, ?_⟩
  case work =>
    rintro (_ | record) <;> rfl
  · rintro (_ | record)
    · exact .ask fun _ => .ask fun _ => .done trivial
    · exact .ask fun _ => .done trivial
  · rintro run (e | _)
    · exact .ask fun _ => .done trivial
    · generalize run.outcome = outcome
      cases outcome with
      | ok results => exact .done trivial
      | error e => exact .ask fun _ => .done trivial

/-- **An application asks for the lock of its key, and after the work for its release.** -/
theorem runPlan_asking (p : KeyPlan) (operation : Operation) :
    ∃ (next : _ → _) (leaving : _ → _ → _),
      (asking.runPlan p operation).run = .ask (.second (.acquire p.key operation.name)) next ∧
      (∀ e, next (.error e) = .done (.error (.state e))) ∧
      (∀ l : Lock, next (.ok l) = (asking.runLocked p operation).run.bind fun outcome =>
        .ask (.second (.release p.key l.id)) (leaving outcome)) ∧
      ∀ outcome b, Aside (· = outcome) (leaving outcome b) := by
  refine ⟨_, ?leaving, rfl, fun e => rfl, ?work, ?_⟩
  case work =>
    intro l
    exact Program.bind_assoc (asking.runLocked p operation).run _ _
  · rintro outcome (e | _)
    · refine .ask fun _ => ?_
      cases outcome <;> exact .done rfl
    · cases outcome <;> exact .done rfl

/-- Whether a program that is at this stage asks for what is in order. -/
inductive Behaves : Stage → ReconcileProgram α → Prop
  | done (a : α) : Behaves .outside (.done a)
  | aside {s : Stage} {γ : Type} {q : Ambient γ} {next : γ → ReconcileProgram α}
      (on : ∀ c, Behaves s (next c)) : Behaves s (.ask (.first q) next)
  | look {key : StateKey} {next} (on : ∀ b, Behaves .outside (next b)) :
      Behaves .outside (.ask (.second (.load key)) next)
  /-- A lock is asked for at the beginning of an application only. -/
  | lock {p : KeyPlan} {operation : Operation} {next}
      (start : ∃ k, (asking.runPlan p operation).run.bind k
        = .ask (.second (.acquire p.key operation.name)) next)
      (refused : ∀ e, Behaves .outside (next (.error e)))
      (taken : ∀ l : Lock, Behaves (.locked p operation l.id) (next (.ok l))) :
      Behaves .outside (.ask (.second (.acquire p.key operation.name)) next)
  | load {p : KeyPlan} {operation : Operation} {id : String} {next}
      (unread : ∀ e, Behaves (.leaving p.key id) (next (.error e)))
      (read : ∀ found, Behaves (.loaded p operation id found) (next (.ok found))) :
      Behaves (.locked p operation id) (.ask (.second (.load p.key)) next)
  | run {p : KeyPlan} {operation : Operation} {id : String} {found : Option Record} {next}
      (on : ∀ run, Behaves (.executed p operation id found run) (next run)) :
      Behaves (.loaded p operation id found) (.ask (.second (.run p.graph)) next)
  | save {p : KeyPlan} {operation : Operation} {id : String} {found : Option Record} {run : Run} {next}
      (fresh now : Instant) (on : ∀ b, Behaves (.leaving p.key id) (next b)) :
      Behaves (.executed p operation id found run)
        (.ask (.second (.save (written p operation found run fresh now))) next)
  | release {key : StateKey} {id : String} {next} (on : ∀ b, Behaves .outside (next b)) :
      Behaves (.leaving key id) (.ask (.second (.release key id)) next)

/-- Whether a record is one that is written at this stage. -/
def Stage.Writes (r : Record) : Stage → Prop
  | .executed p operation _ found run => ∃ fresh now, r = written p operation found run fresh now
  | _ => False

/-- What a call says about the stage; only of a record that is written there is something to say. -/
def Stage.Fits (s : Stage) {γ : Type} : ReconcileCall γ → Prop
  | .save r => s.Writes r
  | _ => True

theorem Behaves.fits {s : Stage} {γ : Type} {q : ReconcileCall γ} {next : γ → ReconcileProgram α}
    (h : Behaves s (.ask (.second q) next)) : s.Fits q := by
  cases h with
  | save fresh now on => exact ⟨fresh, now, rfl⟩
  | look | lock | load | run | release => trivial

theorem Aside.behaves {s : Stage} {P : α → Prop} {p : ReconcileProgram α} {k : α → ReconcileProgram β}
    (hp : Aside P p) (hk : ∀ a, P a → Behaves s (k a)) : Behaves s (p.bind k) := by
  induction hp with
  | done result => exact hk _ result
  | ask on ih => exact .aside ih

theorem behaves_plan (key : StateKey) (target : Infrastructure)
    {k : Except Failure KeyPlan → ReconcileProgram α} (hk : ∀ b, Behaves .outside (k b)) :
    Behaves .outside ((asking.plan key target).run.bind k) := by
  obtain ⟨next, hplan, herror, hok⟩ := plan_asking key target
  rw [hplan]
  refine .look fun b => ?_
  cases b with
  | error e =>
    rw [herror]
    exact hk _
  | ok found => exact (hok found).behaves fun b _ => hk b

/-- Whatever comes of a run, its lock is still to be given back. -/
theorem behaves_runLocked (p : KeyPlan) (operation : Operation) (id : String)
    {k : Except Failure Reconciliation → ReconcileProgram α} (hk : ∀ b, Behaves (.leaving p.key id) (k b)) :
    Behaves (.locked p operation id) ((asking.runLocked p operation).run.bind k) := by
  obtain ⟨next, opening, ending, hrun, herror, hok, hopening, hending⟩ := runLocked_asking p operation
  rw [hrun]
  refine .load (fun e => ?_) fun found => ?_
  · rw [herror]
    exact hk _
  · rw [hok, Program.bind_assoc]
    refine (hopening found).behaves fun fresh _ => .run fun run => .aside fun now => .save fresh now fun b => ?_
    exact (hending run b).behaves fun outcome _ => hk outcome

/-- **An application takes the lock first and gives it back last.** -/
theorem behaves_runPlan (p : KeyPlan) (operation : Operation)
    {k : Except Failure Reconciliation → ReconcileProgram α} (hk : ∀ b, Behaves .outside (k b)) :
    Behaves .outside ((asking.runPlan p operation).run.bind k) := by
  obtain ⟨next, leaving, hrun, herror, hok, hleaving⟩ := runPlan_asking p operation
  rw [hrun]
  refine .lock ⟨k, hrun ▸ rfl⟩ (fun e => ?_) fun l => ?_
  · rw [herror]
    exact hk _
  · rw [hok, Program.bind_assoc]
    refine behaves_runLocked p operation l.id fun outcome => .release fun b => ?_
    exact (hleaving outcome b).behaves fun b _ => hk b

/-! ### Clients -/

/-- What a client may have a reconciler do. -/
inductive Errand : Type → Type where
  | plan (key : StateKey) (target : Infrastructure) : Errand (Except Failure KeyPlan)
  | planDestroy (key : StateKey) : Errand (Except Failure KeyPlan)
  | apply (p : KeyPlan) : Errand (Except Failure Reconciliation)
  | destroy (key : StateKey) : Errand (Except Failure Reconciliation)

/-- Has a reconciler do an errand. -/
def Errand.carriedOut {m : Type → Type u} [Monad m] (r : Reconciler m) : Errand α → m α
  | .plan key target => (r.plan key target).run
  | .planDestroy key => (r.planDestroy key).run
  | .apply p => (r.apply p).run
  | .destroy key => (r.destroy key).run

/-- The calls of an errand. -/
def Errand.calls (e : Errand α) : ReconcileProgram α := e.carriedOut asking

/-- **Whatever a client has the reconciler do is in order.** -/
theorem behaves_calls (c : Program Errand α) : Behaves .outside (c.expand Errand.calls) := by
  induction c with
  | done a => exact .done a
  | ask errand next ih =>
    cases errand with
    | plan key target => exact behaves_plan key target ih
    | planDestroy key => exact behaves_plan key Graph.empty ih
    | apply p => exact behaves_runPlan p .apply ih
    | destroy key =>
      show Behaves _ (((asking.plan key Graph.empty).run.bind _).bind _)
      rw [Program.bind_assoc]
      refine behaves_plan key Graph.empty fun b => ?_
      cases b with
      | error e => exact ih _
      | ok p => exact behaves_runPlan p .destroy ih

/-! ### Answers -/

section Answers

variable {m : Type → Type} [Monad m] [LawfulMonad m] {answer : {γ : Type} → Asking ReconcileCall γ → m γ}
  {ε : Type}

/-- Whether asking and then being answered comes to the same as doing. -/
def Agrees (answer : {γ : Type} → Asking ReconcileCall γ → m γ) (x : ExceptT ε ReconcileProgram α)
    (y : ExceptT ε m α) : Prop := x.run.run answer = y.run

theorem Agrees.bind {x : ExceptT ε ReconcileProgram α} {y : ExceptT ε m α}
    {f : α → ExceptT ε ReconcileProgram β} {g : α → ExceptT ε m β} (hx : Agrees answer x y)
    (hf : ∀ a, Agrees answer (f a) (g a)) : Agrees answer (x >>= f) (y >>= g) := by
  refine ((Program.run_bind answer _ _).trans (congrArg (· >>= _) hx)).trans ?_
  refine congrArg (y.run >>= ·) (funext fun b => ?_)
  cases b with
  | ok a => exact hf a
  | error e => rfl

theorem agrees_lift {x : ReconcileProgram α} {y : m α} (h : x.run answer = y) :
    Agrees answer (ExceptT.lift x : ExceptT ε ReconcileProgram α) (ExceptT.lift y) := by
  refine (Program.run_bind answer _ _).trans ?_
  rw [h]
  exact bind_pure_comp Except.ok y

theorem run_query (q : Asking ReconcileCall α) : (Program.query q).run answer = answer q := bind_pure (answer q)

theorem run_notes (lines : List LogLine) :
    (lines.forM fun line => asking.note line.level line.text).run answer
      = lines.forM fun line => (answering answer).note line.level line.text := by
  induction lines with
  | nil => rfl
  | cons line lines ih =>
    refine (Program.run_bind answer _ _).trans ?_
    rw [ih]
    exact congrArg (· >>= _) (run_query _)

theorem agrees_ofStore (q : ReconcileCall (Except StateError α)) :
    Agrees answer (ofStore (ExceptT.mk (Program.query (.second q))))
      (ofStore (ExceptT.mk (answer (.second q)))) :=
  (agrees_lift (run_query _)).bind fun b => by cases b <;> rfl

theorem agrees_load (key : StateKey) : Agrees answer (asking.load key) ((answering answer).load key) :=
  (agrees_ofStore (.load key)).bind fun found => by
    cases found with
    | some record => rfl
    | none => exact (agrees_lift (run_query _)).bind fun _ => rfl

theorem agrees_plan (key : StateKey) (target : Infrastructure) :
    Agrees answer (asking.plan key target) ((answering answer).plan key target) :=
  (agrees_load key).bind fun _ => (agrees_lift (run_query _)).bind fun _ =>
    (agrees_lift (run_notes _)).bind fun _ => (agrees_lift (run_query _)).bind fun _ => rfl

theorem agrees_runLocked (p : KeyPlan) (operation : Operation) :
    Agrees answer (asking.runLocked p operation) ((answering answer).runLocked p operation) :=
  (agrees_load p.key).bind fun _ => (agrees_lift (run_query _)).bind fun _ =>
    (agrees_lift (run_query _)).bind fun run => (agrees_lift (run_query _)).bind fun _ =>
    (agrees_lift (run_query _)).bind fun b => by
      cases b with
      | error e => exact (agrees_lift (run_query _)).bind fun _ => rfl
      | ok _ =>
        generalize run.outcome = outcome
        cases outcome with
        | ok results => rfl
        | error e => exact (agrees_lift (run_query _)).bind fun _ => rfl

theorem agrees_runPlan (p : KeyPlan) (operation : Operation) :
    Agrees answer (asking.runPlan p operation) ((answering answer).runPlan p operation) :=
  (agrees_ofStore (.acquire p.key operation.name)).bind fun _ =>
    (agrees_lift (agrees_runLocked p operation)).bind fun outcome =>
    (agrees_lift (run_query _)).bind fun b => by
      cases b with
      | ok _ => cases outcome <;> rfl
      | error e => exact (agrees_lift (run_query _)).bind fun _ => by cases outcome <;> rfl

/-- **Clients that ask, if answered, do what the reconciler of those answers does.** -/
theorem run_calls (c : Program Errand α) :
    (c.expand Errand.calls).run answer = c.run (fun e => e.carriedOut (answering answer)) := by
  induction c with
  | done a => rfl
  | ask errand next ih =>
    refine (Program.run_bind answer _ _).trans ?_
    simp only [ih]
    refine congrArg (· >>= _) ?_
    cases errand with
    | plan key target => exact agrees_plan key target
    | planDestroy key => exact agrees_plan key Graph.empty
    | apply p => exact agrees_runPlan p .apply
    | destroy key => exact (agrees_plan key Graph.empty).bind fun p => agrees_runPlan p .destroy

end Answers

end Reconciler

end Groundwork
