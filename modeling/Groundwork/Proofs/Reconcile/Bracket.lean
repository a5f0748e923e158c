import Mathlib.Data.List.DropRight
import Groundwork.Proofs.Reconcile.Clients
import Groundwork.Proofs.State.Honest
import Groundwork.Proofs.State.OneStore

/-!
# Runs between taking a lock and giving it back

A reconciler works on a store whose calls may fail at any time, and while a plan runs others may work on it, too.
What is left behind is known nevertheless.  An application that is not given the lock of its key runs nothing and
leaves the record and every lock that holds.  One that is given it makes its calls in a fixed order, of which giving
the lock back is the last, so that only its own lock is removed.  If its record was loaded and saved, then what is
stored is what the run left, and the history has one entry more, however the run ended.

A record is saved under the key that it carries.  All of this holds where that is the key under which it was found;
a record that was found under another key is saved elsewhere (`saves_elsewhere`).

Main statement: `runs_bracketed`.
-/

namespace Groundwork

open Program (Ensures)
open Reconciler (asking graphOf written errorOf)

/-- What the history of a record is, and of a key that has none. -/
def historyOf (found : Option Record) : List HistoryEntry := (found.map Record.history).getD []

namespace HonestStore

variable (k : HonestStore)

/-! ### Answers -/

/-- Whether an operation may end so; calls within may fail if they may. -/
def Ends {α : Type} (act : ExceptT StateError (Program (Asking k.Q)) α) (may : Bool) (m : Moment k.W)
    (b : Except StateError α) (m' : Moment k.W) : Prop :=
  ∃ es, act.run.Comes (.failing k.answer k.fails may) m es b m'

/-- Whether a call of a reconciler may be answered so.  What the store asks may fail at any time, within a release only
if it may.  A plan may come to any run, and others may change the store like this meanwhile. -/
def Answers (may : Bool) (meanwhile : Contents → Contents → Prop) {γ : Type} (q : ReconcileCall γ) (m : Moment k.W)
    (b : γ) (m' : Moment k.W) : Prop :=
  match q with
  | .load key => k.Ends (k.store.load key) true m b m'
  | .save r => k.Ends (k.store.save r) true m b m'
  | .delete key => k.Ends (k.store.delete key) true m b m'
  | .hasRecord key => k.Ends (k.store.hasRecord key) true m b m'
  | .acquire key operation => k.Ends (k.store.acquire key operation) true m b m'
  | .release key id => k.Ends (k.store.release key id) may m b m'
  | .forceUnlock key => k.Ends (k.store.forceUnlock key) true m b m'
  | .lock? key => k.Ends (k.store.lock? key) true m b m'
  | .isLocked key => k.Ends (k.store.isLocked key) true m b m'
  | .run _ => m'.now.lt m.now = false ∧ ∀ c, k.kept m.world c → ∃ c', k.kept m'.world c' ∧ meanwhile c c'

theorem Ends.onward {k : HonestStore} {α : Type} {act : ExceptT StateError (Program (Asking k.Q)) α} {may : Bool}
    {m m' : Moment k.W} {b : Except StateError α} (h : k.Ends act may m b m') : m'.now.lt m.now = false := by
  obtain ⟨es, hcomes⟩ := h
  exact Program.onward_of_comes hcomes

/-- A reconciler that works on a store. -/
def setting (may : Bool) (meanwhile : Contents → Contents → Prop) : Setting ReconcileCall k.W where
  answers := k.Answers may meanwhile
  onward {γ q s s' b} h := by
    cases q with
    | run g => exact h.1
    | _ => exact Ends.onward h
  times := Lock.Datable

end HonestStore

/-! ### What is left behind -/

/-- Whether a record tells of a run: the graph is what the run left, and there is one entry more in what was the
history, which says whether the run succeeded. -/
structure Record.Remembers (r : Record) (found : Option Record) (operation : Operation) (run : Run) : Prop where
  graph : r.graph = run.graph
  history : ∃ e : HistoryEntry, e.operation = operation ∧ e.success = run.outcome.isOk ∧
    ((historyOf found).length ≤ maxHistory → r.history = (historyOf found ++ [e]).rtake maxHistory)

/-- Whether a record that stands under a key carries that key. -/
def Contents.Owns (c : Contents) (key : StateKey) : Prop := ∀ r, c.Tells key (some r) → r.key = key

/-- The work under a lock, call by call: from the contents `c`, which others make `c₁` while the plan runs, to this text
of the record. -/
inductive Work (meanwhile : Contents → Contents → Prop) (p : KeyPlan) (operation : Operation) (c c₁ : Contents)
    (stored : Option String) : List (Event ReconcileCall) → Prop
  /-- The record cannot be read. -/
  | unread (e : StateError) (same : c₁ = c) (stays : stored = c₁ p.key .record) :
      Work meanwhile p operation c c₁ stored [⟨.load p.key, .error e⟩]
  /-- The plan is run, and what the run left is saved unless that fails. -/
  | ran {found : Option Record} {run : Run} {r : Record} {b : Except StateError Unit} (tells : c.Tells p.key found)
      (others : meanwhile c c₁) (remembers : r.Remembers found operation run)
      (saved : stored = some r.render ∨ (∃ e, b = .error e) ∧ stored = c₁ p.key .record) :
      Work meanwhile p operation c c₁ stored [⟨.load p.key, .ok found⟩, ⟨.run p.graph, run⟩, ⟨.save r, b⟩]

/-- The lock that a call was given. -/
def Event.taken? : Event ReconcileCall → Option Lock
  | ⟨.acquire _ _, .ok l⟩ => some l
  | _ => none

/-- The run that a plan came to in a call, during which plugins may have been called. -/
def Event.run? : Event ReconcileCall → Option Run
  | ⟨.run _, run⟩ => some run
  | _ => none

/-- What is true at the end if no lock was given: no plan was run, and of what the store had all is there, apart from a
lock that did not hold any more. -/
structure HonestStore.Untouched (k : HonestStore) (c : Contents) (key : StateKey) (es : List (Event ReconcileCall))
    (b : Except Failure Reconciliation) (m' : Moment k.W) : Prop where
  failed : ∃ e, b = .error (.state e)
  locks : es.filterMap Event.taken? = []
  runs : es.filterMap Event.run? = []
  kept : ∃ x, k.kept m'.world (c.set key .lock x) ∧ (x = c key .lock ∨ c.Free key m'.now)

/-- What is true at the end if this lock was given, and the store had `c₁` when the work was done and has `c₂` now. -/
structure HonestStore.Bracketed (k : HonestStore) (may : Bool) (meanwhile : Contents → Contents → Prop) (c : Contents)
    (p : KeyPlan) (operation : Operation) (l : Lock) (c₁ c₂ : Contents) (es : List (Event ReconcileCall))
    (m' : Moment k.W) : Prop where
  kept : k.kept m'.world c₂
  free : c.Free p.key l.acquired
  /-- The lock is taken first and given back last. -/
  calls : ∃ inside b, es = ⟨.acquire p.key operation.name, .ok l⟩ :: (inside ++ [⟨.release p.key l.id, b⟩]) ∧
    Work meanwhile p operation (c.set p.key .lock (some l.render)) c₁ (c₂ p.key .record) inside
  /-- No other lock is removed. -/
  others : ∀ key, c₂ key .lock = c₁ key .lock ∨
    key = p.key ∧ c₂ key .lock = none ∧ ∃ l', c₁.Shows key l' ∧ l'.id = l.id
  /-- The lock is gone if no call failed that was to give it back. -/
  gone : may = false → ∀ l', c₂.Shows p.key l' → l'.id ≠ l.id

theorem history_addEntry_eq_rtake {r : Record} {e : HistoryEntry} (h : r.history.length ≤ Record.maxHistory) :
    (r.addEntry e).history = (r.history ++ [e]).rtake Record.maxHistory := by
  have hmax : Record.maxHistory = 100 := rfl
  simp only [Record.addEntry, List.rtake, List.length_append, List.length_singleton]
  split
  · rw [show r.history.length + 1 - Record.maxHistory = 1 by omega, List.drop_append_of_le_length (by omega)]
  · rw [show r.history.length + 1 - Record.maxHistory = 0 by omega, List.drop_zero]

/-- What an application writes tells of its run. -/
theorem remembers_written (p : KeyPlan) (operation : Operation) (found : Option Record) (run : Run)
    (fresh now : Instant) : (written p operation found run fresh now).Remembers found operation run := by
  refine ⟨rfl, .ofRun now operation p.changedIds (errorOf run), rfl, ?_, fun hlength => ?_⟩
  · simp only [HistoryEntry.ofRun, errorOf]
    cases run.outcome <;> rfl
  · cases found <;> exact history_addEntry_eq_rtake hlength

/-! ### Under the lock -/

namespace Contents

variable {c c' : Contents} {key other : StateKey}

theorem Shows.congr {l : Lock} (h : c.Shows key l) (hlock : c' key .lock = c key .lock) : c'.Shows key l := by
  obtain ⟨text, htext, hl⟩ := h
  exact ⟨text, hlock.trans htext, hl⟩

theorem record_set_lock (x : Option String) : c.set other .lock x key .record = c key .record :=
  set_of_ne c x (by simp)

theorem tells_set_lock {x : Option String} {found : Option Record} :
    (c.set other .lock x).Tells key found ↔ c.Tells key found := by
  cases found <;> simp only [Tells, record_set_lock]

end Contents

/-- Questions about the time and the log are no calls and leave everything as it is. -/
theorem Reconciler.Aside.ensures {W α : Type} {P : α → Prop} {p : ReconcileProgram α} (h : Aside P p)
    (v : Setting ReconcileCall W) (s : Moment W) :
    p.Ensures v s fun es a s' => es = [] ∧ s'.world = s.world ∧ P a := by
  induction h generalizing s with
  | done result => exact .done ⟨rfl, rfl, result⟩
  | ask on ih => exact .aside fun later b _ _ _ => ih b ⟨s.world, later⟩

/-- They can be answered while the time stands still. -/
theorem Reconciler.Aside.exists_comes {W α : Type} {P : α → Prop} {p : ReconcileProgram α} (h : Aside P p)
    {v : Setting ReconcileCall W} {w : W} {now : Instant} (shown : v.times now) :
    ∃ a, P a ∧ p.Comes v ⟨w, now⟩ [] a ⟨w, now⟩ := by
  induction h with
  | done result => exact ⟨_, result, .done⟩
  | @ask γ q next on ih =>
    obtain ⟨a, ha, hcomes⟩ := ih (q.plain now "id")
    exact ⟨a, ha, .aside (Instant.lt_irrefl now) shown (Ambient.tells_plain ..) hcomes⟩

section Locked

variable {k : HonestStore} {may : Bool} {meanwhile : Contents → Contents → Prop} {m : Moment k.W} {c : Contents}
  {p : KeyPlan}

/-- What an application writes goes under the key of the record that it found. -/
theorem key_written (p : KeyPlan) (operation : Operation) (found : Option Record) (run : Run) (fresh now : Instant) :
    (written p operation found run fresh now).key = (found.map Record.key).getD p.key := by
  cases found <;> rfl

theorem key_written_of_owns (own : c.Owns p.key) {found : Option Record} (tells : c.Tells p.key found)
    (operation : Operation) (run : Run) (fresh now : Instant) :
    (written p operation found run fresh now).key = p.key := by
  rw [key_written]
  cases found with
  | none => rfl
  | some r => exact own r tells

/-- Under the lock no lock changes. -/
theorem ensures_runLocked (kept : k.kept m.world c) (named : p.key.Named) (own : c.Owns p.key)
    (operation : Operation) :
    (asking.runLocked p operation).run.Ensures (k.setting may meanwhile) m fun es _ m' => ∃ c₁ c₂,
      k.kept m'.world c₂ ∧ Work meanwhile p operation c c₁ (c₂ p.key .record) es ∧
      ∀ key, c₂ key .lock = c₁ key .lock := by
  obtain ⟨next, opening, ending, hrunLocked, herror, hok, hopening, hending⟩ := Reconciler.runLocked_asking p operation
  rw [hrunLocked]
  refine .call fun b t ht => ?_
  obtain ⟨es, hes⟩ := ht
  obtain ⟨hkept, htells⟩ := k.honest.load kept named es b t hes
  rcases b with e | found
  · rw [herror]
    exact .done ⟨c, c, hkept, .unread e rfl rfl, fun _ => rfl⟩
  · have tells := htells found rfl
    rw [hok]
    refine .bind (((hopening found).ensures _ t).mono ?_)
    rintro _ fresh t' ⟨rfl, hworld, -⟩
    refine .call fun run t ht => .aside fun later now _ _ _ => .call fun b t' ht' => ?_
    obtain ⟨-, hmeanwhile⟩ := ht
    obtain ⟨c₁, hkept₁, hothers⟩ := hmeanwhile c (hworld ▸ hkept)
    obtain ⟨es, hes⟩ := ht'
    have hkey := key_written_of_owns own tells operation run fresh now
    obtain ⟨c₂, hkept₂, hsame, hsaved⟩ := k.honest.save (m := ⟨t.world, later⟩) hkept₁ (hkey ▸ named) es b t' hes
    rw [hkey] at hsaved
    refine ((hending run b).ensures _ _).mono ?_
    rintro _ _ m' ⟨rfl, hworld', -⟩
    exact ⟨c₁, c₂, hworld' ▸ hkept₂, .ran tells hothers (remembers_written ..) hsaved,
      fun key => hsame key .lock (.inr rfl)⟩

/-- **The lock is taken first and given back last**, and only if it was given anything is done. -/
theorem ensures_runPlan (kept : k.kept m.world c) (named : p.key.Named) (own : c.Owns p.key)
    (operation : Operation) :
    (asking.runPlan p operation).run.Ensures (k.setting may meanwhile) m fun es b m' =>
      k.Untouched c p.key es b m' ∨ ∃ l c₁ c₂, k.Bracketed may meanwhile c p operation l c₁ c₂ es m' := by
  obtain ⟨next, leaving, hrunPlan, herror, hok, hleaving⟩ := Reconciler.runPlan_asking p operation
  rw [hrunPlan]
  refine .call fun b t ht => ?_
  obtain ⟨es, hes⟩ := ht
  obtain ⟨x, hkept, hgiven, hrefused⟩ := k.honest.acquire kept named operation.name es b t hes
  rcases b with e | l
  · rw [herror]
    exact .done (.inl ⟨⟨e, rfl⟩, rfl, rfl, x, hkept, hrefused e rfl⟩)
  · obtain ⟨rfl, hfree, -⟩ := hgiven l rfl
    have hown : (c.set p.key .lock (some l.render)).Owns p.key := fun r hr => own r (Contents.tells_set_lock.1 hr)
    rw [hok]
    refine .bind ((ensures_runLocked hkept named hown operation).mono ?_)
    rintro inside outcome t' ⟨c₁, c₂, hkept₂, hwork, hlocks⟩
    refine .call fun b t'' ht' => ?_
    obtain ⟨es', hes'⟩ := ht'
    obtain ⟨y, hkept₃, hremoved, hgone⟩ := k.honest.release hkept₂ named l.id es' b t'' hes'
    refine ((hleaving outcome b).ensures _ _).mono ?_
    rintro _ _ m' ⟨rfl, hworld, -⟩
    refine .inr ⟨l, c₁, c₂.set p.key .lock y, hworld ▸ hkept₃, hfree, ⟨inside, b, rfl, ?_⟩, fun key => ?_,
      fun hmay l' hl' hid => ?_⟩
    · rwa [Contents.record_set_lock]
    · by_cases hkey : key = p.key
      · subst hkey
        rw [Contents.set_self]
        refine hremoved.imp (·.trans (hlocks _)) fun ⟨hnone, l', hl', hid⟩ => ⟨rfl, hnone, l', ?_, hid⟩
        exact hl'.congr (hlocks _).symm
      · exact .inl ((Contents.set_of_ne c₂ y (by simp [hkey])).trans (hlocks key))
    · -- a lock of this id was there before, and so it is gone
      obtain ⟨text, htext, hread⟩ := hl'
      rw [Contents.set_self] at htext
      rcases hremoved with hstays | ⟨hnone, -⟩
      · have hnone := hgone hmay l' ⟨text, hstays.symm.trans htext, hread⟩ hid
        simp [hnone] at htext
      · simp [hnone] at htext

/-- To delete all that was applied, a plan is made without the lock. -/
theorem ensures_destroy {key : StateKey} (kept : k.kept m.world c) (named : key.Named) (own : c.Owns key) :
    (asking.destroy key).run.Ensures (k.setting may meanwhile) m fun es b m' => k.Untouched c key es b m' ∨
      ∃ found now es', es = ⟨.load key, .ok found⟩ :: es' ∧ c.Tells key found ∧ ∃ l c₁ c₂,
        k.Bracketed may meanwhile c ⟨key, plan now (graphOf found) Graph.empty⟩ .destroy l c₁ c₂ es' m' := by
  obtain ⟨next, hplan, herror, hok⟩ := Reconciler.plan_asking key Graph.empty
  show Ensures _ _ ((asking.plan key Graph.empty).run.bind _) _
  rw [hplan]
  refine .call fun b t ht => ?_
  obtain ⟨es, hes⟩ := ht
  obtain ⟨hkept, htells⟩ := k.honest.load kept named es b t hes
  rcases b with e | found
  · rw [herror]
    refine .done (.inl ⟨⟨e, rfl⟩, rfl, rfl, c key .lock, ?_, .inl rfl⟩)
    rwa [Contents.set_eq_self rfl]
  · refine .bind (((hok found).ensures _ t).mono ?_)
    rintro _ _ t' ⟨rfl, hworld, now, rfl⟩
    have hkept' : k.kept t'.world c := hworld ▸ hkept
    refine Ensures.mono (ensures_runPlan (p := ⟨key, plan now (graphOf found) Graph.empty⟩) hkept' named own
      .destroy) ?_
    rintro es' b m' (huntouched | hbracketed)
    · exact .inl ⟨huntouched.failed, huntouched.locks, huntouched.runs, huntouched.kept⟩
    · exact .inr ⟨found, now, es', rfl, htells found rfl, hbracketed⟩

end Locked

namespace HonestStore

/-! ### Every application -/

/-- **Runs are bracketed by the lock and always recorded**, whatever a store has and whichever calls fail, where the
record of a key carries that key.  Either no lock was given; then no plan was run, and the record and all locks that
hold are as they were.  Or giving back the lock was the last call: no other lock is removed, its own is gone if the
calls for that did not fail, and if the record was loaded and saved, the graph that is stored is the one that the run
left, and the history has one entry more that says whether the run succeeded. -/
theorem runs_bracketed (k : HonestStore) (may : Bool) (meanwhile : Contents → Contents → Prop) {m : Moment k.W}
    {c : Contents} {key : StateKey} (kept : k.kept m.world c) (named : key.Named) (own : c.Owns key) :
    (∀ p : KeyPlan, p.key = key →
      (asking.apply p).run.Ensures (k.setting may meanwhile) m fun es b m' => k.Untouched c key es b m' ∨
        ∃ l c₁ c₂, k.Bracketed may meanwhile c p .apply l c₁ c₂ es m') ∧
    (asking.destroy key).run.Ensures (k.setting may meanwhile) m fun es b m' => k.Untouched c key es b m' ∨
      ∃ found now es', es = ⟨.load key, .ok found⟩ :: es' ∧ c.Tells key found ∧ ∃ l c₁ c₂,
        k.Bracketed may meanwhile c ⟨key, plan now (graphOf found) Graph.empty⟩ .destroy l c₁ c₂ es' m' := by
  refine ⟨?_, ensures_destroy kept named own⟩
  rintro p rfl
  exact ensures_runPlan kept named own .apply

/-! ### Runs in which nothing fails -/

section Smooth

variable {k : HonestStore} {c : Contents} {w : k.W} {now : Instant}

/-- Where nothing fails, an operation is done at once. -/
theorem ends_of_perform {α : Type} {act : ExceptT StateError (Program (Asking k.Q)) α} {may : Bool} {names : Names}
    {x x' : Marks} {b : Except StateError α} {w' : k.W} (datable : Lock.Datable now)
    (h : act.run.perform (fun _ => now) names k.answer w x = (b, w', x')) : k.Ends act may ⟨w, now⟩ b ⟨w', now⟩ :=
  Program.exists_comes_of_perform (v := .failing k.answer k.fails may) (fun _ _ => ⟨rfl, .inl rfl⟩) datable h

theorem ends_load (kept : k.kept w c) {key : StateKey} (named : key.Named) {found : Option Record}
    (tells : c.Tells key found) (datable : Lock.Datable now) :
    k.Ends (k.store.load key) true ⟨w, now⟩ (.ok found) ⟨w, now⟩ := by
  have keeps := k.keeps (fun _ => now) ⟨fun _ => "id", fun _ => "holder"⟩
  cases found with
  | none => exact ends_of_perform datable (keeps.load_none kept named tells .zero)
  | some r =>
    obtain ⟨text, htext, hread, hversion⟩ := tells
    obtain ⟨reply, hload, hreply⟩ := keeps.load_some kept named htext .zero
    rw [Record.told, hread] at hreply
    rcases reply with e | found
    · simp [hversion, Except.map, Except.mapError] at hreply
    · obtain rfl : found = some r := by simpa [hversion, Except.map, Except.mapError] using hreply
      exact ends_of_perform datable hload

/-- **Where no lock is in the way, an application can go through.** -/
theorem exists_smooth_run {p : KeyPlan} (kept : k.kept w c) (named : p.key.Named) (free : c p.key .lock = none)
    {found : Option Record} (tells : c.Tells p.key found) (operation : Operation) (run : Run) {key : StateKey}
    (hkey : (found.map Record.key).getD p.key = key) (saved : key.Named) (clear : c key .draft = none)
    (datable : Lock.Datable now) (may : Bool) {meanwhile : Contents → Contents → Prop} (still : ∀ c, meanwhile c c) :
    ∃ l r b w', (asking.runPlan p operation).run.Comes (k.setting may meanwhile) ⟨w, now⟩
      [⟨.acquire p.key operation.name, .ok l⟩, ⟨.load p.key, .ok found⟩, ⟨.run p.graph, run⟩, ⟨.save r, .ok ()⟩,
        ⟨.release p.key l.id, .ok ()⟩] b ⟨w', now⟩ ∧
      k.kept w' (((c.set p.key .lock (some l.render)).set key .record (some r.render)).set p.key .lock none) := by
  obtain ⟨afterAcquire, leaving, hrunPlan, -, hgiven, hleaving⟩ := Reconciler.runPlan_asking p operation
  obtain ⟨afterLoad, opening, ending, hrunLocked, -, hread, hopening, hending⟩ :=
    Reconciler.runLocked_asking p operation
  have keeps := k.keeps (fun _ => now) ⟨fun _ => "id", fun _ => "holder"⟩
  have hnow := Instant.lt_irrefl now
  obtain ⟨l, w₁, rfl, hacquire, kept₁⟩ := keeps.acquire_free kept named free operation.name .zero
  generalize hl : Lock.take _ _ _ p.key operation.name = l at hacquire kept₁
  have hdates : l.acquired.Writable ∧ l.expires.Writable := hl ▸ datable
  have hload := ends_load kept₁ named (Contents.tells_set_lock.2 tells) datable
  obtain ⟨fresh, -, hopened⟩ := (hopening found).exists_comes (v := k.setting may meanwhile) (w := w₁) datable
  generalize hr : written p operation found run fresh now = r
  obtain rfl : r.key = key := by rw [← hr, key_written, hkey]
  obtain ⟨w₂, hsave, kept₂⟩ := keeps.save kept₁ saved ((Contents.set_of_ne c _ (by simp)).trans clear) .zero
  have hlock : ((c.set p.key .lock (some l.render)).set r.key .record (some r.render)) p.key .lock = some l.render :=
    (Contents.set_of_ne _ _ (by simp)).trans (Contents.set_self ..)
  obtain ⟨w₃, hrelease, kept₃⟩ := keeps.release_same kept₂ named hlock hdates .zero
  obtain ⟨outcome, -, hended⟩ := (hending run (.ok ())).exists_comes (v := k.setting may meanwhile) (w := w₂) datable
  obtain ⟨b, -, hleft⟩ := (hleaving outcome (.ok ())).exists_comes (v := k.setting may meanwhile) (w := w₃) datable
  have hlocked : (asking.runLocked p operation).run.Comes (k.setting may meanwhile) ⟨w₁, now⟩
      [⟨.load p.key, .ok found⟩, ⟨.run p.graph, run⟩, ⟨.save r, .ok ()⟩] outcome ⟨w₂, now⟩ := by
    rw [hrunLocked]
    refine .call hload ?_
    rw [hread]
    refine hopened.bind (.call ⟨hnow, fun c hc => ⟨c, hc, still c⟩⟩ (.aside (b := now) hnow datable rfl ?_))
    rw [hr]
    exact .call (ends_of_perform datable hsave) hended
  refine ⟨l, r, b, w₃, ?_, kept₃⟩
  rw [hrunPlan]
  refine .call (ends_of_perform datable hacquire) ?_
  rw [hgiven]
  exact hlocked.bind (.call (ends_of_perform datable hrelease) hleft)

/-- A plan for an environment in which nothing was applied yet. -/
def firstPlan : KeyPlan := ⟨sampleKey, plan Instant.epoch Graph.empty (Office.modules ["db"])⟩

/-- The first application in an empty directory goes through. -/
theorem runs_bracketed_first :
    (files ".infragraph").kept ⟨FileTree.empty, default⟩ Contents.empty ∧ sampleKey.Named ∧
    Contents.empty.Owns sampleKey ∧
    (∃ es b m', (asking.apply firstPlan).run.Comes ((files ".infragraph").setting false Eq)
        ⟨⟨FileTree.empty, default⟩, Instant.epoch⟩ es b m' ∧
      es.filterMap Event.run? = [Office.execute firstPlan.graph] ∧
      ((files ".infragraph").Untouched Contents.empty sampleKey es b m' ∨ ∃ l c₁ c₂,
        (files ".infragraph").Bracketed false Eq Contents.empty firstPlan .apply l c₁ c₂ es m')) ∧
    (asking.destroy sampleKey).run.Ensures ((files ".infragraph").setting false Eq)
      ⟨⟨FileTree.empty, default⟩, Instant.epoch⟩ fun es b m' =>
        (files ".infragraph").Untouched Contents.empty sampleKey es b m' ∨
        ∃ found now es', es = ⟨.load sampleKey, .ok found⟩ :: es' ∧ Contents.empty.Tells sampleKey found ∧ ∃ l c₁ c₂,
          (files ".infragraph").Bracketed false Eq Contents.empty
            ⟨sampleKey, plan now (graphOf found) Graph.empty⟩ .destroy l c₁ c₂ es' m' := by
  have kept : (files ".infragraph").kept ⟨FileTree.empty, default⟩ Contents.empty := vacant_empty.kept
  have named : sampleKey.Named := by decide
  have own : Contents.empty.Owns sampleKey := fun _ ⟨_, htext, _⟩ => nomatch htext
  have datable : Lock.Datable Instant.epoch := by decide
  have tells : Contents.empty.Tells sampleKey none := rfl
  obtain ⟨l, r, b, w', hcomes, -⟩ := exists_smooth_run (p := firstPlan) kept named rfl tells .apply
    (Office.execute firstPlan.graph) rfl named rfl datable false fun _ => rfl
  have hall := runs_bracketed (files ".infragraph") false Eq (m := ⟨_, Instant.epoch⟩) kept named own
  exact ⟨kept, named, own, ⟨_, _, _, hcomes, rfl, hall.1 firstPlan rfl _ _ _ hcomes⟩, hall.2⟩

/-! ### A record under another key -/

/-- The record of one environment. -/
def stagingRecord : Record := .fresh Instant.epoch ⟨"dc", some "staging"⟩

/-- A bucket where this record is kept for another environment. -/
def mislabelled : BucketWorld :=
  ⟨Table.put [] (sampleKey.objectName ⟨"bucket", ""⟩ .record) (some stagingRecord.render), [], default⟩

/-- What is kept there. -/
def mislabelledContents : Contents := Contents.empty.set sampleKey .record (some stagingRecord.render)

/-- **A record that carries another key is saved under that one.**  An application that goes through, with a run that
creates a module, leaves the record of its key as it was: with no module and no entry about the run.  The record of the
other key is overwritten, whose lock it does not hold. -/
theorem saves_elsewhere :
    (objects ⟨"bucket", ""⟩).kept mislabelled mislabelledContents ∧
    (Office.execute firstPlan.graph).graph.nodes.map (·.id) = ["module/db@blue"] ∧
    ∃ l r b m' c', (asking.apply firstPlan).run.Comes ((objects ⟨"bucket", ""⟩).setting false Eq)
        ⟨mislabelled, Instant.epoch⟩
        [⟨.acquire sampleKey "apply", .ok l⟩, ⟨.load sampleKey, .ok (some stagingRecord)⟩,
          ⟨.run firstPlan.graph, Office.execute firstPlan.graph⟩, ⟨.save r, .ok ()⟩,
          ⟨.release sampleKey l.id, .ok ()⟩] b m' ∧
      (objects ⟨"bucket", ""⟩).kept m'.world c' ∧ c' ⟨"dc", some "staging"⟩ .record = some r.render ∧
      c'.Tells sampleKey (some stagingRecord) ∧ stagingRecord.graph.nodes = [] ∧
      ¬ stagingRecord.Remembers (some stagingRecord) .apply (Office.execute firstPlan.graph) := by
  have named : sampleKey.Named := by decide
  have hnamed : stagingRecord.key.Named := by decide
  have hkept : (objects ⟨"bucket", ""⟩).kept mislabelled mislabelledContents :=
    ⟨rfl, (vacant_noObjects _).sound.filed.put named .record stagingRecord.render⟩
  have htells : mislabelledContents.Tells sampleKey (some stagingRecord) :=
    ⟨_, Contents.set_self .., Record.ofText?_render (writable_fresh Record.currentVersion _), rfl⟩
  have datable : Lock.Datable Instant.epoch := by decide
  obtain ⟨l, r, b, w', hcomes, hkept'⟩ := exists_smooth_run (p := firstPlan) hkept named rfl htells .apply
    (Office.execute firstPlan.graph) rfl hnamed rfl datable false fun _ => rfl
  refine ⟨hkept, by decide +kernel, l, r, b, _, _, hcomes, hkept', ?_, Contents.tells_set_lock.2 ?_, rfl, fun h => ?_⟩
  · exact (Contents.record_set_lock _).trans (Contents.set_self ..)
  · have hne : ¬(sampleKey = stagingRecord.key ∧ Sheet.record = .record) := by decide
    obtain ⟨text, htext, hread⟩ := htells
    exact ⟨text, (Contents.set_of_ne _ _ hne).trans ((Contents.record_set_lock _).trans htext), hread⟩
  · obtain ⟨e, -, -, hhistory⟩ := h.history
    have hlong := hhistory (by decide)
    simp [stagingRecord, historyOf, Record.fresh, List.rtake, Record.maxHistory] at hlong

end Smooth

end HonestStore

end Groundwork
