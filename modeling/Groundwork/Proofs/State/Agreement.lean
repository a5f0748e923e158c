import Groundwork.Proofs.State.Cabinet
import Groundwork.Proofs.State.Contents
import Groundwork.Proofs.State.Operations
import Groundwork.Proofs.State.Taking

/-!
# Stores that agree

A store of files and a store in a bucket give the answers of one cabinet, whatever they are asked, where no call
fails.  Each operation is followed call by call through what stands in the store.

Main statement: `Store.Refines.replies_eq`, and the steps `LocalStore.refines` and `BucketStore.refines` that it
rests on.
-/

namespace Groundwork

open Program (perform)

/-! ### Operations and their answers -/

namespace Store

/-- Carries out an operation. -/
def carryOut {m : Type → Type u} [Monad m] (s : Store m) (ids : Nat → String) :
    StoreCommand → ExceptT StateError m (StoreReply Lock)
  | .load key => return .record (← s.load key)
  | .save r => do s.save r; return .finished
  | .delete key => do s.delete key; return .finished
  | .hasRecord key => return .truth (← s.hasRecord key)
  | .acquire key operation => return .taken (← s.acquire key operation)
  | .release key number => do s.release key (ids number); return .finished
  | .forceUnlock key => do s.forceUnlock key; return .finished
  | .lock? key => return .lock (← s.lock? key)
  | .isLocked key => return .truth (← s.isLocked key)

variable {Q : Type → Type} {W : Type}

/-- The answers to operations, one after the other, with the kind of a failure in the place of its text. -/
def replies (s : Store (Program (Asking Q))) (clock : Nat → Instant) (names : Names)
    (answer : {γ : Type} → Q γ → StateM W γ) : List StoreCommand → W → Marks → List (Except String (StoreReply Lock))
  | [], _, _ => []
  | c :: cs, w, m =>
      let (reply, w, m) := perform clock names answer (s.carryOut names.ids c).run w m
      reply.mapError StateError.kind :: replies s clock names answer cs w m

/-- Whether a store does what a cabinet does, as long as what it keeps is what the cabinet holds. -/
def Refines (s : Store (Program (Asking Q))) (clock : Nat → Instant) (names : Names)
    (answer : {γ : Type} → Q γ → StateM W γ) (holds : W → Cabinet → Prop) : Prop :=
  ∀ (w : W) (k : Cabinet) (c : StoreCommand), holds w k → c.key.Named → ∃ reply w',
    perform clock names answer (s.carryOut names.ids c).run w k.marks = (reply, w', (k.step clock c).2.marks) ∧
      reply.mapError StateError.kind = (k.step clock c).1.map (StoreReply.map (Ticket.lock clock names)) ∧
      holds w' (k.step clock c).2

/-- **A store that does what a cabinet does gives the answers of the cabinet.** -/
theorem Refines.replies_eq {s : Store (Program (Asking Q))} {clock : Nat → Instant} {names : Names}
    {answer : {γ : Type} → Q γ → StateM W γ} {holds : W → Cabinet → Prop} (h : s.Refines clock names answer holds)
    {commands : List StoreCommand} (hnamed : ∀ c ∈ commands, c.key.Named) {w : W} {k : Cabinet} (hw : holds w k) :
    s.replies clock names answer commands w k.marks =
      (k.replies clock commands).map (Except.map (StoreReply.map (Ticket.lock clock names))) := by
  induction commands generalizing w k with
  | nil => rfl
  | cons c cs ih =>
    obtain ⟨reply, w', hperform, hreply, hw'⟩ := h w k c hw (hnamed c List.mem_cons_self)
    rw [replies, hperform]
    simp only [Cabinet.replies, List.map_cons, hreply]
    rw [ih (fun c hc => hnamed c (List.mem_cons_of_mem _ hc)) hw']

end Store

/-- The answer of an operation is told in other words. -/
theorem Program.perform_map {Q : Type → Type} {W α β ε : Type} {clock : Nat → Instant} {names : Names}
    {answer : {γ : Type} → Q γ → StateM W γ} (x : ExceptT ε (Program (Asking Q)) α) (f : α → β) (w : W) (m : Marks) :
    perform clock names answer (do return f (← x) : ExceptT ε (Program (Asking Q)) β).run w m =
      let s := perform clock names answer x.run w m
      (s.1.map f, s.2) := by
  rw [run_bind_orEnd, perform_bind]
  simp only
  cases (perform clock names answer x.run w m).1 <;> rfl

namespace Cabinet

/-- The texts of what a cabinet holds. -/
def contents (clock : Nat → Instant) (names : Names) (k : Cabinet) : Contents
  | key, .record => (k.records key).map Record.render
  | key, .lock => (k.locks key).map fun t => (t.lock clock names).render
  | _, .draft => none

section Contents

variable {clock : Nat → Instant} {names : Names} {k : Cabinet}

theorem contents_save (r : Record) :
    contents clock names { k with records := Function.update k.records r.key (some r) } =
      (k.contents clock names).set r.key .record (some r.render) := by
  funext key s
  by_cases hkey : key = r.key <;> cases s <;> simp [contents, Contents.set, hkey]

theorem contents_unlock (key : StateKey) :
    (k.unlock key).contents clock names = (k.contents clock names).set key .lock none := by
  funext key' s
  by_cases hkey : key' = key <;> cases s <;> simp [contents, Contents.set, unlock, hkey]

theorem contents_delete (key : StateKey) :
    contents clock names { k.unlock key with records := Function.update k.records key none } =
      ((k.contents clock names).set key .record none).set key .lock none := by
  funext key' s
  by_cases hkey : key' = key <;> cases s <;> simp [contents, Contents.set, unlock, hkey]

theorem contents_take (key : StateKey) (operation : String) :
    (k.take key operation).2.contents clock names = (k.contents clock names).set key .lock
      (some (Lock.take (clock k.marks.read) (names.ids k.marks.named) (names.holders k.marks.asked) key
        operation).render) := by
  funext key' s
  by_cases hkey : key' = key <;> cases s <;>
    simp [contents, Contents.set, take, hkey, Ticket.lock, Ticket.acquired, Ticket.number]

theorem contents_free {key : StateKey} (h : k.locks key = none) : k.contents clock names key .lock = none := by
  simp [contents, h]

theorem contents_locked {key : StateKey} {t : Ticket} (h : k.locks key = some t) :
    k.contents clock names key .lock = some (t.lock clock names).render := by
  simp [contents, h]

end Contents

end Cabinet

/-- The times of a lock can be written if those of the clock can. -/
theorem Ticket.writable_lock {clock : Nat → Instant} (hclock : ∀ n, Lock.Datable (clock n)) (names : Names)
    (t : Ticket) : (t.lock clock names).acquired.Writable ∧ (t.lock clock names).expires.Writable :=
  hclock t.marks.read

namespace Store

variable {Q : Type → Type} {W : Type}

/-- What each operation of a store does to the texts that it keeps, where no call fails. -/
structure Keeps (s : Store (Program (Asking Q))) (clock : Nat → Instant) (names : Names)
    (answer : {γ : Type} → Q γ → StateM W γ) (kept : W → Contents → Prop) : Prop where
  load_none : ∀ {w c key}, kept w c → key.Named → c key .record = none → ∀ m,
    perform clock names answer (s.load key).run w m = (.ok none, w, m)
  load_some : ∀ {w c key text}, kept w c → key.Named → c key .record = some text → ∀ m, ∃ reply,
    perform clock names answer (s.load key).run w m = (reply, w, m) ∧
      reply.mapError StateError.kind = (Record.told text).map some
  save : ∀ {w c} {r : Record}, kept w c → r.key.Named → c r.key .draft = none → ∀ m, ∃ w',
    perform clock names answer (s.save r).run w m = (.ok (), w', m) ∧ kept w' (c.set r.key .record (some r.render))
  delete : ∀ {w c key}, kept w c → key.Named → ∀ m, ∃ w',
    perform clock names answer (s.delete key).run w m = (.ok (), w', m) ∧
      kept w' ((c.set key .record none).set key .lock none)
  hasRecord : ∀ {w c key}, kept w c → key.Named → ∀ m,
    perform clock names answer (s.hasRecord key).run w m = (.ok (c key .record).isSome, w, m)
  acquire_free : ∀ {w c key}, kept w c → key.Named → c key .lock = none → ∀ operation m, ∃ l w',
    l = Lock.take (clock m.read) (names.ids m.named) (names.holders m.asked) key operation ∧
      perform clock names answer (s.acquire key operation).run w m = (.ok l, w', m.take) ∧
      kept w' (c.set key .lock (some l.render))
  acquire_held : ∀ {w c key} {l : Lock}, kept w c → key.Named → c key .lock = some l.render →
    l.acquired.Writable ∧ l.expires.Writable → ∀ operation m, l.isExpired (clock m.read) = false →
      perform clock names answer (s.acquire key operation).run w m = (.error l.refusal, w, m.look)
  acquire_expired : ∀ {w c key} {l : Lock}, kept w c → key.Named → c key .lock = some l.render →
    l.acquired.Writable ∧ l.expires.Writable → ∀ operation m, l.isExpired (clock m.read) = true → ∃ l' w',
      l' = Lock.take (clock m.look.read) (names.ids m.named) (names.holders m.asked) key operation ∧
        perform clock names answer (s.acquire key operation).run w m = (.ok l', w', m.look.take) ∧
        kept w' (c.set key .lock (some l'.render))
  release_none : ∀ {w c key}, kept w c → key.Named → c key .lock = none → ∀ id m,
    perform clock names answer (s.release key id).run w m = (.ok (), w, m)
  release_same : ∀ {w c key} {l : Lock}, kept w c → key.Named → c key .lock = some l.render →
    l.acquired.Writable ∧ l.expires.Writable → ∀ m, ∃ w',
      perform clock names answer (s.release key l.id).run w m = (.ok (), w', m) ∧ kept w' (c.set key .lock none)
  release_other : ∀ {w c key} {l : Lock}, kept w c → key.Named → c key .lock = some l.render →
    l.acquired.Writable ∧ l.expires.Writable → ∀ id m, l.id ≠ id →
      perform clock names answer (s.release key id).run w m = (.ok (), w, m)
  forceUnlock : ∀ {w c key}, kept w c → key.Named → ∀ m, ∃ w',
    perform clock names answer (s.forceUnlock key).run w m = (.ok (), w', m) ∧ kept w' (c.set key .lock none)
  lock? : ∀ {w c key} {l : Option Lock}, kept w c → key.Named → c key .lock = l.map Lock.render →
    (∀ x, l = some x → x.acquired.Writable ∧ x.expires.Writable) → ∀ m,
      perform clock names answer (s.lock? key).run w m = (.ok l, w, m)
  isLocked_none : ∀ {w c key}, kept w c → key.Named → c key .lock = none → ∀ m,
    perform clock names answer (s.isLocked key).run w m = (.ok false, w, m)
  isLocked_some : ∀ {w c key} {l : Lock}, kept w c → key.Named → c key .lock = some l.render →
    l.acquired.Writable ∧ l.expires.Writable → ∀ m,
      perform clock names answer (s.isLocked key).run w m = (.ok !l.isExpired (clock m.read), w, m.look)

/-- Whether a store does with one command what a cabinet does with it. -/
def Matches (s : Store (Program (Asking Q))) (clock : Nat → Instant) (names : Names)
    (answer : {γ : Type} → Q γ → StateM W γ) (holds : W → Cabinet → Prop) (w : W) (k : Cabinet)
    (c : StoreCommand) : Prop :=
  ∃ reply w', perform clock names answer (s.carryOut names.ids c).run w k.marks = (reply, w', (k.step clock c).2.marks) ∧
    reply.mapError StateError.kind = (k.step clock c).1.map (StoreReply.map (Ticket.lock clock names)) ∧
    holds w' (k.step clock c).2

namespace Keeps

variable {s : Store (Program (Asking Q))} {clock : Nat → Instant} {names : Names}
  {answer : {γ : Type} → Q γ → StateM W γ} {kept : W → Contents → Prop} {w : W} {k : Cabinet} {key : StateKey}

theorem matches_load (h : s.Keeps clock names answer kept) (hw : kept w (k.contents clock names))
    (hkey : key.Named) :
    s.Matches clock names answer (fun w k => kept w (k.contents clock names)) w k (.load key) := by
  cases hr : k.records key with
  | none =>
    have hload := h.load_none hw hkey (by simp [Cabinet.contents, hr]) k.marks
    exact ⟨_, w, by rw [carryOut, Program.perform_map, hload]; rfl, by simp [Cabinet.step, hr]; rfl, hw⟩
  | some r =>
    have hrecord : k.contents clock names key .record = some r.render := by simp [Cabinet.contents, hr]
    obtain ⟨reply, hload, hreply⟩ := h.load_some hw hkey hrecord k.marks
    refine ⟨_, w, by rw [carryOut, Program.perform_map, hload]; rfl, ?_, hw⟩
    have hmap : (reply.map StoreReply.record).mapError StateError.kind =
        (reply.mapError StateError.kind).map (StoreReply.record (L := Lock)) := by cases reply <;> rfl
    simp only [Cabinet.step, hr]
    rw [hmap, hreply]
    cases Record.told r.render <;> rfl

variable (h : s.Keeps clock names answer kept) (hclock : ∀ n, Lock.Datable (clock n))
  (hw : kept w (k.contents clock names)) (hkey : key.Named)
include h hclock hw hkey

/-- A lock is given if none is held or the one that is held has run out. -/
theorem matches_acquire (operation : String) :
    s.Matches clock names answer (fun w k => kept w (k.contents clock names)) w k (.acquire key operation) := by
  unfold Matches
  cases ht : k.locks key with
  | none =>
    obtain ⟨l, w', hl, hacquire, hw'⟩ := h.acquire_free hw hkey (Cabinet.contents_free ht) operation k.marks
    rw [hl, ← Cabinet.contents_take] at hw'
    simp only [Cabinet.step, ht]
    exact ⟨_, w', by rw [carryOut, Program.perform_map, hacquire]; rfl, by rw [hl]; rfl, hw'⟩
  | some t =>
    have hlock : k.contents clock names key .lock = some (t.lock clock names).render := Cabinet.contents_locked ht
    have hdates := Ticket.writable_lock hclock names t
    cases hexpired : t.isExpired clock (clock k.marks.read) with
    | false =>
      have hacquire := h.acquire_held hw hkey hlock hdates operation k.marks hexpired
      simp only [Cabinet.step, ht, hexpired]
      exact ⟨_, w, by rw [carryOut, Program.perform_map, hacquire]; rfl, rfl, hw⟩
    | true =>
      obtain ⟨l, w', hl, hacquire, hw'⟩ := h.acquire_expired hw hkey hlock hdates operation k.marks hexpired
      rw [hl] at hw'
      simp only [Cabinet.step, ht, hexpired, if_true]
      exact ⟨_, w', by rw [carryOut, Program.perform_map, hacquire]; rfl, by rw [hl]; rfl,
        (Cabinet.contents_take (k := k.look) key operation).symm ▸ hw'⟩

/-- A lock is given back by its own id alone, which no other lock has. -/
theorem matches_release (hids : Function.Injective names.ids) (number : Nat) :
    s.Matches clock names answer (fun w k => kept w (k.contents clock names)) w k (.release key number) := by
  unfold Matches
  cases ht : k.locks key with
  | none =>
    have hrelease := h.release_none hw hkey (Cabinet.contents_free ht) (names.ids number) k.marks
    simp only [Cabinet.step, ht, Option.any_none, Bool.false_eq_true, if_false]
    exact ⟨_, w, by rw [carryOut, Program.perform_map, hrelease], rfl, hw⟩
  | some t =>
    have hlock : k.contents clock names key .lock = some (t.lock clock names).render := Cabinet.contents_locked ht
    have hdates := Ticket.writable_lock hclock names t
    by_cases hnumber : t.number = number
    · obtain ⟨w', hrelease, hw'⟩ := h.release_same hw hkey hlock hdates k.marks
      rw [← Cabinet.contents_unlock] at hw'
      simp only [Cabinet.step, ht, Option.any_some, hnumber, decide_true, if_true]
      rw [← hnumber]
      have hrelease' : perform clock names answer (s.release key (names.ids t.number)).run w k.marks =
          (.ok (), w', k.marks) := hrelease
      exact ⟨_, w', by rw [carryOut, Program.perform_map, hrelease']; rfl, rfl, hw'⟩
    · have hid : (t.lock clock names).id ≠ names.ids number := fun hid => hnumber (hids hid)
      have hrelease := h.release_other hw hkey hlock hdates _ k.marks hid
      simp only [Cabinet.step, ht, Option.any_some, hnumber, decide_false, Bool.false_eq_true, if_false]
      exact ⟨_, w, by rw [carryOut, Program.perform_map, hrelease], rfl, hw⟩

theorem matches_lock? :
    s.Matches clock names answer (fun w k => kept w (k.contents clock names)) w k (.lock? key) := by
  have hfound := h.lock? (l := (k.locks key).map (Ticket.lock clock names)) hw hkey
    (by simp [Cabinet.contents, Function.comp_def]) (fun x hx => by
      obtain ⟨t, -, rfl⟩ := Option.map_eq_some_iff.1 hx
      exact Ticket.writable_lock hclock names t) k.marks
  exact ⟨_, w, by rw [carryOut, Program.perform_map, hfound]; rfl, rfl, hw⟩

theorem matches_isLocked :
    s.Matches clock names answer (fun w k => kept w (k.contents clock names)) w k (.isLocked key) := by
  unfold Matches
  cases ht : k.locks key with
  | none =>
    have hlocked := h.isLocked_none hw hkey (Cabinet.contents_free ht) k.marks
    simp only [Cabinet.step, ht]
    exact ⟨_, w, by rw [carryOut, Program.perform_map, hlocked], rfl, hw⟩
  | some t =>
    have hlocked := h.isLocked_some hw hkey (Cabinet.contents_locked ht) (Ticket.writable_lock hclock names t) k.marks
    simp only [Cabinet.step, ht]
    exact ⟨_, w, by rw [carryOut, Program.perform_map, hlocked]; rfl, rfl, hw⟩

omit hclock hw hkey in
/-- **A store that keeps texts does what a cabinet does.** -/
theorem refines (hclock : ∀ n, Lock.Datable (clock n)) (hids : Function.Injective names.ids) :
    s.Refines clock names answer fun w k => kept w (k.contents clock names) := by
  intro w k c hw hkey
  cases c with
  | load key => exact h.matches_load hw hkey
  | save r =>
    obtain ⟨w', hsave, hw'⟩ := h.save hw hkey rfl k.marks
    rw [← Cabinet.contents_save] at hw'
    exact ⟨_, w', by rw [carryOut, Program.perform_map, hsave]; rfl, rfl, hw'⟩
  | delete key =>
    obtain ⟨w', hdelete, hw'⟩ := h.delete hw (show key.Named from hkey) k.marks
    rw [← Cabinet.contents_delete] at hw'
    exact ⟨_, w', by rw [carryOut, Program.perform_map, hdelete]; rfl, rfl, hw'⟩
  | hasRecord key =>
    have hhas := h.hasRecord hw (show key.Named from hkey) k.marks
    refine ⟨_, w, by rw [carryOut, Program.perform_map, hhas]; rfl, ?_, hw⟩
    simp [Cabinet.step, Cabinet.contents, Except.map, Except.mapError, StoreReply.map]
  | acquire key operation => exact h.matches_acquire hclock hw hkey operation
  | release key number => exact h.matches_release hclock hw hkey hids number
  | forceUnlock key =>
    obtain ⟨w', hunlock, hw'⟩ := h.forceUnlock hw (show key.Named from hkey) k.marks
    rw [← Cabinet.contents_unlock] at hw'
    exact ⟨_, w', by rw [carryOut, Program.perform_map, hunlock]; rfl, rfl, hw'⟩
  | lock? key => exact h.matches_lock? hclock hw hkey
  | isLocked key => exact h.matches_isLocked hclock hw hkey

end Keeps

end Store

/-! ### Files -/

namespace LocalStore

variable {clock : Nat → Instant} {names : Names} {base : String} {c : Contents} {key : StateKey} {w : FileWorld}

theorem lockRead_readText (h : w.tree.Kept base c) (hkey : key.Named) {l : Option Lock}
    (hl : c key .lock = l.map Lock.render) (hdates : ∀ x, l = some x → x.acquired.Writable ∧ x.expires.Writable) :
    lockRead (lockPath base key) (w.tree.readText (lockPath base key)) = .ok l := by
  rw [StateKey.lockPath_eq hkey, h.readText hkey, hl]
  cases l with
  | none => rfl
  | some x => simp [lockRead, Lock.ofText?_render (hdates x rfl).1 (hdates x rfl).2]

theorem perform_readText (path : String) (next : Except FileError String → FileProgram α) (m : Marks) :
    perform clock names FileWorld.answer (.ask (.second (.readText path)) next) w m =
      perform clock names FileWorld.answer (next (w.tree.readText path)) w m := rfl

/-- A call that changes the tree. -/
theorem perform_change {q : FileCall (Except FileError Unit)} {f : FileTree → Except FileError FileTree}
    (hq : FileWorld.answer q = FileWorld.change f) {t : FileTree} (ht : f w.tree = .ok t)
    (next : Except FileError Unit → FileProgram α) (m : Marks) :
    perform clock names FileWorld.answer (.ask (.second q) next) w m =
      perform clock names FileWorld.answer (next (.ok ())) { w with tree := t } m := by
  rw [Program.perform_call, hq, FileWorld.run_change, ht]

/-- A call that would change the tree and does not. -/
theorem perform_change_error {q : FileCall (Except FileError Unit)} {f : FileTree → Except FileError FileTree}
    (hq : FileWorld.answer q = FileWorld.change f) {e : FileError} (he : f w.tree = .error e)
    (next : Except FileError Unit → FileProgram α) (m : Marks) :
    perform clock names FileWorld.answer (.ask (.second q) next) w m =
      perform clock names FileWorld.answer (next (.error e)) w m := by
  rw [Program.perform_call, hq, FileWorld.run_change, he]

variable (clock names) in
theorem perform_afterParent (h : w.tree.Kept base c) (hkey : key.Named) (s : Sheet) (α : Type) (m : Marks) :
    ∃ t place, t.Opened base c key place ∧ ∀ p : FileProgram (Except StateError α),
      perform clock names FileWorld.answer (afterParent (key.filePath base s) p) w m =
        perform clock names FileWorld.answer p { w with tree := t } m := by
  obtain ⟨t, place, hmake, hopened, -⟩ := h.open hkey
  refine ⟨t, place, hopened, fun p => ?_⟩
  rw [afterParent, StateKey.parent?_filePath hkey]
  exact perform_change (f := (·.makeDirectories (key.folderPath base))) rfl hmake _ m

variable (clock names) in
/-- Removing a file that may be there. -/
theorem perform_remove (h : w.tree.Kept base c) (hkey : key.Named) (s : Sheet) (α : Type) (m : Marks) :
    ∃ t b, (b = .ok () ∨ b = .error .notFound) ∧ t.Kept base (c.set key s none) ∧
      ∀ next : Except FileError Unit → FileProgram α,
        perform clock names FileWorld.answer (.ask (.second (.remove (key.filePath base s))) next) w m =
          perform clock names FileWorld.answer (next b) { w with tree := t } m := by
  rcases h.remove hkey s with ⟨hnone, hremove⟩ | ⟨t, hremove, ht⟩
  · refine ⟨w.tree, _, .inr rfl, by rwa [Contents.set_eq_self hnone], fun next => ?_⟩
    exact perform_change_error (f := (·.remove (key.filePath base s))) rfl hremove next m
  · exact ⟨t, _, .inl rfl, ht, fun next => perform_change (f := (·.remove (key.filePath base s))) rfl hremove next m⟩

theorem perform_writeText {path text : String} {t : FileTree} (h : w.tree.writeText path text = .ok t)
    (next : Except FileError Unit → FileProgram α) (m : Marks) :
    perform clock names FileWorld.answer (.ask (.second (.writeText path text)) next) w m =
      perform clock names FileWorld.answer (next (.ok ())) { w with tree := t } m :=
  perform_change (f := (·.writeText path text)) rfl h next m

theorem perform_createText {path text : String} {t : FileTree} (h : w.tree.createText path text = .ok t)
    (next : Except FileError Unit → FileProgram α) (m : Marks) :
    perform clock names FileWorld.answer (.ask (.second (.createText path text)) next) w m =
      perform clock names FileWorld.answer (next (.ok ())) { w with tree := t } m :=
  perform_change (f := (·.createText path text)) rfl h next m

theorem perform_rename {source target : String} {t : FileTree} (h : w.tree.rename source target = .ok t)
    (next : Except FileError Unit → FileProgram α) (m : Marks) :
    perform clock names FileWorld.answer (.ask (.second (.rename source target)) next) w m =
      perform clock names FileWorld.answer (next (.ok ())) { w with tree := t } m :=
  perform_change (f := (·.rename source target)) rfl h next m

theorem lockRemoved_eq {b : Except FileError Unit} (h : b = .ok () ∨ b = .error .notFound) :
    lockRemoved b = .ok () := by
  rcases h with rfl | rfl <;> rfl

variable (clock names) in
theorem perform_removeLock (h : w.tree.Kept base c) (hkey : key.Named) (m : Marks) :
    ∃ t, perform clock names FileWorld.answer (removeLock base key).run w m = (.ok (), { w with tree := t }, m) ∧
      t.Kept base (c.set key .lock none) := by
  rw [run_removeLock, StateKey.lockPath_eq hkey]
  obtain ⟨t, b, hb, ht, hperform⟩ := perform_remove clock names h hkey .lock (Except StateError Unit) m
  exact ⟨t, by rw [hperform, lockRemoved_eq hb, Program.perform_done], ht⟩

theorem perform_lock? (h : w.tree.Kept base c) (hkey : key.Named) {l : Option Lock}
    (hl : c key .lock = l.map Lock.render) (hdates : ∀ x, l = some x → x.acquired.Writable ∧ x.expires.Writable)
    (m : Marks) : perform clock names FileWorld.answer (lock? base key).run w m = (.ok l, w, m) := by
  rw [run_lock?, perform_readText, lockRead_readText h hkey hl hdates, Program.perform_done]

variable (clock names) in
theorem perform_load (h : w.tree.Kept base c) (hkey : key.Named) (m : Marks) :
    perform clock names FileWorld.answer (load base key).run w m =
      ((c key .record).elim (.ok none) (recordRead (recordPath base key)), w, m) := by
  rw [run_load, perform_readText, StateKey.recordPath_eq hkey, h.readText hkey]
  cases c key .record <;> rfl

theorem perform_hasRecord (h : w.tree.Kept base c) (hkey : key.Named) (m : Marks) :
    perform clock names FileWorld.answer ((store base).hasRecord key).run w m =
      (.ok (c key .record).isSome, w, m) := by
  rw [run_hasRecord, StateKey.recordPath_eq hkey, Program.perform_call, ← h.pathExists hkey]
  rfl

theorem mapError_recordRead (path text : String) :
    (recordRead path text).mapError StateError.kind = (Record.told text).map some := by
  unfold recordRead Record.told
  cases Record.ofText? text with
  | none => rfl
  | some r => by_cases hversion : r.version = Record.currentVersion <;> simp [Record.checkVersion, hversion] <;> rfl

variable (clock names) in
/-- **A record is in its place after it was saved.** -/
theorem perform_save {r : Record} (h : w.tree.Kept base c) (hkey : r.key.Named) (hdraft : c r.key .draft = none)
    (m : Marks) :
    ∃ t, perform clock names FileWorld.answer (save base r).run w m = (.ok (), { w with tree := t }, m) ∧
      t.Kept base (c.set r.key .record (some r.render)) := by
  rw [run_save, StateKey.recordPath_eq hkey, StateKey.draftPath_eq hkey]
  obtain ⟨t, place, hopened, hperform⟩ :=
    perform_afterParent clock names h hkey .record Unit m
  obtain ⟨u, hwrite, hu⟩ := hopened.writeText hkey .draft r.render
  obtain ⟨v, hrename, hv⟩ := hu.rename hkey (r := .record) (Contents.set_self c r.key .draft _)
  refine ⟨v, ?_, ?_⟩
  · rw [hperform, Program.perform_note]
    rw [perform_writeText (w := { w with tree := t }) hwrite]
    simp only [Except.mapError, Program.orEnd_ok]
    rw [perform_rename (w := { w with tree := u }) hrename]
    rfl
  · have hkept := hv.kept
    rwa [Contents.set_set, Contents.set_eq_self hdraft] at hkept

variable (clock names) in
theorem perform_delete (h : w.tree.Kept base c) (hkey : key.Named) (m : Marks) :
    ∃ t, perform clock names FileWorld.answer (delete base key).run w m = (.ok (), { w with tree := t }, m) ∧
      t.Kept base ((c.set key .record none).set key .lock none) := by
  rw [run_delete, StateKey.recordPath_eq hkey]
  obtain ⟨t, b, hb, ht, hperform⟩ :=
    perform_remove clock names h hkey .record (Except StateError Unit) m
  obtain ⟨u, hremove, hu⟩ := perform_removeLock clock names (w := { w with tree := t }) ht hkey m
  refine ⟨u, ?_, hu⟩
  rw [hperform]
  rcases hb with rfl | rfl
  · simp only [Program.perform_note, hremove]
  · exact hremove

variable (clock names) in
theorem perform_takeFree (h : w.tree.Kept base c) (hkey : key.Named) (hfree : c key .lock = none) (operation : String)
    (m : Marks) :
    ∃ l t, l = Lock.take (clock m.read) (names.ids m.named) (names.holders m.asked) key operation ∧
      perform clock names FileWorld.answer (takeFree base key operation).run w m =
        (.ok l, { w with tree := t }, m.take) ∧
      t.Kept base (c.set key .lock (some l.render)) := by
  obtain ⟨l, hl⟩ : ∃ l, l = Lock.take (clock m.read) (names.ids m.named) (names.holders m.asked) key operation :=
    ⟨_, rfl⟩
  have hlkey : l.key = key := by rw [hl, Lock.take]
  obtain ⟨t, place, hopened, hparent⟩ :=
    perform_afterParent clock names h hkey .lock Unit m.take
  obtain ⟨u, hcreate, hu⟩ := hopened.createText hkey hfree l.render
  refine ⟨l, u, hl, ?_, hu.kept⟩
  rw [run_takeFree, Program.perform_clock, Program.perform_freshId, Program.perform_holder]
  change perform clock names FileWorld.answer ((writeLock base (Lock.take (clock m.read) (names.ids m.named)
    (names.holders m.asked) key operation)).run.bind _) w m.take = _
  rw [← hl, run_writeLock, hlkey, StateKey.lockPath_eq hkey, Program.perform_bind, hparent,
    perform_createText (w := { w with tree := t }) hcreate, Program.perform_done]
  rw [hl]
  rfl

/-- Taking a lock where none is held. -/
theorem perform_acquire_free (h : w.tree.Kept base c) (hkey : key.Named) (hfree : c key .lock = none)
    (operation : String) (m : Marks) :
    ∃ l t, l = Lock.take (clock m.read) (names.ids m.named) (names.holders m.asked) key operation ∧
      perform clock names FileWorld.answer (acquire base key operation).run w m =
        (.ok l, { w with tree := t }, m.take) ∧
      t.Kept base (c.set key .lock (some l.render)) := by
  obtain ⟨l, t, hl, hperform, ht⟩ := perform_takeFree clock names h hkey hfree operation m
  refine ⟨l, t, hl, ?_, ht⟩
  rw [run_acquire, perform_readText, lockRead_readText (l := none) h hkey hfree nofun]
  exact hperform

section Found

variable {l : Lock} (h : w.tree.Kept base c) (hkey : key.Named) (hl : c key .lock = some l.render)
  (hdates : l.acquired.Writable ∧ l.expires.Writable) (m : Marks)
include h hkey hl hdates

theorem lockRead_found : lockRead (lockPath base key) (w.tree.readText (lockPath base key)) = .ok (some l) :=
  lockRead_readText h hkey hl fun x hx => by
    cases hx
    exact hdates

theorem perform_acquire_held (operation : String) (hheld : l.isExpired (clock m.read) = false) :
    perform clock names FileWorld.answer (acquire base key operation).run w m = (.error l.refusal, w, m.look) := by
  rw [run_acquire, perform_readText, lockRead_found h hkey hl hdates]
  simp only [Program.perform_clock, hheld, Bool.false_eq_true, if_false, Program.perform_note, Program.perform_done]

/-- A lock that has expired is removed first. -/
theorem perform_acquire_expired (operation : String) (hexpired : l.isExpired (clock m.read) = true) :
    ∃ l' t, l' = Lock.take (clock m.look.read) (names.ids m.named) (names.holders m.asked) key operation ∧
      perform clock names FileWorld.answer (acquire base key operation).run w m =
        (.ok l', { w with tree := t }, m.look.take) ∧
      t.Kept base (c.set key .lock (some l'.render)) := by
  obtain ⟨t, b, hb, ht, hremove⟩ :=
    perform_remove clock names h hkey .lock (Except StateError Lock) m.look
  obtain ⟨l', u, hl', hperform, hu⟩ := perform_takeFree clock names (w := { w with tree := t })
    ht hkey (Contents.set_self c key .lock none) operation m.look
  refine ⟨l', u, hl', ?_, by rwa [Contents.set_set] at hu⟩
  rw [run_acquire, perform_readText, lockRead_found h hkey hl hdates]
  simp only [Program.perform_clock, hexpired, if_true, Program.perform_note]
  rw [StateKey.lockPath_eq hkey, hremove, lockRemoved_eq hb]
  exact hperform

theorem perform_release_same {id : String} (hid : l.id = id) :
    ∃ t, perform clock names FileWorld.answer (release base key id).run w m = (.ok (), { w with tree := t }, m) ∧
      t.Kept base (c.set key .lock none) := by
  obtain ⟨t, b, hb, ht, hremove⟩ :=
    perform_remove clock names h hkey .lock (Except StateError Unit) m
  refine ⟨t, ?_, ht⟩
  rw [run_release, perform_readText, lockRead_found h hkey hl hdates]
  simp only [hid, if_true]
  rw [StateKey.lockPath_eq hkey, hremove, lockRemoved_eq hb]
  rfl

theorem perform_release_other {id : String} (hid : l.id ≠ id) :
    perform clock names FileWorld.answer (release base key id).run w m = (.ok (), w, m) := by
  rw [run_release, perform_readText, lockRead_found h hkey hl hdates]
  simp only [hid, if_false]
  rfl

theorem perform_isLocked_found :
    perform clock names FileWorld.answer (isLocked base key).run w m =
      (.ok !l.isExpired (clock m.read), w, m.look) := by
  rw [run_isLocked, perform_readText, lockRead_found h hkey hl hdates]
  rfl

end Found

theorem perform_release_none (h : w.tree.Kept base c) (hkey : key.Named) (hnone : c key .lock = none) (id : String)
    (m : Marks) : perform clock names FileWorld.answer (release base key id).run w m = (.ok (), w, m) := by
  rw [run_release, perform_readText, lockRead_readText (l := none) h hkey hnone nofun]
  rfl

theorem perform_isLocked_none (h : w.tree.Kept base c) (hkey : key.Named) (hnone : c key .lock = none) (m : Marks) :
    perform clock names FileWorld.answer (isLocked base key).run w m = (.ok false, w, m) := by
  rw [run_isLocked, perform_readText, lockRead_readText (l := none) h hkey hnone nofun]
  rfl

theorem perform_forceUnlock (h : w.tree.Kept base c) (hkey : key.Named) (m : Marks) :
    ∃ t, perform clock names FileWorld.answer (forceUnlock base key).run w m = (.ok (), { w with tree := t }, m) ∧
      t.Kept base (c.set key .lock none) := by
  rw [run_forceUnlock, Program.perform_note]
  exact perform_removeLock clock names h hkey m

/-- **What a store of files does to the texts that it keeps.** -/
theorem keeps (base : String) :
    (store base).Keeps clock names FileWorld.answer fun w c => w.tree.Kept base c where
  load_none h hkey hnone m := by
    have hload := perform_load clock names h hkey m
    rwa [hnone] at hload
  load_some h hkey hsome m := by
    have hload := perform_load clock names h hkey m
    rw [hsome] at hload
    exact ⟨_, hload, mapError_recordRead _ _⟩
  save h hkey hdraft m := by
    obtain ⟨t, hsave, ht⟩ := perform_save clock names h hkey hdraft m
    exact ⟨_, hsave, ht⟩
  delete h hkey m := by
    obtain ⟨t, hdelete, ht⟩ := perform_delete clock names h hkey m
    exact ⟨_, hdelete, ht⟩
  hasRecord h hkey m := perform_hasRecord h hkey m
  acquire_free h hkey hfree operation m := by
    obtain ⟨l, t, hl, hacquire, ht⟩ := perform_acquire_free h hkey hfree operation m
    exact ⟨l, _, hl, hacquire, ht⟩
  acquire_held h hkey hl hdates operation m hheld := perform_acquire_held h hkey hl hdates m operation hheld
  acquire_expired h hkey hl hdates operation m hexpired := by
    obtain ⟨l, t, hl, hacquire, ht⟩ := perform_acquire_expired h hkey hl hdates m operation hexpired
    exact ⟨l, _, hl, hacquire, ht⟩
  release_none h hkey hnone id m := perform_release_none h hkey hnone id m
  release_same h hkey hl hdates m := by
    obtain ⟨t, hrelease, ht⟩ := perform_release_same h hkey hl hdates m rfl
    exact ⟨_, hrelease, ht⟩
  release_other h hkey hl hdates id m hid := perform_release_other h hkey hl hdates m hid
  forceUnlock h hkey m := by
    obtain ⟨t, hunlock, ht⟩ := perform_forceUnlock h hkey m
    exact ⟨_, hunlock, ht⟩
  lock? h hkey hl hdates m := perform_lock? h hkey hl hdates m
  isLocked_none h hkey hnone m := perform_isLocked_none h hkey hnone m
  isLocked_some h hkey hl hdates m := perform_isLocked_found h hkey hl hdates m

end LocalStore

/-! ### Objects -/

namespace BucketStore

variable {clock : Nat → Instant} {names : Names} {p : BucketPlace} {c : Contents} {key : StateKey} {w : BucketWorld}

/-- Whether a bucket in which no call fails has these contents. -/
structure Sound (p : BucketPlace) (w : BucketWorld) (c : Contents) : Prop where
  faultless : w.faults = []
  filed : Filed w.objects p c

theorem perform_get (h : Sound p w c) (hkey : key.Named) {s : Sheet} (hs : s ≠ .draft)
    (next : Except BucketRefusal (Option String) → BucketProgram α) (m : Marks) :
    perform clock names BucketWorld.answer (.ask (.second (.get (key.objectName p s))) next) w m =
      perform clock names BucketWorld.answer
        (next ((c key s).elim (.error ⟨"NoSuchKey"⟩) fun text => .ok (some text))) w m := by
  rw [Program.perform_call, BucketWorld.run_get h.faultless, h.filed key hkey s hs]
  cases c key s <;> rfl

variable (clock names) in
/-- Writing an object. -/
theorem perform_put (h : Sound p w c) (hkey : key.Named) (s : Sheet) (text : String) :
    ∃ w', Sound p w' (c.set key s (some text)) ∧
      ∀ {α : Type} (next : Except BucketRefusal Unit → BucketProgram α) m,
        perform clock names BucketWorld.answer (.ask (.second (.put (key.objectName p s) text)) next) w m =
          perform clock names BucketWorld.answer (next (.ok ())) w' m := by
  refine ⟨{ w with objects := w.objects.put (key.objectName p s) (some text) },
    ⟨h.faultless, h.filed.put hkey s text⟩, fun next m => ?_⟩
  rw [Program.perform_call, BucketWorld.run_put h.faultless]

variable (clock names) in
/-- Removing an object. -/
theorem perform_remove (h : Sound p w c) (hkey : key.Named) (s : Sheet) :
    ∃ w', Sound p w' (c.set key s none) ∧
      ∀ {α : Type} (next : Except BucketRefusal Unit → BucketProgram α) m,
        perform clock names BucketWorld.answer (.ask (.second (.delete (key.objectName p s))) next) w m =
          perform clock names BucketWorld.answer (next (.ok ())) w' m := by
  refine ⟨{ w with objects := w.objects.erase (key.objectName p s) },
    ⟨h.faultless, h.filed.erase hkey s⟩, fun next m => ?_⟩
  rw [Program.perform_call, BucketWorld.run_delete h.faultless]

theorem lockFetched_eq {x : Option String} {l : Option Lock} (hl : x = l.map Lock.render)
    (hdates : ∀ x, l = some x → x.acquired.Writable ∧ x.expires.Writable) :
    lockFetched (x.elim (.error ⟨"NoSuchKey"⟩) fun text => .ok (some text)) = .ok l := by
  subst hl
  cases l with
  | none => rfl
  | some x => simp [lockFetched, fetched, Lock.ofText?_render (hdates x rfl).1 (hdates x rfl).2]

variable (clock names) in
theorem perform_takeFree (h : Sound p w c) (hkey : key.Named) (operation : String) (m : Marks) :
    ∃ l w', l = Lock.take (clock m.read) (names.ids m.named) (names.holders m.asked) key operation ∧
      perform clock names BucketWorld.answer (takeFree p key operation).run w m = (.ok l, w', m.take) ∧
      Sound p w' (c.set key .lock (some l.render)) := by
  obtain ⟨l, hl⟩ : ∃ l, l = Lock.take (clock m.read) (names.ids m.named) (names.holders m.asked) key operation :=
    ⟨_, rfl⟩
  obtain ⟨w', hw', hput⟩ := perform_put clock names h hkey .lock l.render
  refine ⟨l, w', hl, ?_, hw'⟩
  rw [run_takeFree, Program.perform_clock, Program.perform_freshId, Program.perform_holder, StateKey.lockName_eq hkey]
  simp only
  change perform clock names BucketWorld.answer (.ask (.second (.put _ (Lock.take (clock m.read) (names.ids m.named)
    (names.holders m.asked) key operation).render)) _) w m.take = _
  rw [← hl, hput, hl]
  rfl

theorem lockFetched_found {x : Option String} {l : Lock} (hl : x = some l.render)
    (hdates : l.acquired.Writable ∧ l.expires.Writable) :
    lockFetched (x.elim (.error ⟨"NoSuchKey"⟩) fun text => .ok (some text)) = .ok (some l) :=
  lockFetched_eq hl fun x hx => by
    cases hx
    exact hdates

section Found

variable {l : Lock} (h : Sound p w c) (hkey : key.Named) (hl : c key .lock = some l.render)
  (hdates : l.acquired.Writable ∧ l.expires.Writable) (m : Marks)
include h hkey hl hdates

theorem perform_acquire_held (operation : String) (hheld : l.isExpired (clock m.read) = false) :
    perform clock names BucketWorld.answer (acquire p key operation).run w m = (.error l.refusal, w, m.look) := by
  rw [run_acquire, StateKey.lockName_eq hkey, perform_get h hkey (by decide), lockFetched_found hl hdates]
  simp only [Program.perform_clock, hheld, Bool.false_eq_true, if_false, Program.perform_note, Program.perform_done]

/-- A lock that has expired is overwritten. -/
theorem perform_acquire_expired (operation : String) (hexpired : l.isExpired (clock m.read) = true) :
    ∃ l' w', l' = Lock.take (clock m.look.read) (names.ids m.named) (names.holders m.asked) key operation ∧
      perform clock names BucketWorld.answer (acquire p key operation).run w m = (.ok l', w', m.look.take) ∧
      Sound p w' (c.set key .lock (some l'.render)) := by
  obtain ⟨l', w', hl', hperform, hw'⟩ := perform_takeFree clock names h hkey operation m.look
  refine ⟨l', w', hl', ?_, hw'⟩
  rw [run_acquire, StateKey.lockName_eq hkey, perform_get h hkey (by decide), lockFetched_found hl hdates]
  simp only [Program.perform_clock, hexpired, if_true, Program.perform_note]
  exact hperform

theorem perform_release_same {id : String} (hid : l.id = id) :
    ∃ w', perform clock names BucketWorld.answer (release p key id).run w m = (.ok (), w', m) ∧
      Sound p w' (c.set key .lock none) := by
  obtain ⟨w', hw', hremove⟩ := perform_remove clock names h hkey .lock
  refine ⟨w', ?_, hw'⟩
  rw [run_release, StateKey.lockName_eq hkey, perform_get h hkey (by decide), lockFetched_found hl hdates]
  simp only [hid, if_true]
  rw [hremove]
  rfl

theorem perform_release_other {id : String} (hid : l.id ≠ id) :
    perform clock names BucketWorld.answer (release p key id).run w m = (.ok (), w, m) := by
  rw [run_release, StateKey.lockName_eq hkey, perform_get h hkey (by decide), lockFetched_found hl hdates]
  simp only [hid, if_false]
  rfl

theorem perform_isLocked_found :
    perform clock names BucketWorld.answer (isLocked p key).run w m = (.ok !l.isExpired (clock m.read), w, m.look) := by
  rw [run_isLocked, StateKey.lockName_eq hkey, perform_get h hkey (by decide), lockFetched_found hl hdates]
  rfl

end Found

/-- **What a store in a bucket does to the texts that it keeps.** -/
theorem keeps (p : BucketPlace) : (store p).Keeps clock names BucketWorld.answer (Sound p) where
  load_none {w c key} h hkey hnone m := by
    change perform clock names BucketWorld.answer (load p key).run w m = _
    rw [run_load, Program.perform_note, StateKey.recordName_eq hkey, perform_get h hkey (by decide), hnone]
    rfl
  load_some {w c key text} h hkey hsome m := by
    change ∃ reply, perform clock names BucketWorld.answer (load p key).run w m = _ ∧ _
    rw [run_load, Program.perform_note, StateKey.recordName_eq hkey, perform_get h hkey (by decide), hsome]
    simp only [Option.elim_some, fetched, Record.told]
    cases Record.ofText? text with
    | none => exact ⟨_, rfl, rfl⟩
    | some r =>
      by_cases hversion : r.version = Record.currentVersion
      · simp only [Record.checkVersion, hversion, if_true]
        exact ⟨_, rfl, rfl⟩
      · simp only [Record.checkVersion, hversion, if_false]
        exact ⟨_, rfl, rfl⟩
  save {w c r} h hkey hdraft m := by
    obtain ⟨w', hw', hput⟩ := perform_put clock names h hkey .record r.render
    refine ⟨w', ?_, hw'⟩
    change perform clock names BucketWorld.answer (save p r).run w m = _
    rw [run_save, Program.perform_note, StateKey.recordName_eq hkey, hput]
    rfl
  delete {w c key} h hkey m := by
    obtain ⟨w', hw', hremove⟩ := perform_remove clock names h hkey .record
    obtain ⟨w'', hw'', hremove'⟩ := perform_remove clock names hw' hkey .lock
    refine ⟨w'', ?_, hw''⟩
    change perform clock names BucketWorld.answer (delete p key).run w m = _
    rw [run_delete, Program.perform_note, StateKey.recordName_eq hkey, StateKey.lockName_eq hkey, hremove]
    simp only [Except.mapError, Program.orEnd_ok, run_remove]
    rw [hremove']
    rfl
  hasRecord {w c key} h hkey m := by
    rw [run_hasRecord, StateKey.recordName_eq hkey, Program.perform_call, BucketWorld.run_head h.faultless, Table.has,
      h.filed key hkey .record (by decide)]
    cases c key .record <;> rfl
  acquire_free {w c key} h hkey hfree operation m := by
    obtain ⟨l, w', hl, hperform, hw'⟩ := perform_takeFree clock names h hkey operation m
    refine ⟨l, w', hl, ?_, hw'⟩
    change perform clock names BucketWorld.answer (acquire p key operation).run w m = _
    rw [run_acquire, StateKey.lockName_eq hkey, perform_get h hkey (by decide), hfree]
    exact hperform
  acquire_held h hkey hl hdates operation m hheld := perform_acquire_held h hkey hl hdates m operation hheld
  acquire_expired h hkey hl hdates operation m hexpired :=
    perform_acquire_expired h hkey hl hdates m operation hexpired
  release_none {w c key} h hkey hnone id m := by
    change perform clock names BucketWorld.answer (release p key id).run w m = _
    rw [run_release, StateKey.lockName_eq hkey, perform_get h hkey (by decide), hnone]
    rfl
  release_same h hkey hl hdates m := perform_release_same h hkey hl hdates m rfl
  release_other h hkey hl hdates id m hid := perform_release_other h hkey hl hdates m hid
  forceUnlock {w c key} h hkey m := by
    obtain ⟨w', hw', hremove⟩ := perform_remove clock names h hkey .lock
    refine ⟨w', ?_, hw'⟩
    change perform clock names BucketWorld.answer (forceUnlock p key).run w m = _
    rw [run_forceUnlock, Program.perform_note, run_remove, StateKey.lockName_eq hkey, hremove]
    rfl
  lock? {w c key l} h hkey hl hdates m := by
    change perform clock names BucketWorld.answer (lock? p key).run w m = _
    rw [run_lock?, StateKey.lockName_eq hkey, perform_get h hkey (by decide), lockFetched_eq hl hdates]
    rfl
  isLocked_none {w c key} h hkey hnone m := by
    change perform clock names BucketWorld.answer (isLocked p key).run w m = _
    rw [run_isLocked, StateKey.lockName_eq hkey, perform_get h hkey (by decide), hnone]
    rfl
  isLocked_some h hkey hl hdates m := perform_isLocked_found h hkey hl hdates m

end BucketStore

end Groundwork
