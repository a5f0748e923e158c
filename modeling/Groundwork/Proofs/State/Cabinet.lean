import Mathlib.Logic.Function.Basic
import Groundwork.Failure.Kind
import Groundwork.State.Store
import Groundwork.Proofs.Effect.Endings
import Groundwork.Proofs.State.Documents

/-!
# The store that all stores are

A cabinet holds for each key a record or none, and a lock or none.  It says what the operations of a store do, with
no word on where records and locks are kept, how locks are called and what failures say.

Main statements: what the operations do in every cabinet that comes about (`laws_after`), and that a record is there
exactly as it was saved last since it was deleted last (`records_after`).
-/

namespace Groundwork

/-- An operation of a store.  A lock is given back by the number of its name among all names that were given. -/
inductive StoreCommand where
  | load (key : StateKey)
  | save (r : Record)
  | delete (key : StateKey)
  | hasRecord (key : StateKey)
  | acquire (key : StateKey) (operation : String)
  | release (key : StateKey) (number : Nat)
  | forceUnlock (key : StateKey)
  | lock? (key : StateKey)
  | isLocked (key : StateKey)

namespace StoreCommand

/-- The key that an operation is about. -/
def key : StoreCommand → StateKey
  | load key | delete key | hasRecord key | acquire key _ | release key _ | forceUnlock key | lock? key
  | isLocked key => key
  | save r => r.key

/-- Whether an operation is about the lock of a key alone. -/
def IsOnLock : StoreCommand → Prop
  | acquire .. | release .. | forceUnlock _ | lock? _ | isLocked _ => True
  | load _ | save _ | delete _ | hasRecord _ => False

end StoreCommand

/-- The answer to an operation, where locks are told in some way. -/
inductive StoreReply (L : Type) where
  | finished
  | record (r : Option Record)
  | truth (b : Bool)
  | taken (l : L)
  | lock (l : Option L)

/-- The same answer with locks told in another way. -/
def StoreReply.map {L M : Type} (f : L → M) : StoreReply L → StoreReply M
  | finished => finished
  | record r => record r
  | truth b => truth b
  | taken l => taken (f l)
  | lock l => lock (l.map f)

/-- A lock without its names: when it was taken, for which key and for what. -/
structure Ticket where
  marks : Marks
  key : StateKey
  operation : String
  deriving DecidableEq

namespace Ticket

/-- The number of the name of a lock. -/
def number (t : Ticket) : Nat := t.marks.named

/-- The time when a lock was taken. -/
def acquired (clock : Nat → Instant) (t : Ticket) : Instant := clock t.marks.read

/-- Whether a lock no longer holds. -/
def isExpired (clock : Nat → Instant) (now : Instant) (t : Ticket) : Bool :=
  ((t.acquired clock).addSeconds Lock.lifetime).lt now

/-- A lock with its names. -/
def lock (clock : Nat → Instant) (names : Names) (t : Ticket) : Lock :=
  .take (t.acquired clock) (names.ids t.number) (names.holders t.marks.asked) t.key t.operation

end Ticket

/-- The record that a text tells, if its version is understood. -/
def Record.told (text : String) : Except String Record :=
  match Record.ofText? text with
  | none => .error "Corrupted"
  | some r => if r.version = currentVersion then .ok r else .error "VersionMismatch"

/-- The records and locks of a store, and what was asked of its surroundings. -/
structure Cabinet where
  records : StateKey → Option Record
  locks : StateKey → Option Ticket
  marks : Marks

namespace Cabinet

/-- A cabinet with nothing in it. -/
def empty : Cabinet := ⟨fun _ => none, fun _ => none, .zero⟩

/-- Puts a lock in the place of the one that is there. -/
def take (k : Cabinet) (key : StateKey) (operation : String) : Except String (StoreReply Ticket) × Cabinet :=
  let t := ⟨k.marks, key, operation⟩
  (.ok (.taken t), ⟨k.records, Function.update k.locks key (some t), k.marks.take⟩)

/-- The same cabinet after the clock was read. -/
def look (k : Cabinet) : Cabinet := { k with marks := k.marks.look }

/-- The same cabinet without the lock of a key. -/
def unlock (k : Cabinet) (key : StateKey) : Cabinet := { k with locks := Function.update k.locks key none }

/-- What an operation answers, and what it leaves. -/
def step (clock : Nat → Instant) (k : Cabinet) : StoreCommand → Except String (StoreReply Ticket) × Cabinet
  | .load key =>
      (match k.records key with
        | none => .ok (.record none)
        | some r => (Record.told r.render).map (.record ∘ some), k)
  | .save r => (.ok .finished, { k with records := Function.update k.records r.key (some r) })
  | .delete key => (.ok .finished, { k.unlock key with records := Function.update k.records key none })
  | .hasRecord key => (.ok (.truth (k.records key).isSome), k)
  | .acquire key operation =>
      match k.locks key with
      | none => k.take key operation
      | some t =>
          if t.isExpired clock (clock k.marks.read) then k.look.take key operation
          else (.error "LockedByOther", k.look)
  | .release key number =>
      (.ok .finished, if (k.locks key).any (·.number = number) then k.unlock key else k)
  | .forceUnlock key => (.ok .finished, k.unlock key)
  | .lock? key => (.ok (.lock (k.locks key)), k)
  | .isLocked key =>
      match k.locks key with
      | none => (.ok (.truth false), k)
      | some t => (.ok (.truth !t.isExpired clock (clock k.marks.read)), k.look)

/-- The answers to operations, one after the other. -/
def replies (clock : Nat → Instant) : Cabinet → List StoreCommand → List (Except String (StoreReply Ticket))
  | _, [] => []
  | k, c :: cs => (k.step clock c).1 :: replies clock (k.step clock c).2 cs

/-- What operations leave, one after the other. -/
def after (clock : Nat → Instant) (k : Cabinet) (commands : List StoreCommand) : Cabinet :=
  commands.foldl (fun k c => (k.step clock c).2) k

/-! ### What operations do -/

/-- The record that is there after an operation, if this one was there before. -/
def savedBy (key : StateKey) (r : Option Record) : StoreCommand → Option Record
  | .save r' => if r'.key = key then some r' else r
  | .delete key' => if key' = key then none else r
  | _ => r

/-- The record that was saved last under a key since it was deleted last. -/
def lastSaved (key : StateKey) (commands : List StoreCommand) : Option Record := commands.foldl (savedBy key) none

/-- What the operations of a store do. -/
structure Laws (clock : Nat → Instant) (k : Cabinet) : Prop where
  /-- A record is read as its text tells. -/
  load : ∀ key, (k.step clock (.load key)).1 =
    match k.records key with
    | none => .ok (.record none)
    | some r => (Record.told r.render).map (.record ∘ some)
  /-- No lock is given where one is held. -/
  refused : ∀ key operation t, k.locks key = some t → t.isExpired clock (clock k.marks.read) = false →
    (k.step clock (.acquire key operation)).1 = .error "LockedByOther" ∧
      (k.step clock (.acquire key operation)).2.locks = k.locks
  /-- A lock with a new name is given where none is held, and takes the place of one that has expired. -/
  given : ∀ key operation, (∀ t, k.locks key = some t → t.isExpired clock (clock k.marks.read) = true) →
    ∃ t, (k.step clock (.acquire key operation)).1 = .ok (.taken t) ∧
      (k.step clock (.acquire key operation)).2.locks = Function.update k.locks key (some t) ∧
      t.key = key ∧ t.operation = operation ∧ ∀ key' t', k.locks key' = some t' → t'.number ≠ t.number
  /-- A lock is given back by its own name only. -/
  release : ∀ key number, (k.step clock (.release key number)).2.locks =
    if ∃ t, k.locks key = some t ∧ t.number = number then Function.update k.locks key none else k.locks
  /-- What is done to a lock changes no record. -/
  onLock : ∀ c : StoreCommand, c.IsOnLock → (k.step clock c).2.records = k.records
  /-- What is done under a key changes nothing under another one. -/
  elsewhere : ∀ (c : StoreCommand) key, key ≠ c.key →
    (k.step clock c).2.records key = k.records key ∧ (k.step clock c).2.locks key = k.locks key

section Steps

variable {clock : Nat → Instant} {k : Cabinet}

theorem records_step (c : StoreCommand) (key : StateKey) :
    (k.step clock c).2.records key = savedBy key (k.records key) c := by
  cases c with
  | save r =>
    by_cases hkey : r.key = key
    · simp [step, savedBy, hkey]
    · simp [step, savedBy, hkey, Function.update_of_ne (Ne.symm hkey)]
  | delete key' =>
    by_cases hkey : key' = key
    · simp [step, savedBy, hkey]
    · simp [step, savedBy, hkey, Function.update_of_ne (Ne.symm hkey)]
  | acquire key' operation =>
    simp only [step]
    split
    · rfl
    · split <;> rfl
  | release key' number =>
    simp only [step]
    split <;> rfl
  | isLocked key' =>
    simp only [step]
    split <;> rfl
  | load | hasRecord | forceUnlock | lock? => rfl

theorem locks_step_of_ne (c : StoreCommand) {key : StateKey} (hkey : key ≠ c.key) :
    (k.step clock c).2.locks key = k.locks key := by
  cases c with
  | acquire key' operation =>
    simp only [step]
    split
    · exact Function.update_of_ne hkey _ _
    · split
      · exact Function.update_of_ne hkey _ _
      · rfl
  | release key' number =>
    simp only [step]
    split
    · exact Function.update_of_ne hkey _ _
    · rfl
  | isLocked key' =>
    simp only [step]
    split <;> rfl
  | delete key' | forceUnlock key' => exact Function.update_of_ne hkey _ _
  | load | save | hasRecord | lock? => rfl

/-- Whether the names of all locks were given before. -/
def Numbered (k : Cabinet) : Prop := ∀ key t, k.locks key = some t → t.number < k.marks.named

theorem Numbered.take (h : k.Numbered) (key : StateKey) (operation : String) : (k.take key operation).2.Numbered := by
  intro key' t ht
  simp only [Cabinet.take] at ht ⊢
  by_cases hkey : key' = key
  · subst hkey
    rw [Function.update_self, Option.some.injEq] at ht
    subst ht
    simp [Ticket.number, Marks.take]
  · rw [Function.update_of_ne hkey] at ht
    exact Nat.lt_succ_of_lt (h key' t ht)

theorem Numbered.unlock (h : k.Numbered) (key : StateKey) : (k.unlock key).Numbered := by
  intro key' t ht
  simp only [Cabinet.unlock] at ht ⊢
  by_cases hkey : key' = key
  · subst hkey
    simp at ht
  · rw [Function.update_of_ne hkey] at ht
    exact h key' t ht

theorem Numbered.step (h : k.Numbered) (c : StoreCommand) : (k.step clock c).2.Numbered := by
  cases c with
  | acquire key operation =>
    simp only [Cabinet.step]
    split
    · exact h.take key operation
    · split
      · exact Numbered.take (k := k.look) h key operation
      · exact h
  | release key number =>
    simp only [Cabinet.step]
    split
    · exact h.unlock key
    · exact h
  | isLocked key =>
    simp only [Cabinet.step]
    split <;> exact h
  | delete key | forceUnlock key => exact h.unlock key
  | load | save | hasRecord | lock? => exact h

/-- **What the operations of a store do.** -/
theorem Numbered.laws (h : k.Numbered) (clock : Nat → Instant) : k.Laws clock where
  load _ := rfl
  refused key operation t ht hheld := by simp [Cabinet.step, ht, hheld, look]
  given key operation hfree := by
    have hnew : ∀ key' t', k.locks key' = some t' → t'.number ≠ k.marks.named :=
      fun key' t' ht' => Nat.ne_of_lt (h key' t' ht')
    cases hlock : k.locks key with
    | none => exact ⟨⟨k.marks, key, operation⟩, by simp [Cabinet.step, hlock, Cabinet.take],
        by simp [Cabinet.step, hlock, Cabinet.take], rfl, rfl, hnew⟩
    | some t =>
      have hexpired := hfree t hlock
      exact ⟨⟨k.look.marks, key, operation⟩, by simp [Cabinet.step, hlock, hexpired, Cabinet.take],
        by simp [Cabinet.step, hlock, hexpired, Cabinet.take, look], rfl, rfl, hnew⟩
  release key number := by
    have hiff : (k.locks key).any (·.number = number) = true ↔ ∃ t, k.locks key = some t ∧ t.number = number := by
      simp [Option.any_eq_true]
    simp only [Cabinet.step, hiff]
    split <;> rfl
  onLock c hc := by
    funext key
    rw [records_step]
    cases c <;> first | rfl | cases hc
  elsewhere c key hkey := by
    refine ⟨?_, locks_step_of_ne c hkey⟩
    have hne : c.key ≠ key := Ne.symm hkey
    rw [records_step]
    cases c with
    | save r | delete key' => exact if_neg hne
    | _ => rfl

end Steps

/-- **What the operations of a store do, whatever was done before.** -/
theorem laws_after (clock : Nat → Instant) (commands : List StoreCommand) :
    (empty.after clock commands).Laws clock := by
  have hnumbered : ∀ (commands : List StoreCommand) (k : Cabinet), k.Numbered → (k.after clock commands).Numbered := by
    intro commands
    induction commands with
    | nil => exact fun k h => h
    | cons c cs ih => exact fun k h => ih _ (h.step c)
  exact (hnumbered commands empty nofun).laws clock

/-- **A record is there as it was saved last since it was deleted last.** -/
theorem records_after (clock : Nat → Instant) (commands : List StoreCommand) (key : StateKey) :
    (empty.after clock commands).records key = lastSaved key commands := by
  have hfold : ∀ (commands : List StoreCommand) (k : Cabinet),
      (k.after clock commands).records key = commands.foldl (savedBy key) (k.records key) := by
    intro commands
    induction commands with
    | nil => exact fun k => rfl
    | cons c cs ih =>
      intro k
      have hstep : (k.step clock c).2.records key = savedBy key (k.records key) c := records_step c key
      rw [List.foldl_cons, ← hstep]
      exact ih _
  exact hfold commands empty

end Cabinet

/-- **A record that can be written is read as it was, if its version is understood.** -/
theorem Record.told_render {r : Record} (h : r.Writable) :
    Record.told r.render = if r.version = currentVersion then .ok r else .error "VersionMismatch" := by
  rw [told, ofText?_render h]

end Groundwork
