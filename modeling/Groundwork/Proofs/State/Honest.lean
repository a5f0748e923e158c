import Groundwork.Proofs.Effect.Endings
import Groundwork.Proofs.State.Agreement

/-!
# Stores whose calls fail

Any call to the file system or to a bucket may fail.  One that was to change something may have been carried out
nevertheless, and a text may have been written in part.  No call lies, though: what is there is never reported
missing.

An operation of a store is made of such calls.  What it has done when it ends is said once, for all stores
(`Store.Honest`), and a store that is known to keep to it is an `HonestStore`.

Main statements: both stores keep to it (`LocalStore.honest`, `BucketStore.honest`).
-/

namespace Groundwork

open Program (Ensures)

/-! ### What texts tell -/

namespace Contents

/-- Whether a key has this lock. -/
def Shows (c : Contents) (key : StateKey) (l : Lock) : Prop :=
  ∃ text, c key .lock = some text ∧ Lock.ofText? text = some l

/-- Whether a key has no lock at some time, or one that has expired. -/
def Free (c : Contents) (key : StateKey) (now : Instant) : Prop :=
  c key .lock = none ∨ ∃ l, c.Shows key l ∧ l.isExpired now = true

/-- Whether this is what a store has to say about the lock of a key. -/
def TellsLock (c : Contents) (key : StateKey) : Except StateError (Option Lock) → Prop
  | .error _ => True
  | .ok none => c key .lock = none
  | .ok (some l) => c.Shows key l

/-- Whether this is the record of a key, or the key has none. -/
def Tells (c : Contents) (key : StateKey) : Option Record → Prop
  | none => c key .record = none
  | some r => ∃ text, c key .record = some text ∧ Record.ofText? text = some r ∧ r.version = Record.currentVersion

variable {c : Contents} {key : StateKey}

theorem Free.later {now later : Instant} (h : c.Free key now) (onward : later.lt now = false) : c.Free key later :=
  h.imp_right fun ⟨l, hl, hexpired⟩ => ⟨l, hl, Lock.isExpired_later hexpired onward⟩

theorem shows_inj {l m : Lock} (hl : c.Shows key l) (hm : c.Shows key m) : l = m := by
  obtain ⟨text, htext, hl⟩ := hl
  obtain ⟨text', htext', hm⟩ := hm
  obtain rfl : text = text' := Option.some.inj (htext.symm.trans htext')
  exact Option.some.inj (hl.symm.trans hm)

theorem not_shows_of_none {l : Lock} (h : c key .lock = none) : ¬c.Shows key l := by
  rintro ⟨text, htext, -⟩
  cases h.symm.trans htext

theorem not_shows_of_unread {text : String} {l : Lock} (h : c key .lock = some text) (hl : Lock.ofText? text = none) :
    ¬c.Shows key l := by
  rintro ⟨text', htext', hl'⟩
  obtain rfl : text = text' := Option.some.inj (h.symm.trans htext')
  cases hl.symm.trans hl'

end Contents

/-! ### Operations -/

/-- A setting in which calls are answered in order or, if they may, fail.  The clock shows times that the texts of
locks can spell. -/
def Setting.failing {Q : Type → Type} {W : Type} (answer : {γ : Type} → Q γ → StateM W γ)
    (fails : {γ : Type} → Q γ → W → γ → W → Prop) (may : Bool) : Setting Q W where
  answers q s b s' :=
    s'.now = s.now ∧ ((answer q).run s.world = (b, s'.world) ∨ may = true ∧ fails q s.world b s'.world)
  onward h := h.1 ▸ Instant.lt_irrefl _
  times := Lock.Datable

namespace Store

variable {W : Type} (kept : W → Contents → Prop) (c : Contents)

/-- A record was loaded as it stands, or none was. -/
def Loaded (key : StateKey) (b : Except StateError (Option Record)) (m : Moment W) : Prop :=
  kept m.world c ∧ ∀ found, b = .ok found → c.Tells key found

/-- A record was written in the place of the old one, or this one stays. -/
def Saved (r : Record) (b : Except StateError Unit) (m : Moment W) : Prop :=
  ∃ c', kept m.world c' ∧ (∀ k sheet, k ≠ r.key ∨ sheet = .lock → c' k sheet = c k sheet) ∧
    (c' r.key .record = some r.render ∨ (∃ e, b = .error e) ∧ c' r.key .record = c r.key .record)

/-- A lock was written that begins at a time or later, or none was given. -/
def Written (key : StateKey) (since : Instant) (b : Except StateError Lock) (m : Moment W) : Prop :=
  ∃ x, kept m.world (c.set key .lock x) ∧ ∀ l, b = .ok l →
    x = some l.render ∧ l.acquired.lt since = false ∧ l.acquired.Writable ∧ l.expires.Writable

/-- A lock was given only where none is held. -/
def Acquired (key : StateKey) (b : Except StateError Lock) (m : Moment W) : Prop :=
  ∃ x, kept m.world (c.set key .lock x) ∧
    (∀ l, b = .ok l → x = some l.render ∧ c.Free key l.acquired ∧ l.acquired.Writable ∧ l.expires.Writable) ∧
    (∀ e, b = .error e → x = c key .lock ∨ c.Free key m.now)

/-- A lock was removed by its own id only, and was removed if no call may fail. -/
def Released (key : StateKey) (id : String) (may : Bool) (m : Moment W) : Prop :=
  ∃ x, kept m.world (c.set key .lock x) ∧ (x = c key .lock ∨ x = none ∧ ∃ l, c.Shows key l ∧ l.id = id) ∧
    (may = false → ∀ l, c.Shows key l → l.id = id → x = none)

variable {kept : W → Contents → Prop} {c : Contents} {key : StateKey} {m : Moment W}

theorem acquired_of_refused (h : kept m.world c) (e : StateError) : Acquired kept c key (.error e) m :=
  ⟨_, (Contents.set_eq_self rfl).symm ▸ h, nofun, fun _ _ => .inl rfl⟩

/-- A lock that was written where none was held was given so. -/
theorem Written.acquired {since : Instant} {b : Except StateError Lock} (h : Written kept c key since b m)
    (hfree : c.Free key since) (onward : m.now.lt since = false) : Acquired kept c key b m := by
  obtain ⟨x, hkept, hok⟩ := h
  refine ⟨x, hkept, fun l hl => ?_, fun _ _ => .inr (hfree.later onward)⟩
  obtain ⟨hx, hacquired, hdates⟩ := hok l hl
  exact ⟨hx, hfree.later hacquired, hdates⟩

/-- What was in the place of a lock does not matter once it was written. -/
theorem Written.of_set {x : Option String} {since : Instant} {b : Except StateError Lock}
    (h : Written kept (c.set key .lock x) key since b m) : Written kept c key since b m := by
  obtain ⟨y, hkept, hok⟩ := h
  exact ⟨y, by rwa [Contents.set_set] at hkept, hok⟩

theorem released_of_stays {id : String} {may : Bool} (h : kept m.world c)
    (hnot : may = false → ∀ l, c.Shows key l → l.id ≠ id) : Released kept c key id may m :=
  ⟨_, (Contents.set_eq_self rfl).symm ▸ h, .inl rfl, fun hmay l hl hid => absurd hid (hnot hmay l hl)⟩

end Store

/-- What the operations of a store have done when they end, whatever has failed. -/
structure Store.Honest {Q : Type → Type} {W : Type} (s : Store (Program (Asking Q))) (v : Bool → Setting Q W)
    (kept : W → Contents → Prop) : Prop where
  load : ∀ {m : Moment W} {c key}, kept m.world c → key.Named →
    (s.load key).run.Ensures (v true) m fun _ => Loaded kept c key
  save : ∀ {m : Moment W} {c} {r : Record}, kept m.world c → r.key.Named →
    (s.save r).run.Ensures (v true) m fun _ => Saved kept c r
  acquire : ∀ {m : Moment W} {c key}, kept m.world c → key.Named → ∀ operation,
    (s.acquire key operation).run.Ensures (v true) m fun _ => Acquired kept c key
  release : ∀ {may} {m : Moment W} {c key}, kept m.world c → key.Named → ∀ id,
    (s.release key id).run.Ensures (v may) m fun _ _ => Released kept c key id may

/-- A store that is known to do what it should, whatever fails. -/
structure HonestStore where
  /-- Its calls. -/
  Q : Type → Type
  /-- What it works on. -/
  W : Type
  store : Store (Program (Asking Q))
  /-- How calls are answered in order. -/
  answer : {γ : Type} → Q γ → StateM W γ
  /-- Whether a call may fail like this. -/
  fails : {γ : Type} → Q γ → W → γ → W → Prop
  /-- Whether this is kept there. -/
  kept : W → Contents → Prop
  honest : store.Honest (.failing answer fails) kept
  keeps : ∀ clock names, store.Keeps clock names answer kept

/-! ### Files -/

namespace LocalStore

/-- Whether this is kept in the files of a world. -/
abbrev Sound (base : String) (w : FileWorld) (c : Contents) : Prop := w.tree.Kept base c

/-- Whether a call to the file system may fail like this. -/
def fails {γ : Type} (q : FileCall γ) (w : FileWorld) : γ → FileWorld → Prop :=
  match q with
  | .readText _ => fun b w' => (∃ e, b = .error e ∧ e ≠ .notFound) ∧ w' = w
  | .writeText path _ => fun b w' =>
      (∃ e, b = .error e) ∧ (w' = w ∨ ∃ text, (FileWorld.answer (.writeText path text)).run w = (.ok (), w'))
  | .createText path _ => fun b w' =>
      (∃ e, b = .error e) ∧ (w' = w ∨ ∃ text, (FileWorld.answer (.createText path text)).run w = (.ok (), w'))
  | .remove path => fun b w' =>
      (∃ e, b = .error e ∧ e ≠ .notFound) ∧ (w' = w ∨ (FileWorld.answer (.remove path)).run w = (.ok (), w'))
  | .rename source target => fun b w' =>
      (∃ e, b = .error e) ∧ (w' = w ∨ (FileWorld.answer (.rename source target)).run w = (.ok (), w'))
  | .makeDirectories path => fun b w' =>
      (∃ e, b = .error e) ∧ (w' = w ∨ (FileWorld.answer (.makeDirectories path)).run w = (.ok (), w'))
  | .pathExists _ | .isFile _ | .isDirectory _ => fun _ _ => False

/-- A file system whose calls may fail, if they may. -/
def setting (may : Bool) : Setting FileCall FileWorld := .failing FileWorld.answer fails may

section Calls

variable {base : String} {c : Contents} {key : StateKey} {place : List String} {m m' : Moment FileWorld}
  {may : Bool}

/-- A call that can change the tree does so. -/
theorem of_run_change {f : FileTree → Except FileError FileTree} {w w' : FileWorld} {u : FileTree}
    {b : Except FileError Unit} (hf : f w.tree = .ok u) (h : (FileWorld.change f).run w = (b, w')) :
    b = .ok () ∧ w'.tree = u := by
  rw [FileWorld.run_change, hf] at h
  obtain ⟨rfl, rfl⟩ := Prod.mk.inj h
  exact ⟨rfl, rfl⟩

theorem read_of_answers (h : m.world.tree.Kept base c) (hkey : key.Named) {s : Sheet} {b : Except FileError String}
    (hb : (setting may).answers (.readText (key.filePath base s)) m b m') :
    m' = m ∧ (b = (c key s).elim (.error .notFound) .ok ∨ may = true ∧ ∃ e, b = .error e ∧ e ≠ .notFound) := by
  obtain ⟨hnow, hb⟩ := hb
  have hsame : ∀ {w : FileWorld}, m'.world = w → w = m.world → m' = m := by
    rintro w rfl hw
    cases m
    cases m'
    simp_all
  rcases hb with hb | ⟨hmay, hb, hw⟩
  · obtain ⟨rfl, hw⟩ := Prod.mk.inj (show (m.world.tree.readText _, m.world) = (b, m'.world) from hb)
    exact ⟨hsame rfl hw.symm, .inl (h.readText hkey s)⟩
  · exact ⟨hsame rfl hw, .inr ⟨hmay, hb⟩⟩

/-- A lock that is there is read, unless the call fails. -/
theorem tellsLock_of_answers (h : m.world.tree.Kept base c) (hkey : key.Named) {b : Except FileError String}
    (hb : (setting may).answers (.readText (lockPath base key)) m b m') :
    m' = m ∧ c.TellsLock key (lockRead (lockPath base key) b) ∧
      (may = false → ∀ l, c.Shows key l → lockRead (lockPath base key) b = .ok (some l)) := by
  rw [StateKey.lockPath_eq hkey] at hb ⊢
  obtain ⟨hm, hb⟩ := read_of_answers h hkey hb
  refine ⟨hm, ?_⟩
  rcases hb with rfl | ⟨rfl, e, rfl, he⟩
  · cases hc : c key .lock with
    | none => exact ⟨hc, fun _ l hl => absurd hl (Contents.not_shows_of_none hc)⟩
    | some text =>
      cases hl : Lock.ofText? text with
      | none =>
        exact ⟨by simp [lockRead, hl, Contents.TellsLock],
          fun _ l hl' => absurd hl' (Contents.not_shows_of_unread hc hl)⟩
      | some l =>
        have htold : lockRead (key.filePath base .lock) (.ok text) = .ok (some l) := by simp only [lockRead, hl]
        rw [Option.elim_some, htold]
        exact ⟨⟨text, hc, hl⟩, fun _ l' hl' => by rw [Contents.shows_inj ⟨text, hc, hl⟩ hl']⟩
  · refine ⟨?_, fun hnot => by cases hnot⟩
    cases e with
    | notFound => exact absurd rfl he
    | _ => trivial

/-- A lock file is gone if it counts as removed, and else it may be. -/
theorem removed_of_answers (h : m.world.tree.Kept base c) (hkey : key.Named) {b : Except FileError Unit}
    (hb : (setting may).answers (.remove (lockPath base key)) m b m') :
    m'.now = m.now ∧ ∃ x, m'.world.tree.Kept base (c.set key .lock x) ∧ (x = c key .lock ∨ x = none) ∧
      (lockRemoved b = .ok () ∧ x = none ∨ may = true ∧ ∃ e, lockRemoved b = .error e) := by
  rw [StateKey.lockPath_eq hkey] at hb
  obtain ⟨hnow, hb⟩ := hb
  refine ⟨hnow, ?_⟩
  have hstays : m'.world = m.world → m'.world.tree.Kept base (c.set key .lock (c key .lock)) := by
    intro hw
    rwa [Contents.set_eq_self rfl, hw]
  have hgone : ∀ b, (FileWorld.answer (.remove (key.filePath base .lock))).run m.world = (b, m'.world) →
      lockRemoved b = .ok () ∧ m'.world.tree.Kept base (c.set key .lock none) := by
    intro b hrun
    have hrun' : (FileWorld.change (·.remove (key.filePath base .lock))).run m.world = (b, m'.world) := hrun
    rcases h.remove hkey .lock with ⟨hnone, hremove⟩ | ⟨u, hremove, hu⟩
    · rw [FileWorld.run_change, hremove] at hrun'
      obtain ⟨rfl, hw⟩ := Prod.mk.inj hrun'
      exact ⟨rfl, hnone ▸ hstays hw.symm⟩
    · obtain ⟨rfl, rfl⟩ := of_run_change hremove hrun'
      exact ⟨rfl, hu⟩
  rcases hb with hb | ⟨hmay, ⟨e, rfl, he⟩, hb⟩
  · obtain ⟨hremoved, hkept⟩ := hgone b hb
    exact ⟨none, hkept, .inr rfl, .inl ⟨hremoved, rfl⟩⟩
  · have herror : ∃ e', lockRemoved (.error e) = .error e' := by
      cases e with
      | notFound => exact absurd rfl he
      | _ => exact ⟨_, rfl⟩
    rcases hb with hw | hb
    · exact ⟨_, hstays hw, .inl rfl, .inr ⟨hmay, herror⟩⟩
    · exact ⟨none, (hgone _ hb).2, .inr rfl, .inr ⟨hmay, herror⟩⟩

/-- The directory of a file may be missing still if it could not be made. -/
theorem opened_of_answers (h : m.world.tree.Kept base c) (hkey : key.Named) {b : Except FileError Unit}
    (hb : (setting may).answers (.makeDirectories (key.folderPath base)) m b m') :
    m'.now = m.now ∧ m'.world.tree.Kept base c ∧
      (b = .ok () ∧ (∃ place, m'.world.tree.Opened base c key place) ∨ ∃ e, b = .error e) := by
  obtain ⟨hnow, hb⟩ := hb
  refine ⟨hnow, ?_⟩
  have hmade : ∀ b, (FileWorld.answer (.makeDirectories (key.folderPath base))).run m.world = (b, m'.world) →
      b = .ok () ∧ ∃ place, m'.world.tree.Opened base c key place := by
    intro b hrun
    obtain ⟨u, place, hmake, hopened, -⟩ := h.open hkey
    obtain ⟨hb, rfl⟩ := of_run_change (f := (·.makeDirectories (key.folderPath base))) hmake hrun
    exact ⟨hb, place, hopened⟩
  rcases hb with hb | ⟨-, he, hw | hb⟩
  · obtain ⟨rfl, place, hopened⟩ := hmade b hb
    exact ⟨hopened.kept, .inl ⟨rfl, place, hopened⟩⟩
  · exact ⟨hw ▸ h, .inr he⟩
  · obtain ⟨-, place, hopened⟩ := hmade _ hb
    exact ⟨hopened.kept, .inr he⟩

/-- A text that could not be written may stand there in part.  It is written in the place of one that is there, or
where none is. -/
theorem written_of_answers (h : m.world.tree.Opened base c key place) (hkey : key.Named) {s : Sheet}
    {q : String → FileCall (Except FileError Unit)}
    (hq : q = .writeText (key.filePath base s) ∨ q = .createText (key.filePath base s) ∧ c key s = none) {text : String}
    {b : Except FileError Unit} (hb : (setting may).answers (q text) m b m') :
    m'.now = m.now ∧ ∃ x, m'.world.tree.Opened base (c.set key s x) key place ∧
      (b = .ok () ∧ x = some text ∨ ∃ e, b = .error e) := by
  obtain ⟨hnow, hb⟩ := hb
  refine ⟨hnow, ?_⟩
  have hwritten : ∀ text b, (FileWorld.answer (q text)).run m.world = (b, m'.world) →
      b = .ok () ∧ m'.world.tree.Opened base (c.set key s (some text)) key place := by
    intro text b hrun
    rcases hq with rfl | ⟨rfl, hfree⟩
    · obtain ⟨u, hwrite, hu⟩ := h.writeText hkey s text
      obtain ⟨hb, rfl⟩ := of_run_change (f := (·.writeText (key.filePath base s) text)) hwrite hrun
      exact ⟨hb, hu⟩
    · obtain ⟨u, hcreate, hu⟩ := h.createText hkey hfree text
      obtain ⟨hb, rfl⟩ := of_run_change (f := (·.createText (key.filePath base s) text)) hcreate hrun
      exact ⟨hb, hu⟩
  have hfailed : fails (q text) m.world b m'.world → (∃ e, b = .error e) ∧
      (m'.world = m.world ∨ ∃ text', (FileWorld.answer (q text')).run m.world = (.ok (), m'.world)) := by
    rcases hq with rfl | ⟨rfl, -⟩ <;> exact id
  rcases hb with hb | ⟨-, hb⟩
  · obtain ⟨rfl, hopened⟩ := hwritten _ _ hb
    exact ⟨_, hopened, .inl ⟨rfl, rfl⟩⟩
  · obtain ⟨he, hw | ⟨text', hb⟩⟩ := hfailed hb
    · exact ⟨_, by rwa [Contents.set_eq_self rfl, hw], .inr he⟩
    · exact ⟨_, (hwritten _ _ hb).2, .inr he⟩

/-- A text is moved as a whole or not at all. -/
theorem renamed_of_answers (h : m.world.tree.Opened base c key place) (hkey : key.Named) {s r : Sheet} {text : String}
    (hs : c key s = some text) {b : Except FileError Unit}
    (hb : (setting may).answers (.rename (key.filePath base s) (key.filePath base r)) m b m') :
    m'.world.tree.Kept base ((c.set key s none).set key r (some text)) ∨
      (∃ e, b = .error e) ∧ m'.world.tree.Kept base c := by
  obtain ⟨-, hb⟩ := hb
  have hrenamed : ∀ b,
      (FileWorld.answer (.rename (key.filePath base s) (key.filePath base r))).run m.world = (b, m'.world) →
      m'.world.tree.Kept base ((c.set key s none).set key r (some text)) := by
    intro b hrun
    obtain ⟨u, hrename, hu⟩ := h.rename hkey (r := r) hs
    obtain ⟨-, rfl⟩ := of_run_change (f := (·.rename (key.filePath base s) (key.filePath base r))) hrename hrun
    exact hu.kept
  rcases hb with hb | ⟨-, he, hw | hb⟩
  · exact .inl (hrenamed _ hb)
  · exact .inr ⟨he, hw ▸ h.kept⟩
  · exact .inl (hrenamed _ hb)

/-! #### Operations -/

theorem ensures_load (h : m.world.tree.Kept base c) (hkey : key.Named) :
    (load base key).run.Ensures (setting may) m fun _ => Store.Loaded (Sound base) c key := by
  rw [run_load, StateKey.recordPath_eq hkey]
  refine .call fun b t ht => ?_
  obtain ⟨rfl, hb⟩ := read_of_answers h hkey ht
  rcases hb with rfl | ⟨-, e, rfl, he⟩
  · cases hc : c key .record with
    | none => exact .aside fun _ _ _ _ _ => .done ⟨h, fun found hfound => by cases hfound; exact hc⟩
    | some text =>
      refine .aside fun _ _ _ _ _ => .done ⟨h, fun found hfound => ?_⟩
      simp only [recordRead, Record.checkVersion] at hfound
      cases hr : Record.ofText? text with
      | none => simp [hr] at hfound
      | some r =>
        by_cases hversion : r.version = Record.currentVersion
        · obtain rfl : some r = found := by simpa [hr, hversion, Except.map] using hfound
          exact ⟨text, hc, hr, hversion⟩
        · simp [hr, hversion, Except.map] at hfound
  · cases e with
    | notFound => exact absurd rfl he
    | _ => exact .done ⟨h, fun _ hfound => by cases hfound⟩

/-- The directory of a file is made first. -/
theorem ensures_afterParent (h : m.world.tree.Kept base c) (hkey : key.Named) (s : Sheet) {α : Type}
    {p : FileProgram (Except StateError α)} {post : Except StateError α → Moment FileWorld → Prop}
    (hp : ∀ t place, t.now = m.now → t.world.tree.Opened base c key place →
      p.Ensures (setting may) t fun _ => post)
    (hfailed : ∀ t e, t.now = m.now → t.world.tree.Kept base c → post (.error e) t) :
    (afterParent (key.filePath base s) p).Ensures (setting may) m fun _ => post := by
  rw [afterParent, StateKey.parent?_filePath hkey]
  refine .call fun b t ht => ?_
  obtain ⟨hnow, hkept, ⟨rfl, place, hopened⟩ | ⟨e, rfl⟩⟩ := opened_of_answers h hkey ht
  · exact hp t place hnow hopened
  · exact .done (hfailed t _ hnow hkept)

theorem ensures_save {r : Record} (h : m.world.tree.Kept base c) (hkey : r.key.Named) :
    (save base r).run.Ensures (setting may) m fun _ => Store.Saved (Sound base) c r := by
  have hothers : ∀ (s : Sheet) x, s ≠ .lock → ∀ k sheet, k ≠ r.key ∨ sheet = .lock →
      c.set r.key s x k sheet = c k sheet := by
    rintro s x hs k sheet hother
    refine Contents.set_of_ne c x ?_
    rintro ⟨rfl, rfl⟩
    exact hother.elim (· rfl) hs
  have hdraft : ∀ x, c.set r.key .draft x r.key .record = c r.key .record := fun x =>
    Contents.set_of_ne c x (by simp)
  rw [run_save, StateKey.recordPath_eq hkey, StateKey.draftPath_eq hkey]
  refine ensures_afterParent h hkey .record (fun t place _ hopened => ?_) fun t e _ hkept => ?_
  · refine .aside fun later _ _ _ _ => .call fun b t' ht => ?_
    obtain ⟨-, x, hopened', hb⟩ := written_of_answers (m := ⟨t.world, later⟩) hopened hkey (.inl rfl) ht
    rcases hb with ⟨rfl, rfl⟩ | ⟨e, rfl⟩
    · refine .call fun b t'' ht => ?_
      rcases renamed_of_answers hopened' hkey (Contents.set_self ..) ht with hkept | ⟨⟨e, rfl⟩, hkept⟩
      · have hend : ∃ c', t''.world.tree.Kept base c' ∧
            (∀ k sheet, k ≠ r.key ∨ sheet = .lock → c' k sheet = c k sheet) ∧
            c' r.key .record = some r.render := by
          refine ⟨_, hkept, fun k sheet hother => ?_, Contents.set_self ..⟩
          have hne : ¬(k = r.key ∧ sheet = .record) := by rintro ⟨rfl, rfl⟩; simp at hother
          rw [Contents.set_of_ne _ _ hne, Contents.set_set, hothers .draft none (by decide) k sheet hother]
        obtain ⟨c', hkept', hsame, hrecord⟩ := hend
        cases b with
        | error e => exact .done ⟨c', hkept', hsame, .inl hrecord⟩
        | ok _ => exact .aside fun _ _ _ _ _ => .done ⟨c', hkept', hsame, .inl hrecord⟩
      · exact .done ⟨_, hkept, hothers .draft _ (by decide), .inr ⟨⟨_, rfl⟩, hdraft _⟩⟩
    · exact .done ⟨_, hopened'.kept, hothers .draft x (by decide), .inr ⟨⟨_, rfl⟩, hdraft x⟩⟩
  · exact ⟨c, hkept, fun _ _ _ => rfl, .inr ⟨⟨e, rfl⟩, rfl⟩⟩

/-- A lock is taken where none is. -/
theorem ensures_takeFree (h : m.world.tree.Kept base c) (hkey : key.Named) (hfree : c key .lock = none)
    (operation : String) :
    (takeFree base key operation).run.Ensures (setting may) m fun _ => Store.Written (Sound base) c key m.now := by
  rw [run_takeFree]
  refine .aside fun now b honward hdatable hnow => .aside fun _ id _ _ _ => .aside fun later holder _ _ _ => ?_
  obtain rfl : b = now := hnow
  refine .bind ?_
  rw [run_writeLock, show (Lock.take b id holder key operation).key = key from rfl, StateKey.lockPath_eq hkey]
  refine ensures_afterParent (m := ⟨m.world, later⟩) h hkey .lock (fun t place _ hopened => ?_) fun t e _ hkept => ?_
  · refine .call fun b' t' ht => .done ?_
    obtain ⟨-, x, hopened', hb⟩ := written_of_answers hopened hkey (.inr ⟨rfl, hfree⟩) ht
    rcases hb with ⟨rfl, rfl⟩ | ⟨e, rfl⟩
    · refine .aside fun _ _ _ _ _ => .done ⟨_, hopened'.kept, fun l hl => ?_⟩
      cases hl
      exact ⟨rfl, honward, hdatable.1, hdatable.2⟩
    · exact .done ⟨x, hopened'.kept, nofun⟩
  · exact .done ⟨_, (Contents.set_eq_self hfree).symm ▸ hkept, nofun⟩

/-- A lock is given only where none is held. -/
theorem ensures_acquire (h : m.world.tree.Kept base c) (hkey : key.Named) (operation : String) :
    (acquire base key operation).run.Ensures (setting may) m fun _ => Store.Acquired (Sound base) c key := by
  rw [run_acquire]
  refine .call fun b t ht => ?_
  obtain ⟨rfl, htells, -⟩ := tellsLock_of_answers h hkey ht
  generalize lockRead (lockPath base key) b = told at htells
  rcases told with e | _ | l
  · exact .done (Store.acquired_of_refused h e)
  · refine (ensures_takeFree h hkey htells operation).onward.mono ?_
    exact fun _ _ _ hend => hend.1.acquired (.inl htells) hend.2
  · refine .aside fun now b _ _ hnow => ?_
    obtain rfl : b = now := hnow
    cases hexpired : l.isExpired b with
    | false => exact .aside fun _ _ _ _ _ => .done (Store.acquired_of_refused h _)
    | true =>
      -- the old lock is removed before the new one is written
      refine .aside fun later _ honward _ _ => .call fun b' t' ht' => ?_
      obtain ⟨hnow', x, hkept, -, hremoved⟩ := removed_of_answers (m := ⟨t.world, later⟩) h hkey ht'
      have hfree : c.Free key t'.now := .inr ⟨l, htells, Lock.isExpired_later hexpired (hnow' ▸ honward)⟩
      rcases hremoved with ⟨hok, rfl⟩ | ⟨-, e, he⟩
      · rw [hok]
        refine (ensures_takeFree hkept hkey (Contents.set_self ..) operation).onward.mono ?_
        exact fun _ _ _ hend => hend.1.of_set.acquired hfree hend.2
      · rw [he]
        exact .done ⟨x, hkept, nofun, fun _ _ => .inr hfree⟩

/-- A lock is removed by its own id only, and is removed if no call fails. -/
theorem ensures_release (h : m.world.tree.Kept base c) (hkey : key.Named) (id : String) :
    (release base key id).run.Ensures (setting may) m fun _ _ => Store.Released (Sound base) c key id may := by
  rw [run_release]
  refine .call fun b t ht => ?_
  obtain ⟨rfl, htells, hreads⟩ := tellsLock_of_answers h hkey ht
  generalize lockRead (lockPath base key) b = told at htells hreads
  rcases told with e | _ | l
  · exact .done (Store.released_of_stays h fun hmay l hl => by cases hreads hmay l hl)
  · exact .done (Store.released_of_stays h fun hmay l hl => by cases hreads hmay l hl)
  · by_cases hid : l.id = id
    · simp only [hid, if_true]
      refine .call fun b' t' ht' => ?_
      obtain ⟨-, x, hkept, hx, hremoved⟩ := removed_of_answers h hkey ht'
      have hown : x = c key .lock ∨ x = none ∧ ∃ l, c.Shows key l ∧ l.id = id := hx.imp_right (⟨·, l, htells, hid⟩)
      rcases hremoved with ⟨hok, rfl⟩ | ⟨hmay, e, he⟩
      · rw [hok]
        exact .aside fun _ _ _ _ _ => .done ⟨none, hkept, hown, fun _ _ _ _ => rfl⟩
      · rw [he]
        exact .done ⟨x, hkept, hown, fun hnot => absurd (hmay.symm.trans hnot) nofun⟩
    · simp only [hid, if_false]
      refine .aside fun _ _ _ _ _ => .done (Store.released_of_stays h fun _ l' hl' => ?_)
      exact Contents.shows_inj htells hl' ▸ hid

/-- **A store of files does what it should, whatever fails.** -/
theorem honest (base : String) :
    (store base).Honest (.failing FileWorld.answer fails) (Sound base) where
  load := ensures_load
  save := ensures_save
  acquire := ensures_acquire
  release := ensures_release

end Calls

end LocalStore

/-- A store of files below a directory. -/
def HonestStore.files (base : String) : HonestStore :=
  ⟨FileCall, FileWorld, LocalStore.store base, FileWorld.answer, LocalStore.fails, LocalStore.Sound base,
    LocalStore.honest base, fun _ _ => LocalStore.keeps base⟩

/-! ### Objects -/

namespace BucketStore

/-- Whether a call to a bucket may fail like this. -/
def fails {γ : Type} (q : BucketCall γ) (w : BucketWorld) : γ → BucketWorld → Prop :=
  match q with
  | .get _ => fun b w' => (∃ r, b = .error r ∧ r.code ≠ "NoSuchKey") ∧ w' = w
  | .put name text => fun b w' =>
      (∃ r, b = .error r) ∧ (w' = w ∨ (BucketWorld.answer (.put name text)).run w = (.ok (), w'))
  | .delete name => fun b w' =>
      (∃ r, b = .error r) ∧ (w' = w ∨ (BucketWorld.answer (.delete name)).run w = (.ok (), w'))
  | .head _ => fun b w' => (∃ r, b = .error r ∧ r.code ≠ "NotFound") ∧ w' = w

/-- A bucket whose calls may fail, if they may. -/
def setting (may : Bool) : Setting BucketCall BucketWorld := .failing BucketWorld.answer fails may

section Calls

variable {p : BucketPlace} {c : Contents} {key : StateKey} {m m' : Moment BucketWorld} {may : Bool}

theorem get_of_answers (h : Sound p m.world c) (hkey : key.Named) {s : Sheet} (hs : s ≠ .draft)
    {b : Except BucketRefusal (Option String)}
    (hb : (setting may).answers (.get (key.objectName p s)) m b m') :
    m' = m ∧ (fetched b = .ok (c key s) ∨ may = true ∧ ∃ e, fetched b = .error e) := by
  obtain ⟨hnow, hb⟩ := hb
  have hsame : ∀ {w : BucketWorld}, m'.world = w → w = m.world → m' = m := by
    rintro w rfl hw
    cases m
    cases m'
    simp_all
  rcases hb with hb | ⟨hmay, ⟨r, rfl, hr⟩, hw⟩
  · have hget := BucketWorld.run_get h.faultless (key.objectName p s)
    rw [h.filed key hkey s hs] at hget
    obtain ⟨rfl, hw⟩ := Prod.mk.inj (hget.symm.trans hb)
    refine ⟨hsame rfl hw.symm, .inl ?_⟩
    cases c key s <;> rfl
  · exact ⟨hsame rfl hw, .inr ⟨hmay, _, if_neg hr⟩⟩

/-- A lock that is there is read, unless the call fails. -/
theorem tellsLock_of_answers (h : Sound p m.world c) (hkey : key.Named) {b : Except BucketRefusal (Option String)}
    (hb : (setting may).answers (.get (lockName p key)) m b m') :
    m' = m ∧ c.TellsLock key (lockFetched b) ∧
      (may = false → ∀ l, c.Shows key l → lockFetched b = .ok (some l)) := by
  rw [StateKey.lockName_eq hkey] at hb
  obtain ⟨hm, hb⟩ := get_of_answers h hkey (by decide) hb
  refine ⟨hm, ?_⟩
  rcases hb with hb | ⟨rfl, e, hb⟩
  · cases hc : c key .lock with
    | none =>
      simp only [lockFetched, hb, hc]
      exact ⟨hc, fun _ l hl => absurd hl (Contents.not_shows_of_none hc)⟩
    | some text =>
      cases hl : Lock.ofText? text with
      | none =>
        simp only [lockFetched, hb, hc, hl]
        exact ⟨trivial, fun _ l hl' => absurd hl' (Contents.not_shows_of_unread hc hl)⟩
      | some l =>
        simp only [lockFetched, hb, hc, hl]
        exact ⟨⟨text, hc, hl⟩, fun _ l' hl' => by rw [Contents.shows_inj ⟨text, hc, hl⟩ hl']⟩
  · simp only [lockFetched, hb]
    exact ⟨trivial, fun hnot => by cases hnot⟩

/-- An object that could not be written may have been written. -/
theorem put_of_answers (h : Sound p m.world c) (hkey : key.Named) {s : Sheet} {text : String}
    {b : Except BucketRefusal Unit} (hb : (setting may).answers (.put (key.objectName p s) text) m b m') :
    m'.now = m.now ∧ (Sound p m'.world (c.set key s (some text)) ∨ (∃ r, b = .error r) ∧ Sound p m'.world c) := by
  obtain ⟨hnow, hb⟩ := hb
  refine ⟨hnow, ?_⟩
  have hput : ∀ b, (BucketWorld.answer (.put (key.objectName p s) text)).run m.world = (b, m'.world) →
      Sound p m'.world (c.set key s (some text)) := by
    intro b hrun
    obtain ⟨-, hw⟩ := Prod.mk.inj ((BucketWorld.run_put h.faultless _ _).symm.trans hrun)
    exact hw ▸ ⟨h.faultless, h.filed.put hkey s text⟩
  rcases hb with hb | ⟨-, hr, hw | hb⟩
  · exact .inl (hput _ hb)
  · exact .inr ⟨hr, hw ▸ h⟩
  · exact .inl (hput _ hb)

/-- An object that could not be removed may be gone. -/
theorem removed_of_answers (h : Sound p m.world c) (hkey : key.Named) {s : Sheet} {b : Except BucketRefusal Unit}
    (hb : (setting may).answers (.delete (key.objectName p s)) m b m') :
    Sound p m'.world (c.set key s none) ∨ (may = true ∧ ∃ r, b = .error r) ∧ Sound p m'.world c := by
  obtain ⟨-, hb⟩ := hb
  have hremoved : ∀ b, (BucketWorld.answer (.delete (key.objectName p s))).run m.world = (b, m'.world) →
      Sound p m'.world (c.set key s none) := by
    intro b hrun
    obtain ⟨-, hw⟩ := Prod.mk.inj ((BucketWorld.run_delete h.faultless _).symm.trans hrun)
    exact hw ▸ ⟨h.faultless, h.filed.erase hkey s⟩
  rcases hb with hb | ⟨hmay, hr, hw | hb⟩
  · exact .inl (hremoved _ hb)
  · exact .inr ⟨⟨hmay, hr⟩, hw ▸ h⟩
  · exact .inl (hremoved _ hb)

/-! #### Operations -/

theorem ensures_load (h : Sound p m.world c) (hkey : key.Named) :
    (load p key).run.Ensures (setting may) m fun _ => Store.Loaded (Sound p) c key := by
  rw [run_load, StateKey.recordName_eq hkey]
  refine .aside fun later _ _ _ _ => .call fun b t ht => ?_
  obtain ⟨rfl, hb⟩ := get_of_answers (m := ⟨m.world, later⟩) h hkey (by decide) ht
  rcases hb with hb | ⟨-, e, hb⟩
  · cases hc : c key .record with
    | none =>
      simp only [hb, hc]
      exact .aside fun _ _ _ _ _ => .done ⟨h, fun found hfound => by cases hfound; exact hc⟩
    | some text =>
      simp only [hb, hc]
      cases hr : Record.ofText? text with
      | none => exact .done ⟨h, fun _ hfound => by cases hfound⟩
      | some r =>
        by_cases hversion : r.version = Record.currentVersion
        · simp only [Record.checkVersion, hversion, if_true]
          refine .aside fun _ _ _ _ _ => .done ⟨h, fun found hfound => ?_⟩
          cases hfound
          exact ⟨text, hc, hr, hversion⟩
        · simp only [Record.checkVersion, hversion, if_false]
          exact .done ⟨h, fun _ hfound => by cases hfound⟩
  · simp only [hb]
    exact .done ⟨h, fun _ hfound => by cases hfound⟩

theorem ensures_save {r : Record} (h : Sound p m.world c) (hkey : r.key.Named) :
    (save p r).run.Ensures (setting may) m fun _ => Store.Saved (Sound p) c r := by
  rw [run_save, StateKey.recordName_eq hkey]
  refine .aside fun later _ _ _ _ => .call fun b t ht => .done ?_
  obtain ⟨-, hsound | ⟨⟨e, rfl⟩, hsound⟩⟩ := put_of_answers (m := ⟨m.world, later⟩) h hkey ht
  · refine ⟨_, hsound, fun k sheet hother => Contents.set_of_ne c _ ?_, .inl (Contents.set_self ..)⟩
    rintro ⟨rfl, rfl⟩
    simp at hother
  · exact ⟨c, hsound, fun _ _ _ => rfl, .inr ⟨⟨_, rfl⟩, rfl⟩⟩

/-- A lock is written, in the place of one that is there. -/
theorem ensures_takeFree (h : Sound p m.world c) (hkey : key.Named) (operation : String) :
    (takeFree p key operation).run.Ensures (setting may) m fun _ => Store.Written (Sound p) c key m.now := by
  have hstays : c.set key .lock (c key .lock) = c := Contents.set_eq_self rfl
  rw [run_takeFree]
  refine .aside fun now b honward hdatable hnow => .aside fun _ id _ _ _ => .aside fun later holder _ _ _ => ?_
  obtain rfl : b = now := hnow
  rw [StateKey.lockName_eq hkey]
  refine .call fun b' t ht => ?_
  obtain ⟨-, hsound | ⟨⟨e, rfl⟩, hsound⟩⟩ := put_of_answers (m := ⟨m.world, later⟩) h hkey ht
  · rcases b' with e | _
    · exact .done ⟨_, hsound, nofun⟩
    · refine .aside fun _ _ _ _ _ => .done ⟨_, hsound, fun l hl => ?_⟩
      cases hl
      exact ⟨rfl, honward, hdatable.1, hdatable.2⟩
  · exact .done ⟨_, hstays.symm ▸ hsound, nofun⟩

/-- A lock is given only where none is held. -/
theorem ensures_acquire (h : Sound p m.world c) (hkey : key.Named) (operation : String) :
    (acquire p key operation).run.Ensures (setting may) m fun _ => Store.Acquired (Sound p) c key := by
  have htakes : ∀ {t : Moment BucketWorld}, Sound p t.world c → c.Free key t.now →
      (takeFree p key operation).run.Ensures (setting may) t fun _ => Store.Acquired (Sound p) c key := by
    intro t ht hfree
    refine (ensures_takeFree ht hkey operation).onward.mono ?_
    exact fun _ _ _ hend => hend.1.acquired hfree hend.2
  rw [run_acquire]
  refine .call fun b t ht => ?_
  obtain ⟨rfl, htells, -⟩ := tellsLock_of_answers h hkey ht
  generalize lockFetched b = told at htells
  rcases told with e | _ | l
  · exact .done (Store.acquired_of_refused h e)
  · exact htakes h (.inl htells)
  · refine .aside fun now b _ _ hnow => ?_
    obtain rfl : b = now := hnow
    cases hexpired : l.isExpired b with
    | false => exact .aside fun later _ _ _ _ => .done (Store.acquired_of_refused (m := ⟨t.world, later⟩) h _)
    | true =>
      refine .aside fun later _ honward _ _ => htakes (t := ⟨t.world, later⟩) h ?_
      exact .inr ⟨l, htells, Lock.isExpired_later hexpired honward⟩

/-- A lock is removed by its own id only, and is removed if no call fails. -/
theorem ensures_release (h : Sound p m.world c) (hkey : key.Named) (id : String) :
    (release p key id).run.Ensures (setting may) m fun _ _ => Store.Released (Sound p) c key id may := by
  rw [run_release]
  refine .call fun b t ht => ?_
  obtain ⟨rfl, htells, hreads⟩ := tellsLock_of_answers h hkey ht
  generalize lockFetched b = told at htells hreads
  rcases told with e | _ | l
  · exact .done (Store.released_of_stays h fun hmay l hl => by cases hreads hmay l hl)
  · exact .done (Store.released_of_stays h fun hmay l hl => by cases hreads hmay l hl)
  · by_cases hid : l.id = id
    · simp only [hid, if_true]
      rw [StateKey.lockName_eq hkey]
      refine .call fun b' t' ht' => ?_
      rcases removed_of_answers h hkey ht' with hsound | ⟨⟨hmay, r, rfl⟩, hsound⟩
      · have hend : Store.Released (Sound p) c key id may t' :=
          ⟨none, hsound, .inr ⟨rfl, l, htells, hid⟩, fun _ _ _ _ => rfl⟩
        rcases b' with r | _
        · exact .done hend
        · exact .aside fun _ _ _ _ _ => .done hend
      · exact .done (Store.released_of_stays hsound fun hnot => absurd (hmay.symm.trans hnot) nofun)
    · simp only [hid, if_false]
      refine .aside fun _ _ _ _ _ => .done (Store.released_of_stays h fun _ l' hl' => ?_)
      exact Contents.shows_inj htells hl' ▸ hid

/-- **A store in a bucket does what it should, whatever fails.** -/
theorem honest (p : BucketPlace) : (store p).Honest (.failing BucketWorld.answer fails) (Sound p) where
  load := ensures_load
  save := ensures_save
  acquire := ensures_acquire
  release := ensures_release

end Calls

end BucketStore

/-- A store at a place of a bucket. -/
def HonestStore.objects (p : BucketPlace) : HonestStore :=
  ⟨BucketCall, BucketWorld, BucketStore.store p, BucketWorld.answer, BucketStore.fails, BucketStore.Sound p,
    BucketStore.honest p, fun _ _ => BucketStore.keeps p⟩

end Groundwork
