import Mathlib.Data.Set.Subsingleton
import Groundwork.Proofs.Effect.Sharing
import Groundwork.Proofs.File.Walk
import Groundwork.Proofs.State.Documents
import Groundwork.Proofs.State.Operations

/-!
# Clients that take a lock

How far a client has come that takes the lock of a key, for files and for objects, and what stays true of those
who took one: as long as nobody changes what is there while another one has a lock that holds, such locks are one
at most.

Main statements: taking a lock keeps to its course (`LocalStore.keeps_acquire`, `BucketStore.keeps_acquire`), and
those who were given a lock that holds are one at most where those are who took one
(`Sole.subsingleton_holders`).
-/

namespace Groundwork

open Shared

/-! ### Times -/

/-- A lock that has expired stays so. -/
theorem Lock.isExpired_later {l : Lock} {now later : Instant} (h : l.isExpired now = true)
    (onward : later.lt now = false) : l.isExpired later = true :=
  Instant.lt_of_lt_of_not_lt h onward

/-- Whether a text can spell the times of a lock that is taken now. -/
def Lock.Datable (now : Instant) : Prop := now.Writable ∧ (now.addSeconds lifetime).Writable

instance (now : Instant) : Decidable (Lock.Datable now) := inferInstanceAs (Decidable (_ ∧ _))

/-! ### Stages -/

/-- How far a client has come that takes a lock. -/
inductive Taking where
  /-- It has not looked yet. -/
  | begun
  /-- It has read a lock. -/
  | found (l : Lock)
  /-- It has found out that this lock has expired. -/
  | stale (l : Lock)
  /-- Nothing is in its way as far as it knows. -/
  | free
  /-- It knows the time when its lock begins. -/
  | timed (now : Instant)
  | took (l : Lock)
  | refused

namespace Taking

/-- Whether a client may end so. -/
def Ends : Taking → Except StateError Lock → Prop
  | .took l, .ok m => m = l
  | .refused, .error _ => True
  | _, _ => False

/-- What is true of a stage whatever the others do. -/
def Sound (now : Instant) : Taking → Prop
  | .stale l => l.isExpired now = true
  | .timed t => Lock.Datable t
  | .took l => l.acquired.Writable ∧ l.expires.Writable
  | _ => True

theorem Sound.later {now later : Instant} {s : Taking} (h : s.Sound now) (onward : later.lt now = false) :
    s.Sound later := by
  cases s with
  | stale l => exact Lock.isExpired_later h onward
  | _ => exact h

theorem sound_update {ι : Type} [DecidableEq ι] {now : Instant} {stage : ι → Taking} (h : ∀ i, (stage i).Sound now)
    {i : ι} {s : Taking} (hs : s.Sound now) (j : ι) : (Function.update stage i s j).Sound now := by
  by_cases hj : j = i
  · subst hj
    simpa using hs
  · simpa [hj] using h j

end Taking

/-- Whether those who took a lock that has not expired are one at most, and their lock stands. -/
structure Sole {ι : Type} (stands : Lock → Prop) (now : Instant) (stage : ι → Taking) : Prop where
  stands : ∀ i l, stage i = .took l → l.isExpired now = false → stands l
  apart : ∀ i j l m, stage i = .took l → stage j = .took m → l.isExpired now = false → m.isExpired now = false → i = j

section Sole

variable {ι : Type} {stands stands' : Lock → Prop} {now : Instant} {stage : ι → Taking}

theorem Sole.later {later : Instant} (h : Sole stands now stage) (onward : later.lt now = false) :
    Sole stands later stage := by
  have before : ∀ {l : Lock}, l.isExpired later = false → l.isExpired now = false := by
    intro l hl
    refine Bool.eq_false_iff.2 fun hnow => ?_
    rw [Lock.isExpired_later hnow onward] at hl
    cases hl
  exact ⟨fun i l hi hl => h.stands i l hi (before hl),
    fun i j l m hi hj hl hm => h.apart i j l m hi hj (before hl) (before hm)⟩

variable [DecidableEq ι]

/-- A client goes on that takes nothing, and what stands stays. -/
theorem Sole.proceed (h : Sole stands now stage) (hstands : ∀ l, stands l → stands' l) {i : ι} {s : Taking}
    (hs : ∀ l, s = .took l → stage i = .took l) : Sole stands' now (Function.update stage i s) := by
  have before : ∀ {j l}, Function.update stage i s j = .took l → stage j = .took l := by
    intro j l hj
    by_cases hji : j = i
    · subst hji
      rw [Function.update_self] at hj
      exact hs l hj
    · rwa [Function.update_of_ne hji] at hj
  exact ⟨fun j l hj hl => hstands l (h.stands j l (before hj) hl),
    fun j k l m hj hk => h.apart j k l m (before hj) (before hk)⟩

/-- A client goes on while nobody has a lock that holds. -/
theorem sole_update (hnobody : ∀ j l, stage j = .took l → l.isExpired now = true) {i : ι} {s : Taking}
    (hs : ∀ l, s = .took l → stands l) : Sole stands now (Function.update stage i s) := by
  have only : ∀ {j l}, Function.update stage i s j = .took l → l.isExpired now = false → j = i ∧ s = .took l := by
    intro j l hj hl
    by_cases hji : j = i
    · subst hji
      rw [Function.update_self] at hj
      exact ⟨rfl, hj⟩
    · rw [Function.update_of_ne hji] at hj
      simp [hnobody j l hj] at hl
  exact ⟨fun j l hj hl => hs l (only hj hl).2,
    fun j k l m hj hk hl hm => (only hj hl).1.trans (only hk hm).1.symm⟩

end Sole

/-- Those who were given a lock that has not expired. -/
def Shared.holders {ι W : Type} {Q : Type → Type} (o : Shared ι W (Program Q (Except StateError Lock))) : Set ι :=
  {i | ∃ l, o.clients i = .done (.ok l) ∧ l.isExpired o.now = false}

/-- The course of clients that take a lock and ask so at each stage. -/
def Taking.course {Q : Type → Type} (asks : Taking → {γ : Type} → Asking Q γ → (γ → Taking) → Prop) :
    Course (Asking Q) (Except StateError Lock) :=
  ⟨Taking, asks, Ends⟩

/-- Where those who took a lock are one at most, so are those who were given one. -/
theorem Sole.subsingleton_holders {ι W : Type} {Q : Type → Type}
    {asks : Taking → {γ : Type} → Asking Q γ → (γ → Taking) → Prop} {stands : Lock → Prop}
    {o : Shared ι W (Program (Asking Q) (Except StateError Lock))} {stage : ι → Taking}
    (h : Sole stands o.now stage) (hkeeps : ∀ i, (Taking.course asks).Keeps (stage i) (o.clients i)) :
    o.holders.Subsingleton := by
  have took : ∀ {i l}, o.clients i = .done (.ok l) → stage i = .took l := by
    intro i l hi
    have hends : Taking.Ends (stage i) (.ok l) := (hi ▸ hkeeps i).ends
    generalize stage i = s at hends
    cases s with
    | took m => exact congrArg Taking.took (Eq.symm hends)
    | _ => exact hends.elim
  rintro i ⟨l, hi, hl⟩ j ⟨m, hj, hm⟩
  exact h.apart i j l m (took hi) (took hj) hl hm

/-! ### What stays true -/

/-- What is true of clients that take a lock, where `seen` is what those know that have looked. -/
structure Guarded {ι W : Type} (stands : W → Lock → Prop) (seen : W → Instant → Taking → Prop)
    (o : Shared ι W Taking) : Prop where
  dated : Lock.Datable o.now
  sound : ∀ i, (o.clients i).Sound o.now
  sole : Sole (stands o.world) o.now o.clients
  seen : ∀ i, o.knows i = true → seen o.world o.now (o.clients i)

namespace Guarded

variable {ι W : Type} {stands : W → Lock → Prop} {seen : W → Instant → Taking → Prop} {o : Shared ι W Taking}

theorem sound_of (h : Guarded stands seen o) {i : ι} {s : Taking} (hi : o.clients i = s) : s.Sound o.now :=
  hi ▸ h.sound i

theorem seen_of (h : Guarded stands seen o) {i : ι} {s : Taking} (hi : o.clients i = s) (hknows : o.knows i = true) :
    seen o.world o.now s :=
  hi ▸ h.seen i hknows

/-- Time goes on. -/
theorem tick (h : Guarded stands seen o) {later : Instant} (onward : later.lt o.now = false)
    (hdated : Lock.Datable later) (hseen : ∀ s, seen o.world o.now s → seen o.world later s) :
    Guarded stands seen { o with now := later } :=
  ⟨hdated, fun i => (h.sound i).later onward, h.sole.later onward, fun i hi => hseen _ (h.seen i hi)⟩

variable [DecidableEq ι] {i : ι} {s : Taking} {world : W} {knows : ι → Bool}

/-- A client goes on that takes nothing, and what stands and is known stays. -/
theorem proceed (h : Guarded stands seen o) (hstands : ∀ l, stands o.world l → stands world l)
    (hkept : ∀ s, seen o.world o.now s → seen world o.now s) (hsound : s.Sound o.now)
    (hs : ∀ l, s = .took l → o.clients i = .took l) (hothers : ∀ j, j ≠ i → knows j = true → o.knows j = true)
    (hseen : knows i = true → seen world o.now s) : Guarded stands seen (o.goOn i world knows s) where
  dated := h.dated
  sound := Taking.sound_update h.sound hsound
  sole := h.sole.proceed hstands hs
  seen j hknows := by
    by_cases hji : j = i
    · subst hji
      simpa [goOn] using hseen hknows
    · simpa [goOn, hji] using hkept _ (h.seen j (hothers j hji hknows))

/-- A client changes what is there while nobody has a lock that holds. -/
theorem change (h : Guarded stands seen o) (hnobody : ∀ j m, o.clients j = .took m → m.isExpired o.now = true)
    (hsound : s.Sound o.now) (hs : ∀ l, s = .took l → stands world l) (hothers : ∀ j, j ≠ i → knows j = false)
    (hseen : seen world o.now s) : Guarded stands seen (o.goOn i world knows s) where
  dated := h.dated
  sound := Taking.sound_update h.sound hsound
  sole := sole_update hnobody hs
  seen j hknows := by
    by_cases hji : j = i
    · subst hji
      simpa [goOn] using hseen
    · have hknows' : knows j = true := hknows
      rw [hothers j hji] at hknows'
      cases hknows'

end Guarded

/-! ### Files -/

namespace LocalStore

/-- Whether a call to the file system that was answered so has changed a text. -/
def changes {γ : Type} : FileCall γ → γ → Bool
  | .writeText _ _, b | .createText _ _, b | .remove _, b | .rename _ _, b => b.isOk
  | _, _ => false

/-- Whether a call removes something. -/
def removes {γ : Type} : FileCall γ → Bool
  | .remove _ => true
  | _ => false

/-- A file system that is shared.  A call may fail in any way, but nothing that is there is reported missing. -/
def service : Service FileCall FileTree where
  answer q t :=
    let a := (FileWorld.answer q).run ⟨t, default⟩
    (a.1, a.2.tree)
  fails
    | .readText _, b => ∃ e, b = .error e ∧ e ≠ .notFound
    | .writeText _ _, b | .createText _ _, b | .remove _, b | .rename _ _, b | .makeDirectories _, b =>
        ∃ e, b = .error e
    | _, _ => False
  looks
    | .readText _ => true
    | _ => false
  changes := changes
  times t := decide (Lock.Datable t)

section Answers

variable {t u : FileTree} {path : String}

theorem of_answers_readText {b : Except FileError String} (h : service.Answers t (.readText path) b u) :
    u = t ∧ ∀ text, b = .ok text → t.readText path = .ok text := by
  rcases h with h | ⟨⟨e, rfl, -⟩, rfl⟩
  · obtain ⟨rfl, rfl⟩ := Prod.mk.inj h
    exact ⟨rfl, fun _ => id⟩
  · exact ⟨rfl, nofun⟩

theorem answer_change {f : FileTree → Except FileError FileTree} {q : FileCall (Except FileError Unit)}
    (hq : FileWorld.answer q = FileWorld.change f) (t : FileTree) :
    service.answer q t =
      match f t with
      | .ok tree => (.ok (), tree)
      | .error e => (.error e, t) := by
  simp only [service, hq, FileWorld.run_change]
  cases f t <;> rfl

/-- A call that can change the tree is answered so. -/
theorem answers_change {f : FileTree → Except FileError FileTree} {q : FileCall (Except FileError Unit)}
    (hq : FileWorld.answer q = FileWorld.change f) (h : f t = .ok u) : service.Answers t q (.ok ()) u :=
  .inl (by rw [answer_change hq, h])

/-- A call that changes the tree does so or fails. -/
theorem of_answers_change {f : FileTree → Except FileError FileTree} {q : FileCall (Except FileError Unit)}
    {b : Except FileError Unit} (hq : FileWorld.answer q = FileWorld.change f)
    (hfails : service.fails q b → ∃ e, b = .error e) (h : service.Answers t q b u) :
    (b = .ok () ∧ f t = .ok u) ∨ ((∃ e, b = .error e) ∧ u = t) := by
  rcases h with h | ⟨hb, rfl⟩
  · rw [answer_change hq] at h
    cases hf : f t with
    | ok tree =>
      rw [hf] at h
      obtain ⟨rfl, rfl⟩ := Prod.mk.inj h
      exact .inl ⟨rfl, rfl⟩
    | error e =>
      rw [hf] at h
      obtain ⟨rfl, rfl⟩ := Prod.mk.inj h
      exact .inr ⟨⟨e, rfl⟩, rfl⟩
  · exact .inr ⟨hfails hb, rfl⟩

theorem answers_remove (h : t.remove path = .ok u) : service.Answers t (.remove path) (.ok ()) u :=
  answers_change (f := (·.remove path)) rfl h

theorem answers_createText {text : String} (h : t.createText path text = .ok u) :
    service.Answers t (.createText path text) (.ok ()) u :=
  answers_change (f := (·.createText path text)) rfl h

theorem answers_makeDirectories (h : t.makeDirectories path = .ok u) :
    service.Answers t (.makeDirectories path) (.ok ()) u :=
  answers_change (f := (·.makeDirectories path)) rfl h

theorem of_answers_remove {b : Except FileError Unit} (h : service.Answers t (.remove path) b u) :
    (b = .ok () ∧ t.remove path = .ok u) ∨ ((∃ e, b = .error e) ∧ u = t) :=
  of_answers_change (f := (·.remove path)) rfl id h

theorem of_answers_createText {text : String} {b : Except FileError Unit}
    (h : service.Answers t (.createText path text) b u) :
    (b = .ok () ∧ t.createText path text = .ok u) ∨ ((∃ e, b = .error e) ∧ u = t) :=
  of_answers_change (f := (·.createText path text)) rfl id h

theorem grown_of_answers {b : Except FileError Unit} (h : service.Answers t (.makeDirectories path) b u) :
    t.Grown u := by
  rcases of_answers_change (f := (·.makeDirectories path)) rfl id h with ⟨-, h⟩ | ⟨-, rfl⟩
  · exact FileTree.grown_of_makeDirectories h
  · exact .refl _

end Answers

/-- The order in which a lock file is taken. -/
inductive Asks (path : String) : Taking → {γ : Type} → Asking FileCall γ → (γ → Taking) → Prop
  | aside {s : Taking} {γ : Type} {q : Ambient γ} : Asks path s (.first q) fun _ => s
  | look : Asks path .begun (.second (.readText path)) fun b =>
      match b with
      | .ok text => match Lock.ofText? text with
        | some l => .found l
        | none => .refused
      | .error .notFound => .free
      | .error _ => .refused
  | judge {l : Lock} : Asks path (.found l) (.first .clock) fun now => if l.isExpired now then .stale l else .refused
  | clear {l : Lock} : Asks path (.stale l) (.second (.remove path)) fun b =>
      match b with
      | .ok () | .error .notFound => .free
      | .error _ => .refused
  | time : Asks path .free (.first .clock) .timed
  | ready {t : Instant} {directory : String} :
      Asks path (.timed t) (.second (.makeDirectories directory)) fun b => if b.isOk then .timed t else .refused
  | write {t : Instant} {l : Lock} (hacquired : l.acquired = t) (hexpires : l.expires = t.addSeconds Lock.lifetime) :
      Asks path (.timed t) (.second (.createText path l.render)) fun b => if b.isOk then .took l else .refused

theorem keeps_afterParent {path lockFile : String} {now : Instant} {p : FileProgram (Except StateError α)}
    {k : Except StateError α → FileProgram (Except StateError Lock)}
    (made : (Taking.course (Asks lockFile)).Keeps (.timed now) (p.bind k))
    (unmade : ∀ e, (Taking.course (Asks lockFile)).Keeps .refused (k (.error e))) :
    (Taking.course (Asks lockFile)).Keeps (.timed now) ((afterParent path p).bind k) := by
  unfold afterParent
  cases File.parent? path with
  | none => exact made
  | some parent =>
    refine .ask .ready fun b => ?_
    rcases b with e | _
    · exact unmade _
    · exact made

theorem keeps_takeFree (base : String) (key : StateKey) (operation : String) :
    (Taking.course (Asks (lockPath base key))).Keeps .free (takeFree base key operation).run := by
  rw [run_takeFree]
  refine .ask .time fun now => .ask .aside fun id => .ask .aside fun holder => ?_
  simp only [run_writeLock]
  refine keeps_afterParent (.ask (.write rfl rfl) fun b => ?_) fun e => .done trivial
  rcases b with e | _
  · exact .done trivial
  · exact .ask .aside fun _ => .done rfl

/-- **Clients keep to the order in which a lock file is taken.** -/
theorem keeps_acquire (base : String) (key : StateKey) (operation : String) :
    (Taking.course (Asks (lockPath base key))).Keeps .begun (acquire base key operation).run := by
  rw [run_acquire]
  refine .ask .look fun b => ?_
  rcases b with e | text
  · cases e with
    | notFound => exact keeps_takeFree base key operation
    | _ => exact .done trivial
  · simp only [lockRead]
    cases Lock.ofText? text with
    | none => exact .done trivial
    | some l =>
      refine .ask .judge fun now => ?_
      cases l.isExpired now with
      | false => exact .ask .aside fun _ => .done trivial
      | true =>
        refine .ask .aside fun _ => .ask .clear fun b => ?_
        rcases b with e | _
        · cases e with
          | notFound => exact keeps_takeFree base key operation
          | _ => exact .done trivial
        · exact keeps_takeFree base key operation

end LocalStore

/-! ### Objects -/

namespace BucketStore

/-- Whether a call writes an object. -/
def puts {γ : Type} : BucketCall γ → Bool
  | .put _ _ => true
  | _ => false

/-- A bucket that is shared.  A call may fail in any way, but no object that is there is reported missing. -/
def service : Service BucketCall (Table (Option String)) where
  answer q objects :=
    let a := (BucketWorld.answer q).run ⟨objects, [], default⟩
    (a.1, a.2.objects)
  fails
    | .get _, b => ∃ r : BucketRefusal, b = .error r ∧ r.code ≠ "NoSuchKey"
    | .put _ _, b | .delete _, b => ∃ r, b = .error r
    | .head _, b => ∃ r : BucketRefusal, b = .error r ∧ r.code ≠ "NotFound"
  looks
    | .get _ => true
    | _ => false
  changes
    | .put _ _, b | .delete _, b => b.isOk
    | _, _ => false
  times t := decide (Lock.Datable t)

section Answers

variable {w w' : Table (Option String)} {name : String}

theorem of_answers_get {b : Except BucketRefusal (Option String)} (h : service.Answers w (.get name) b w') :
    w' = w ∧ (∀ o, b = .ok o → w.lookup name = some o) ∧
      ∀ r, b = .error r → r.code = "NoSuchKey" → w.lookup name = none := by
  rcases h with h | ⟨⟨r, rfl, hcode⟩, rfl⟩
  · have hrun : (BucketWorld.answer (.get name)).run ⟨w, [], default⟩ = _ := BucketWorld.run_get rfl name
    simp only [service, hrun] at h
    obtain ⟨rfl, rfl⟩ := Prod.mk.inj h
    cases w'.lookup name with
    | none => exact ⟨rfl, nofun, fun _ _ _ => rfl⟩
    | some o => exact ⟨rfl, fun _ ho => congrArg some (Except.ok.inj ho), nofun⟩
  · exact ⟨rfl, nofun, fun s hs hcode' => absurd ((Except.error.inj hs) ▸ hcode') hcode⟩

theorem of_answers_put {text : String} {b : Except BucketRefusal Unit} (h : service.Answers w (.put name text) b w') :
    (b = .ok () ∧ w' = Table.put w name (some text)) ∨ ((∃ r, b = .error r) ∧ w' = w) := by
  rcases h with h | ⟨hb, rfl⟩
  · have hrun : (BucketWorld.answer (.put name text)).run ⟨w, [], default⟩ = _ := BucketWorld.run_put rfl name text
    simp only [service, hrun] at h
    exact .inl (Prod.mk.inj h)
  · exact .inr ⟨hb, rfl⟩

end Answers

/-- The order in which the object of a lock is written. -/
inductive Asks (name : String) : Taking → {γ : Type} → Asking BucketCall γ → (γ → Taking) → Prop
  | aside {s : Taking} {γ : Type} {q : Ambient γ} : Asks name s (.first q) fun _ => s
  | look : Asks name .begun (.second (.get name)) fun b =>
      match lockFetched b with
      | .error _ => .refused
      | .ok none => .free
      | .ok (some l) => .found l
  | judge {l : Lock} : Asks name (.found l) (.first .clock) fun now => if l.isExpired now then .free else .refused
  | time : Asks name .free (.first .clock) .timed
  | write {t : Instant} {l : Lock} (hacquired : l.acquired = t) (hexpires : l.expires = t.addSeconds Lock.lifetime) :
      Asks name (.timed t) (.second (.put name l.render)) fun b => if b.isOk then .took l else .refused

theorem keeps_takeFree (p : BucketPlace) (key : StateKey) (operation : String) :
    (Taking.course (Asks (lockName p key))).Keeps .free (takeFree p key operation).run := by
  rw [run_takeFree]
  refine .ask .time fun now => .ask .aside fun id => .ask .aside fun holder => .ask (.write rfl rfl) fun b => ?_
  rcases b with r | _
  · exact .done trivial
  · exact .ask .aside fun _ => .done rfl

/-- **Clients keep to the order in which the object of a lock is written.** -/
theorem keeps_acquire (p : BucketPlace) (key : StateKey) (operation : String) :
    (Taking.course (Asks (lockName p key))).Keeps .begun (acquire p key operation).run := by
  rw [run_acquire]
  refine .ask .look fun b => ?_
  rcases lockFetched b with e | _ | l
  · exact .done trivial
  · exact keeps_takeFree p key operation
  · refine .ask .judge fun now => ?_
    cases l.isExpired now with
    | false => exact .ask .aside fun _ => .done trivial
    | true => exact .ask .aside fun _ => keeps_takeFree p key operation

end BucketStore

end Groundwork
