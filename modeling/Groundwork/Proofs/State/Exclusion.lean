import Groundwork.Proofs.State.Taking

/-!
# Who gets a lock

Any number of clients try to take the lock of one key, call by call and in any order.  Files exclude each other
where they are created; but an expired lock is removed without a look at what is there by then, and an object is
written without one.  So two clients can have a lock that holds, if one of them has looked before the other one
took it.

Main statements: nobody else has a lock that holds if whoever takes over a lock file, or writes a lock object,
knows what is there (`holders_subsingleton`), and what happens if not (`both_hold`).
-/

namespace Groundwork

open Shared

/-! ### Files -/

namespace LocalStore

/-- Whether a lock is read from a file. -/
def Shows (t : FileTree) (path : String) (l : Lock) : Prop :=
  ∃ text, t.readText path = .ok text ∧ Lock.ofText? text = some l

theorem Shows.of_grown {t u : FileTree} {path : String} {l : Lock} (h : Shows t path l) (hu : t.Grown u) :
    Shows u path l := by
  obtain ⟨text, hread, hl⟩ := h
  exact ⟨text, FileTree.readText_of_extends hread hu.extends, hl⟩

/-- Where a lock stands, none but this is read. -/
theorem Shows.eq_of_holds {t : FileTree} {path : String} {l m : Lock} (h : Shows t path l)
    (hm : t.Holds path m.render) (hacquired : m.acquired.Writable) (hexpires : m.expires.Writable) : m = l := by
  obtain ⟨text, hread, hl⟩ := h
  obtain rfl : m.render = text := Except.ok.inj (hm.readText_eq.symm.trans hread)
  rw [Lock.ofText?_render hacquired hexpires] at hl
  exact Option.some.inj hl

/-! ### Nobody takes over what nobody looked at -/

/-- What a client knows at a stage that has looked at the lock file. -/
def Seen (path : String) (t : FileTree) (_ : Instant) : Taking → Prop
  | .found l | .stale l => Shows t path l
  | _ => True

theorem Seen.of_grown {path : String} {t u : FileTree} {now : Instant} {s : Taking} (h : Seen path t now s)
    (hu : t.Grown u) : Seen path u now s := by
  cases s with
  | found l => exact Shows.of_grown h hu
  | stale l => exact Shows.of_grown h hu
  | _ => trivial

/-- What is true while whoever removes a lock file knows what is there. -/
abbrev FileGuarded {ι : Type} (path : String) (o : Shared ι FileTree Taking) : Prop :=
  Guarded (fun t l => t.Holds path l.render) (Seen path) o

section FileGuarded

variable {ι : Type} {path : String} {o o' : Shared ι FileTree Taking}

/-- Where somebody knows of an expired lock, nobody has one that holds. -/
theorem FileGuarded.nobody (h : FileGuarded path o) {i : ι} {l : Lock} (hi : o.clients i = .stale l)
    (hknows : o.knows i = true) {j : ι} {m : Lock} (hj : o.clients j = .took m) : m.isExpired o.now = true := by
  have hstale : l.isExpired o.now = true := h.sound_of hi
  have hwritable : m.acquired.Writable ∧ m.expires.Writable := h.sound_of hj
  have hseen : Shows o.world path l := h.seen_of hi hknows
  by_contra hm
  have hstands := h.sole.stands j m hj (Bool.eq_false_iff.2 hm)
  rw [hseen.eq_of_holds hstands hwritable.1 hwritable.2] at hm
  exact hm hstale

variable [DecidableEq ι]

/-- A client goes on that takes nothing, and the tree grows at most. -/
theorem FileGuarded.grow (h : FileGuarded path o) {i : ι} {s : Taking} {t : FileTree} {knows : ι → Bool}
    (hgrown : o.world.Grown t) (hsound : s.Sound o.now) (hs : ∀ l, s = .took l → o.clients i = .took l)
    (hothers : ∀ j, j ≠ i → knows j = true → o.knows j = true) (hseen : knows i = true → Seen path t o.now s) :
    FileGuarded path (o.goOn i t knows s) :=
  h.proceed (fun _ hl => hl.of_extends hgrown.extends) (fun _ hs => hs.of_grown hgrown) hsound hs hothers hseen

/-- A client gives up, and the tree grows at most. -/
theorem FileGuarded.refuse (h : FileGuarded path o) {i : ι} {t : FileTree} {knows : ι → Bool}
    (hgrown : o.world.Grown t) (hothers : ∀ j, j ≠ i → knows j = true → o.knows j = true) :
    FileGuarded path (o.goOn i t knows .refused) :=
  h.grow hgrown trivial nofun hothers fun _ => trivial

/-- **What is known stays true**, whoever is answered next. -/
theorem FileGuarded.step (h : FileGuarded path o) (hstep : Shared.Step service removes (Asks path) o o') :
    FileGuarded path o' := by
  cases hstep with
  | tick onward shown => exact h.tick onward (of_decide_eq_true shown) fun s hs => hs
  | @aside i γ q next c turn told =>
    generalize hs : o.clients i = s at turn
    have hi := h.sound_of hs
    cases turn with
    | aside => exact h.grow (.refl _) hi (fun l hl => hs.trans hl) (fun _ _ => id) (h.seen_of hs)
    | @judge l =>
      obtain rfl : c = o.now := told
      cases hexpired : l.isExpired o.now with
      | false =>
        simp only [hexpired, Bool.false_eq_true, if_false]
        exact h.refuse (.refl _) fun _ _ => id
      | true =>
        simp only [hexpired, if_true]
        have hseen : o.knows i = true → Shows o.world path l := h.seen_of hs
        exact h.grow (.refl _) hexpired (by simp) (fun _ _ => id) hseen
    | time =>
      obtain rfl : c = o.now := told
      exact h.grow (.refl _) h.dated (by simp) (fun _ _ => id) fun _ => trivial
  | @call i γ q next b world turn answered fresh =>
    generalize hs : o.clients i = s at turn
    have hi := h.sound_of hs
    have hothers : ∀ j, j ≠ i → o.knowsAfter service i q b j = true → o.knows j = true :=
      fun _ hj => knows_of_knowsAfter hj
    cases turn with
    | look =>
      obtain ⟨rfl, hread⟩ := of_answers_readText answered
      rcases b with e | text
      · cases e with
        | notFound => exact h.grow (s := .free) (.refl _) trivial (by simp) hothers fun _ => trivial
        | _ => exact h.refuse (.refl _) hothers
      · cases hl : Lock.ofText? text with
        | none =>
          simp only [hl]
          exact h.refuse (.refl _) hothers
        | some l =>
          simp only [hl]
          exact h.grow (.refl _) trivial (by simp) hothers fun _ => ⟨text, hread text rfl, hl⟩
    | clear =>
      rcases of_answers_remove answered with ⟨rfl, -⟩ | ⟨⟨e, rfl⟩, rfl⟩
      · exact h.change (fun j m => h.nobody hs (fresh rfl)) trivial (by simp)
          (fun j hj => knowsAfter_of_changes hj rfl) trivial
      · cases e with
        | notFound => exact h.grow (s := .free) (.refl _) trivial (by simp) hothers fun _ => trivial
        | _ => exact h.refuse (.refl _) hothers
    | @ready t =>
      rcases b with e | _
      · exact h.refuse (grown_of_answers answered) hothers
      · exact h.grow (s := .timed t) (grown_of_answers answered) hi (by simp) hothers fun _ => trivial
    | @write t l hacquired hexpires =>
      rcases of_answers_createText answered with ⟨rfl, hcreate⟩ | ⟨⟨e, rfl⟩, rfl⟩
      · refine h.change (fun j m hj => ?_) ⟨hacquired ▸ hi.1, hexpires ▸ hi.2⟩ (fun m hm => ?_)
          (fun j hj => knowsAfter_of_changes hj rfl) trivial
        · -- a lock that holds stands, and where a text stands none is created
          by_contra hm
          have hstands := h.sole.stands j m hj (Bool.eq_false_iff.2 hm)
          rw [hstands.createText_eq] at hcreate
          cases hcreate
        · obtain rfl : l = m := Taking.took.inj hm
          exact FileTree.holds_of_createText hcreate
      · exact h.refuse (.refl _) hothers

theorem FileGuarded.reaches (h : FileGuarded path o) (hreaches : Reaches service removes (Asks path) o o') :
    FileGuarded path o' := by
  induction hreaches with
  | refl => exact h
  | tail _ hstep ih => exact ih.step hstep

end FileGuarded

/-! ### Nothing to take over -/

/-- Whether no lock comes in reach that will have expired at some time, however many directories are made. -/
def Lasting (path : String) (limit : Instant) (t : FileTree) : Prop :=
  ∀ u, t.Grown u → ∀ m, Shows u path m → m.isExpired limit = false

/-- Where a file is missing in a directory that is there, no lock comes in reach. -/
theorem lasting_of_resolve {path : String} {limit : Instant} {t : FileTree} {place : List String}
    (h : t.resolve true path = .ok (place, none)) : Lasting path limit t := by
  rintro u hu m ⟨text, hread, -⟩
  obtain ⟨⟨place', found⟩, hresolve, hfound⟩ := bind_eq_ok hread
  rcases FileTree.resolve_of_grown hu h with h' | h' <;> rw [h'] at hresolve <;> cases hresolve <;> cases hfound

/-- What a client knows that began after some time. -/
def Recent (begun : Instant) : Taking → Prop
  | .found l => l.isExpired (begun.addSeconds Lock.lifetime) = false
  | .stale _ => False
  | .timed t => t.lt begun = false
  | _ => True

/-- What is true while no lock has expired since some time. -/
structure Young {ι : Type} (path : String) (begun : Instant) (o : Shared ι FileTree Taking) : Prop where
  onward : o.now.lt begun = false
  dated : Lock.Datable o.now
  sound : ∀ i, (o.clients i).Sound o.now
  lasting : Lasting path (begun.addSeconds Lock.lifetime) o.world
  recent : ∀ i, Recent begun (o.clients i)

section Young

variable {ι : Type} [DecidableEq ι] {path : String} {begun : Instant} {o o' : Shared ι FileTree Taking}

theorem Young.goOn (h : Young path begun o) {i : ι} {s : Taking} {t : FileTree} {knows : ι → Bool}
    (hsound : s.Sound o.now) (hlasting : Lasting path (begun.addSeconds Lock.lifetime) t) (hrecent : Recent begun s) :
    Young path begun (o.goOn i t knows s) where
  onward := h.onward
  dated := h.dated
  sound := Taking.sound_update h.sound hsound
  lasting := hlasting
  recent j := by
    by_cases hji : j = i
    · subst hji
      simpa [Shared.goOn] using hrecent
    · simpa [Shared.goOn, hji] using h.recent j

/-- A lock that begins later expires later. -/
theorem isExpired_of_begun {l : Lock} {t : Instant} (hexpires : l.expires = t.addSeconds Lock.lifetime)
    (onward : t.lt begun = false) : l.isExpired (begun.addSeconds Lock.lifetime) = false := by
  simp only [Lock.isExpired, hexpires, Instant.lt, Instant.addSeconds, Bool.or_eq_false_iff, Bool.and_eq_false_iff,
    decide_eq_false_iff_not] at onward ⊢
  omega

/-- **While no lock has expired, nobody removes one.** -/
theorem Young.step (h : Young path begun o) (hstep : Shared.Step service (fun _ => false) (Asks path) o o')
    (hwithin : (begun.addSeconds Lock.lifetime).lt o'.now = false) :
    Young path begun o' ∧ Shared.Step service removes (Asks path) o o' := by
  cases hstep with
  | @tick later onward shown =>
    refine ⟨⟨?_, of_decide_eq_true shown, fun i => (h.sound i).later onward, h.lasting, h.recent⟩, .tick onward shown⟩
    refine Bool.eq_false_iff.2 fun hearly => ?_
    rw [Instant.lt_of_lt_of_not_lt hearly h.onward] at onward
    cases onward
  | @aside i γ q next c turn told =>
    refine ⟨?_, .aside turn told⟩
    have hi := h.sound i
    have hrecent := h.recent i
    generalize o.clients i = s at turn hi hrecent
    cases turn with
    | aside => exact h.goOn hi h.lasting hrecent
    | @judge l =>
      obtain rfl : c = o.now := told
      have hheld : l.isExpired o.now = false := by
        refine Bool.eq_false_iff.2 fun hexpired => ?_
        rw [Recent, Lock.isExpired_later hexpired hwithin] at hrecent
        cases hrecent
      simp only [hheld, Bool.false_eq_true, if_false]
      exact h.goOn trivial h.lasting trivial
    | time =>
      obtain rfl : c = o.now := told
      exact h.goOn h.dated h.lasting h.onward
  | @call i γ q next b world turn answered fresh =>
    have hi := h.sound i
    have hrecent := h.recent i
    have hstep : removes q = false → Shared.Step service removes (Asks path) o (o.goOn i world _ (next b)) :=
      fun hq => .call turn answered fun hremoves => by rw [hq] at hremoves; cases hremoves
    generalize o.clients i = s at turn hi hrecent
    cases turn with
    | clear => exact hrecent.elim
    | look =>
      refine ⟨?_, hstep rfl⟩
      obtain ⟨rfl, hread⟩ := of_answers_readText answered
      rcases b with e | text
      · cases e <;> exact h.goOn trivial h.lasting trivial
      · cases hl : Lock.ofText? text with
        | none =>
          simp only [hl]
          exact h.goOn trivial h.lasting trivial
        | some l =>
          simp only [hl]
          exact h.goOn trivial h.lasting (h.lasting _ (.refl _) l ⟨text, hread text rfl, hl⟩)
    | ready =>
      refine ⟨?_, hstep rfl⟩
      have hlasting : Lasting path (begun.addSeconds Lock.lifetime) world :=
        fun u hu => h.lasting u ((grown_of_answers answered).trans hu)
      rcases b with e | _
      · exact h.goOn trivial hlasting trivial
      · exact h.goOn hi hlasting hrecent
    | @write t l hacquired hexpires =>
      refine ⟨?_, hstep rfl⟩
      rcases of_answers_createText answered with ⟨rfl, hcreate⟩ | ⟨⟨e, rfl⟩, rfl⟩
      · have hwritable : l.acquired.Writable ∧ l.expires.Writable := ⟨hacquired ▸ hi.1, hexpires ▸ hi.2⟩
        refine h.goOn hwritable (fun u hu m hm => ?_) trivial
        -- the lock that was written is the only one that can be read
        have hholds := (FileTree.holds_of_createText hcreate).of_extends hu.extends
        rw [← hm.eq_of_holds hholds hwritable.1 hwritable.2]
        exact isExpired_of_begun hexpires hrecent
      · exact h.goOn trivial h.lasting trivial

theorem now_lt_of_step {v : Service FileCall FileTree} {careful : {γ : Type} → FileCall γ → Bool}
    (hstep : Shared.Step v careful (Asks path) o o') : o'.now.lt o.now = false := by
  cases hstep with
  | tick onward shown => exact onward
  | aside | call => simp [Shared.goOn, Instant.lt]

/-- Where no lock has expired yet, whoever removes one knows what is there, as nobody does. -/
theorem Young.reaches (h : Young path begun o) (hreaches : Reaches service (fun _ => false) (Asks path) o o')
    (hwithin : (begun.addSeconds Lock.lifetime).lt o'.now = false) :
    Young path begun o' ∧ Reaches service removes (Asks path) o o' := by
  induction hreaches with
  | refl => exact ⟨h, .refl⟩
  | tail _ hstep ih =>
    have hearlier := now_lt_of_step hstep
    obtain ⟨hyoung, hcareful⟩ := ih (Bool.eq_false_iff.2 fun hlate => by
      rw [Instant.lt_of_lt_of_not_lt hlate hearlier] at hwithin
      cases hwithin)
    obtain ⟨hyoung', hstep'⟩ := hyoung.step hstep hwithin
    exact ⟨hyoung', hcareful.tail hstep'⟩

end Young

end LocalStore

/-! ### Objects -/

namespace BucketStore

/-! ### Nobody overwrites what nobody looked at -/

/-- Whether an object has the text of a lock. -/
def Shows (w : Table (Option String)) (name : String) (l : Lock) : Prop :=
  ∃ text, w.lookup name = some (some text) ∧ Lock.ofText? text = some l

/-- Whether no lock that holds is in an object. -/
def Open (w : Table (Option String)) (name : String) (now : Instant) : Prop :=
  w.lookup name = none ∨ ∃ l, Shows w name l ∧ l.isExpired now = true

/-- What a client knows at a stage that has looked at the object. -/
def Seen (name : String) (w : Table (Option String)) (now : Instant) : Taking → Prop
  | .found l => Shows w name l
  | .free | .timed _ => Open w name now
  | _ => True

theorem Seen.later {name : String} {w : Table (Option String)} {now later : Instant} {s : Taking}
    (h : Seen name w now s) (onward : later.lt now = false) : Seen name w later s := by
  have hopen : Open w name now → Open w name later :=
    Or.imp_right fun ⟨l, hl, hexpired⟩ => ⟨l, hl, Lock.isExpired_later hexpired onward⟩
  cases s with
  | free => exact hopen h
  | timed t => exact hopen h
  | _ => exact h

/-- What is true while whoever writes the object of a lock knows what is there. -/
abbrev ObjectGuarded {ι : Type} (name : String) (o : Shared ι (Table (Option String)) Taking) : Prop :=
  Guarded (fun w l => w.lookup name = some (some l.render)) (Seen name) o

section ObjectGuarded

variable {ι : Type} {name : String} {o o' : Shared ι (Table (Option String)) Taking}

/-- Where nothing is in the way, nobody has a lock that holds. -/
theorem ObjectGuarded.nobody (h : ObjectGuarded name o) (hopen : Open o.world name o.now) {j : ι} {m : Lock}
    (hj : o.clients j = .took m) : m.isExpired o.now = true := by
  have hwritable : m.acquired.Writable ∧ m.expires.Writable := h.sound_of hj
  by_contra hm
  have hstands := h.sole.stands j m hj (Bool.eq_false_iff.2 hm)
  rcases hopen with hnone | ⟨l, ⟨text, hlookup, hl⟩, hexpired⟩
  · rw [hstands] at hnone
    cases hnone
  · obtain rfl : m.render = text := Option.some.inj (Option.some.inj (hstands.symm.trans hlookup))
    rw [Lock.ofText?_render hwritable.1 hwritable.2] at hl
    exact hm (Option.some.inj hl ▸ hexpired)

variable [DecidableEq ι]

/-- A client goes on, and the objects are the same. -/
theorem ObjectGuarded.pass (h : ObjectGuarded name o) {i : ι} {s : Taking} {knows : ι → Bool}
    (hsound : s.Sound o.now) (hs : ∀ l, s = .took l → o.clients i = .took l)
    (hothers : ∀ j, j ≠ i → knows j = true → o.knows j = true) (hseen : knows i = true → Seen name o.world o.now s) :
    ObjectGuarded name (o.goOn i o.world knows s) :=
  h.proceed (fun _ => id) (fun _ => id) hsound hs hothers hseen

/-- A client gives up, and the objects are the same. -/
theorem ObjectGuarded.refuse (h : ObjectGuarded name o) {i : ι} {knows : ι → Bool}
    (hothers : ∀ j, j ≠ i → knows j = true → o.knows j = true) :
    ObjectGuarded name (o.goOn i o.world knows .refused) :=
  h.pass trivial nofun hothers fun _ => trivial

/-- **What is known stays true**, whoever is answered next. -/
theorem ObjectGuarded.step (h : ObjectGuarded name o) (hstep : Shared.Step service puts (Asks name) o o') :
    ObjectGuarded name o' := by
  cases hstep with
  | tick onward shown => exact h.tick onward (of_decide_eq_true shown) fun s hs => hs.later onward
  | @aside i γ q next c turn told =>
    generalize hs : o.clients i = s at turn
    have hi := h.sound_of hs
    cases turn with
    | aside => exact h.pass hi (fun l hl => hs.trans hl) (fun _ _ => id) (h.seen_of hs)
    | @judge l =>
      obtain rfl : c = o.now := told
      have hseen : o.knows i = true → Shows o.world name l := h.seen_of hs
      cases hexpired : l.isExpired o.now with
      | false =>
        simp only [hexpired, Bool.false_eq_true, if_false]
        exact h.refuse fun _ _ => id
      | true =>
        simp only [hexpired, if_true]
        exact h.pass trivial (by simp) (fun _ _ => id) fun hknows => .inr ⟨l, hseen hknows, hexpired⟩
    | time =>
      obtain rfl : c = o.now := told
      have hseen : o.knows i = true → Open o.world name o.now := h.seen_of hs
      exact h.pass h.dated (by simp) (fun _ _ => id) hseen
  | @call i γ q next b world turn answered fresh =>
    generalize hs : o.clients i = s at turn
    have hi := h.sound_of hs
    have hothers : ∀ j, j ≠ i → o.knowsAfter service i q b j = true → o.knows j = true :=
      fun _ hj => knows_of_knowsAfter hj
    cases turn with
    | look =>
      obtain ⟨rfl, hsome, hnone⟩ := of_answers_get answered
      rcases b with r | _ | text
      · by_cases hcode : r.code = "NoSuchKey"
        · simp only [lockFetched, fetched, hcode, if_true]
          exact h.pass trivial (by simp) hothers fun _ => .inl (hnone r rfl hcode)
        · simp only [lockFetched, fetched, hcode, if_false]
          exact h.refuse hothers
      · exact h.refuse hothers
      · cases hl : Lock.ofText? text with
        | none =>
          simp only [lockFetched, fetched, hl]
          exact h.refuse hothers
        | some l =>
          simp only [lockFetched, fetched, hl]
          exact h.pass trivial (by simp) hothers fun _ => ⟨text, hsome _ rfl, hl⟩
    | @write t l hacquired hexpires =>
      have hopen : Open o.world name o.now := h.seen_of hs (fresh rfl)
      rcases of_answers_put answered with ⟨rfl, rfl⟩ | ⟨⟨r, rfl⟩, rfl⟩
      · refine h.change (fun j m => h.nobody hopen) ⟨hacquired ▸ hi.1, hexpires ▸ hi.2⟩ (fun m hm => ?_)
          (fun j hj => knowsAfter_of_changes hj rfl) trivial
        obtain rfl : l = m := Taking.took.inj hm
        exact Table.lookup_put_self ..
      · exact h.refuse hothers

theorem ObjectGuarded.reaches (h : ObjectGuarded name o) (hreaches : Reaches service puts (Asks name) o o') :
    ObjectGuarded name o' := by
  induction hreaches with
  | refl => exact h
  | tail _ hstep ih => exact ih.step hstep

end ObjectGuarded

end BucketStore

/-! ### One lock at a time -/

/-- Clients that have not asked anything yet. -/
def Shared.opened {ι W : Type} {C : Type u} (world : W) (now : Instant) (clients : ι → C) : Shared ι W C :=
  ⟨world, now, fun _ => false, clients⟩

/-- Clients that have not begun know nothing and have nothing. -/
theorem guarded_opened {ι W : Type} {stands : W → Lock → Prop} {seen : W → Instant → Taking → Prop} {world : W}
    {now : Instant} (hnow : Lock.Datable now) :
    Guarded stands seen (opened world now fun _ : ι => Taking.begun) :=
  ⟨hnow, fun _ => trivial, ⟨nofun, nofun⟩, nofun⟩

section Main

variable {ι : Type} [DecidableEq ι]

/-- Clients that take the lock of a key in a store of files, each for an operation. -/
def LocalStore.takers (base : String) (key : StateKey) (operation : ι → String) (t : FileTree) (now : Instant) :
    Shared ι FileTree (FileProgram (Except StateError Lock)) :=
  opened t now fun i => (acquire base key (operation i)).run

/-- Clients that take the lock of a key in a bucket, each for an operation. -/
def BucketStore.takers (p : BucketPlace) (key : StateKey) (operation : ι → String) (w : Table (Option String))
    (now : Instant) : Shared ι (Table (Option String)) (BucketProgram (Except StateError Lock)) :=
  opened w now fun i => (acquire p key (operation i)).run

/-- **Nobody else has a lock that holds**, whatever is there at the start, if clients of a store of files remove a
lock file only while it is what they have read, or clients of a bucket write the object of a lock only while it is
what they have read.  In a store of files where no lock is at the start that expires within its lifetime, it is so
for that long in any case. -/
theorem holders_subsingleton (key : StateKey) (operation : ι → String) :
    (∀ base t now o, Lock.Datable now →
      Reaches LocalStore.service LocalStore.removes Program.Asks (LocalStore.takers base key operation t now) o →
      o.holders.Subsingleton) ∧
    (∀ place w now o, Lock.Datable now →
      Reaches BucketStore.service BucketStore.puts Program.Asks (BucketStore.takers place key operation w now) o →
      o.holders.Subsingleton) ∧
    (∀ base t now o, Lock.Datable now →
      LocalStore.Lasting (LocalStore.lockPath base key) (now.addSeconds Lock.lifetime) t →
      Reaches LocalStore.service (fun _ => false) Program.Asks (LocalStore.takers base key operation t now) o →
      (now.addSeconds Lock.lifetime).lt o.now = false → o.holders.Subsingleton) := by
  refine ⟨fun base t now o hnow h => ?_, fun place w now o hnow h => ?_,
    fun base t now o hnow hlasting h hwithin => ?_⟩
  · obtain ⟨stage, hreaches, hkeeps⟩ := exists_stages (fun i => LocalStore.keeps_acquire base key (operation i)) h
    exact ((LocalStore.FileGuarded.reaches (guarded_opened hnow) hreaches).sole).subsingleton_holders hkeeps
  · obtain ⟨stage, hreaches, hkeeps⟩ := exists_stages (fun i => BucketStore.keeps_acquire place key (operation i)) h
    exact ((BucketStore.ObjectGuarded.reaches (guarded_opened hnow) hreaches).sole).subsingleton_holders hkeeps
  · obtain ⟨stage, hreaches, hkeeps⟩ := exists_stages (fun i => LocalStore.keeps_acquire base key (operation i)) h
    have hyoung : LocalStore.Young (LocalStore.lockPath base key) now (opened t now fun _ : ι => Taking.begun) :=
      ⟨by simp [Shared.opened, Instant.lt], hnow, fun _ => trivial, hlasting, fun _ => trivial⟩
    obtain ⟨-, hcareful⟩ := hyoung.reaches hreaches hwithin
    exact ((LocalStore.FileGuarded.reaches (guarded_opened hnow) hcareful).sole).subsingleton_holders hkeeps

end Main

/-! ### Two at a time -/

namespace LocalStore

section Alone

variable {careful : {γ : Type} → FileCall γ → Bool} {base : String} {key : StateKey} {operation : String}
  {now : Instant} {name : String} {t u : FileTree}

/-- What is left to do for a client that knows of an expired lock. -/
def takeStale (base : String) (key : StateKey) (operation : String) : FileProgram (Except StateError Lock) :=
  .ask (.second (.remove (lockPath base key))) fun b =>
    Program.orEnd (fun _ => (takeFree base key operation).run) (lockRemoved b)

/-- A client reads a lock that has expired. -/
theorem onward_takeStale {l : Lock} (hshows : Shows t (lockPath base key) l) (hexpired : l.isExpired now = true)
    (hlook : careful (.readText (lockPath base key)) = false) :
    Onward service @careful now t (acquire base key operation).run t (takeStale base key operation) := by
  obtain ⟨text, hread, hl⟩ := hshows
  have hanswer : service.Answers t (.readText (lockPath base key)) (.ok text) t := .inl (by rw [← hread]; rfl)
  rw [run_acquire]
  refine .call hanswer hlook ?_
  simp only [lockRead, hl]
  refine .aside now rfl ?_
  rw [if_pos hexpired]
  exact .aside () trivial .refl

/-- A client that finds nothing in the way creates a lock file, where the directory is there. -/
theorem onward_took {directory : String} {place : List String}
    (hparent : File.parent? (lockPath base key) = some directory)
    (hdirectory : t.resolve false directory = .ok (place, some .directory))
    (hcreate : t.createText (lockPath base key) (Lock.take now name name key operation).render = .ok u)
    (hready : careful (.makeDirectories directory) = false)
    (hwrite : careful (.createText (lockPath base key) (Lock.take now name name key operation).render) = false) :
    Onward service @careful now t (takeFree base key operation).run u
      (.done (.ok (Lock.take now name name key operation))) := by
  have hmakes : service.Answers t (.makeDirectories directory) (.ok ()) t :=
    answers_makeDirectories (FileTree.makeDirectories_of_resolve hdirectory)
  have hcreates : service.Answers t
      (.createText (lockPath base key) (Lock.take now name name key operation).render) (.ok ()) u :=
    answers_createText hcreate
  rw [run_takeFree]
  refine .aside now rfl (.aside name trivial (.aside name trivial ?_))
  have hkey : File.parent? (lockPath base (Lock.take now name name key operation).key) = some directory := hparent
  simp only [run_writeLock, afterParent, hkey, Program.bind_ask]
  refine .call hmakes hready ?_
  simp only [Program.bind_ask, Program.bind_done]
  exact .call hcreates hwrite (.aside () trivial .refl)

/-- A client finds nothing and creates a lock file. -/
theorem onward_acquire {directory : String} {place : List String}
    (hnone : t.readText (lockPath base key) = .error .notFound)
    (hparent : File.parent? (lockPath base key) = some directory)
    (hdirectory : t.resolve false directory = .ok (place, some .directory))
    (hcreate : t.createText (lockPath base key) (Lock.take now name name key operation).render = .ok u)
    (hlook : careful (.readText (lockPath base key)) = false) (hready : careful (.makeDirectories directory) = false)
    (hwrite : careful (.createText (lockPath base key) (Lock.take now name name key operation).render) = false) :
    Onward service @careful now t (acquire base key operation).run u
      (.done (.ok (Lock.take now name name key operation))) := by
  have hanswer : service.Answers t (.readText (lockPath base key)) (.error .notFound) t := .inl (by rw [← hnone]; rfl)
  rw [run_acquire]
  exact .call hanswer hlook (onward_took hparent hdirectory hcreate hready hwrite)

end Alone

/-! A directory with or without the lock file of a datacenter. -/

/-- The place of the lock file. -/
def samplePlace : List String := [".infragraph", "dc", "datacenter.lock"]

/-- The directory without the lock file. -/
def sampleTree : FileTree := ⟨[([".infragraph"], .directory), ([".infragraph", "dc"], .directory)], []⟩

theorem lockPath_sample : lockPath ".infragraph" (.whole "dc") = ".infragraph/dc/datacenter.lock" := by decide +kernel

theorem parent?_sample : File.parent? (lockPath ".infragraph" (.whole "dc")) = some ".infragraph/dc" := by
  decide +kernel

/-- The path of the lock file leads to its place. -/
theorem resolve_sample {t : FileTree} {follow : Bool} {found : Option FileEntry} (hroot : t.workingDirectory = [])
    (hbase : t.standsAt? [".infragraph"] = some .directory)
    (hdirectory : t.standsAt? [".infragraph", "dc"] = some .directory) (hfound : t.standsAt? samplePlace = found)
    (hlink : ∀ target, found ≠ some (.link target)) :
    t.resolve follow (lockPath ".infragraph" (.whole "dc")) = .ok (samplePlace, found) := by
  have hnames : FileTree.namesOf ".infragraph/dc/datacenter.lock" = samplePlace := by decide +kernel
  have hrelative : File.isAbsolute ".infragraph/dc/datacenter.lock" = false := by decide +kernel
  rw [lockPath_sample, FileTree.resolve, if_neg (by decide), hrelative, hnames, hroot]
  rw [if_neg nofun, samplePlace, FileTree.walk_directory (by decide) hbase,
    FileTree.walk_directory (by decide) hdirectory]
  exact FileTree.walk_last (by decide) hfound hlink

/-- The directory of the lock file leads to its place. -/
theorem resolve_sampleDirectory {t : FileTree} (hroot : t.workingDirectory = [])
    (hbase : t.standsAt? [".infragraph"] = some .directory)
    (hdirectory : t.standsAt? [".infragraph", "dc"] = some .directory) :
    t.resolve false ".infragraph/dc" = .ok ([".infragraph", "dc"], some .directory) := by
  have hnames : FileTree.namesOf ".infragraph/dc" = [".infragraph", "dc"] := by decide +kernel
  have hrelative : File.isAbsolute ".infragraph/dc" = false := by decide +kernel
  rw [FileTree.resolve, if_neg (by decide), hrelative, hnames, hroot, if_neg nofun,
    FileTree.walk_directory (by decide) hbase]
  exact FileTree.walk_last (by decide) hdirectory nofun

/-- The directory with the lock file. -/
def sampleFile (text : String) : FileTree := sampleTree.put samplePlace (.text text)

theorem resolve_sampleTree (follow : Bool) :
    sampleTree.resolve follow (lockPath ".infragraph" (.whole "dc")) = .ok (samplePlace, none) :=
  resolve_sample rfl rfl rfl rfl nofun

theorem resolve_sampleFile (follow : Bool) (text : String) :
    (sampleFile text).resolve follow (lockPath ".infragraph" (.whole "dc")) = .ok (samplePlace, some (.text text)) :=
  resolve_sample rfl rfl rfl rfl nofun

theorem createText_sample (text : String) :
    sampleTree.createText (lockPath ".infragraph" (.whole "dc")) text = .ok (sampleFile text) := by
  simp [FileTree.createText, resolve_sampleTree, bind, Except.bind, sampleFile]

theorem remove_sample (text : String) :
    (sampleFile text).remove (lockPath ".infragraph" (.whole "dc")) = .ok sampleTree := by
  simp [FileTree.remove, resolve_sampleFile, bind, Except.bind]
  rfl

theorem shows_sample {l : Lock} (hacquired : l.acquired.Writable) (hexpires : l.expires.Writable) :
    Shows (sampleFile l.render) (lockPath ".infragraph" (.whole "dc")) l := by
  refine ⟨l.render, ?_, Lock.ofText?_render hacquired hexpires⟩
  simp [FileTree.readText, resolve_sampleFile, bind, Except.bind]

/-- Two clients that take the lock of a datacenter. -/
def sampleTakers (t : FileTree) (now : Instant) : Shared Bool FileTree (FileProgram (Except StateError Lock)) :=
  takers ".infragraph" (.whole "dc") (fun _ => "apply") t now

/-- One of the clients takes a lock where none is. -/
theorem reaches_sampleFile (careful : {γ : Type} → FileCall γ → Bool) (now : Instant)
    (hcareful : ∀ {γ : Type} (q : FileCall γ), removes q = false → careful q = false) :
    ∃ knows, Reaches service careful Program.Asks (sampleTakers sampleTree now)
      ((sampleTakers sampleTree now).goOn true (sampleFile (Lock.take now "a" "a" (.whole "dc") "apply").render) knows
        (.done (.ok (Lock.take now "a" "a" (.whole "dc") "apply")))) := by
  have hnone : sampleTree.readText (lockPath ".infragraph" (.whole "dc")) = .error .notFound := by
    simp [FileTree.readText, resolve_sampleTree, bind, Except.bind]
  exact reaches_of_onward (onward_acquire hnone parent?_sample (resolve_sampleDirectory rfl rfl rfl)
    (createText_sample _) (hcareful _ rfl) (hcareful _ rfl) (hcareful _ rfl)) rfl rfl rfl

end LocalStore

/-- Two clients that take the lock of a datacenter in a bucket. -/
def BucketStore.sampleTakers (w : Table (Option String)) (now : Instant) :
    Shared Bool (Table (Option String)) (BucketProgram (Except StateError Lock)) :=
  takers ⟨"bucket", ""⟩ (.whole "dc") (fun _ => "apply") w now

/-- Some questions of one client are answered, by this name if it asks for one. -/
def Shared.turns {ι : Type} (i : ι) (name : String) (n : Nat) : List (Move ι) := List.replicate n (.turn i name)

/-- Whether a client was given a lock that has not expired, as can be computed. -/
def Shared.holds {ι W : Type} {Q : Type → Type} (o : Shared ι W (Program Q (Except StateError Lock))) (i : ι) : Bool :=
  match o.clients i with
  | .done (.ok l) => !l.isExpired o.now
  | _ => false

theorem Shared.mem_holders {ι W : Type} {Q : Type → Type} {o : Shared ι W (Program Q (Except StateError Lock))}
    {i : ι} (h : o.holds i = true) : i ∈ o.holders := by
  unfold holds at h
  split at h
  · exact ⟨_, ‹_›, by simpa using h⟩
  · cases h

theorem Lock.mem_holders_goOn {ι W : Type} [DecidableEq ι] {Q : Type → Type}
    (o : Shared ι W (Program (Asking Q) (Except StateError Lock))) (i : ι) (w : W) (knows : ι → Bool)
    (id holder : String) (key : StateKey) (operation : String) :
    i ∈ (o.goOn i w knows (.done (.ok (Lock.take o.now id holder key operation)))).holders :=
  ⟨_, Function.update_self .., Lock.isExpired_take ..⟩

/-- Of two clients one has the lock. -/
theorem holders_subsingleton_sample :
    Lock.Datable Instant.epoch ∧
    (∃ o, Reaches LocalStore.service LocalStore.removes Program.Asks
        (LocalStore.sampleTakers LocalStore.sampleTree Instant.epoch) o ∧
      true ∈ o.holders ∧ o.holders.Subsingleton) ∧
    (∃ o, Reaches BucketStore.service BucketStore.puts Program.Asks (BucketStore.sampleTakers [] Instant.epoch) o ∧
      true ∈ o.holders ∧ o.holders.Subsingleton) ∧
    LocalStore.Lasting (LocalStore.lockPath ".infragraph" (.whole "dc")) (Instant.epoch.addSeconds Lock.lifetime)
      LocalStore.sampleTree ∧
    (∃ o, Reaches LocalStore.service (fun _ => false) Program.Asks
        (LocalStore.sampleTakers LocalStore.sampleTree Instant.epoch) o ∧
      (Instant.epoch.addSeconds Lock.lifetime).lt o.now = false ∧ true ∈ o.holders ∧ o.holders.Subsingleton) := by
  have hepoch : Lock.Datable Instant.epoch := by decide
  have hlasting : LocalStore.Lasting (LocalStore.lockPath ".infragraph" (.whole "dc"))
      (Instant.epoch.addSeconds Lock.lifetime) LocalStore.sampleTree :=
    LocalStore.lasting_of_resolve (LocalStore.resolve_sampleTree true)
  obtain ⟨knows, hcareful⟩ := LocalStore.reaches_sampleFile LocalStore.removes Instant.epoch fun _ => id
  obtain ⟨knows', hfree⟩ := LocalStore.reaches_sampleFile (fun _ => false) Instant.epoch fun _ _ => rfl
  have hmoves := reaches_moves BucketStore.service BucketStore.puts (BucketStore.sampleTakers [] Instant.epoch)
    (turns true "a" 6)
  have hwithin : (Instant.epoch.addSeconds Lock.lifetime).lt Instant.epoch = false := by decide
  have hall := holders_subsingleton (ι := Bool) (.whole "dc") fun _ => "apply"
  refine ⟨hepoch, ⟨_, hcareful, Lock.mem_holders_goOn .., hall.1 _ _ _ _ hepoch hcareful⟩,
    ⟨_, hmoves, Shared.mem_holders (by decide +kernel), hall.2.1 _ _ _ _ hepoch hmoves⟩, hlasting,
    ⟨_, hfree, hwithin, Lock.mem_holders_goOn .., hall.2.2 _ _ _ _ hepoch hlasting hfree hwithin⟩⟩

/-- A lock that was left behind. -/
def Lock.leftover : Lock := .take .epoch "left" "left" (.whole "dc") "apply"

/-- A time by which it has expired. -/
def Lock.afterLeftover : Instant := Instant.epoch.addSeconds 3600

/-- Both clients have read the same expired lock file; the second one removes what the first one has created. -/
theorem LocalStore.both_hold_sample :
    ∃ o, Reaches service (fun _ => false) Program.Asks
        (sampleTakers (sampleFile Lock.leftover.render) Lock.afterLeftover) o ∧
      true ∈ o.holders ∧ false ∈ o.holders := by
  have hshows : Shows (sampleFile Lock.leftover.render) (lockPath ".infragraph" (.whole "dc")) Lock.leftover :=
    shows_sample (by decide) (by decide)
  have hstale : ∀ {t}, Shows t (lockPath ".infragraph" (.whole "dc")) Lock.leftover →
      Onward service (fun _ => false) Lock.afterLeftover t (acquire ".infragraph" (.whole "dc") "apply").run t
        (takeStale ".infragraph" (.whole "dc") "apply") :=
    fun h => onward_takeStale h (by decide) rfl
  have htook : ∀ text name, Onward service (fun _ => false) Lock.afterLeftover (sampleFile text)
      (takeStale ".infragraph" (.whole "dc") "apply")
      (sampleFile (Lock.take Lock.afterLeftover name name (.whole "dc") "apply").render)
      (.done (.ok (Lock.take Lock.afterLeftover name name (.whole "dc") "apply"))) := fun text name =>
    .call (answers_remove (remove_sample text)) rfl
      (onward_took parent?_sample (resolve_sampleDirectory rfl rfl rfl) (createText_sample _) rfl rfl)
  let o := sampleTakers (sampleFile Lock.leftover.render) Lock.afterLeftover
  obtain ⟨knows₁, h₁⟩ := reaches_of_onward (hstale hshows) (o := o) (i := true) rfl rfl rfl
  let o₁ := o.goOn true (sampleFile Lock.leftover.render) knows₁ (takeStale ".infragraph" (.whole "dc") "apply")
  obtain ⟨knows₂, h₂⟩ := reaches_of_onward (hstale hshows) (o := o₁) (i := false) rfl rfl rfl
  let o₂ := o₁.goOn false (sampleFile Lock.leftover.render) knows₂ (takeStale ".infragraph" (.whole "dc") "apply")
  obtain ⟨knows₃, h₃⟩ := reaches_of_onward (htook _ "a") (o := o₂) (i := true) rfl rfl rfl
  obtain ⟨knows₄, h₄⟩ := reaches_of_onward (htook _ "b") (o := o₂.goOn true _ knows₃ _) (i := false) rfl rfl rfl
  exact ⟨_, ((h₁.trans h₂).trans h₃).trans h₄, ⟨_, rfl, Lock.isExpired_take ..⟩, ⟨_, rfl, Lock.isExpired_take ..⟩⟩

namespace BucketStore

variable {p : BucketPlace} {key : StateKey} {operation : String} {now : Instant} {w : Table (Option String)}

/-- A client reads a lock that has expired. -/
theorem onward_takeFree {l : Lock} (hshows : Shows w (lockName p key) l) (hexpired : l.isExpired now = true) :
    Onward service (fun _ => false) now w (acquire p key operation).run w (takeFree p key operation).run := by
  obtain ⟨text, hlookup, hl⟩ := hshows
  have hrun : (BucketWorld.answer (.get (lockName p key))).run ⟨w, [], default⟩ = _ := BucketWorld.run_get rfl _
  have hanswer : service.Answers w (.get (lockName p key)) (.ok (some text)) w := by
    refine .inl ?_
    simp only [service, hrun, hlookup]
  rw [run_acquire]
  refine .call hanswer rfl ?_
  simp only [lockFetched, fetched, hl]
  refine .aside now rfl ?_
  rw [if_pos hexpired]
  exact .aside () trivial .refl

/-- A client that finds nothing in the way writes the object of a lock. -/
theorem onward_took (name : String) :
    Onward service (fun _ => false) now w (takeFree p key operation).run
      (Table.put w (lockName p key) (some (Lock.take now name name key operation).render))
      (.done (.ok (Lock.take now name name key operation))) := by
  have hrun : ∀ text, (BucketWorld.answer (.put (lockName p key) text)).run ⟨w, [], default⟩ = _ :=
    fun text => BucketWorld.run_put rfl _ text
  have hanswer : ∀ text, service.Answers w (.put (lockName p key) text) (.ok ())
      (Table.put w (lockName p key) (some text)) := by
    refine fun text => .inl ?_
    simp only [service, hrun]
  rw [run_takeFree]
  refine .aside now rfl (.aside name trivial (.aside name trivial ?_))
  exact .call (hanswer _) rfl (.aside () trivial .refl)

/-- Both clients have read the same expired lock; the second one writes over what the first one has written. -/
theorem both_hold_sample :
    ∃ o, Reaches service (fun _ => false) Program.Asks
        (sampleTakers [("dc/datacenter.lock", some Lock.leftover.render)] Lock.afterLeftover) o ∧
      true ∈ o.holders ∧ false ∈ o.holders := by
  let w : Table (Option String) := [("dc/datacenter.lock", some Lock.leftover.render)]
  have hname : lockName ⟨"bucket", ""⟩ (.whole "dc") = "dc/datacenter.lock" := by decide +kernel
  have hshows : Shows w (lockName ⟨"bucket", ""⟩ (.whole "dc")) Lock.leftover :=
    ⟨_, by rw [hname]; rfl, Lock.ofText?_render (by decide) (by decide)⟩
  have hread : Onward service (fun _ => false) Lock.afterLeftover w (acquire ⟨"bucket", ""⟩ (.whole "dc") "apply").run w
      (takeFree ⟨"bucket", ""⟩ (.whole "dc") "apply").run := onward_takeFree hshows (by decide)
  have htook : ∀ u name, Onward service (fun _ => false) Lock.afterLeftover u
      (takeFree ⟨"bucket", ""⟩ (.whole "dc") "apply").run _ _ := fun u name => onward_took name
  let o := sampleTakers w Lock.afterLeftover
  obtain ⟨knows₁, h₁⟩ := reaches_of_onward hread (o := o) (i := true) rfl rfl rfl
  let o₁ := o.goOn true w knows₁ (takeFree ⟨"bucket", ""⟩ (.whole "dc") "apply").run
  obtain ⟨knows₂, h₂⟩ := reaches_of_onward hread (o := o₁) (i := false) rfl rfl rfl
  let o₂ := o₁.goOn false w knows₂ (takeFree ⟨"bucket", ""⟩ (.whole "dc") "apply").run
  obtain ⟨knows₃, h₃⟩ := reaches_of_onward (htook _ "a") (o := o₂) (i := true) rfl rfl rfl
  obtain ⟨knows₄, h₄⟩ := reaches_of_onward (htook _ "b") (o := o₂.goOn true _ knows₃ _) (i := false) rfl rfl rfl
  exact ⟨_, ((h₁.trans h₂).trans h₃).trans h₄, ⟨_, rfl, Lock.isExpired_take ..⟩, ⟨_, rfl, Lock.isExpired_take ..⟩⟩

end BucketStore

/-- **Two clients have a lock that holds**, if both have looked before one of them has taken it: in a bucket where
no lock was or an expired one, and in a store of files where an expired one was. -/
theorem both_hold :
    (∃ o, Reaches BucketStore.service (fun _ => false) Program.Asks (BucketStore.sampleTakers [] Lock.afterLeftover) o ∧
      true ∈ o.holders ∧ false ∈ o.holders) ∧
    Lock.leftover.isExpired Lock.afterLeftover = true ∧
    (∃ o, Reaches BucketStore.service (fun _ => false) Program.Asks
        (BucketStore.sampleTakers [("dc/datacenter.lock", some Lock.leftover.render)] Lock.afterLeftover) o ∧
      true ∈ o.holders ∧ false ∈ o.holders) ∧
    (∃ o, Reaches LocalStore.service (fun _ => false) Program.Asks
        (LocalStore.sampleTakers (LocalStore.sampleFile Lock.leftover.render) Lock.afterLeftover) o ∧
      true ∈ o.holders ∧ false ∈ o.holders) := by
  have hnone := reaches_moves BucketStore.service (fun _ => false) (BucketStore.sampleTakers [] Lock.afterLeftover)
    (turns true "a" 1 ++ turns false "b" 6 ++ turns true "a" 5)
  exact ⟨⟨_, hnone, Shared.mem_holders (by decide +kernel), Shared.mem_holders (by decide +kernel)⟩, by decide,
    BucketStore.both_hold_sample, LocalStore.both_hold_sample⟩

end Groundwork
