import Groundwork.File.Tree
import Groundwork.Proofs.Data.Outcome

/-!
# Walks through growing trees

A walk asks what stands at places one after the other.  If it ends at something, it passes directories and links
only, so that it takes the same way in every tree that has all these; and a text that is written where it ends at
nothing is found by the same walk.

Main statements: what is found stays found (`walk_of_extends`), a text is found where it was written
(`holds_of_createText`), and making directories takes nothing away (`grown_of_makeDirectories`).
-/

namespace Groundwork.FileTree

/-! ### Places -/

theorem standsAt?_of_ne_nil (t : FileTree) {place : List String} (h : place ≠ []) :
    t.standsAt? place = t.entries.lookup place := by
  simp [standsAt?, h]

theorem lookup_filter_ne {l : List (List String × FileEntry)} {place other : List String} (h : other ≠ place) :
    (l.filter (·.1 ≠ place)).lookup other = l.lookup other := by
  induction l with
  | nil => rfl
  | cons p l ih =>
    obtain ⟨a, b⟩ := p
    by_cases hp : a = place
    · have hother : (other == place) = false := by simpa using h
      simpa [List.filter_cons, hp, List.lookup_cons, hother] using ih
    · by_cases hother : other = a
      · simp [hp, hother]
      · have hne : (other == a) = false := by simpa using hother
        simpa [List.filter_cons, hp, List.lookup_cons, hne] using ih

theorem standsAt?_put_of_ne (t : FileTree) {place other : List String} (e : FileEntry) (h : other ≠ place) :
    (t.put place e).standsAt? other = t.standsAt? other := by
  by_cases hnil : other = []
  · simp [standsAt?, hnil]
  · have hne : (other == place) = false := by simpa using h
    rw [standsAt?_of_ne_nil _ hnil, standsAt?_of_ne_nil _ hnil, put, List.lookup_append, lookup_filter_ne h]
    simp [List.lookup_cons, hne]

theorem standsAt?_erase_of_ne (t : FileTree) {place other : List String} (h : other ≠ place) :
    (t.erase place).standsAt? other = t.standsAt? other := by
  by_cases hnil : other = []
  · simp [standsAt?, hnil]
  · rw [standsAt?_of_ne_nil _ hnil, standsAt?_of_ne_nil _ hnil, erase, lookup_filter_ne h]

/-! ### Larger trees -/

/-- Whether a tree has all that another one has. -/
structure Extends (t u : FileTree) : Prop where
  workingDirectory : u.workingDirectory = t.workingDirectory
  entries : ∀ place e, t.standsAt? place = some e → u.standsAt? place = some e

/-- Whether a tree has what another one has, and otherwise only further directories. -/
structure Grown (t u : FileTree) : Prop where
  workingDirectory : u.workingDirectory = t.workingDirectory
  entries : ∀ place, u.standsAt? place = t.standsAt? place ∨
    t.standsAt? place = none ∧ u.standsAt? place = some .directory

theorem Grown.refl (t : FileTree) : t.Grown t := ⟨rfl, fun _ => .inl rfl⟩

theorem Grown.trans {t u v : FileTree} (h : t.Grown u) (h' : u.Grown v) : t.Grown v := by
  refine ⟨h'.workingDirectory.trans h.workingDirectory, fun place => ?_⟩
  rcases h.entries place with hsame | ⟨hnone, hdirectory⟩
  · rw [← hsame]
    exact h'.entries place
  · refine .inr ⟨hnone, ?_⟩
    rcases h'.entries place with hsame | ⟨hnone', -⟩
    · rw [hsame, hdirectory]
    · rw [hdirectory] at hnone'
      cases hnone'

theorem Grown.extends {t u : FileTree} (h : t.Grown u) : t.Extends u := by
  refine ⟨h.workingDirectory, fun place e he => ?_⟩
  rcases h.entries place with hsame | ⟨hnone, -⟩
  · rw [hsame, he]
  · rw [he] at hnone
    cases hnone

theorem extends_put {t : FileTree} {place : List String} (hfree : t.standsAt? place = none) (e : FileEntry) :
    t.Extends (t.put place e) := by
  refine ⟨rfl, fun other e' he' => ?_⟩
  have hne : other ≠ place := fun heq => by
    rw [heq, hfree] at he'
    cases he'
  rw [standsAt?_put_of_ne t e hne, he']

theorem ne_nil_of_standsAt?_eq_none {t : FileTree} {place : List String} (h : t.standsAt? place = none) :
    place ≠ [] := by
  rintro rfl
  cases h

theorem grown_put_directory {t : FileTree} {place : List String} (hfree : t.standsAt? place = none) :
    t.Grown (t.put place .directory) := by
  refine ⟨rfl, fun other => ?_⟩
  by_cases hne : other = place
  · rw [hne]
    exact .inr ⟨hfree, standsAt?_put t .directory (ne_nil_of_standsAt?_eq_none hfree)⟩
  · exact .inl (standsAt?_put_of_ne t .directory hne)

/-! ### Steps of a walk -/

/-- Whether a name leads to an entry of a directory, and is not one that stands for a directory itself. -/
def Proper (name : String) : Prop := name ≠ "." ∧ name ≠ ".."

instance (name : String) : Decidable (Proper name) := inferInstanceAs (Decidable (_ ∧ _))

/-- How a walk goes on from what it found at a place. -/
def goOn (t : FileTree) (follow : Bool) (links : Nat) (current rest next : List String) :
    Option FileEntry → Except FileError Found
  | none => if rest.isEmpty then .ok (next, none) else .error .notFound
  | some .directory => t.walk follow links next rest
  | some (.text s) => if rest.isEmpty then .ok (next, some (.text s)) else .error .notDirectory
  | some (.link target) =>
      if rest.isEmpty && !follow then .ok (next, some (.link target))
      else
        match links with
        | 0 => .error .tooManyLinks
        | links + 1 => t.walk follow links (if File.isAbsolute target then [] else current) (namesOf target ++ rest)

section Steps

variable {t : FileTree} {follow : Bool} {links : Nat} {current rest : List String} {name : String}

theorem walk_nil (t : FileTree) (follow : Bool) (links : Nat) (current : List String) :
    t.walk follow links current [] = .ok (current, some .directory) := by
  rw [walk]

theorem walk_dot : t.walk follow links current ("." :: rest) = t.walk follow links current rest := by
  rw [walk, if_pos rfl]

theorem walk_dots : t.walk follow links current (".." :: rest) = t.walk follow links current.dropLast rest := by
  rw [walk, if_neg (by decide), if_pos rfl]

/-- The step at a proper name is decided by what stands there. -/
theorem walk_proper (hname : Proper name) {found : Option FileEntry}
    (hfound : t.standsAt? (current ++ [name]) = found) :
    t.walk follow links current (name :: rest) = t.goOn follow links current rest (current ++ [name]) found := by
  subst hfound
  rw [walk, if_neg hname.1, if_neg hname.2]
  simp only
  split <;> rename_i heq <;> rw [heq]
  all_goals rfl

/-- A walk passes a directory. -/
theorem walk_directory (hname : Proper name) (h : t.standsAt? (current ++ [name]) = some .directory) :
    t.walk follow links current (name :: rest) = t.walk follow links (current ++ [name]) rest :=
  walk_proper hname h

/-- A link that is followed leads on to the names it holds. -/
theorem walk_link (hname : Proper name) {target : String} (h : t.standsAt? (current ++ [name]) = some (.link target))
    (hfollowed : ¬(rest.isEmpty && !follow) = true) :
    t.walk follow (links + 1) current (name :: rest) =
      t.walk follow links (if File.isAbsolute target then [] else current) (namesOf target ++ rest) := by
  rw [walk_proper hname h]
  exact if_neg hfollowed

/-- A walk ends at what its last name leads to, if that is no link. -/
theorem walk_last (hname : Proper name) {found : Option FileEntry} (hfound : t.standsAt? (current ++ [name]) = found)
    (hlink : ∀ target, found ≠ some (.link target)) :
    t.walk follow links current [name] = .ok (current ++ [name], found) := by
  rw [walk_proper hname hfound]
  rcases found with _ | s | _ | target
  · rfl
  · rfl
  · exact walk_nil t follow links (current ++ [name])
  · exact absurd rfl (hlink target)

end Steps

/-! ### Walks -/

/-- A walk that ends at nothing ends where nothing stands. -/
theorem standsAt?_of_walk {t : FileTree} {follow : Bool} {links : Nat} {current names place : List String}
    (h : t.walk follow links current names = .ok (place, none)) : t.standsAt? place = none := by
  fun_induction walk t follow links current names <;> grind

/-- **What is found stays found.** -/
theorem walk_of_extends {t u : FileTree} (hu : t.Extends u) {follow : Bool} {links : Nat}
    {current names place : List String} {e : FileEntry}
    (h : t.walk follow links current names = .ok (place, some e)) :
    u.walk follow links current names = .ok (place, some e) := by
  fun_induction walk t follow links current names with
  | case1 links current => rw [walk_nil, h]
  | case2 links current rest ih => rw [walk_dot, ih h]
  | case3 links current rest _ ih => rw [walk_dots, ih h]
  | case4 links current name rest hdot hdots next hnone hrest => simp at h
  | case5 links current name rest hdot hdots next hnone hrest => cases h
  | case6 links current name rest hdot hdots next hdirectory ih =>
    rw [walk_proper ⟨hdot, hdots⟩ (hu.entries next _ hdirectory)]
    exact ih h
  | case7 links current name rest hdot hdots next s htext hrest =>
    rw [walk_proper ⟨hdot, hdots⟩ (hu.entries next _ htext), ← h]
    exact if_pos hrest
  | case8 links current name rest hdot hdots next s htext hrest => cases h
  | case9 links current name rest hdot hdots next target hlink hlast =>
    rw [walk_proper ⟨hdot, hdots⟩ (hu.entries next _ hlink), ← h]
    exact if_pos hlast
  | case10 current name rest hdot hdots next target hlink hlast => cases h
  | case11 current name rest hdot hdots next target hlink hlast links start ih =>
    rw [walk_link ⟨hdot, hdots⟩ (hu.entries next _ hlink) hlast]
    exact ih h

/-- Where a walk ends at nothing, it ends at a directory at most when directories were made. -/
theorem walk_of_grown {t u : FileTree} (hu : t.Grown u) {follow : Bool} {links : Nat}
    {current names place : List String} (h : t.walk follow links current names = .ok (place, none)) :
    u.walk follow links current names = .ok (place, none) ∨
      u.walk follow links current names = .ok (place, some .directory) := by
  fun_induction walk t follow links current names with
  | case1 links current => cases h
  | case2 links current rest ih => simpa only [walk_dot] using ih h
  | case3 links current rest _ ih => simpa only [walk_dots] using ih h
  | case4 links current name rest hdot hdots next hnone hrest =>
    obtain rfl : next = place := by simpa using h
    obtain rfl : rest = [] := by simpa using hrest
    rcases hu.entries next with hsame | ⟨-, hdirectory⟩
    · rw [walk_proper ⟨hdot, hdots⟩ (hsame.trans hnone)]
      exact .inl rfl
    · rw [walk_proper ⟨hdot, hdots⟩ hdirectory]
      exact .inr (walk_nil u follow links next)
  | case5 links current name rest hdot hdots next hnone hrest => cases h
  | case6 links current name rest hdot hdots next hdirectory ih =>
    rw [walk_proper ⟨hdot, hdots⟩ (hu.extends.entries next _ hdirectory)]
    exact ih h
  | case7 links current name rest hdot hdots next s htext hrest => simp at h
  | case8 links current name rest hdot hdots next s htext hrest => cases h
  | case9 links current name rest hdot hdots next target hlink hlast => simp at h
  | case10 current name rest hdot hdots next target hlink hlast => cases h
  | case11 current name rest hdot hdots next target hlink hlast links start ih =>
    rw [walk_link ⟨hdot, hdots⟩ (hu.extends.entries next _ hlink) hlast]
    exact ih h

/-- A text that is written where a walk ends at nothing is found by this walk. -/
theorem walk_put {t : FileTree} {follow : Bool} {links : Nat} {current names place : List String}
    (h : t.walk follow links current names = .ok (place, none)) (s : String) :
    (t.put place (.text s)).walk follow links current names = .ok (place, some (.text s)) := by
  have hfree := standsAt?_of_walk h
  have hu := extends_put hfree (.text s)
  have hput := standsAt?_put t (.text s) (ne_nil_of_standsAt?_eq_none hfree)
  fun_induction walk t follow links current names with
  | case1 links current => cases h
  | case2 links current rest ih => rw [walk_dot, ih h]
  | case3 links current rest _ ih => rw [walk_dots, ih h]
  | case4 links current name rest hdot hdots next hnone hrest =>
    obtain rfl : next = place := by simpa using h
    rw [walk_proper ⟨hdot, hdots⟩ hput]
    exact if_pos hrest
  | case5 links current name rest hdot hdots next hnone hrest => cases h
  | case6 links current name rest hdot hdots next hdirectory ih =>
    rw [walk_proper ⟨hdot, hdots⟩ (hu.entries next _ hdirectory)]
    exact ih h
  | case7 links current name rest hdot hdots next s' htext hrest => simp at h
  | case8 links current name rest hdot hdots next s' htext hrest => cases h
  | case9 links current name rest hdot hdots next target hlink hlast => simp at h
  | case10 current name rest hdot hdots next target hlink hlast => cases h
  | case11 current name rest hdot hdots next target hlink hlast links start ih =>
    rw [walk_link ⟨hdot, hdots⟩ (hu.entries next _ hlink) hlast]
    exact ih h

/-- A walk that does not end at a link is the same whether links are followed there or not. -/
theorem walk_follow {t : FileTree} {links : Nat} {current names place : List String} {found : Option FileEntry}
    (h : t.walk false links current names = .ok (place, found)) (hplain : ∀ target, found ≠ some (.link target)) :
    t.walk true links current names = .ok (place, found) := by
  generalize hfollow : false = follow at h
  fun_induction walk t follow links current names with
  | case1 links current => rw [walk_nil, h]
  | case2 links current rest ih => rw [walk_dot, ih h]
  | case3 links current rest _ ih => rw [walk_dots, ih h]
  | case4 links current name rest hdot hdots next hnone hrest =>
    rw [walk_proper ⟨hdot, hdots⟩ hnone, ← h]
    exact if_pos hrest
  | case5 links current name rest hdot hdots next hnone hrest => cases h
  | case6 links current name rest hdot hdots next hdirectory ih =>
    rw [walk_proper ⟨hdot, hdots⟩ hdirectory]
    exact ih h
  | case7 links current name rest hdot hdots next s' htext hrest =>
    rw [walk_proper ⟨hdot, hdots⟩ htext, ← h]
    exact if_pos hrest
  | case8 links current name rest hdot hdots next s' htext hrest => cases h
  | case9 links current name rest hdot hdots next target hlink hlast =>
    obtain ⟨-, hfound⟩ := Prod.mk.inj (Except.ok.inj h)
    exact absurd hfound.symm (hplain target)
  | case10 current name rest hdot hdots next target hlink hlast => cases h
  | case11 current name rest hdot hdots next target hlink hlast links start ih =>
    rw [walk_link ⟨hdot, hdots⟩ hlink (by simp)]
    exact ih h

theorem resolve_follow {t : FileTree} {path : String} {place : List String} {found : Option FileEntry}
    (h : t.resolve false path = .ok (place, found)) (hplain : ∀ target, found ≠ some (.link target)) :
    t.resolve true path = .ok (place, found) := by
  unfold resolve at h ⊢
  split at h
  · cases h
  · rw [if_neg (by assumption)]
    exact walk_follow h hplain

/-! ### Texts at paths -/

theorem resolve_of_grown {t u : FileTree} (hu : t.Grown u) {follow : Bool} {path : String} {place : List String}
    (h : t.resolve follow path = .ok (place, none)) :
    u.resolve follow path = .ok (place, none) ∨ u.resolve follow path = .ok (place, some .directory) := by
  unfold resolve at h ⊢
  split at h
  · cases h
  · rw [if_neg (by assumption), hu.workingDirectory]
    exact walk_of_grown hu h

/-- A text that can be read can be read in a larger tree. -/
theorem readText_of_extends {t u : FileTree} {path text : String} (h : t.readText path = .ok text)
    (hu : t.Extends u) : u.readText path = .ok text := by
  obtain ⟨⟨place, found⟩, hresolve, hfound⟩ := bind_eq_ok h
  have hresolve' : u.resolve true path = .ok (place, found) := by
    unfold resolve at hresolve ⊢
    split at hresolve
    · cases hresolve
    · rw [if_neg (by assumption), hu.workingDirectory]
      rcases found with _ | e
      · cases hfound
      · exact walk_of_extends hu hresolve
  rw [readText, hresolve']
  exact hfound

/-- Whether a text stands at a path, and not at the end of a link there. -/
def Holds (t : FileTree) (path text : String) : Prop :=
  ∃ place, t.resolve false path = .ok (place, some (.text text))

theorem Holds.of_extends {t u : FileTree} {path text : String} (h : t.Holds path text) (hu : t.Extends u) :
    u.Holds path text := by
  obtain ⟨place, h⟩ := h
  refine ⟨place, ?_⟩
  unfold resolve at h ⊢
  split at h
  · cases h
  · rw [if_neg (by assumption), hu.workingDirectory]
    exact walk_of_extends hu h

theorem Holds.readText_eq {t : FileTree} {path text : String} (h : t.Holds path text) :
    t.readText path = .ok text := by
  obtain ⟨place, h⟩ := h
  simp [readText, resolve_follow h nofun, bind, Except.bind]

theorem Holds.createText_eq {t : FileTree} {path text : String} (h : t.Holds path text) (other : String) :
    t.createText path other = .error .alreadyExists := by
  obtain ⟨place, h⟩ := h
  simp [createText, h, bind, Except.bind]

/-- **A text is found where it was written.** -/
theorem holds_of_createText {t u : FileTree} {path text : String} (h : t.createText path text = .ok u) :
    u.Holds path text := by
  obtain ⟨⟨place, found⟩, hresolve, hput⟩ := bind_eq_ok h
  rcases found with _ | e
  · cases hput
    refine ⟨place, ?_⟩
    unfold resolve at hresolve ⊢
    split at hresolve
    · cases hresolve
    · rw [if_neg (by assumption)]
      exact walk_put hresolve text
  · cases hput

/-! ### Making directories -/

theorem grown_of_makeDirectory {t u : FileTree} {path : String} (h : t.makeDirectory path = .ok u) :
    t.Grown u := by
  obtain ⟨⟨place, found⟩, hresolve, hput⟩ := bind_eq_ok h
  rcases found with _ | e
  · cases hput
    unfold resolve at hresolve
    split at hresolve
    · cases hresolve
    · exact grown_put_directory (standsAt?_of_walk hresolve)
  · cases hput

theorem makeDirectoriesFor_of_isEmpty {depth : Nat} {t : FileTree} {path : String} (h : path.isEmpty = true) :
    makeDirectoriesFor depth t path = .ok t := by
  rw [makeDirectoriesFor, if_pos h]

/-- The ways in which a directory comes to be there: it is made, it was there, or it is made or found after the one
that it is in. -/
theorem makeDirectoriesFor_cases {depth : Nat} {t u : FileTree} {path : String} (hempty : path.isEmpty = false)
    (h : makeDirectoriesFor depth t path = .ok u) :
    t.makeDirectory path = .ok u ∨
      (∃ e, t.makeDirectory path = .error e ∧ t.isDirectory path = true ∧ u = t) ∨
      ∃ rest parent v, depth = rest + 1 ∧ t.makeDirectory path = .error .notFound ∧ File.parent? path = some parent ∧
        makeDirectoriesFor rest t parent = .ok v ∧
        (v.makeDirectory path = .ok u ∨ v.isDirectory path = true ∧ u = v) := by
  rw [makeDirectoriesFor, if_neg (by simp [hempty])] at h
  simp only at h
  split at h
  · rename_i hmade
    cases h
    exact .inl hmade
  · rename_i hmissing hparent
    split at h
    · cases h
    · rename_i hmade
      refine .inr (.inr ⟨_, _, _, rfl, hmissing, hparent, hmade, ?_⟩)
      split at h
      · rename_i hlast
        cases h
        exact .inl hlast
      · split at h
        · cases h
          exact .inr ⟨by assumption, rfl⟩
        · cases h
  · rename_i e hmade _
    split at h
    · cases h
      exact .inr (.inl ⟨e, hmade, by assumption, rfl⟩)
    · cases h

theorem grown_of_makeDirectoriesFor {depth : Nat} {t u : FileTree} {path : String}
    (h : makeDirectoriesFor depth t path = .ok u) : t.Grown u := by
  induction depth using Nat.strongRecOn generalizing t u path with
  | ind depth ih =>
    by_cases hempty : path.isEmpty = true
    · rw [makeDirectoriesFor_of_isEmpty hempty] at h
      cases h
      exact .refl t
    · rcases makeDirectoriesFor_cases (by simpa using hempty) h with
        hmade | ⟨-, -, -, rfl⟩ | ⟨rest, parent, v, rfl, -, -, hparents, hlast⟩
      · exact grown_of_makeDirectory hmade
      · exact .refl _
      · -- the directories on the way to it come first
        refine (ih rest (Nat.lt_succ_self rest) hparents).trans ?_
        rcases hlast with hmade | ⟨-, rfl⟩
        · exact grown_of_makeDirectory hmade
        · exact .refl _

/-- A directory that is there is not made again. -/
theorem makeDirectories_of_resolve {t : FileTree} {path : String} {place : List String}
    (h : t.resolve false path = .ok (place, some .directory)) : t.makeDirectories path = .ok t := by
  have hmake : t.makeDirectory path = .error .alreadyExists := by simp [makeDirectory, h, bind, Except.bind]
  have hthere : t.isDirectory path = true := by simp [isDirectory, find?, resolve_follow h nofun]
  unfold makeDirectories makeDirectoriesFor
  split
  · rfl
  · simp [hmake, hthere]

/-- **Making directories takes nothing away.** -/
theorem grown_of_makeDirectories {t u : FileTree} {path : String} (h : t.makeDirectories path = .ok u) :
    t.Grown u :=
  grown_of_makeDirectoriesFor h

end Groundwork.FileTree
