import Groundwork.Proofs.File.Names
import Groundwork.Proofs.File.Walk

/-!
# What stands below a directory

A path that leads to a directory does so as long as directories and links stay, whatever becomes of the texts; a
name that is joined to it leads to what stands there under this name.  Where a directory is missing on a path,
nothing is found below it, and making a directory below it makes it first.

Main statements: `Leads.resolve_join`, and that directories below one that is there or can be made can be made as
well (`Ready.makeAll`).
-/

namespace Groundwork.FileTree

open File (Plain pieces trimmed)

theorem proper_of_plain {name : String} (h : Plain name) : Proper name :=
  ⟨fun hdot => h.no_dot (by rw [hdot]; rfl), fun hdots => h.no_dot (by rw [hdots]; rfl)⟩

/-! ### Walks on and on -/

/-- **A walk that comes to a directory goes on from there.** -/
theorem walk_append {t : FileTree} {links : Nat} {current names place : List String}
    (h : t.walk true links current names = .ok (place, some .directory)) :
    ∃ left, ∀ follow rest, rest ≠ [] → t.walk follow links current (names ++ rest) = t.walk follow left place rest := by
  fun_induction walk t true links current names with
  | case1 links current =>
    cases h
    exact ⟨links, fun _ _ _ => rfl⟩
  | case2 links current names ih =>
    obtain ⟨left, hleft⟩ := ih h
    exact ⟨left, fun follow rest hrest => by rw [List.cons_append, walk_dot, hleft follow rest hrest]⟩
  | case3 links current names _ ih =>
    obtain ⟨left, hleft⟩ := ih h
    exact ⟨left, fun follow rest hrest => by rw [List.cons_append, walk_dots, hleft follow rest hrest]⟩
  | case4 => simp at h
  | case5 => cases h
  | case6 links current name names hdot hdots next hdirectory ih =>
    obtain ⟨left, hleft⟩ := ih h
    exact ⟨left, fun follow rest hrest => by
      rw [List.cons_append, walk_directory ⟨hdot, hdots⟩ hdirectory, hleft follow rest hrest]⟩
  | case7 => simp at h
  | case8 => cases h
  | case9 => simp at h
  | case10 => cases h
  | case11 current name names hdot hdots next target hlink hlast links start ih =>
    obtain ⟨left, hleft⟩ := ih h
    refine ⟨left, fun follow rest hrest => ?_⟩
    have hnext := hleft follow rest hrest
    rw [List.append_assoc] at hnext
    rw [List.cons_append, walk_proper ⟨hdot, hdots⟩ hlink, ← hnext]
    exact if_neg (by simp [hrest])

/-- Why a walk that ends so cannot go on. -/
def stuck? : Except FileError Found → Option FileError
  | .error e => some e
  | .ok (_, none) => some .notFound
  | .ok (_, some (.text _)) => some .notDirectory
  | .ok (_, some _) => none

/-- **A walk that comes to no directory comes nowhere when it goes on.** -/
theorem walk_stuck {t : FileTree} {asked : Bool} {links : Nat} {current names : List String} {e : FileError}
    (h : stuck? (t.walk asked links current names) = some e) (follow : Bool) {rest : List String} (hrest : rest ≠ []) :
    t.walk follow links current (names ++ rest) = .error e := by
  fun_induction walk t asked links current names with
  | case1 => cases h
  | case2 links current names ih => rw [List.cons_append, walk_dot, ih h]
  | case3 links current names _ ih => rw [List.cons_append, walk_dots, ih h]
  | case4 links current name names hdot hdots next hfound _ | case5 links current name names hdot hdots next hfound _
  | case7 links current name names hdot hdots next _ hfound _
  | case8 links current name names hdot hdots next _ hfound _ =>
    cases h
    rw [List.cons_append, walk_proper ⟨hdot, hdots⟩ hfound]
    exact if_neg (by simp [hrest])
  | case6 links current name names hdot hdots next hdirectory ih =>
    rw [List.cons_append, walk_directory ⟨hdot, hdots⟩ hdirectory, ih h]
  | case9 => cases h
  | case10 current name names hdot hdots next target hlink hlast =>
    cases h
    rw [List.cons_append, walk_proper ⟨hdot, hdots⟩ hlink]
    exact if_neg (by simp [hrest])
  | case11 current name names hdot hdots next target hlink hlast links start ih =>
    have hnext := ih h
    rw [List.append_assoc] at hnext
    rw [List.cons_append, walk_proper ⟨hdot, hdots⟩ hlink, ← hnext]
    exact if_neg (by simp [hrest])

/-- Where links are followed, no walk ends at one. -/
theorem walk_ne_link {t : FileTree} {links : Nat} {current names place : List String} {target : String} :
    t.walk true links current names ≠ .ok (place, some (.link target)) := by
  intro h
  fun_induction walk t true links current names <;> simp_all

/-- A name that stands for its place makes no difference on the way. -/
theorem walk_append_dot (t : FileTree) (follow : Bool) (links : Nat) (current names : List String)
    {rest : List String} (hrest : rest ≠ []) :
    t.walk follow links current (names ++ "." :: rest) = t.walk follow links current (names ++ rest) := by
  cases hstuck : stuck? (t.walk true links current names) with
  | some e => rw [walk_stuck hstuck follow hrest, walk_stuck hstuck follow (List.cons_ne_nil _ _)]
  | none =>
    obtain ⟨place, hplace⟩ : ∃ place, t.walk true links current names = .ok (place, some .directory) := by
      rcases hwalk : t.walk true links current names with e | ⟨place, _ | s | _ | target⟩
      · simp [hwalk, stuck?] at hstuck
      · simp [hwalk, stuck?] at hstuck
      · simp [hwalk, stuck?] at hstuck
      · exact ⟨place, rfl⟩
      · exact absurd hwalk walk_ne_link
    obtain ⟨left, hleft⟩ := walk_append hplace
    rw [hleft follow rest hrest, hleft follow _ (List.cons_ne_nil _ _), walk_dot]

theorem walk_append_dots (t : FileTree) (follow : Bool) (links : Nat) (current names : List String) (n : Nat)
    {rest : List String} (hrest : rest ≠ []) :
    t.walk follow links current (names ++ List.replicate n "." ++ rest) =
      t.walk follow links current (names ++ rest) := by
  induction n with
  | zero => simp
  | succ n ih =>
    rw [← ih, List.replicate_succ, List.append_assoc, List.cons_append, walk_append_dot t _ _ _ _ (by simp [hrest]),
      List.append_assoc]

/-! ### Paths that lead to directories -/

/-- The directory where the walk of a path begins. -/
def start (t : FileTree) (path : String) : List String := if File.isAbsolute path then [] else t.workingDirectory

/-- Whether a path leads to a directory.  The empty path leads to the working directory. -/
def Leads (t : FileTree) (path : String) (place : List String) : Prop :=
  t.walk true maxLinks (t.start path) (pieces path) = .ok (place, some .directory)

/-- Whether a directory is missing on a path, so that nothing is found below it. -/
def Lost (t : FileTree) (path : String) : Prop :=
  ∀ follow rest, rest ≠ [] → t.walk follow maxLinks (t.start path) (pieces path ++ rest) = .error .notFound

/-- Whether a tree has the directories and the links of another one. -/
structure Roads (t u : FileTree) : Prop where
  workingDirectory : u.workingDirectory = t.workingDirectory
  entries : ∀ place e, t.standsAt? place = some e → (∀ s, e ≠ .text s) → u.standsAt? place = some e

theorem Extends.roads {t u : FileTree} (h : t.Extends u) : t.Roads u :=
  ⟨h.workingDirectory, fun place e he _ => h.entries place e he⟩

/-- Whether nothing stands at a place but perhaps a text. -/
def Bare (t : FileTree) (place : List String) : Prop :=
  place ≠ [] ∧ ∀ e, t.standsAt? place = some e → ∃ s, e = .text s

theorem Bare.ne {t : FileTree} {place other : List String} (h : t.Bare place) {e : FileEntry}
    (he : t.standsAt? other = some e) (hplain : ∀ s, e ≠ .text s) : other ≠ place := by
  rintro rfl
  obtain ⟨s, hs⟩ := h.2 e he
  exact hplain s hs

theorem roads_put {t : FileTree} {place : List String} (h : t.Bare place) (e : FileEntry) :
    t.Roads (t.put place e) := by
  refine ⟨rfl, fun other e' he' hplain => ?_⟩
  rw [standsAt?_put_of_ne t e (h.ne he' hplain), he']

theorem roads_erase {t : FileTree} {place : List String} (h : t.Bare place) : t.Roads (t.erase place) := by
  refine ⟨rfl, fun other e' he' hplain => ?_⟩
  rw [standsAt?_erase_of_ne t (h.ne he' hplain), he']

/-- A walk to a directory passes directories and links only. -/
theorem walk_of_roads {t u : FileTree} (hu : t.Roads u) {follow : Bool} {links : Nat}
    {current names place : List String} (h : t.walk follow links current names = .ok (place, some .directory)) :
    u.walk follow links current names = .ok (place, some .directory) := by
  fun_induction walk t follow links current names with
  | case1 links current => rw [walk_nil, h]
  | case2 links current rest ih => rw [walk_dot, ih h]
  | case3 links current rest _ ih => rw [walk_dots, ih h]
  | case4 links current name rest hdot hdots next hnone hrest => simp at h
  | case5 links current name rest hdot hdots next hnone hrest => cases h
  | case6 links current name rest hdot hdots next hdirectory ih =>
    rw [walk_directory ⟨hdot, hdots⟩ (hu.entries next _ hdirectory (by simp)), ih h]
  | case7 links current name rest hdot hdots next s htext hrest => simp at h
  | case8 links current name rest hdot hdots next s htext hrest => cases h
  | case9 links current name rest hdot hdots next target hlink hlast => simp at h
  | case10 current name rest hdot hdots next target hlink hlast => cases h
  | case11 current name rest hdot hdots next target hlink hlast links start ih =>
    rw [walk_link ⟨hdot, hdots⟩ (hu.entries next _ hlink (by simp)) hlast]
    exact ih h

theorem Leads.of_roads {t u : FileTree} {path : String} {place : List String} (h : t.Leads path place)
    (hu : t.Roads u) : u.Leads path place := by
  have hstart : u.start path = t.start path := by rw [start, start, hu.workingDirectory]
  rw [Leads, hstart]
  exact walk_of_roads hu h

section Joined

variable {t : FileTree} {base name : String} (hname : Plain name)
include hname

theorem start_join (t : FileTree) (base : String) : t.start (File.join base name) = t.start base := by
  rw [start, start, File.isAbsolute_join hname]

theorem resolve_join (t : FileTree) (base : String) (follow : Bool) :
    t.resolve follow (File.join base name) = t.walk follow maxLinks (t.start base) (pieces base ++ [name]) := by
  have hempty : (File.join base name).isEmpty = false := by simpa using File.join_ne_empty hname base
  rw [resolve, if_neg (by simp [hempty]), File.namesOf_join hname, ← start_join hname]
  rfl

/-- **A name that is joined leads to what stands in the directory under this name.** -/
theorem Leads.resolve_join {place : List String} (h : t.Leads base place) {found : Option FileEntry}
    (hfound : t.standsAt? (place ++ [name]) = found) (hlink : ∀ target, found ≠ some (.link target)) (follow : Bool) :
    t.resolve follow (File.join base name) = .ok (place ++ [name], found) := by
  obtain ⟨left, hleft⟩ := walk_append h
  rw [FileTree.resolve_join hname, hleft follow _ (List.cons_ne_nil _ _),
    walk_last (proper_of_plain hname) hfound hlink]

theorem Leads.join {place : List String} (h : t.Leads base place)
    (hfound : t.standsAt? (place ++ [name]) = some .directory) :
    t.Leads (File.join base name) (place ++ [name]) := by
  rw [Leads, start_join hname, File.pieces_join hname, ← FileTree.resolve_join hname]
  exact h.resolve_join hname hfound nofun true

/-- Nothing is found below a name that leads to nothing. -/
theorem Leads.lost_join {place : List String} (h : t.Leads base place) (hfound : t.standsAt? (place ++ [name]) = none) :
    t.Lost (File.join base name) := by
  have hstuck := h.resolve_join hname hfound nofun true
  intro follow rest hrest
  rw [FileTree.resolve_join hname] at hstuck
  rw [start_join hname, File.pieces_join hname]
  exact walk_stuck (by rw [hstuck]; rfl) follow hrest

theorem Lost.resolve_join (h : t.Lost base) (follow : Bool) :
    t.resolve follow (File.join base name) = .error .notFound := by
  rw [FileTree.resolve_join hname, h follow _ (List.cons_ne_nil _ _)]

theorem Lost.join (h : t.Lost base) : t.Lost (File.join base name) := by
  intro follow rest hrest
  rw [start_join hname, File.pieces_join hname, List.append_assoc]
  exact h follow _ (by simp)

end Joined

/-! ### Directories that are made -/

theorem stuck?_of_makeDirectory {t : FileTree} {path : String}
    (h : (∃ u, t.makeDirectory path = .ok u) ∨ t.makeDirectory path = .error .notFound) :
    stuck? (t.resolve false path) = some .notFound := by
  unfold makeDirectory at h
  rcases hfound : t.resolve false path with e | ⟨place, _ | e⟩ <;> simp only [hfound, bind, Except.bind] at h
  · simpa [stuck?] using h
  · rfl
  · simp at h

/-- A path on which a directory is missing leads to none. -/
theorem isDirectory_eq_false {t : FileTree} {path : String} (h : t.makeDirectory path = .error .notFound) :
    t.isDirectory path = false := by
  have hstuck := stuck?_of_makeDirectory (.inr h)
  rw [Bool.eq_false_iff]
  intro hthere
  have hresolve : ∃ place, t.resolve true path = .ok (place, some .directory) := by
    rcases hfound : t.resolve true path with e | ⟨place, found⟩ <;> simp_all [isDirectory, find?]
  obtain ⟨place, hplace⟩ := hresolve
  unfold resolve at hplace hstuck
  split at hplace
  · cases hplace
  · rename_i hempty
    rw [if_neg hempty] at hstuck
    obtain ⟨left, hleft⟩ := walk_append hplace
    have hfront := hleft true ["."] (by simp)
    rw [walk_stuck hstuck true (by simp), walk_dot, walk_nil] at hfront
    cases hfront

/-- How making directories goes on from the answer for the last of them. -/
theorem makeDirectoriesFor_of_ok {depth : Nat} {t u : FileTree} {path : String} (h : t.makeDirectory path = .ok u) :
    makeDirectoriesFor depth t path = .ok u := by
  have hempty : path.isEmpty = false := by
    rw [Bool.eq_false_iff]
    intro hempty
    rw [makeDirectory, resolve, if_pos hempty] at h
    cases h
  rw [makeDirectoriesFor, if_neg (by simp [hempty])]
  simp [h]

/-- A directory that is there is not made. -/
theorem makeDirectoriesFor_of_isDirectory {depth : Nat} {t : FileTree} {path : String} {e : FileError}
    (h : t.makeDirectory path = .error e) (hthere : t.isDirectory path = true) :
    makeDirectoriesFor depth t path = .ok t := by
  by_cases hempty : path.isEmpty = true
  · exact makeDirectoriesFor_of_isEmpty hempty
  · rw [makeDirectoriesFor, if_neg hempty]
    simp only
    split
    · rename_i hmade
      rw [h] at hmade
      cases hmade
    · rename_i hmissing _
      rw [isDirectory_eq_false hmissing] at hthere
      cases hthere
    · rw [if_pos hthere]

/-- A directory is made after the one that it is in. -/
theorem makeDirectoriesFor_succ {depth : Nat} {t u : FileTree} {path parent : String} (hempty : path.isEmpty = false)
    (hmissing : t.makeDirectory path = .error .notFound) (hparent : File.parent? path = some parent)
    (hmade : makeDirectoriesFor depth t parent = .ok u) :
    makeDirectoriesFor (depth + 1) t path =
      match u.makeDirectory path with
      | .ok next => .ok next
      | .error e => if u.isDirectory path then .ok u else .error e := by
  rw [makeDirectoriesFor, if_neg (by simp [hempty])]
  cases hu : u.makeDirectory path <;> simp only [hmissing, hparent, hmade, hu]

/-- Directories that can be made in so many steps can be made in more. -/
theorem makeDirectoriesFor_mono {depth more : Nat} (hmore : depth ≤ more) {t u : FileTree} {path : String}
    (h : makeDirectoriesFor depth t path = .ok u) : makeDirectoriesFor more t path = .ok u := by
  by_cases hempty : path.isEmpty = true
  · rwa [makeDirectoriesFor_of_isEmpty hempty] at h ⊢
  · induction depth generalizing more t u path with
    | zero =>
      rcases makeDirectoriesFor_cases (by simpa using hempty) h with
        hmade | ⟨e, hmade, hthere, rfl⟩ | ⟨rest, _, _, hrest, _⟩
      · exact makeDirectoriesFor_of_ok hmade
      · exact makeDirectoriesFor_of_isDirectory hmade hthere
      · cases hrest
    | succ depth ih =>
      obtain ⟨more, rfl⟩ : ∃ n, more = n + 1 := ⟨more - 1, by omega⟩
      have hempty' : path.isEmpty = false := by simpa using hempty
      rcases makeDirectoriesFor_cases hempty' h with
        hmade | ⟨e, hmade, hthere, rfl⟩ | ⟨rest, parent, v, hrest, hmissing, hparent, hv, -⟩
      · exact makeDirectoriesFor_of_ok hmade
      · exact makeDirectoriesFor_of_isDirectory hmade hthere
      · cases hrest
        have hv' : makeDirectoriesFor more t parent = .ok v := by
          by_cases hroot : parent.isEmpty = true
          · rwa [makeDirectoriesFor_of_isEmpty hroot] at hv ⊢
          · exact ih (by omega) hv hroot
        rw [makeDirectoriesFor_succ hempty' hmissing hparent hv] at h
        rw [makeDirectoriesFor_succ hempty' hmissing hparent hv', h]

theorem lost_of_stuck {t : FileTree} {path : String} (hempty : (trimmed path).isEmpty = false)
    (h : stuck? (t.resolve false (trimmed path)) = some .notFound) : t.Lost path := by
  intro follow rest hrest
  rw [resolve, if_neg (by simp [hempty])] at h
  have hstart : t.start (trimmed path) = t.start path := by rw [start, start, File.isAbsolute_trimmed]
  have hnames := walk_stuck h follow hrest
  change t.walk follow maxLinks (t.start (trimmed path)) _ = _ at hnames
  obtain ⟨n, hn⟩ := File.pieces_trimmed path
  rw [hn, walk_append_dots t _ _ _ _ _ hrest, ← hstart, ← hnames]
  by_cases hstroke : Text.endsWith ['/'] (trimmed path).toList = true
  · have hpieces : namesOf (trimmed path) = pieces (trimmed path) ++ ["."] := by simp [namesOf, pieces, hstroke]
    rw [hpieces, List.append_assoc, List.singleton_append, walk_append_dot t _ _ _ _ hrest]
  · have hpieces : namesOf (trimmed path) = pieces (trimmed path) := by simp [namesOf, pieces, hstroke]
    rw [hpieces]

/-- Where directories were to be made, they were missing. -/
theorem lost_of_makeDirectories {t u : FileTree} {path : String} (h : t.makeDirectories (trimmed path) = .ok u) :
    u = t ∨ t.Lost path := by
  by_cases hempty : (trimmed path).isEmpty = true
  · unfold makeDirectories makeDirectoriesFor at h
    rw [if_pos hempty] at h
    cases h
    exact .inl rfl
  · rcases makeDirectoriesFor_cases (by simpa using hempty) h with hmade | ⟨_, _, _, rfl⟩ | ⟨_, _, _, _, hmissing, _⟩
    · exact .inr (lost_of_stuck (by simpa using hempty) (stuck?_of_makeDirectory (.inl ⟨u, hmade⟩)))
    · exact .inl rfl
    · exact .inr (lost_of_stuck (by simpa using hempty) (stuck?_of_makeDirectory (.inr hmissing)))

section Joined

variable {t u : FileTree} {base name : String} {place : List String} (hname : Plain name)
include hname

theorem Leads.makeDirectory_join (h : t.Leads base place) (hfound : t.standsAt? (place ++ [name]) = none) :
    t.makeDirectory (File.join base name) = .ok (t.put (place ++ [name]) .directory) := by
  have hresolve := h.resolve_join hname hfound (by simp) false
  simp [makeDirectory, hresolve, bind, Except.bind]

theorem Leads.makeDirectory_join_there (h : t.Leads base place)
    (hfound : t.standsAt? (place ++ [name]) = some .directory) :
    t.makeDirectory (File.join base name) = .error .alreadyExists ∧ t.isDirectory (File.join base name) = true := by
  have hresolve := h.resolve_join hname hfound (by simp)
  simp [makeDirectory, isDirectory, find?, hresolve, bind, Except.bind]

end Joined

/-! ### Directories that are there or can be made -/

/-- Whether a path leads to a directory in the tree that is left after it was made, if it had to be made. -/
structure Ready (t : FileTree) (path : String) (u : FileTree) (place : List String) : Prop where
  leads : u.Leads path place
  made : u = t ∨ t.Lost path ∧ t.makeDirectories (trimmed path) = .ok u

theorem Leads.ready {t : FileTree} {path : String} {place : List String} (h : t.Leads path place) :
    t.Ready path t place :=
  ⟨h, .inl rfl⟩

section Joined

variable {t u : FileTree} {base name : String} {place : List String} (hname : Plain name)
include hname

/-- A directory below one that is missing is made after that one. -/
theorem Lost.makeDirectories_join (h : t.Lost base) (hmake : t.makeDirectories (trimmed base) = .ok u) :
    t.makeDirectories (File.join base name) =
      match u.makeDirectory (File.join base name) with
      | .ok next => .ok next
      | .error e => if u.isDirectory (File.join base name) then .ok u else .error e := by
  have hlength := File.length_trimmed_lt_length_join hname base
  obtain ⟨depth, hdepth⟩ : ∃ depth, (File.join base name).length = depth + 1 :=
    ⟨(File.join base name).length - 1, by omega⟩
  have hmissing : t.makeDirectory (File.join base name) = .error .notFound := by
    simp [makeDirectory, h.resolve_join hname, bind, Except.bind]
  rw [makeDirectories, hdepth]
  exact makeDirectoriesFor_succ (by simpa using File.join_ne_empty hname base) hmissing
    (File.parent?_join hname base) (makeDirectoriesFor_mono (by omega) hmake)

/-- A directory that is there below one that is there or can be made. -/
theorem Ready.join (h : t.Ready base u place) (hfound : u.standsAt? (place ++ [name]) = some .directory) :
    t.Ready (File.join base name) u (place ++ [name]) ∧ t.makeDirectories (File.join base name) = .ok u := by
  obtain ⟨hexists, hthere⟩ := h.leads.makeDirectory_join_there hname hfound
  have hmade : t.makeDirectories (File.join base name) = .ok u := by
    rcases h.made with rfl | ⟨hlost, hmake⟩
    · exact makeDirectoriesFor_of_isDirectory hexists hthere
    · simp [hlost.makeDirectories_join hname hmake, hexists, hthere]
  refine ⟨⟨h.leads.join hname hfound, ?_⟩, hmade⟩
  rcases h.made with rfl | ⟨hlost, hmake⟩
  · exact .inl rfl
  · exact .inr ⟨hlost.join hname, by rw [File.trimmed_join hname, hmade]⟩

/-- **A directory can be made below one that is there or can be made.** -/
theorem Ready.make (h : t.Ready base u place) (hfound : u.standsAt? (place ++ [name]) = none) :
    t.Ready (File.join base name) (u.put (place ++ [name]) .directory) (place ++ [name]) ∧
      t.makeDirectories (File.join base name) = .ok (u.put (place ++ [name]) .directory) := by
  have hmade := h.leads.makeDirectory_join hname hfound
  have hleads := (h.leads.of_roads (extends_put hfound .directory).roads).join hname
    (standsAt?_put u .directory (by simp))
  rcases h.made with rfl | ⟨hlost, hmake⟩
  · have hall : u.makeDirectories (File.join base name) = .ok (u.put (place ++ [name]) .directory) :=
      makeDirectoriesFor_of_ok hmade
    exact ⟨⟨hleads, .inr ⟨h.leads.lost_join hname hfound, by rw [File.trimmed_join hname]; exact hall⟩⟩, hall⟩
  · have hall : t.makeDirectories (File.join base name) = .ok (u.put (place ++ [name]) .directory) := by
      simp [hlost.makeDirectories_join hname hmake, hmade]
    exact ⟨⟨hleads, .inr ⟨hlost.join hname, by rw [File.trimmed_join hname, hall]⟩⟩, hall⟩

end Joined

/-- Whether a tree differs from another one by directories along names, from some place on. -/
structure Laid (t u : FileTree) (place names : List String) : Prop where
  grown : t.Grown u
  there : ∀ front, front <+: names → front ≠ [] → u.standsAt? (place ++ front) = some .directory
  others : ∀ other, (∀ front, front <+: names → front ≠ [] → other ≠ place ++ front) →
    u.standsAt? other = t.standsAt? other

theorem Laid.cons {t u v : FileTree} {place : List String} {name : String} {names : List String}
    (h : t.Laid u place [name]) (h' : u.Laid v (place ++ [name]) names) : t.Laid v place (name :: names) := by
  have hfirst : ([name] : List String) <+: [name] := List.prefix_rfl
  refine ⟨h.grown.trans h'.grown, fun front hfront hne => ?_, fun other hother => ?_⟩
  · obtain ⟨rest, rfl, hrest⟩ := (List.prefix_cons_iff.1 hfront).resolve_left hne
    by_cases hnil : rest = []
    · subst hnil
      exact h'.grown.extends.entries _ _ (h.there _ hfirst (by simp))
    · have hthere := h'.there rest hrest hnil
      rwa [List.append_assoc] at hthere
  · rw [h'.others other, h.others other]
    · intro front hfront hne
      exact hother front (hfront.trans ⟨names, rfl⟩) hne
    · intro rest hrest hne heq
      refine hother (name :: rest) (List.cons_prefix_cons.2 ⟨rfl, hrest⟩) (by simp) ?_
      rw [heq, List.append_assoc, List.singleton_append]

/-- **Directories can be made one in the other where nothing is in the way.** -/
theorem Ready.makeAll {t u : FileTree} {base : String} {place names : List String} (h : t.Ready base u place)
    (hnames : ∀ name ∈ names, Plain name)
    (hways : ∀ front, front <+: names → front ≠ [] →
      u.standsAt? (place ++ front) = none ∨ u.standsAt? (place ++ front) = some .directory) :
    ∃ v, t.Ready (names.foldl File.join base) v (place ++ names) ∧ u.Laid v place names ∧
      (names ≠ [] → t.makeDirectories (names.foldl File.join base) = .ok v) ∧
      ((∀ front, front <+: names → front ≠ [] → u.standsAt? (place ++ front) = some .directory) → v = u) := by
  induction names generalizing base u place with
  | nil =>
    refine ⟨u, by simpa using h, ⟨.refl u, ?_, fun _ _ => rfl⟩, nofun, fun _ => rfl⟩
    intro front hfront hne
    exact absurd (List.prefix_nil.1 hfront) hne
  | cons name names ih =>
    have hname : Plain name := hnames name List.mem_cons_self
    have hfirst : ([name] : List String) <+: name :: names := ⟨names, rfl⟩
    -- the first directory, which is there or is made
    obtain ⟨v, hv, hmake, hlaid, hsame⟩ : ∃ v, t.Ready (File.join base name) v (place ++ [name]) ∧
        t.makeDirectories (File.join base name) = .ok v ∧ u.Laid v place [name] ∧
        (u.standsAt? (place ++ [name]) = some .directory → v = u) := by
      have honly : ∀ front, front <+: [name] → front ≠ [] → front = [name] := by
        intro front hfront hne
        obtain ⟨rest, rfl, hrest⟩ := (List.prefix_cons_iff.1 hfront).resolve_left hne
        rw [List.prefix_nil.1 hrest]
      rcases hways [name] hfirst (by simp) with hfound | hfound
      · obtain ⟨hready, hmake⟩ := h.make hname hfound
        refine ⟨_, hready, hmake, ⟨grown_put_directory hfound, ?_, ?_⟩, fun hthere => by simp [hfound] at hthere⟩
        · intro front hfront hne
          rw [honly front hfront hne]
          exact standsAt?_put u .directory (by simp)
        · exact fun other hother => standsAt?_put_of_ne u .directory (hother [name] List.prefix_rfl (by simp))
      · obtain ⟨hready, hmake⟩ := h.join hname hfound
        refine ⟨u, hready, hmake, ⟨.refl u, ?_, fun _ _ => rfl⟩, fun _ => rfl⟩
        intro front hfront hne
        rw [honly front hfront hne, hfound]
    have hstays : ∀ front, front ≠ [] →
        v.standsAt? (place ++ [name] ++ front) = u.standsAt? (place ++ (name :: front)) := by
      intro front hne
      rw [List.append_assoc, List.singleton_append]
      refine hlaid.others _ fun front' hfront' hne' heq => ?_
      have hlength := hfront'.length_le
      have heq' := List.append_cancel_left heq
      rw [← heq'] at hlength
      exact hne (by simpa using hlength)
    obtain ⟨w, hw, hlaid', hmake', hsame'⟩ := ih hv (fun name hmem => hnames name (List.mem_cons_of_mem _ hmem))
      fun front hfront hne => by
        rw [hstays front hne]
        exact hways _ (List.cons_prefix_cons.2 ⟨rfl, hfront⟩) (by simp)
    refine ⟨w, ?_, hlaid.cons hlaid', fun _ => ?_, fun hthere => ?_⟩
    · simpa [List.append_assoc] using hw
    · by_cases hnil : names = []
      · subst hnil
        have hwv : w = v := hsame' fun front hfront hne => absurd (List.prefix_nil.1 hfront) hne
        rw [hwv, List.foldl_cons, List.foldl_nil, hmake]
      · exact hmake' hnil
    · have hvu : v = u := hsame (hthere [name] hfirst (by simp))
      have hwv : w = v := hsame' fun front hfront hne => by
        rw [hstays front hne]
        exact hthere _ (List.cons_prefix_cons.2 ⟨rfl, hfront⟩) (by simp)
      rw [hwv, hvu]

end Groundwork.FileTree
