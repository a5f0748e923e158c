import Groundwork.Proofs.State.Places

/-!
# What stands in a store

The texts that a store has under each key, and what calls to the file system and to a bucket make of them.  The
directory of a store of files may be missing at first; then it is made when the first file is written.

Main statements: a file is read as it stands (`Kept.readText`), and a file or an object that is written, moved or
removed changes nothing else (`Opened.writeText`, `Opened.rename`, `Kept.remove`, `Filed.put`, `Filed.erase`).
-/

namespace Groundwork

/-- The texts that a store has under its keys. -/
abbrev Contents := StateKey → Sheet → Option String

namespace Contents

/-- Nothing at all. -/
def empty : Contents := fun _ _ => none

/-- Other contents in one place. -/
def set (c : Contents) (key : StateKey) (s : Sheet) (x : Option String) : Contents :=
  fun k r => if k = key ∧ r = s then x else c k r

@[simp] theorem set_self (c : Contents) (key : StateKey) (s : Sheet) (x : Option String) : c.set key s x key s = x :=
  if_pos ⟨rfl, rfl⟩

theorem set_of_ne (c : Contents) {key k : StateKey} {s r : Sheet} (x : Option String) (h : ¬(k = key ∧ r = s)) :
    c.set key s x k r = c k r :=
  if_neg h

theorem set_eq_self {c : Contents} {key : StateKey} {s : Sheet} {x : Option String} (h : c key s = x) :
    c.set key s x = c := by
  funext k r
  by_cases hsame : k = key ∧ r = s
  · obtain ⟨rfl, rfl⟩ := hsame
    rw [set_self, h]
  · exact set_of_ne c x hsame

theorem set_set (c : Contents) (key : StateKey) (s : Sheet) (x y : Option String) :
    (c.set key s x).set key s y = c.set key s y := by
  funext k r
  by_cases hsame : k = key ∧ r = s
  · obtain ⟨rfl, rfl⟩ := hsame
    rw [set_self, set_self]
  · rw [set_of_ne _ y hsame, set_of_ne c y hsame, set_of_ne c x hsame]

end Contents

/-! ### Files -/

namespace FileTree

/-- Whether the files below a directory have these texts, and directories stand in the way of no file. -/
structure Stocked (t : FileTree) (place : List String) (c : Contents) : Prop where
  texts : ∀ key : StateKey, key.Named → ∀ s, t.standsAt? (place ++ key.slot s) = (c key s).map .text
  ways : ∀ key : StateKey, key.Named → ∀ front, front <+: key.folder → front ≠ [] →
    t.standsAt? (place ++ front) = none ∨ t.standsAt? (place ++ front) = some .directory
  folders : ∀ key : StateKey, key.Named → ∀ s, c key s ≠ none → ∀ front, front <+: key.folder → front ≠ [] →
    t.standsAt? (place ++ front) = some .directory

/-- Whether a store below a base directory has these contents.  The directory may be missing as long as there are
none, if it can be made. -/
def Kept (t : FileTree) (base : String) (c : Contents) : Prop :=
  ∃ u place, t.Ready base u place ∧ u.Stocked place c ∧ (u = t ∨ ∀ key : StateKey, key.Named → ∀ s, c key s = none)

/-- Whether a store has these contents and there is the directory for the files of a key. -/
structure Opened (t : FileTree) (base : String) (c : Contents) (key : StateKey) (place : List String) : Prop where
  begins : t.Leads base place
  leads : t.Leads (key.folderPath base) (place ++ key.folder)
  stocked : t.Stocked place c
  there : ∀ front, front <+: key.folder → front ≠ [] → t.standsAt? (place ++ front) = some .directory

section Stocked

variable {t u : FileTree} {place : List String} {c : Contents} {key : StateKey}

theorem slot_ne_nil (key : StateKey) (s : Sheet) (place : List String) : place ++ key.slot s ≠ [] := by
  simp [StateKey.slot]

/-- Directories for the files of a key change nothing. -/
theorem Stocked.of_laid (h : t.Stocked place c) (hu : t.Laid u place key.folder) (hkey : key.Named) :
    u.Stocked place c := by
  refine ⟨fun k hk s => ?_, fun k hk front hfront hne => ?_, fun k hk s hs front hfront hne => ?_⟩
  · rw [hu.others, h.texts k hk s]
    exact fun front hfront _ heq => StateKey.slot_ne_front k s hkey hfront (List.append_cancel_left heq)
  · rcases hu.grown.entries (place ++ front) with hsame | ⟨-, hdirectory⟩
    · rw [hsame]
      exact h.ways k hk front hfront hne
    · exact .inr hdirectory
  · exact hu.grown.extends.entries _ _ (h.folders k hk s hs front hfront hne)

/-- One text changes, and nothing else. -/
theorem Stocked.set (h : t.Stocked place c) (hkey : key.Named) {s : Sheet} {x : Option String}
    (hthere : ∀ front, front <+: key.folder → front ≠ [] → t.standsAt? (place ++ front) = some .directory)
    (hself : u.standsAt? (place ++ key.slot s) = x.map .text)
    (hothers : ∀ other, other ≠ place ++ key.slot s → u.standsAt? other = t.standsAt? other) :
    u.Stocked place (c.set key s x) := by
  have hfronts : ∀ k : StateKey, k.Named → ∀ front, front <+: k.folder →
      u.standsAt? (place ++ front) = t.standsAt? (place ++ front) := fun k hk front hfront =>
    hothers _ fun heq => StateKey.slot_ne_front key s hk hfront (List.append_cancel_left heq).symm
  refine ⟨fun k hk r => ?_, fun k hk front hfront hne => ?_, fun k hk r hr front hfront hne => ?_⟩
  · by_cases hsame : k = key ∧ r = s
    · obtain ⟨rfl, rfl⟩ := hsame
      rw [hself, Contents.set_self]
    · rw [Contents.set_of_ne c x hsame, hothers, h.texts k hk r]
      exact fun heq => hsame (StateKey.slot_inj hk hkey (List.append_cancel_left heq))
  · rw [hfronts k hk front hfront]
    exact h.ways k hk front hfront hne
  · rw [hfronts k hk front hfront]
    by_cases hsame : k = key ∧ r = s
    · obtain ⟨rfl, rfl⟩ := hsame
      exact hthere front hfront hne
    · rw [Contents.set_of_ne c x hsame] at hr
      exact h.folders k hk r hr front hfront hne

theorem Stocked.bare (h : t.Stocked place c) (hkey : key.Named) (s : Sheet) : t.Bare (place ++ key.slot s) := by
  refine ⟨slot_ne_nil key s place, fun e he => ?_⟩
  rw [h.texts key hkey s, Option.map_eq_some_iff] at he
  obtain ⟨text, -, rfl⟩ := he
  exact ⟨text, rfl⟩

end Stocked

section Opened

variable {t : FileTree} {base : String} {place : List String} {c : Contents} {key : StateKey}

theorem Opened.kept (h : t.Opened base c key place) : t.Kept base c :=
  ⟨t, place, h.begins.ready, h.stocked, .inl rfl⟩

theorem Opened.resolve (h : t.Opened base c key place) (hkey : key.Named) (s : Sheet) (follow : Bool) :
    t.resolve follow (key.filePath base s) = .ok (place ++ key.slot s, (c key s).map .text) := by
  have htext := h.stocked.texts key hkey s
  rw [StateKey.slot, ← List.append_assoc] at htext ⊢
  exact h.leads.resolve_join (StateKey.plain_fileName hkey s) htext (by simp) follow

/-- One text changes, and nothing else. -/
theorem Opened.set (h : t.Opened base c key place) (hkey : key.Named) {u : FileTree} {s : Sheet} {x : Option String}
    (hroads : t.Roads u) (hself : u.standsAt? (place ++ key.slot s) = x.map .text)
    (hothers : ∀ other, other ≠ place ++ key.slot s → u.standsAt? other = t.standsAt? other) :
    u.Opened base (c.set key s x) key place :=
  ⟨h.begins.of_roads hroads, h.leads.of_roads hroads, h.stocked.set hkey h.there hself hothers,
    fun front hfront hne => hroads.entries _ _ (h.there front hfront hne) nofun⟩

theorem Opened.put (h : t.Opened base c key place) (hkey : key.Named) (s : Sheet) (text : String) :
    (t.put (place ++ key.slot s) (.text text)).Opened base (c.set key s (some text)) key place :=
  h.set hkey (roads_put (h.stocked.bare hkey s) _) (standsAt?_put t _ (slot_ne_nil key s place))
    fun _ hother => standsAt?_put_of_ne t _ hother

theorem Opened.erase (h : t.Opened base c key place) (hkey : key.Named) (s : Sheet) :
    (t.erase (place ++ key.slot s)).Opened base (c.set key s none) key place :=
  h.set hkey (roads_erase (h.stocked.bare hkey s)) (standsAt?_erase t (slot_ne_nil key s place))
    fun _ hother => standsAt?_erase_of_ne t hother

/-- **A text is written in the place of the one that is there.** -/
theorem Opened.writeText (h : t.Opened base c key place) (hkey : key.Named) (s : Sheet) (text : String) :
    ∃ u, t.writeText (key.filePath base s) text = .ok u ∧ u.Opened base (c.set key s (some text)) key place := by
  refine ⟨_, ?_, h.put hkey s text⟩
  cases hc : c key s <;> simp [FileTree.writeText, h.resolve hkey s, hc, bind, Except.bind]

/-- A text is written where none is. -/
theorem Opened.createText (h : t.Opened base c key place) (hkey : key.Named) {s : Sheet} (hfree : c key s = none)
    (text : String) :
    ∃ u, t.createText (key.filePath base s) text = .ok u ∧ u.Opened base (c.set key s (some text)) key place := by
  refine ⟨_, ?_, h.put hkey s text⟩
  simp [FileTree.createText, h.resolve hkey s, hfree, bind, Except.bind]

/-- **A text is moved to the place of the one that is there.** -/
theorem Opened.rename (h : t.Opened base c key place) (hkey : key.Named) {s r : Sheet} {text : String}
    (hs : c key s = some text) :
    ∃ u, t.rename (key.filePath base s) (key.filePath base r) = .ok u ∧
      u.Opened base ((c.set key s none).set key r (some text)) key place := by
  refine ⟨_, ?_, (h.erase hkey s).put hkey r text⟩
  cases hr : c key r <;> simp [FileTree.rename, h.resolve hkey, hs, hr, bind, Except.bind]

end Opened

section Kept

variable {t : FileTree} {base : String} {c : Contents} {key : StateKey}

/-- **The directory for the files of a key can be made, and is not made again.** -/
theorem Kept.open (h : t.Kept base c) (hkey : key.Named) :
    ∃ u place, t.makeDirectories (key.folderPath base) = .ok u ∧ u.Opened base c key place ∧
      (u = t ∨ ∀ s, c key s = none ∧ ∀ follow, t.resolve follow (key.filePath base s) = .error .notFound) := by
  obtain ⟨u, place, hready, hstocked, hmade⟩ := h
  obtain ⟨v, hv, hlaid, hmake, hsame⟩ := hready.makeAll (StateKey.plain_of_mem_folder hkey) (hstocked.ways key hkey)
  have hfolder : key.folder ≠ [] := by
    obtain ⟨names, name, hnames⟩ := key.folder_eq_concat
    simp [hnames]
  refine ⟨v, place, hmake hfolder, ⟨hready.leads.of_roads hlaid.grown.extends.roads, hv.leads,
    hstocked.of_laid hlaid hkey, hlaid.there⟩, ?_⟩
  by_cases hnone : ∀ s, c key s = none
  · rcases hv.made with rfl | ⟨hlost, -⟩
    · exact .inl rfl
    · exact .inr fun s => ⟨hnone s, hlost.resolve_join (StateKey.plain_fileName hkey s)⟩
  · -- where a file is, its directories are
    obtain ⟨s, hs⟩ := not_forall.1 hnone
    have hvu : v = u := hsame (hstocked.folders key hkey s hs)
    exact .inl (hvu.trans (hmade.resolve_right fun hall => hs (hall key hkey s)))

/-- A file is found as it stands, or its directory is missing. -/
theorem Kept.resolve (h : t.Kept base c) (hkey : key.Named) (s : Sheet) :
    (∃ place, ∀ follow, t.resolve follow (key.filePath base s) = .ok (place, (c key s).map .text)) ∨
      c key s = none ∧ ∀ follow, t.resolve follow (key.filePath base s) = .error .notFound := by
  obtain ⟨u, place, -, hopened, rfl | hmissing⟩ := h.open hkey
  · exact .inl ⟨_, hopened.resolve hkey s⟩
  · exact .inr (hmissing s)

/-- **A file is read as it stands.** -/
theorem Kept.readText (h : t.Kept base c) (hkey : key.Named) (s : Sheet) :
    t.readText (key.filePath base s) = (c key s).elim (.error .notFound) .ok := by
  rcases h.resolve hkey s with ⟨place, hresolve⟩ | ⟨hnone, hresolve⟩
  · cases hc : c key s <;> simp [FileTree.readText, hresolve, hc, bind, Except.bind]
  · simp [FileTree.readText, hresolve, hnone, bind, Except.bind]

theorem Kept.pathExists (h : t.Kept base c) (hkey : key.Named) (s : Sheet) :
    t.pathExists (key.filePath base s) = (c key s).isSome := by
  rcases h.resolve hkey s with ⟨place, hresolve⟩ | ⟨hnone, hresolve⟩
  · simp [FileTree.pathExists, find?, hresolve]
  · simp [FileTree.pathExists, find?, hresolve, hnone]

/-- **A file is removed if it is there.** -/
theorem Kept.remove (h : t.Kept base c) (hkey : key.Named) (s : Sheet) :
    (c key s = none ∧ t.remove (key.filePath base s) = .error .notFound) ∨
      ∃ u, t.remove (key.filePath base s) = .ok u ∧ u.Kept base (c.set key s none) := by
  obtain ⟨u, place, -, hopened, rfl | hmissing⟩ := h.open hkey
  · cases hc : c key s with
    | none => exact .inl ⟨rfl, by simp [FileTree.remove, hopened.resolve hkey, hc, bind, Except.bind]⟩
    | some text =>
      refine .inr ⟨_, ?_, (hopened.erase hkey s).kept⟩
      simp [FileTree.remove, hopened.resolve hkey, hc, bind, Except.bind]
  · obtain ⟨hnone, hresolve⟩ := hmissing s
    exact .inl ⟨hnone, by simp [FileTree.remove, hresolve, bind, Except.bind]⟩

end Kept

end FileTree

/-! ### Objects -/

namespace BucketStore

/-- Whether the objects of a store have these contents.  Records are written in their place, and there is no draft. -/
def Filed (objects : Table (Option String)) (p : BucketPlace) (c : Contents) : Prop :=
  ∀ key : StateKey, key.Named → ∀ s, s ≠ .draft → objects.lookup (key.objectName p s) = (c key s).map some

variable {objects changed : Table (Option String)} {p : BucketPlace} {c : Contents} {key : StateKey} {s : Sheet}

/-- One object changes, and nothing else. -/
theorem Filed.set (h : Filed objects p c) (hkey : key.Named) {x : Option String}
    (hself : changed.lookup (key.objectName p s) = x.map some)
    (hothers : ∀ name, name ≠ key.objectName p s → changed.lookup name = objects.lookup name) :
    Filed changed p (c.set key s x) := by
  intro k hk r hr
  by_cases hsame : k = key ∧ r = s
  · obtain ⟨rfl, rfl⟩ := hsame
    rw [hself, Contents.set_self]
  · rw [Contents.set_of_ne c x hsame, hothers, h k hk r hr]
    exact fun heq => hsame (StateKey.objectName_inj hk hkey heq)

/-- **An object is written in the place of the one that is there.** -/
theorem Filed.put (h : Filed objects p c) (hkey : key.Named) (s : Sheet) (text : String) :
    Filed (objects.put (key.objectName p s) (some text)) p (c.set key s (some text)) :=
  h.set hkey (Table.lookup_put_self objects _ _) fun _ hname => Table.lookup_put_ne objects _ hname

/-- **An object is removed.** -/
theorem Filed.erase (h : Filed objects p c) (hkey : key.Named) (s : Sheet) :
    Filed (objects.erase (key.objectName p s)) p (c.set key s none) :=
  h.set hkey (Table.lookup_erase_self objects _) fun _ hname => Table.lookup_erase_ne objects hname

end BucketStore

end Groundwork
