import Mathlib.Data.List.Basic
import Groundwork.Config.Check
import Groundwork.State.Bucket.Model
import Groundwork.State.Local
import Groundwork.Proofs.Data.Table
import Groundwork.Proofs.File.Below

/-!
# Where stores keep what they keep

Each key has places of its own for its record, for its lock, and for the record that is about to take the place of
the old one: files below a directory, and objects of a bucket.

Main statements: two places are the same only if they are for the same (`slot_inj`), and so are the names of two
objects (`objectName_inj`).
-/

namespace Groundwork

/-- What a store keeps under a key. -/
inductive Sheet where
  | record
  | lock
  /-- A record that is not in its place yet. -/
  | draft
  deriving DecidableEq, Repr

/-- How the names of files end. -/
def Sheet.extension : Sheet → String
  | record => "json"
  | lock => "lock"
  | draft => "json.tmp"

namespace StateKey

/-- Whether the parts of a key are names. -/
def Named (k : StateKey) : Prop :=
  Config.isName k.datacenter = true ∧ ∀ environment, k.environment = some environment → Config.isName environment = true

instance (k : StateKey) : Decidable k.Named :=
  decidable_of_iff (Config.isName k.datacenter = true ∧ k.environment.all Config.isName = true)
    (and_congr_right fun _ => Option.all_eq_true ..)

/-- The directories, one in the other, that the files of a key are in. -/
def folder (k : StateKey) : List String :=
  match k.environment with
  | some _ => [k.datacenter, "environments"]
  | none => [k.datacenter]

/-- How the names of the files of a key begin. -/
def stem (k : StateKey) : String := k.environment.getD "datacenter"

/-- The name of a file in its directory. -/
def fileName (k : StateKey) (s : Sheet) : String := k.stem ++ "." ++ s.extension

/-- Where a file of a key is, below the base directory. -/
def slot (k : StateKey) (s : Sheet) : List String := k.folder ++ [k.fileName s]

/-- The path of the directory of the files of a key. -/
def folderPath (base : String) (k : StateKey) : String := k.folder.foldl File.join base

/-- The path of a file of a key. -/
def filePath (base : String) (k : StateKey) (s : Sheet) : String := File.join (k.folderPath base) (k.fileName s)

end StateKey

/-! ### Names -/

namespace Config

theorem not_mem_of_isName {name : String} (h : isName name = true) {c : Char} (hlower : c.isLower = false)
    (hname : isNameChar c = false) : c ∉ name.toList := by
  unfold isName at h
  cases hlist : name.toList with
  | nil => simp
  | cons d ds =>
    simp only [hlist, Bool.and_eq_true, List.all_eq_true] at h
    rintro hmem
    rcases List.mem_cons.1 hmem with rfl | hmem
    · simp [hlower] at h
    · simp [h.1.1.2 c hmem] at hname

theorem plain_of_isName {name : String} (h : isName name = true) : File.Plain name :=
  ⟨isName_ne_empty h, not_mem_of_isName h (by decide) (by decide),
    fun hlast => not_mem_of_isName h (by decide) (by decide) (List.mem_of_getLast? hlast)⟩

end Config

namespace StateKey

variable {k k' : StateKey} {s s' : Sheet}

theorem Named.stem_ne_empty (h : k.Named) : k.stem ≠ "" := by
  cases henv : k.environment with
  | none => simp [stem, henv]
  | some environment => simpa [stem, henv] using Config.isName_ne_empty (h.2 _ henv)

theorem Named.not_mem_stem (h : k.Named) {c : Char} (hlower : c.isLower = false) (hname : Config.isNameChar c = false) :
    c ∉ k.stem.toList := by
  cases henv : k.environment with
  | none =>
    have hdefault : c ∉ "datacenter".toList := Config.not_mem_of_isName (by decide) hlower hname
    simpa [stem, henv] using hdefault
  | some environment => simpa [stem, henv] using Config.not_mem_of_isName (h.2 _ henv) hlower hname

theorem isName_of_mem_folder (h : k.Named) {name : String} (hname : name ∈ k.folder) : Config.isName name = true := by
  cases henv : k.environment with
  | none =>
    obtain rfl : name = k.datacenter := by simpa [folder, henv] using hname
    exact h.1
  | some environment =>
    have hmem : name = k.datacenter ∨ name = "environments" := by simpa [folder, henv] using hname
    rcases hmem with rfl | rfl
    · exact h.1
    · decide

theorem plain_of_mem_folder (h : k.Named) : ∀ name ∈ k.folder, File.Plain name :=
  fun _ hname => Config.plain_of_isName (isName_of_mem_folder h hname)

theorem plain_fileName (h : k.Named) (s : Sheet) : File.Plain (k.fileName s) := by
  have hstroke : '/' ∉ k.stem.toList := h.not_mem_stem (by decide) (by decide)
  refine ⟨by simp [fileName], ?_, ?_⟩
  · cases s <;> simp [fileName, Sheet.extension, String.toList_append, hstroke]
  · cases s <;> simp [fileName, Sheet.extension, String.toList_append, List.getLast?_append]

theorem extension_inj (h : s.extension = s'.extension) : s = s' := by
  cases s <;> cases s' <;> first | rfl | (exfalso; revert h; decide)

theorem fileName_inj (h : k.Named) (h' : k'.Named) (heq : k.fileName s = k'.fileName s') :
    k.stem = k'.stem ∧ s = s' := by
  have hlist : k.stem.toList ++ '.' :: s.extension.toList = k'.stem.toList ++ '.' :: s'.extension.toList := by
    simpa [fileName, String.toList_append] using congrArg String.toList heq
  have hdot : '.' ∉ k.stem.toList := h.not_mem_stem (by decide) (by decide)
  have hdot' : '.' ∉ k'.stem.toList := h'.not_mem_stem (by decide) (by decide)
  have hsplit := congrArg (Text.splitOn '.') hlist
  rw [Text.splitOn_append, Text.splitOn_append, Text.splitOn_of_not_mem hdot, Text.splitOn_of_not_mem hdot'] at hsplit
  have hstem : k.stem.toList = k'.stem.toList := (List.cons.inj hsplit).1
  rw [hstem] at hlist
  have hextension := (List.cons.inj (List.append_cancel_left hlist)).2
  exact ⟨String.toList_injective hstem, extension_inj (String.toList_injective hextension)⟩

/-- **A place is for one thing of one key.** -/
theorem slot_inj (h : k.Named) (h' : k'.Named) (heq : k.slot s = k'.slot s') : k = k' ∧ s = s' := by
  obtain ⟨hfolder, hlast⟩ := List.append_inj' heq rfl
  obtain ⟨hstem, hsheet⟩ := fileName_inj h h' (List.singleton_inj.1 hlast)
  refine ⟨?_, hsheet⟩
  obtain ⟨d, e⟩ := k
  obtain ⟨d', e'⟩ := k'
  cases e <;> cases e' <;> simp_all [folder, stem]

/-- A file is no directory that files are in. -/
theorem slot_ne_front (k : StateKey) (s : Sheet) (h' : k'.Named) {front : List String} (hfront : front <+: k'.folder) :
    k.slot s ≠ front := by
  intro heq
  have hmem : k.fileName s ∈ k'.folder := hfront.subset (by simp [← heq, slot])
  have hdot := Config.not_mem_of_isName (isName_of_mem_folder h' hmem) (c := '.') (by decide) (by decide)
  simp [fileName, String.toList_append] at hdot

/-! ### Paths -/

theorem folder_eq_concat (k : StateKey) : ∃ names name, k.folder = names ++ [name] := by
  cases henv : k.environment with
  | none => exact ⟨[], k.datacenter, by simp [folder, henv]⟩
  | some environment => exact ⟨[k.datacenter], "environments", by simp [folder, henv]⟩

theorem trimmed_folderPath (h : k.Named) (base : String) : File.trimmed (k.folderPath base) = k.folderPath base := by
  obtain ⟨names, name, hfolder⟩ := folder_eq_concat k
  have hname : File.Plain name := plain_of_mem_folder h name (by simp [hfolder])
  rw [folderPath, hfolder, List.foldl_append, List.foldl_cons, List.foldl_nil, File.trimmed_join hname]

theorem parent?_filePath (h : k.Named) (base : String) (s : Sheet) :
    File.parent? (k.filePath base s) = some (k.folderPath base) := by
  rw [filePath, File.parent?_join (plain_fileName h s), trimmed_folderPath h]

/-- What comes before the name of a file, after the base. -/
def front (k : StateKey) : List Char := k.folder.flatMap fun name => name.toList ++ ['/']

theorem toList_filePath (h : k.Named) (base : String) (s : Sheet) :
    (k.filePath base s).toList = File.lead base ++ (k.front ++ (k.fileName s).toList) := by
  rw [filePath, File.toList_join_plain (plain_fileName h s), folderPath,
    File.lead_foldl_join (plain_of_mem_folder h), front, List.append_assoc]

theorem toList_relativePath (k : StateKey) :
    k.relativePath.toList = k.front ++ (k.stem.toList ++ ".json".toList) := by
  cases henv : k.environment <;>
    simp [relativePath, front, folder, stem, henv, String.toList_append]

theorem toList_fileName (k : StateKey) (s : Sheet) :
    (k.fileName s).toList = k.stem.toList ++ ("." ++ s.extension).toList := by
  simp [fileName, String.toList_append]

theorem recordPath_eq (h : k.Named) (base : String) : LocalStore.recordPath base k = k.filePath base .record := by
  have hplain := Config.plain_of_isName h.1
  have habsolute : File.isAbsolute k.relativePath = false := by
    have hnot := hplain.isAbsolute_eq_false
    rw [File.isAbsolute_eq] at hnot ⊢
    cases hlist : k.datacenter.toList with
    | nil => exact absurd hlist hplain.toList_ne_nil
    | cons c cs =>
      rw [hlist] at hnot
      rw [toList_relativePath, front]
      cases henv : k.environment <;> simpa [folder, henv, hlist] using hnot
  apply String.toList_injective
  rw [LocalStore.recordPath, File.toList_join habsolute, toList_filePath h, toList_relativePath, toList_fileName]
  rfl

theorem lockPath_eq (h : k.Named) (base : String) : LocalStore.lockPath base k = k.filePath base .lock := by
  rw [LocalStore.lockPath, recordPath_eq h]
  exact File.withExtension_join _ (plain_fileName h .record) h.stem_ne_empty (by decide) "lock"

theorem draftPath_eq (h : k.Named) (base : String) : LocalStore.draftPath base k = k.filePath base .draft := by
  rw [LocalStore.draftPath, recordPath_eq h]
  exact File.withExtension_join _ (plain_fileName h .record) h.stem_ne_empty (by decide) "json.tmp"

theorem pieces_filePath (h : k.Named) (base : String) (s : Sheet) :
    File.pieces (k.filePath base s) = File.pieces base ++ k.slot s := by
  rw [filePath, File.pieces_join (plain_fileName h s), folderPath,
    File.pieces_foldl_join (plain_of_mem_folder h), slot, List.append_assoc]

/-! ### Names of objects -/

/-- The name of an object of a key, after what all names start with. -/
def objectName (p : BucketPlace) (k : StateKey) (s : Sheet) : String := p.start ++ k.filePath "" s

theorem toList_objectName (h : k.Named) (p : BucketPlace) (s : Sheet) :
    (k.objectName p s).toList = p.start.toList ++ (k.front ++ (k.fileName s).toList) := by
  rw [objectName, String.toList_append, toList_filePath h]
  rfl

theorem recordName_eq (h : k.Named) (p : BucketPlace) : BucketStore.recordName p k = k.objectName p .record := by
  apply String.toList_injective
  rw [BucketStore.recordName, String.toList_append, toList_relativePath, toList_objectName h, toList_fileName]
  rfl

theorem lockName_eq (h : k.Named) (p : BucketPlace) : BucketStore.lockName p k = k.objectName p .lock := by
  have hname : (BucketStore.recordName p k).toList =
      (p.start.toList ++ (k.front ++ k.stem.toList)) ++ ".json".toList := by
    simp [BucketStore.recordName, String.toList_append, toList_relativePath]
  apply String.toList_injective
  simp only [BucketStore.lockName, hname, Text.dropFinish_append, Option.getD_some]
  rw [toList_objectName h, toList_fileName, String.toList_append, String.toList_ofList, List.append_assoc,
    List.append_assoc]
  rfl

/-- **An object is for one thing of one key.** -/
theorem objectName_inj (h : k.Named) (h' : k'.Named) {p : BucketPlace}
    (heq : k.objectName p s = k'.objectName p s') : k = k' ∧ s = s' := by
  have hlist := congrArg String.toList heq
  rw [toList_objectName h, toList_objectName h'] at hlist
  have hpath : k.filePath "" s = k'.filePath "" s' := by
    apply String.toList_injective
    rw [toList_filePath h, toList_filePath h', List.append_cancel_left hlist]
  have hpieces := congrArg File.pieces hpath
  rw [pieces_filePath h, pieces_filePath h'] at hpieces
  exact slot_inj h h' (List.append_cancel_left hpieces)

end StateKey

end Groundwork
