import Groundwork.Proofs.Config.Names
import Groundwork.Proofs.State.Places

/-!
# Files of a store never collide

The paths of a store are put together from names that users choose and from fixed ones, and the file of the lock
and the draft of a record are found from the record by another extension.  The names on two such paths are the same
only if the paths are for the same thing of the same key.

Below its base the lock of a store of files has the path that it has as an object below the start of a bucket,
although one is found by its extension and the other by cutting off an end.

Main statements: `LocalStore.path_inj`, `relative_lock` and, with the grammar of names, `state_files_apart`.
-/

namespace Groundwork

variable {k k' : StateKey} {s s' : Sheet}

/-! ### Paths below a base -/

/-- Where a store of files keeps a thing of a key. -/
def LocalStore.path (base : String) (k : StateKey) : Sheet → String
  | .record => recordPath base k
  | .lock => lockPath base k
  | .draft => draftPath base k

theorem LocalStore.path_eq (h : k.Named) (base : String) (s : Sheet) : path base k s = k.filePath base s := by
  cases s with
  | record => exact StateKey.recordPath_eq h base
  | lock => exact StateKey.lockPath_eq h base
  | draft => exact StateKey.draftPath_eq h base

/-- **The names on a path tell the key and what is kept there.** -/
theorem LocalStore.path_inj (h : k.Named) (h' : k'.Named) {base : String}
    (heq : File.pieces (path base k s) = File.pieces (path base k' s')) : k = k' ∧ s = s' := by
  rw [path_eq h, path_eq h', StateKey.pieces_filePath h, StateKey.pieces_filePath h'] at heq
  exact StateKey.slot_inj h h' (List.append_cancel_left heq)

namespace StateKey

/-- The path of a file below no base at all leads nowhere by itself. -/
theorem isAbsolute_filePath (h : k.Named) (s : Sheet) : File.isAbsolute (k.filePath "" s) = false := by
  rw [filePath, File.isAbsolute_join (plain_fileName h s), folderPath,
    File.isAbsolute_foldl_join (plain_of_mem_folder h)]
  rfl

/-- A file is at the same place below every base. -/
theorem filePath_eq_join (h : k.Named) (base : String) (s : Sheet) :
    k.filePath base s = File.join base (k.filePath "" s) := by
  apply String.toList_injective
  rw [File.toList_join (isAbsolute_filePath h s), toList_filePath h, toList_filePath h]
  rfl

/-- **A lock has the same path below every base and below the start of every bucket.** -/
theorem relative_lock (h : k.Named) : ∃ relative, File.isAbsolute relative = false ∧
    (∀ base, LocalStore.lockPath base k = File.join base relative) ∧
      ∀ p, BucketStore.lockName p k = p.start ++ relative := by
  refine ⟨k.filePath "" .lock, isAbsolute_filePath h .lock, fun base => ?_, fun p => ?_⟩
  · rw [lockPath_eq h, filePath_eq_join h]
  · rw [lockName_eq h, objectName]

end StateKey

/-! ### The places of two keys -/

/-- **Files of a store never collide.**  Let the parts of two keys be names.  Then, below any base, the paths of
their records, of their locks and of their drafts have different names on them, unless they are for the same thing
of the same key; and the lock has below the base the path that it has below the start of a bucket.  Names are
exactly the words of the grammar `[a-z][a-z0-9]*(-[a-z0-9]+)*`. -/
theorem state_files_apart (h : k.Named) (h' : k'.Named) :
    (∀ base s s', k ≠ k' ∨ s ≠ s' →
      File.pieces (LocalStore.path base k s) ≠ File.pieces (LocalStore.path base k' s')) ∧
    (∃ relative, File.isAbsolute relative = false ∧
      (∀ base, LocalStore.lockPath base k = File.join base relative) ∧
        ∀ p, BucketStore.lockName p k = p.start ++ relative) ∧
    ∀ name, Config.isName name = true ↔ name.toList ∈ Config.names := by
  refine ⟨fun base s s' hne heq => ?_, StateKey.relative_lock h, fun name => Config.isName_iff⟩
  obtain ⟨hkey, hsheet⟩ := LocalStore.path_inj h h' heq
  exact hne.elim (fun hk => hk hkey) fun hs => hs hsheet

/-- The whole of a datacenter and one of its environments, both with the names of directories and files of the
store itself. -/
theorem state_files_apart_reserved :
    StateKey.Named ⟨"environments", none⟩ ∧ StateKey.Named ⟨"environments", some "datacenter"⟩ ∧
      File.pieces (LocalStore.path "/base" ⟨"environments", none⟩ .lock) ≠
        File.pieces (LocalStore.path "/base" ⟨"environments", some "datacenter"⟩ .lock) := by
  have h : StateKey.Named ⟨"environments", none⟩ := by decide
  have h' : StateKey.Named ⟨"environments", some "datacenter"⟩ := by decide
  exact ⟨h, h', (state_files_apart h h').1 "/base" .lock .lock (Or.inl (by decide))⟩

end Groundwork
