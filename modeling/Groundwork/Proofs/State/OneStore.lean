import Groundwork.Proofs.State.Agreement

/-!
# One store

A store of files and a store in a bucket answer alike, from the beginning and for ever: as one cabinet would.  In
the beginning there is nothing under any name; even the directory of a store of files may be missing.

A record is not always read as it was saved: one with another version is refused, and of one that cannot be
written down as it is, the text tells something else (`load_refuses_saved`).

Main statement: `stores_agree`.
-/

namespace Groundwork

/-- Whether the directory of a store is there or can be made, with nothing in it under a name. -/
def FileTree.Vacant (t : FileTree) (base : String) : Prop :=
  ∃ u place, (u = t ∨ t.makeDirectories (File.trimmed base) = .ok u) ∧ u.Leads base place ∧
    ∀ name rest, Config.isName name = true → u.standsAt? (place ++ name :: rest) = none

/-- Whether no call of a bucket fails, and no object is there for a key. -/
structure BucketWorld.Vacant (w : BucketWorld) (p : BucketPlace) : Prop where
  faultless : w.faults = []
  record : ∀ key : StateKey, key.Named → w.objects.lookup (BucketStore.recordName p key) = none
  lock : ∀ key : StateKey, key.Named → w.objects.lookup (BucketStore.lockName p key) = none

theorem Cabinet.contents_empty (clock : Nat → Instant) (names : Names) :
    empty.contents clock names = Contents.empty := by
  funext key s
  cases s <;> rfl

/-- In the beginning a store of files has no contents. -/
theorem FileTree.Vacant.kept {t : FileTree} {base : String} (h : t.Vacant base) : t.Kept base Contents.empty := by
  obtain ⟨u, place, hmade, hleads, hfree⟩ := h
  have hfolder : ∀ key : StateKey, ∃ rest, key.folder = key.datacenter :: rest := by
    intro key
    cases henv : key.environment with
    | none => exact ⟨[], by simp [StateKey.folder, henv]⟩
    | some environment => exact ⟨["environments"], by simp [StateKey.folder, henv]⟩
  have hready : t.Ready base u place := by
    rcases hmade with rfl | hmake
    · exact hleads.ready
    · exact ⟨hleads, (lost_of_makeDirectories hmake).imp_right fun hlost => ⟨hlost, hmake⟩⟩
  refine ⟨u, place, hready, ⟨fun key hkey s => ?_, fun key hkey front hfront hne => .inl ?_, ?_⟩,
    .inr fun _ _ _ => rfl⟩
  · obtain ⟨rest, hrest⟩ := hfolder key
    rw [StateKey.slot, hrest, List.cons_append]
    exact hfree _ _ hkey.1
  · obtain ⟨rest, hrest⟩ := hfolder key
    rw [hrest] at hfront
    obtain ⟨rest', rfl, -⟩ := (List.prefix_cons_iff.1 hfront).resolve_left hne
    exact hfree _ _ hkey.1
  · exact fun key hkey s hs => absurd rfl hs

/-- In the beginning a store in a bucket has no contents. -/
theorem BucketWorld.Vacant.sound {w : BucketWorld} {p : BucketPlace} (h : w.Vacant p) :
    BucketStore.Sound p w Contents.empty := by
  refine ⟨h.faultless, fun key hkey s hs => ?_⟩
  cases s with
  | record => rw [← StateKey.recordName_eq hkey, h.record key hkey]; rfl
  | lock => rw [← StateKey.lockName_eq hkey, h.lock key hkey]; rfl
  | draft => exact absurd rfl hs

section Replies

variable {clock : Nat → Instant} (hclock : ∀ n, Lock.Datable (clock n)) {names : Names}
  (hids : Function.Injective names.ids) {commands : List StoreCommand} (hnamed : ∀ c ∈ commands, c.key.Named)
include hclock hids hnamed

/-- **A store of files gives the answers of a cabinet.** -/
theorem LocalStore.replies_eq {base : String} {w : FileWorld} (hw : w.tree.Vacant base) :
    (store base).replies clock names FileWorld.answer commands w .zero =
      (Cabinet.empty.replies clock commands).map (Except.map (StoreReply.map (Ticket.lock clock names))) := by
  refine ((keeps base).refines hclock hids).replies_eq hnamed (k := Cabinet.empty) ?_
  rw [Cabinet.contents_empty]
  exact hw.kept

/-- **A store in a bucket gives the answers of a cabinet.** -/
theorem BucketStore.replies_eq {p : BucketPlace} {w : BucketWorld} (hw : w.Vacant p) :
    (store p).replies clock names BucketWorld.answer commands w .zero =
      (Cabinet.empty.replies clock commands).map (Except.map (StoreReply.map (Ticket.lock clock names))) := by
  refine ((keeps p).refines hclock hids).replies_eq hnamed (k := Cabinet.empty) ?_
  rw [Cabinet.contents_empty]
  exact hw.sound

end Replies

/-- **Two stores are one.**  A store of files and a store in a bucket that are asked the same, under the same times
but each with its own names, both give the answers of one cabinet.  There a record is what was saved last since it
was deleted last, it is read as its text tells, a lock is given exactly where none is held, and is given back by
its own name only; nothing that is done to a lock changes a record, and nothing under one key changes another. -/
theorem stores_agree {clock : Nat → Instant} (hclock : ∀ n, Lock.Datable (clock n)) {files objects : Names}
    (hfiles : Function.Injective files.ids) (hobjects : Function.Injective objects.ids) {base : String}
    {w : FileWorld} (hw : w.tree.Vacant base) {p : BucketPlace} {v : BucketWorld} (hv : v.Vacant p)
    {commands : List StoreCommand} (hnamed : ∀ c ∈ commands, c.key.Named) :
    (LocalStore.store base).replies clock files FileWorld.answer commands w .zero =
        (Cabinet.empty.replies clock commands).map (Except.map (StoreReply.map (Ticket.lock clock files))) ∧
      (BucketStore.store p).replies clock objects BucketWorld.answer commands v .zero =
        (Cabinet.empty.replies clock commands).map (Except.map (StoreReply.map (Ticket.lock clock objects))) ∧
      (∀ key, (Cabinet.empty.after clock commands).records key = Cabinet.lastSaved key commands) ∧
      (∀ r : Record, r.Writable →
        Record.told r.render = if r.version = Record.currentVersion then .ok r else .error "VersionMismatch") ∧
      (Cabinet.empty.after clock commands).Laws clock :=
  ⟨LocalStore.replies_eq hclock hfiles hnamed hw, BucketStore.replies_eq hclock hobjects hnamed hv,
    Cabinet.records_after clock commands, fun _ hr => Record.told_render hr, Cabinet.laws_after clock commands⟩

/-! ### Samples -/

/-- A clock that stops in the end. -/
def sampleClock (n : Nat) : Instant := Instant.epoch.addSeconds (1000 * min n 9)

/-- Names of which each is longer than the one before. -/
def sampleNames (c : Char) : Names := ⟨fun n => String.ofList (List.replicate n c), fun _ => String.singleton c⟩

theorem datable_sampleClock (n : Nat) : Lock.Datable (sampleClock n) := by
  have hall : ∀ i ∈ List.range 10, Lock.Datable (Instant.epoch.addSeconds (1000 * i)) := by decide
  exact hall _ (List.mem_range.2 (by omega))

theorem injective_sampleNames (c : Char) : Function.Injective (sampleNames c).ids := by
  intro m n h
  have hlength := congrArg (fun s : String => s.toList.length) h
  simpa [sampleNames] using hlength

/-- Below the directory of a store nothing is where nothing is at all. -/
theorem vacant_empty : FileTree.empty.Vacant ".infragraph" := by
  have hname : File.Plain ".infragraph" := by decide +kernel
  have hleads : FileTree.empty.Leads "" [] := by
    have hpieces : File.pieces "" = [] := by decide
    rw [FileTree.Leads, hpieces]
    exact FileTree.walk_nil _ _ _ _
  obtain ⟨hready, hmake⟩ := hleads.ready.make hname rfl
  have hjoin : File.join "" ".infragraph" = ".infragraph" := by decide +kernel
  have htrimmed : File.trimmed ".infragraph" = ".infragraph" := by decide +kernel
  rw [hjoin] at hready hmake
  refine ⟨_, _, .inr (by rw [htrimmed, hmake]), hready.leads, fun name rest _ => ?_⟩
  rw [FileTree.standsAt?_put_of_ne _ _ (by simp)]
  rfl

theorem vacant_noObjects (p : BucketPlace) : BucketWorld.Vacant ⟨[], [], default⟩ p :=
  ⟨rfl, fun _ _ => rfl, fun _ _ => rfl⟩

/-- The key of an environment. -/
def sampleKey : StateKey := ⟨"dc", some "prod"⟩

/-- A lock is taken, refused, taken over, not given back by its old name, and given back. -/
def sampleCommands (r : Record) : List StoreCommand :=
  [.acquire sampleKey "apply", .acquire sampleKey "apply", .save r, .acquire sampleKey "apply",
    .release sampleKey 0, .isLocked sampleKey, .load sampleKey, .release sampleKey 1, .lock? sampleKey,
    .delete sampleKey, .load sampleKey]

/-- The answers to these operations. -/
def sampleAnswers (r : Record) : List (Except String (StoreReply Ticket)) :=
  [.ok (.taken ⟨⟨0, 0, 0⟩, sampleKey, "apply"⟩), .error "LockedByOther", .ok .finished,
    .ok (.taken ⟨⟨3, 1, 1⟩, sampleKey, "apply"⟩), .ok .finished, .ok (.truth true),
    .ok (.record (some r)), .ok .finished, .ok (.lock none), .ok .finished,
    .ok (.record none)]

theorem writable_fresh (version : String) (key : StateKey) :
    Record.Writable { Record.fresh Instant.epoch key with version := version } := by
  have hepoch : Instant.epoch.Writable := by decide
  have hnumbers : Value.numbers { Record.fresh Instant.epoch key with version := version }.toValue = [] := by
    obtain ⟨datacenter, _ | environment⟩ := key <;> rfl
  have hheight : Value.height { Record.fresh Instant.epoch key with version := version }.toValue = 3 := by
    obtain ⟨datacenter, _ | environment⟩ := key <;> rfl
  refine ⟨fun n hn => ?_, fun e he => ?_, hepoch, fun n hn => ?_, by rw [hheight]; decide⟩
  · cases (hn : n ∈ ([] : List InfraNode))
  · cases (he : e ∈ ([] : List HistoryEntry))
  · rw [hnumbers] at hn
    cases hn

theorem replies_sample {r : Record} (hkey : r.key = sampleKey) (htold : Record.told r.render = .ok r) :
    Cabinet.empty.replies sampleClock (sampleCommands r) = sampleAnswers r := by
  have hheld : Ticket.isExpired sampleClock (sampleClock 1) ⟨⟨0, 0, 0⟩, sampleKey, "apply"⟩ = false := by decide
  have hexpired : Ticket.isExpired sampleClock (sampleClock 2) ⟨⟨0, 0, 0⟩, sampleKey, "apply"⟩ = true := by decide
  have hheld' : Ticket.isExpired sampleClock (sampleClock 4) ⟨⟨3, 1, 1⟩, sampleKey, "apply"⟩ = false := by decide
  simp [sampleCommands, sampleAnswers, Cabinet.replies, Cabinet.step, Cabinet.empty, Cabinet.take, Cabinet.look,
    Cabinet.unlock, hheld, hexpired, hheld', Ticket.number, Marks.take, Marks.look, Marks.zero, hkey, htold,
    Except.map]

/-- Two stores are asked the same while a lock expires. -/
theorem stores_agree_sample :
    (∀ n, Lock.Datable (sampleClock n)) ∧
    Function.Injective (sampleNames 'a').ids ∧ Function.Injective (sampleNames 'b').ids ∧
    FileTree.empty.Vacant ".infragraph" ∧ BucketWorld.Vacant ⟨[], [], default⟩ ⟨"bucket", ""⟩ ∧
    (∀ c ∈ sampleCommands (.fresh .epoch sampleKey), c.key.Named) ∧
    (LocalStore.store ".infragraph").replies sampleClock (sampleNames 'a') FileWorld.answer
        (sampleCommands (.fresh .epoch sampleKey)) ⟨FileTree.empty, default⟩ .zero =
      (sampleAnswers (.fresh .epoch sampleKey)).map
        (Except.map (StoreReply.map (Ticket.lock sampleClock (sampleNames 'a')))) ∧
    (BucketStore.store ⟨"bucket", ""⟩).replies sampleClock (sampleNames 'b') BucketWorld.answer
        (sampleCommands (.fresh .epoch sampleKey)) ⟨[], [], default⟩ .zero =
      (sampleAnswers (.fresh .epoch sampleKey)).map
        (Except.map (StoreReply.map (Ticket.lock sampleClock (sampleNames 'b')))) := by
  have hnamed : ∀ c ∈ sampleCommands (.fresh .epoch sampleKey), c.key.Named := by decide
  have htold : Record.told (Record.fresh Instant.epoch sampleKey).render = .ok (.fresh .epoch sampleKey) := by
    have hwritable := Record.told_render (writable_fresh Record.currentVersion sampleKey)
    rwa [if_pos rfl] at hwritable
  have hall := stores_agree datable_sampleClock (injective_sampleNames 'a') (injective_sampleNames 'b')
    (w := ⟨FileTree.empty, default⟩) vacant_empty (vacant_noObjects ⟨"bucket", ""⟩) hnamed
  rw [replies_sample rfl htold] at hall
  exact ⟨datable_sampleClock, injective_sampleNames 'a', injective_sampleNames 'b', vacant_empty, vacant_noObjects _,
    hnamed, hall.1, hall.2.1⟩

/-- A record with a version that is no longer understood. -/
def oldRecord : Record := { Record.fresh Instant.epoch (.whole "dc") with version := "0.1" }

theorem replies_of_told {r : Record} {e : String} (htold : Record.told r.render = .error e) :
    Cabinet.empty.replies sampleClock [.save r, .load r.key] = [.ok .finished, .error e] := by
  simp [Cabinet.replies, Cabinet.step, Cabinet.empty, htold, Except.map]

/-- **A record that was saved is not always loaded.**  Both stores save a record with any version, and refuse to
load one with another version than theirs. -/
theorem load_refuses_saved :
    Cabinet.lastSaved (.whole "dc") [.save oldRecord] = some oldRecord ∧
    (LocalStore.store ".infragraph").replies sampleClock (sampleNames 'a') FileWorld.answer
        [.save oldRecord, .load (.whole "dc")] ⟨FileTree.empty, default⟩ .zero =
      [.ok .finished, .error "VersionMismatch"] ∧
    (BucketStore.store ⟨"bucket", ""⟩).replies sampleClock (sampleNames 'a') BucketWorld.answer
        [.save oldRecord, .load (.whole "dc")] ⟨[], [], default⟩ .zero =
      [.ok .finished, .error "VersionMismatch"] := by
  have hnamed : ∀ c ∈ [StoreCommand.save oldRecord, .load (.whole "dc")], c.key.Named := by decide
  have htold : Record.told oldRecord.render = .error "VersionMismatch" := by
    have hwritable := Record.told_render (writable_fresh "0.1" (.whole "dc"))
    rwa [if_neg (by decide)] at hwritable
  have hreplies : Cabinet.empty.replies sampleClock [.save oldRecord, .load (.whole "dc")] =
      [.ok .finished, .error "VersionMismatch"] := replies_of_told htold
  refine ⟨rfl, ?_, ?_⟩
  · rw [LocalStore.replies_eq datable_sampleClock (injective_sampleNames 'a') hnamed vacant_empty, hreplies]
    rfl
  · rw [BucketStore.replies_eq datable_sampleClock (injective_sampleNames 'a') hnamed (vacant_noObjects _), hreplies]
    rfl

end Groundwork
