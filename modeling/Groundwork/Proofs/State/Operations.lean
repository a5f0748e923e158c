import Groundwork.State.Bucket.Model
import Groundwork.State.Local
import Groundwork.Proofs.Effect.Endings

/-!
# What the operations of stores ask

Each operation of a store as the plain program that it comes to, question by question.
-/

namespace Groundwork

/-! ### Files -/

theorem FileWorld.run_change (f : FileTree → Except FileError FileTree) (w : FileWorld) :
    (FileWorld.change f).run w =
      match f w.tree with
      | .ok tree => (.ok (), { w with tree })
      | .error e => (.error e, w) := rfl

namespace LocalStore

/-- What is made of the answer when a lock file is read. -/
def lockRead (path : String) : Except FileError String → Except StateError (Option Lock)
  | .error .notFound => .ok none
  | .error e => .error (.corrupted ("Failed to read lock file: " ++ e.message))
  | .ok text =>
      match Lock.ofText? text with
      | some l => .ok (some l)
      | none => .error (.corrupted ("Failed to parse lock file " ++ path ++ ": not a lock"))

theorem run_lock? (base : String) (key : StateKey) :
    (lock? base key).run = .ask (.second (.readText (lockPath base key))) fun b =>
      .done (lockRead (lockPath base key) b) := by
  simp only [lock?, ask, Program.call, Program.run_query_bind]
  refine congrArg (Program.ask _) (funext fun b => ?_)
  rcases b with e | text
  · cases e <;> rfl
  · simp only [lockRead]
    cases Lock.ofText? text <;> rfl

/-- What is made of the answer when a lock file is removed. -/
def lockRemoved : Except FileError Unit → Except StateError Unit
  | .ok () | .error .notFound => .ok ()
  | .error e => .error (.lockFailed ("Failed to delete lock file: " ++ e.message))

theorem run_removeLock (base : String) (key : StateKey) :
    (removeLock base key).run = .ask (.second (.remove (lockPath base key))) fun b => .done (lockRemoved b) := by
  refine congrArg (Program.ask _) (funext fun b => ?_)
  rcases b with e | _
  · cases e <;> rfl
  · rfl

theorem run_attempt (q : FileCall (Except FileError Unit)) (word : String → StateError) :
    (attempt q word).run = .ask (.second q) fun b => .done (b.mapError fun e => word e.message) := by
  refine congrArg (Program.ask _) (funext fun b => ?_)
  rcases b with e | _ <;> rfl

/-- A program that comes after the directory of a file is made. -/
def afterParent (path : String) (p : FileProgram (Except StateError α)) : FileProgram (Except StateError α) :=
  match File.parent? path with
  | none => p
  | some parent => .ask (.second (.makeDirectories parent)) fun b =>
      match b with
      | .ok () => p
      | .error e => .done (.error (.storage ("Failed to create " ++ parent ++ ": " ++ e.message)))

theorem run_makeParent_bind (path : String) (p : StoreProgram α) :
    (makeParent path >>= fun _ => p).run = afterParent path p.run := by
  rw [Program.run_bind_orEnd]
  unfold makeParent afterParent
  cases File.parent? path with
  | none => rfl
  | some parent =>
    simp only [run_attempt, Program.bind_ask, Program.bind_done]
    refine congrArg (Program.ask _) (funext fun b => ?_)
    rcases b with e | _ <;> rfl

theorem run_writeLock (base : String) (l : Lock) :
    (writeLock base l).run = afterParent (lockPath base l.key)
      (.ask (.second (.createText (lockPath base l.key) l.render)) fun b =>
        .done (b.mapError fun e => .lockFailed ("Failed to create lock file: " ++ e.message))) := by
  simp only [writeLock, run_makeParent_bind, run_attempt]

/-- What is left to do when no lock is in the way. -/
def takeFree (base : String) (key : StateKey) (operation : String) : StoreProgram Lock := do
  let now ← ExceptT.lift Program.clock
  let id ← ExceptT.lift Program.freshId
  let l := Lock.take now id (← ExceptT.lift Program.holder) key operation
  writeLock base l
  note .info s!"Acquired state lock on {key.render}: {l.id} (expires in {Lock.lifetime}s)"
  return l

theorem run_takeFree (base : String) (key : StateKey) (operation : String) : (takeFree base key operation).run =
  .ask (.first .clock) fun now => .ask (.first .freshId) fun id => .ask (.first .holder) fun holder =>
    let l := Lock.take now id holder key operation
    (writeLock base l).run.bind <| Program.orEnd fun _ =>
      .ask (.first (.note ⟨.info, s!"Acquired state lock on {key.render}: {l.id} (expires in {Lock.lifetime}s)"⟩))
        fun _ => .done (.ok l) := by
  simp only [takeFree, Program.clock, Program.freshId, Program.holder, note, Program.note, Program.run_query_bind]
  simp only [Program.run_bind_orEnd (writeLock base _), Program.run_query_bind]
  rfl

theorem run_acquire (base : String) (key : StateKey) (operation : String) :
    (acquire base key operation).run =
      .ask (.second (.readText (lockPath base key))) fun b =>
        match lockRead (lockPath base key) b with
        | .error e => .done (.error e)
        | .ok none => (takeFree base key operation).run
        | .ok (some l) => .ask (.first .clock) fun now =>
            if l.isExpired now then
              .ask (.first (.note ⟨.debug, "Expired lock on " ++ key.render ++ " found, taking over"⟩)) fun _ =>
                .ask (.second (.remove (lockPath base key))) fun b =>
                  Program.orEnd (fun _ => (takeFree base key operation).run) (lockRemoved b)
            else
              .ask (.first (.note ⟨.warn, "State " ++ key.render ++ " is locked by " ++ l.holder⟩)) fun _ =>
                .done (.error l.refusal) := by
  simp only [acquire, Program.run_bind_orEnd, run_lock?, Program.bind_ask, Program.bind_done]
  refine congrArg (Program.ask _) (funext fun b => ?_)
  rcases lockRead (lockPath base key) b with e | _ | l
  · rfl
  · simp only [Program.orEnd_ok, takeFree]
  · simp only [Program.orEnd_ok, Program.clock, note, Program.note, Program.run_query_bind]
    refine congrArg (Program.ask _) (funext fun now => ?_)
    cases l.isExpired now with
    | false => rfl
    | true =>
      simp only [Bool.not_true, Bool.false_eq_true, if_false, if_true, Program.run_query_bind]
      refine congrArg (Program.ask _) (funext fun _ => ?_)
      simp only [Program.run_bind_orEnd (removeLock base key), run_removeLock, Program.bind_ask, Program.bind_done,
        takeFree, Program.clock, note, Program.note]

/-- What is made of the text of a record file. -/
def recordRead (path text : String) : Except StateError (Option Record) :=
  match Record.ofText? text with
  | none => .error (.corrupted ("Failed to parse " ++ path ++ ": not a record"))
  | some r => r.checkVersion.map some

theorem run_load (base : String) (key : StateKey) :
    (load base key).run = .ask (.second (.readText (recordPath base key))) fun b =>
      match b with
      | .error .notFound =>
          .ask (.first (.note ⟨.debug, "No state for " ++ key.render ++ " at " ++ recordPath base key⟩)) fun _ =>
            .done (.ok none)
      | .error e => .done (.error (.storage ("Failed to read " ++ recordPath base key ++ ": " ++ e.message)))
      | .ok text =>
          .ask (.first (.note ⟨.info, "Loading state from: " ++ recordPath base key⟩)) fun _ =>
            .done (recordRead (recordPath base key) text) := by
  simp only [load, ask, Program.call, Program.run_query_bind]
  refine congrArg (Program.ask _) (funext fun b => ?_)
  rcases b with e | text
  · cases e <;> rfl
  · simp only [note, Program.note, Program.run_query_bind, recordRead]
    refine congrArg (Program.ask _) (funext fun _ => ?_)
    cases Record.ofText? text with
    | none => rfl
    | some r => cases hversion : r.checkVersion <;> simp only [hversion] <;> rfl

theorem run_save (base : String) (r : Record) :
    (save base r).run = afterParent (recordPath base r.key)
      (.ask (.first (.note ⟨.info, "Saving state to: " ++ recordPath base r.key⟩)) fun _ =>
        .ask (.second (.writeText (draftPath base r.key) r.render)) fun b =>
          Program.orEnd
            (fun _ => .ask (.second (.rename (draftPath base r.key) (recordPath base r.key))) fun b =>
              Program.orEnd
                (fun _ => .ask (.first (.note ⟨.debug, "State saved for " ++ r.key.render⟩)) fun _ => .done (.ok ()))
                (b.mapError fun e => .storage ("Failed to rename state file: " ++ e.message)))
            (b.mapError fun e => .storage ("Failed to create temp state file: " ++ e.message))) := by
  simp only [save, run_makeParent_bind, note, Program.note, Program.run_query_bind,
    Program.run_bind_orEnd (attempt _ _), run_attempt, Program.bind_ask, Program.bind_done]
  rfl

theorem run_delete (base : String) (key : StateKey) :
    (delete base key).run = .ask (.second (.remove (recordPath base key))) fun b =>
      match b with
      | .ok () =>
          .ask (.first (.note ⟨.info, "Deleted state file: " ++ recordPath base key⟩)) fun _ =>
            (removeLock base key).run
      | .error .notFound => (removeLock base key).run
      | .error e => .done (.error (.storage ("Failed to delete state file: " ++ e.message))) := by
  simp only [delete, ask, Program.call, Program.run_query_bind]
  refine congrArg (Program.ask _) (funext fun b => ?_)
  rcases b with e | _
  · cases e <;> rfl
  · rfl

theorem run_hasRecord (base : String) (key : StateKey) :
    ((store base).hasRecord key).run = .ask (.second (.pathExists (recordPath base key))) fun b => .done (.ok b) :=
  rfl

theorem run_release (base : String) (key : StateKey) (id : String) :
    (release base key id).run = .ask (.second (.readText (lockPath base key))) fun b =>
      match lockRead (lockPath base key) b with
      | .error e => .done (.error e)
      | .ok none => .done (.ok ())
      | .ok (some l) =>
          if l.id = id then
            .ask (.second (.remove (lockPath base key))) fun b =>
              Program.orEnd
                (fun _ => .ask (.first (.note ⟨.info, "Released state lock on " ++ key.render⟩)) fun _ =>
                  .done (.ok ()))
                (lockRemoved b)
          else
            .ask (.first (.note ⟨.debug,
              "Lock id mismatch on " ++ key.render ++ ": expected " ++ id ++ ", found " ++ l.id⟩)) fun _ =>
              .done (.ok ()) := by
  simp only [release, Program.run_bind_orEnd, run_lock?, Program.bind_ask, Program.bind_done]
  refine congrArg (Program.ask _) (funext fun b => ?_)
  rcases lockRead (lockPath base key) b with e | _ | l
  · rfl
  · rfl
  · simp only [Program.orEnd_ok]
    by_cases hid : l.id = id
    · simp only [hid, if_true, Program.run_bind_orEnd, run_removeLock, Program.bind_ask, Program.bind_done]
      rfl
    · simp only [hid, if_false]
      rfl

theorem run_forceUnlock (base : String) (key : StateKey) :
    (forceUnlock base key).run = .ask (.first (.note ⟨.warn, "Force unlocking state " ++ key.render⟩)) fun _ =>
      (removeLock base key).run := rfl

theorem run_isLocked (base : String) (key : StateKey) :
    (isLocked base key).run = .ask (.second (.readText (lockPath base key))) fun b =>
      match lockRead (lockPath base key) b with
      | .error e => .done (.error e)
      | .ok none => .done (.ok false)
      | .ok (some l) => .ask (.first .clock) fun now => .done (.ok (!l.isExpired now)) := by
  simp only [isLocked, Program.run_bind_orEnd, run_lock?, Program.bind_ask, Program.bind_done]
  refine congrArg (Program.ask _) (funext fun b => ?_)
  rcases lockRead (lockPath base key) b with e | _ | l <;> rfl

end LocalStore

/-! ### Objects -/

namespace BucketWorld

variable {w : BucketWorld}

theorem run_unlessFault (hfaults : w.faults = []) (method : BucketMethod)
    (act : StateM BucketWorld (Except BucketRefusal α)) : (unlessFault method act).run w = act.run w := by
  simp only [unlessFault, StateT.run_bind, StateT.run_get, pure_bind, hfaults, List.find?_nil]

theorem run_get (hfaults : w.faults = []) (name : String) : (answer (.get name)).run w =
    (match w.objects.lookup name with
      | some o => .ok o
      | none => .error ⟨"NoSuchKey"⟩, w) := by
  simp only [answer, run_unlessFault hfaults, StateT.run_bind, StateT.run_get, pure_bind]
  cases w.objects.lookup name <;> rfl

theorem run_put (hfaults : w.faults = []) (name text : String) : (answer (.put name text)).run w =
    (.ok (), { w with objects := Table.put w.objects name (some text) }) := by
  simp only [answer, run_unlessFault hfaults]
  rfl

theorem run_delete (hfaults : w.faults = []) (name : String) : (answer (.delete name)).run w =
    (.ok (), { w with objects := Table.erase w.objects name }) := by
  simp only [answer, run_unlessFault hfaults]
  rfl

theorem run_head (hfaults : w.faults = []) (name : String) : (answer (.head name)).run w =
    (if Table.has w.objects name then .ok () else .error ⟨"NotFound"⟩, w) := by
  simp only [answer, run_unlessFault hfaults, StateT.run_bind, StateT.run_get, pure_bind]
  cases Table.has w.objects name <;> rfl

end BucketWorld

namespace BucketStore

/-- What is made of the answer when an object is fetched. -/
def fetched : Except BucketRefusal (Option String) → Except StateError (Option String)
  | .ok (some text) => .ok (some text)
  | .ok none => .error (.corrupted "Invalid UTF-8 in S3 object")
  | .error r => if r.code = "NoSuchKey" then .ok none else .error (.bucket "S3 get error")

theorem run_get? (name : String) :
    (get? name).run = .ask (.second (.get name)) fun b => .done (fetched b) := by
  simp only [get?, Program.call, Program.run_query_bind]
  refine congrArg (Program.ask _) (funext fun b => ?_)
  rcases b with r | _ | text
  · by_cases h : r.code = "NoSuchKey" <;> simp only [fetched, h, if_true, if_false] <;> rfl
  · rfl
  · rfl

/-- What is made of the answer when the object of a lock is fetched. -/
def lockFetched (b : Except BucketRefusal (Option String)) : Except StateError (Option Lock) :=
  match fetched b with
  | .error e => .error e
  | .ok none => .ok none
  | .ok (some text) =>
      match Lock.ofText? text with
      | some l => .ok (some l)
      | none => .error (.corrupted "Failed to parse lock: not a lock")

theorem run_lock? (p : BucketPlace) (key : StateKey) :
    (lock? p key).run = .ask (.second (.get (lockName p key))) fun b => .done (lockFetched b) := by
  simp only [lock?, Program.run_bind_orEnd, run_get?, Program.bind_ask, Program.bind_done, lockFetched]
  refine congrArg (Program.ask _) (funext fun b => ?_)
  rcases fetched b with e | _ | text
  · rfl
  · rfl
  · simp only [Program.orEnd_ok]
    cases Lock.ofText? text <;> rfl

theorem run_put (name text : String) :
    (put name text).run = .ask (.second (.put name text)) fun b =>
      .done (b.mapError fun _ => .bucket "S3 put error") := by
  refine congrArg (Program.ask _) (funext fun b => ?_)
  rcases b with e | _ <;> rfl

theorem run_remove (name : String) :
    (remove name).run = .ask (.second (.delete name)) fun b =>
      .done (b.mapError fun _ => .bucket "S3 delete error") := by
  refine congrArg (Program.ask _) (funext fun b => ?_)
  rcases b with e | _ <;> rfl

/-- What is left to do when no lock is in the way. -/
def takeFree (p : BucketPlace) (key : StateKey) (operation : String) : StoreProgram Lock := do
  let now ← ExceptT.lift Program.clock
  let id ← ExceptT.lift Program.freshId
  let l := Lock.take now id (← ExceptT.lift Program.holder) key operation
  put (lockName p key) l.render
  note .info s!"Acquired state lock on {key.render}: {l.id} (expires in {Lock.lifetime}s)"
  return l

theorem run_takeFree (p : BucketPlace) (key : StateKey) (operation : String) :
    (takeFree p key operation).run =
      .ask (.first .clock) fun now => .ask (.first .freshId) fun id => .ask (.first .holder) fun holder =>
        let l := Lock.take now id holder key operation
        .ask (.second (.put (lockName p key) l.render)) fun b =>
          Program.orEnd
            (fun _ => .ask
              (.first (.note ⟨.info, s!"Acquired state lock on {key.render}: {l.id} (expires in {Lock.lifetime}s)"⟩))
              fun _ => .done (.ok l))
            (b.mapError fun _ => .bucket "S3 put error") := by
  simp only [takeFree, Program.clock, Program.freshId, Program.holder, note, Program.note, Program.run_query_bind]
  simp only [Program.run_bind_orEnd (put _ _), run_put, Program.run_query_bind, Program.bind_ask, Program.bind_done]
  rfl

theorem run_acquire (p : BucketPlace) (key : StateKey) (operation : String) :
    (acquire p key operation).run =
      .ask (.second (.get (lockName p key))) fun b =>
        match lockFetched b with
        | .error e => .done (.error e)
        | .ok none => (takeFree p key operation).run
        | .ok (some l) => .ask (.first .clock) fun now =>
            if l.isExpired now then
              .ask (.first (.note ⟨.debug, "Expired lock on " ++ key.render ++ " found, taking over"⟩)) fun _ =>
                (takeFree p key operation).run
            else
              .ask (.first (.note ⟨.warn, "State " ++ key.render ++ " is locked by " ++ l.holder⟩)) fun _ =>
                .done (.error l.refusal) := by
  simp only [acquire, Program.run_bind_orEnd, run_lock?, Program.bind_ask, Program.bind_done]
  refine congrArg (Program.ask _) (funext fun b => ?_)
  rcases lockFetched b with e | _ | l
  · rfl
  · simp only [Program.orEnd_ok, takeFree]
  · simp only [Program.orEnd_ok, Program.clock, note, Program.note, Program.run_query_bind]
    refine congrArg (Program.ask _) (funext fun now => ?_)
    cases l.isExpired now with
    | false => rfl
    | true =>
      simp only [Bool.not_true, Bool.false_eq_true, if_false, if_true, Program.run_query_bind, takeFree,
        Program.clock, note, Program.note]

theorem run_load (p : BucketPlace) (key : StateKey) :
    (load p key).run =
      .ask (.first (.note ⟨.debug, "Loading state from s3://" ++ p.bucket ++ "/" ++ recordName p key⟩)) fun _ =>
        .ask (.second (.get (recordName p key))) fun b =>
          match fetched b with
          | .error e => .done (.error e)
          | .ok none => .ask (.first (.note ⟨.debug, "No state found for " ++ key.render⟩)) fun _ => .done (.ok none)
          | .ok (some text) =>
              match Record.ofText? text with
              | none => .done (.error (.corrupted "Failed to parse state: not a record"))
              | some r =>
                  match r.checkVersion with
                  | .error e => .done (.error e)
                  | .ok r =>
                      .ask (.first (.note ⟨.info, s!"Loaded state for {key.render} ({r.graph.size} nodes)"⟩)) fun _ =>
                        .done (.ok (some r)) := by
  simp only [load, note, Program.note, Program.run_query_bind]
  refine congrArg (Program.ask _) (funext fun _ => ?_)
  simp only [Program.run_bind_orEnd (get? _), run_get?, Program.bind_ask, Program.bind_done]
  refine congrArg (Program.ask _) (funext fun b => ?_)
  rcases fetched b with e | _ | text
  · rfl
  · rfl
  · simp only [Program.orEnd_ok]
    cases Record.ofText? text with
    | none => rfl
    | some r => cases hversion : r.checkVersion <;> simp only [hversion] <;> rfl

theorem run_save (p : BucketPlace) (r : Record) :
    (save p r).run =
      .ask (.first (.note ⟨.info, "Saving state to s3://" ++ p.bucket ++ "/" ++ recordName p r.key⟩)) fun _ =>
        .ask (.second (.put (recordName p r.key) r.render)) fun b =>
          .done (b.mapError fun _ => .bucket "S3 put error") := by
  simp only [save, note, Program.note, Program.run_query_bind, run_put]

theorem run_delete (p : BucketPlace) (key : StateKey) :
    (delete p key).run =
      .ask (.first (.note ⟨.info, "Deleting state from s3://" ++ p.bucket ++ "/" ++ recordName p key⟩)) fun _ =>
        .ask (.second (.delete (recordName p key))) fun b =>
          Program.orEnd (fun _ => (remove (lockName p key)).run) (b.mapError fun _ => .bucket "S3 delete error") := by
  simp only [delete, note, Program.note, Program.run_query_bind, Program.run_bind_orEnd (remove _), run_remove,
    Program.bind_ask, Program.bind_done]

theorem run_hasRecord (p : BucketPlace) (key : StateKey) :
    ((store p).hasRecord key).run = .ask (.second (.head (recordName p key))) fun b =>
      .done (match b with
        | .ok () => .ok true
        | .error r => if r.code = "NotFound" then .ok false else .error (.bucket "S3 head error")) := by
  simp only [store, has, Program.call, Program.run_query_bind]
  refine congrArg (Program.ask _) (funext fun b => ?_)
  rcases b with r | _
  · by_cases h : r.code = "NotFound" <;> simp only [h, if_true, if_false] <;> rfl
  · rfl

theorem run_release (p : BucketPlace) (key : StateKey) (id : String) :
    (release p key id).run = .ask (.second (.get (lockName p key))) fun b =>
      match lockFetched b with
      | .error e => .done (.error e)
      | .ok none => .done (.ok ())
      | .ok (some l) =>
          if l.id = id then
            .ask (.second (.delete (lockName p key))) fun b =>
              Program.orEnd
                (fun _ => .ask (.first (.note ⟨.info, "Released state lock on " ++ key.render⟩)) fun _ =>
                  .done (.ok ()))
                (b.mapError fun _ => .bucket "S3 delete error")
          else
            .ask (.first (.note ⟨.debug,
              "Lock id mismatch on " ++ key.render ++ ": expected " ++ id ++ ", found " ++ l.id⟩)) fun _ =>
              .done (.ok ()) := by
  simp only [release, Program.run_bind_orEnd, run_lock?, Program.bind_ask, Program.bind_done]
  refine congrArg (Program.ask _) (funext fun b => ?_)
  rcases lockFetched b with e | _ | l
  · rfl
  · rfl
  · simp only [Program.orEnd_ok]
    by_cases hid : l.id = id
    · simp only [hid, if_true, Program.run_bind_orEnd, run_remove, Program.bind_ask, Program.bind_done]
      rfl
    · simp only [hid, if_false]
      rfl

theorem run_forceUnlock (p : BucketPlace) (key : StateKey) :
    (forceUnlock p key).run = .ask (.first (.note ⟨.warn, "Force unlocking state " ++ key.render⟩)) fun _ =>
      (remove (lockName p key)).run := rfl

theorem run_isLocked (p : BucketPlace) (key : StateKey) :
    (isLocked p key).run = .ask (.second (.get (lockName p key))) fun b =>
      match lockFetched b with
      | .error e => .done (.error e)
      | .ok none => .done (.ok false)
      | .ok (some l) => .ask (.first .clock) fun now => .done (.ok (!l.isExpired now)) := by
  simp only [isLocked, Program.run_bind_orEnd, run_lock?, Program.bind_ask, Program.bind_done]
  refine congrArg (Program.ask _) (funext fun b => ?_)
  rcases lockFetched b with e | _ | l <;> rfl

end BucketStore

end Groundwork
