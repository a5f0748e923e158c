import Groundwork.Run

/-!
# Rehearsals

A rehearsal carries out a plan without plugins: what each of them would answer, and after how long, is
written down in a script.  Time is counted on a clock that stands still while anything can be started, and
then moves to the next answer that is due.
-/

namespace Groundwork

/-- What a script says about a node. -/
structure Part where
  /-- How long the plugin takes. -/
  delay : Nat
  /-- Whether the call breaks off. -/
  breaksOff : Bool
  error : Option String
  connectionError : Option String
  outputs : Option Value
  state : Option Value
  deriving Repr, Inhabited

namespace Part

/-- Success at once. -/
def usual : Part := ⟨0, false, none, none, none, none⟩

/-- Reads a part. -/
def ofValue? (v : Value) : Option Part := do
  let t ← v.fields?
  return {
    delay := (← Decode.optional (Decode.natural UInt64.size) t "delay").getD 0
    breaksOff := Table.has t "panic"
    error := ← Decode.optional Decode.text t "error"
    connectionError := ← Decode.optional Decode.text t "connection_error"
    outputs := t.lookup "outputs"
    state := t.lookup "state" }

/-- The answer to a request.  Where the script names neither outputs nor state, they tell what was asked. -/
def answer (p : Part) (q : ApplyRequest) : Outcome :=
  if p.breaksOff then .broken "panicked"
  else
    match p.error, p.connectionError, p.outputs, p.state with
    | some e, _, _, _ => .failed (.remote e)
    | none, some e, _, _ => .failed (.connection e)
    | none, none, none, none =>
        .returned
          { state := some (.obj [("destroyed", .bool q.destroy), ("image", .str q.image)])
            outputs := .obj [("id", .str (q.pluginId ++ "#id")), ("name", .str (q.pluginId ++ "#name")),
              ("port", .ofNat 8080)] }
    | none, none, outputs, state => .returned { state, outputs := outputs.getD .null }

end Part

/-- What a script says, by the ids of the nodes. -/
abbrev Script := Table Part

/-- The part of a node. -/
def Script.part (s : Script) (id : String) : Part := (s.lookup id).getD .usual

/-- The time, and when the answers to the calls in flight are due. -/
structure Rehearsal where
  clock : Nat
  due : Table Nat
  deriving Repr

namespace Rehearsal

/-- The beginning. -/
def start : Rehearsal := ⟨0, []⟩

/-- When the answer to a call is due; a call that was not there before has just been made. -/
def dueTime (script : Script) (r : Rehearsal) (c : Call) : Nat :=
  (r.due.lookup c.id).getD (r.clock + (script.part c.id).delay)

/-- Gives the answer that is due first, and among several of one time the answer to the oldest call. -/
def scheduler (script : Script) : Run.Scheduler Rehearsal := fun r calls =>
  let times := calls.map (dueTime script r)
  let first := times.foldl min (times.headD 0)
  let index := times.findIdx (· = first)
  let call := calls.getD index default
  let due := ((calls.map Call.id).zip times).filter (·.1 ≠ call.id)
  (⟨index, Instant.epoch, (script.part call.id).answer call.request⟩, ⟨first, due⟩)

/-- Carries out a plan by a script. -/
def execute (o : RunOptions) (script : Script) (g : Infrastructure) : Run :=
  (Run.execute o (scheduler script) Instant.epoch g start).1

end Rehearsal

end Groundwork
