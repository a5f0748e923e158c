import Groundwork.AppGraph
import Groundwork.Plugin.Container.Model
import Groundwork.Plugin.Wire
import Groundwork.Report
import Groundwork.Run.Rehearsal
import Groundwork.State.Bucket.Model
import Groundwork.State.Record
import Groundwork.Variable.Metadata

/-!
# Reading what other programs hand in

`Readable` collects, for every type that other programs hand in, how it is read from a document.  Numbers are
read up to the greatest machine word, and a pair is an array of two.
-/

namespace Groundwork

/-- Types that are read from documents. -/
class Readable (α : Type) where
  read? : Value → Option α

namespace Readable

/-- One of several names. -/
@[reducible] def ofName (f : String → Option α) : Readable α := ⟨fun v => v.str?.bind f⟩

instance : Readable Value := ⟨some⟩
instance : Readable String := ⟨Value.str?⟩
instance : Readable Bool := ⟨Decode.truth⟩
instance : Readable Nat := ⟨Decode.natural UInt64.size⟩
instance : Readable UInt8 := ⟨fun v => (Decode.natural 256 v).map UInt8.ofNat⟩
instance [Readable α] : Readable (List α) := ⟨Decode.list read?⟩

instance [Readable α] [Readable β] : Readable (α × β) where
  read? v := do
    match v with
    | .arr [a, b] => return (← read? a, ← read? b)
    | _ => none

/-- A table, in the form of an object. -/
structure Named (α : Type) where
  table : Table α

instance [Readable α] : Readable (Named α) where
  read? v := do return ⟨← (← v.fields?).mapM fun p => (read? p.2).map fun a => (p.1, a)⟩

instance : Readable Key := ⟨Key.ofValue?⟩
instance : Readable Edge := ⟨Edge.ofValue?⟩
instance : Readable AppNode := ⟨AppNode.ofValue?⟩
instance : Readable InfraNode := ⟨InfraNode.ofValue?⟩
instance [Identified N] [Readable N] : Readable (Graph N) := ⟨Graph.ofValue? read?⟩
instance : Readable Metadata := ⟨Metadata.ofValue?⟩
instance : Readable PluginKind := ofName PluginKind.ofName?
instance : Readable Action := ofName Action.ofName?
instance : Readable Phase := ofName Phase.ofName?
instance : Readable Color := ofName Color.ofName?
instance : Readable Operation := ofName Operation.ofName?
instance : Readable BucketMethod := ofName BucketMethod.ofName?
instance : Readable ReportStyle := ofName ReportStyle.ofName?
instance : Readable StateKey := ⟨StateKey.ofValue?⟩
instance : Readable ApplyRequest := ⟨ApplyRequest.ofValue?⟩
instance : Readable Part := ⟨Part.ofValue?⟩
instance : Readable ContainerScript := ⟨ContainerScript.ofValue?⟩

theorem read?_pair [Readable α] [Readable β] {v w : Value} {a : α} {b : β} (ha : read? v = some a)
    (hb : read? w = some b) : read? (α := α × β) (.arr [v, w]) = some (a, b) := by
  simp [read?, ha, hb]

end Readable

end Groundwork
