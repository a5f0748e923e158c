import Groundwork.State.Store

/-!
# Stores that fail on demand

A store some of whose operations are refused, to see what those who use it make of that.
-/

namespace Groundwork.Store

/-- The same store, in which the operations of these names are refused and do nothing. -/
def refusing {m : Type → Type u} [Monad m] (names : List String) (s : Store m) : Store m :=
  let guarded {α : Type} (name : String) (act : ExceptT StateError m α) : ExceptT StateError m α :=
    if names.contains name then throw (.storage ("scripted " ++ name)) else act
  { s with
    load := fun key => guarded "load" (s.load key)
    save := fun r => guarded "save" (s.save r)
    acquire := fun key operation => guarded "acquire" (s.acquire key operation)
    release := fun key id => guarded "release" (s.release key id) }

end Groundwork.Store
