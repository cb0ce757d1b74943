import Reclaim.Core.Validity
import Reclaim.Counting.Drops
import Reclaim.Counting.Retains

/-!
# Explicit memory management

`insertCounts` makes the memory management of a program explicit: matched records are dropped or
reused where they die, and every reference count is adjusted.  A function that manages memory itself
anywhere in its body is left as it is.  The result is checked again, as any program is.
-/

namespace Reclaim.Counting

open Reclaim.Core

/-- The body of a function with its memory management made explicit. -/
def managedBody (p : Program) (d : FnDef) : Body :=
  if d.body.isManaged then d.body
  else withCounts (.ofParams d.params) (withDrops p d)

/-- The program with the memory management of each function made explicit. -/
def insertCounts (p : Program) : Program := p.mapBodies (managedBody p)

/-- The program with its memory management made explicit, if it is still valid. -/
def insertCounts? (p : Program) : Except ValidityError Program := do
  (insertCounts p).validate
  return insertCounts p

end Reclaim.Counting
