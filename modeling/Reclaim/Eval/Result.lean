import Reclaim.Eval.Basic
import Reclaim.Heap.Datum

/-!
# Results

What a run leaves behind: the text of the result, and whether giving up the result leaves any cell.
Here a location without a cell is a bug, since it is not the program that asks for it.
-/

namespace Reclaim

open Reclaim.Core

/-- The depth of nested calls that is allowed to programs run for a user. -/
def callDepth : Nat := 1000000000

/-- The text of the datum at a location. -/
def renderAt (p : Program) (h : Heap) (l : Location) : Except Diagnostic String :=
  match h.snapshot l with
  | .ok d => .ok (d.render p)
  | .error e => .error (.bug "missing heap location" .none e.describe)

/-- Gives up the result of a run and checks that this was the last cell. -/
def checkLeaks (h : Heap) (l : Location) : Except Diagnostic Unit :=
  match h.dec [l] with
  | (.error e, _) => .error (.bug "missing heap location" .none e.describe)
  | (.ok (), h) =>
    if h.isEmpty then .ok ()
    else .error (.error "heap is not empty after dropping the result" .none
      s!"{h.live} cell(s) are still live")

end Reclaim
