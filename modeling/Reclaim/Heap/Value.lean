import Reclaim.Core.Name
import Reclaim.OrderedMap

/-!
# What the heap holds

A value is a record or a closure whose parts are locations of other values.  A location is the
number that a cell got when it was allocated, or the location of no cell, which a declined `reset`
leaves behind.
-/

namespace Reclaim

open Reclaim.Core

/-- The place of a cell. -/
inductive Location where
  /-- No cell at all. -/
  | invalid
  /-- The cell that was allocated after `index` others. -/
  | cell (index : Nat)
deriving DecidableEq, Repr, Inhabited

/-- A location as it is shown to the user. -/
def Location.describe : Location → String
  | .invalid => "@invalid"
  | .cell index => s!"@{index}"

/-- The content of a cell. -/
inductive Value where
  /-- A function with some of its arguments. -/
  | closure (target : FnName) (args : List Location)
  /-- A tag with a location for each field. -/
  | record (tag : Tag) (fields : OrderedMap Field Location)
deriving Inhabited

namespace Value

/-- The locations that a value holds a reference to, with repetitions. -/
def children : Value → List Location
  | .closure _ args => args
  | .record _ fields => fields.values

/-- Values are equal if they hold the same locations under the same names; fields may be in any
order. -/
def same : Value → Value → Bool
  | .closure f xs, .closure g ys => f == g && xs == ys
  | .record t fs, .record u gs => t == u && fs == gs
  | _, _ => false

instance : BEq Value := ⟨same⟩

end Value

end Reclaim
