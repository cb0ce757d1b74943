import Reclaim.Core.Program
import Reclaim.Heap.Basic

/-!
# Data

A datum is a copy of everything that can be reached from one location, without the locations.  Two
runs that build the same structure in different cells end with the same datum.

Reading a datum follows references, which in a heap that a program has built never lead back to
where they came from.  A path through different cells is no longer than the number of slots, so a
longer one runs in a circle and there is no datum.
-/

namespace Reclaim

open Reclaim.Core

/-- A structure of records and closures. -/
inductive Datum where
  /-- A record with its fields in order. -/
  | record (tag : Tag) (fields : List (Field × Datum))
  /-- A closure with its arguments. -/
  | closure (target : FnName) (args : List Datum)
deriving Repr, Inhabited

namespace Datum

mutual

/-- Whether two data are built alike from names that are spelled alike, fields in order. -/
def same : Datum → Datum → Bool
  | .record t fs, .record u gs => t == u && sameFields fs gs
  | .closure f xs, .closure g ys => f == g && sameArgs xs ys
  | _, _ => false
termination_by structural d => d

/-- Whether fields are alike, one by one. -/
def sameFields : List (Field × Datum) → List (Field × Datum) → Bool
  | [], [] => true
  | (f, d) :: fs, (g, e) :: gs => f == g && d.same e && sameFields fs gs
  | _, _ => false
termination_by structural fs => fs

/-- Whether arguments are alike, one by one. -/
def sameArgs : List Datum → List Datum → Bool
  | [], [] => true
  | d :: ds, e :: es => d.same e && sameArgs ds es
  | _, _ => false
termination_by structural ds => ds

end

instance : BEq Datum := ⟨same⟩

mutual

/-- A text with the text of a datum after it: a tag, in parentheses with its fields if it has any, or
a closure in angle brackets with the number of its arguments and of its function's parameters. -/
def renderAfter (p : Program) (text : String) : Datum → String
  | .record tag [] => text ++ tag.text
  | .record tag (field :: fields) =>
    renderFieldsAfter p (text ++ "(" ++ tag.text) (field :: fields) ++ ")"
  | .closure target args =>
    let arity := match p.fn? target with
      | some d => toString d.params.length
      | none => "?"
    text ++ "<pap " ++ target.text ++ " " ++ toString args.length ++ "/" ++ arity ++ ">"
termination_by structural d => d

/-- A text with the texts of fields after it, each after a blank. -/
def renderFieldsAfter (p : Program) (text : String) : List (Field × Datum) → String
  | [] => text
  | (_, d) :: rest => renderFieldsAfter p (renderAfter p (text ++ " ") d) rest
termination_by structural fs => fs

end

/-- The text of a datum. -/
def render (p : Program) (d : Datum) : String := renderAfter p "" d

end Datum

/-- Why there is no datum at a location. -/
inductive Unreadable where
  /-- A reference leads to no cell. -/
  | missing (cell : MissingCell)
  /-- References run in a circle through a location. -/
  | cyclic (location : Location)
deriving DecidableEq, Repr, Inhabited

/-- The failure as it is shown to the user. -/
def Unreadable.describe : Unreadable → String
  | .missing cell => cell.describe
  | .cyclic location => s!"heap cells run in a circle at {location.describe}"

namespace Heap

/-- The datum at a location, following references at most `depth` cells deep. -/
def readWithin (h : Heap) : Nat → Location → Except Unreadable Datum
  | 0, l => .error (.cyclic l)
  | depth + 1, l => match h.cell? l with
    | none => .error (.missing ⟨l⟩)
    | some ⟨_, .closure target args⟩ =>
      return .closure target (← args.mapM (h.readWithin depth))
    | some ⟨_, .record tag fields⟩ =>
      return .record tag (← fields.entries.mapM fun field =>
        return (field.1, ← h.readWithin depth field.2))

/-- The datum at a location. -/
def snapshot (h : Heap) (l : Location) : Except Unreadable Datum :=
  h.readWithin (h.slots.size + 1) l

end Heap

end Reclaim
