import Reclaim.Core.Ownership
import Reclaim.OrderedMap

/-!
# Holdings

While a body is walked, the variables in scope are sorted by what they hold.  An owner has a
reference of its own and must hand it on or give it up exactly once.  A borrower is a field that was
read out of a record and lives as long as the record does.

Before an owner lets go, every borrower that is still needed and hangs off it takes a reference of
its own and becomes an owner.  A borrower hangs off an owner if it was read from it, or from a
borrower that is dead itself and hangs off it: a live borrower in between keeps its fields alive by
taking a reference first.
-/

namespace Reclaim.Counting

open Reclaim.Core

/-- A change of a reference count, to be inserted in front of a step. -/
inductive Adjustment where
  /-- Take one more reference. -/
  | inc (x : Var)
  /-- Give up a reference. -/
  | dec (x : Var)
deriving Repr, Inhabited

/-- The variables in scope by what they hold. -/
structure Holdings where
  /-- The owners. -/
  owned : VarSet
  /-- The borrowers, each with the record it was read from. -/
  borrowed : OrderedMap Var Var
deriving Inhabited

namespace Holdings

/-- At the start of a function its parameters own their values. -/
def ofParams (params : List Var) : Holdings := ⟨.ofList params, .empty⟩

/-- Whether the walk from a borrower to the record it was read from, and on through dead borrowers,
reaches `owner` within `steps` records. -/
def reaches (h : Holdings) (owner : Var) (live : VarSet) : Nat → Var → Bool
  | 0, _ => false
  | steps + 1, x => match h.borrowed.get? x with
    | none => false
    | some record =>
      record == owner || (!live.contains record && h.reaches owner live steps record)

/-- Whether `owner` alone keeps `x` alive once everything dead is gone.  Every record was bound
before the field read from it, so the walk meets each borrower at most once. -/
def hangsOff (h : Holdings) (x owner : Var) (live : VarSet) : Bool :=
  h.reaches owner live h.borrowed.size x

/-- The borrowers that need a reference of their own before `owner` lets go. -/
def dependents (h : Holdings) (owner : Var) (live : VarSet) : List Var :=
  h.borrowed.keys.filter fun x => live.contains x && h.hangsOff x owner live

/-- Makes borrowers into owners. -/
def promote (h : Holdings) (xs : List Var) : Holdings :=
  ⟨h.owned.insertAll xs, xs.foldl OrderedMap.erase h.borrowed⟩

/-- Takes the reference of `owner` away, after its dependents have taken theirs. -/
def release (h : Holdings) (owner : Var) (live : VarSet) : List Adjustment × Holdings :=
  let xs := h.dependents owner live
  let after := h.promote xs
  (xs.map .inc, ⟨after.owned.erase owner, after.borrowed⟩)

/-- Drops the owners in a list one after the other. -/
def dropAll (live : VarSet) (h : Holdings) : List Var → List Adjustment × Holdings
  | [] => ([], h)
  | x :: rest =>
    let (before, h) := h.release x live
    let (after, h) := dropAll live h rest
    (before ++ [.dec x] ++ after, h)

/-- Drops every owner that is not live. -/
def dropDead (h : Holdings) (live : VarSet) : List Adjustment × Holdings :=
  h.dropAll live (h.owned.toList.filter fun x => !live.contains x)

/-- How often each variable occurs, in the order of first occurrences. -/
def tally (xs : List Var) : OrderedMap Var Nat :=
  xs.foldl (fun m x => m.insert x ((m.get? x).getD 0 + 1)) .empty

/-- Hands on `count` references to the value of `x`.  A borrower, and an owner that is live
afterwards, has to take that many first; any other owner gives its own away. -/
def handOn (h : Holdings) (live : VarSet) (x : Var) (count : Nat) : List Adjustment × Holdings :=
  if h.borrowed.contains x then
    (List.replicate count (.inc x), h)
  else if h.owned.contains x then
    if live.contains x then
      (List.replicate count (.inc x), h)
    else
      let (before, h) := h.release x live
      (before ++ List.replicate (count - 1) (.inc x), h)
  else
    ([], h)

/-- Hands on references to the values of several variables, each as often as the list says. -/
def handOnAll (live : VarSet) (h : Holdings) : List (Var × Nat) → List Adjustment × Holdings
  | [] => ([], h)
  | (x, count) :: rest =>
    let (before, h) := h.handOn live x count
    let (after, h) := handOnAll live h rest
    (before ++ after, h)

/-- Hands on one reference for each occurrence in a list. -/
def handOver (h : Holdings) (uses : List Var) (live : VarSet) : List Adjustment × Holdings :=
  h.handOnAll live (tally uses).entries

/-- Sorts a newly bound variable by what it is bound to. -/
def bind (h : Holdings) (x : Var) (e : Expr) : Holdings :=
  match e.holding with
  | .owned => { h with owned := h.owned.insert x }
  | .borrowed record => { h with borrowed := h.borrowed.insert x record }
  | .token => h

end Holdings

end Reclaim.Counting
