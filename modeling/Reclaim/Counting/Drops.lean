import Reclaim.Core.Ownership
import Reclaim.Counting.Token

/-!
# Dropping matched records

In an arm of a `case` on a variable that owns its record, the shape of the record is known.  The
record is dropped at the first point of each path where its variable is dead, unless the last use
handed it on.  If a record of the same tag is built further down some path, the drop becomes a
`reset`, and the first such construction on each path reuses the cell.

Records matched by an outer `case` are dropped before those matched inside its arms, so the drops
of one round are visible to the next.  A round deals with the outermost cases of a body, and the
depth of nested cases bounds the number of rounds.
-/

namespace Reclaim.Counting

open Reclaim.Core

/-! ## Reuse -/

mutual

/-- Whether a record with the tag is built on some path. -/
def builds (tag : Tag) : Body → Bool
  | .ret _ => false
  | .bind _ e b => (match e with
      | .new c => c.tag == tag
      | _ => false) || builds tag b
  | .case _ arms => buildsIn tag arms
  | .inc _ b | .dec _ b => builds tag b
termination_by structural b => b

/-- Whether a record with the tag is built in some arm. -/
def buildsIn (tag : Tag) : List Arm → Bool
  | [] => false
  | (_, b) :: rest => builds tag b || buildsIn tag rest
termination_by structural arms => arms

end

mutual

/-- Lets the first construction with the tag on each path reuse the cell of a token. -/
def reuseFirst (token : Var) (tag : Tag) : Body → Body
  | .ret x => .ret x
  | .bind x e b => match e with
    | .new c => if c.tag == tag then .bind x (.reuse token c) b
      else .bind x (.new c) (reuseFirst token tag b)
    | e => .bind x e (reuseFirst token tag b)
  | .case x arms => .case x (reuseFirstIn token tag arms)
  | .inc x b => .inc x (reuseFirst token tag b)
  | .dec x b => .dec x (reuseFirst token tag b)
termination_by structural b => b

/-- Lets the first construction with the tag on each path through each arm reuse a cell. -/
def reuseFirstIn (token : Var) (tag : Tag) : List Arm → List Arm
  | [] => []
  | (armTag, b) :: rest => (armTag, reuseFirst token tag b) :: reuseFirstIn token tag rest
termination_by structural arms => arms

end

/-! ## Drops -/

/-- Drops the record of `x`, which has the tag, in front of a body. -/
def dropBefore (r : Reserved) (x : Var) (tag : Tag) (b : Body) : StateM Counter Body :=
  if builds tag b then do
    let token ← r.fresh
    return .bind token (.reset x) (reuseFirst token tag b)
  else
    return .dec x b

mutual

/-- Drops the record of `x`, which has the tag, at the first point of each path where `x` is dead,
unless its last use handed the record on. -/
def dropDead (r : Reserved) (x : Var) (tag : Tag) : Body → StateM Counter Body
  | .ret y =>
    if (Body.ret y).mentions x then return .ret y
    else dropBefore r x tag (.ret y)
  | .bind y e b =>
    if !(Body.bind y e b).mentions x then dropBefore r x tag (.bind y e b)
    else if b.mentions x then return .bind y e (← dropDead r x tag b)
    else if e.consumed.any (· == x) then return .bind y e b
    else return .bind y e (← dropBefore r x tag b)
  | .case y arms =>
    if !(Body.case y arms).mentions x then dropBefore r x tag (.case y arms)
    else return .case y (← dropDeadIn r x tag arms)
  | .inc y b =>
    if !(Body.inc y b).mentions x then dropBefore r x tag (.inc y b)
    else if b.mentions x then return .inc y (← dropDead r x tag b)
    else return .inc y (← dropBefore r x tag b)
  | .dec y b =>
    if !(Body.dec y b).mentions x then dropBefore r x tag (.dec y b)
    else if b.mentions x then return .dec y (← dropDead r x tag b)
    else return .dec y b
termination_by structural b => b

/-- Drops the record of `x` in every arm. -/
def dropDeadIn (r : Reserved) (x : Var) (tag : Tag) : List Arm → StateM Counter (List Arm)
  | [] => return []
  | (armTag, b) :: rest => do
    let b ← dropDead r x tag b
    return (armTag, b) :: (← dropDeadIn r x tag rest)
termination_by structural arms => arms

end

/-! ## Rounds -/

/-- Replaces the arms of the outermost cases of a body, from first to last. -/
def mapCases (f : Var → Tag → Body → StateM Counter Body) : Body → StateM Counter Body
  | .ret x => return .ret x
  | .bind x e b => return .bind x e (← mapCases f b)
  | .case x arms => return .case x (← arms.mapM fun arm => return (arm.1, ← f x arm.1 arm.2))
  | .inc x b => return .inc x (← mapCases f b)
  | .dec x b => return .dec x (← mapCases f b)
termination_by structural b => b

/-- Drops matched records in the cases of a body that are nested at most `rounds` deep. -/
def insertDrops (r : Reserved) (owners : VarSet) : Nat → Body → StateM Counter Body
  | 0, b => return b
  | rounds + 1, b => mapCases (fun x tag arm => do
      let arm ← if owners.contains x then dropDead r x tag arm else pure arm
      insertDrops r owners rounds arm) b

mutual

/-- The depth of nested cases. -/
def caseDepth : Body → Nat
  | .ret _ => 0
  | .bind _ _ b => caseDepth b
  | .case _ arms => caseDepthIn arms + 1
  | .inc _ b | .dec _ b => caseDepth b
termination_by structural b => b

/-- The greatest depth of nested cases in some arm. -/
def caseDepthIn : List Arm → Nat
  | [] => 0
  | (_, b) :: rest => max (caseDepth b) (caseDepthIn rest)
termination_by structural arms => arms

end

/-- The body of a function with drops for the records it matches. -/
def withDrops (p : Program) (d : FnDef) : Body :=
  (insertDrops ⟨d.allVars, p.fns.map (·.name)⟩ d.owners (caseDepth d.body) d.body {}).1

end Reclaim.Counting
