import Reclaim.Core.Name

/-!
# Function bodies

In the core language every intermediate value has a name, so a body is a chain of steps.  A step
binds a variable to the value of an expression or adjusts a reference count, and the chain ends by
returning a variable or by going on in the arm of a `case`.

The tags of the arms of one `case` are different in every body that this library builds.
-/

namespace Reclaim.Core

/-- A tag with a variable for each field. -/
structure Construction where
  /-- The tag. -/
  tag : Tag
  /-- The values of the fields, in the order of the declaration. -/
  fields : List Var
deriving Repr, Inhabited

/-- The right hand side of a binding. -/
inductive Expr where
  /-- Calls a function with all its arguments. -/
  | call (target : FnName) (args : List Var)
  /-- Makes a closure of a function and some of its arguments. -/
  | close (target : FnName) (args : List Var)
  /-- Calls the function of a closure with the arguments that are missing. -/
  | apply (closure : Var) (args : List Var)
  /-- Makes a closure of another one and further arguments. -/
  | extend (closure : Var) (args : List Var)
  /-- Builds a record. -/
  | new (construction : Construction)
  /-- Reads a field of a record. -/
  | proj (field : Field) (record : Var)
  /-- Gives up a reference to a record and keeps its cell, if it was the last one, as a token. -/
  | reset (var : Var)
  /-- Builds a record, in the cell of a token if there is one. -/
  | reuse (token : Var) (construction : Construction)
deriving Repr, Inhabited

/-- The body of a function. -/
inductive Body where
  /-- Returns a variable. -/
  | ret (var : Var)
  /-- Binds a variable in the rest of the body. -/
  | bind (binder : Var) (expr : Expr) (rest : Body)
  /-- Goes on with the arm of the tag of a record. -/
  | case (scrutinee : Var) (arms : List (Tag × Body))
  /-- Adds a reference. -/
  | inc (var : Var) (rest : Body)
  /-- Gives up a reference. -/
  | dec (var : Var) (rest : Body)
deriving Repr, Inhabited

/-- One arm of a `case`. -/
abbrev Arm : Type := Tag × Body

/-- The body of the arm for a tag. -/
def findArm (arms : List Arm) (tag : Tag) : Option Body :=
  (arms.find? fun arm => arm.1 == tag).map (·.2)

/-- Replaces the body of the arm for a tag, or adds an arm after the others. -/
def putArm (tag : Tag) (body : Body) : List Arm → List Arm
  | [] => [(tag, body)]
  | arm :: rest => if arm.1 == tag then (arm.1, body) :: rest else arm :: putArm tag body rest

/-! ## Equality up to places and the order of arms -/

instance : BEq Construction := ⟨fun c d => c.tag == d.tag && c.fields == d.fields⟩

/-- Whether two expressions differ at most in the places of names. -/
def Expr.same : Expr → Expr → Bool
  | .call f xs, .call g ys => f == g && xs == ys
  | .close f xs, .close g ys => f == g && xs == ys
  | .apply f xs, .apply g ys => f == g && xs == ys
  | .extend f xs, .extend g ys => f == g && xs == ys
  | .new c, .new d => c == d
  | .proj f x, .proj g y => f == g && x == y
  | .reset x, .reset y => x == y
  | .reuse w c, .reuse v d => w == v && c == d
  | _, _ => false

instance : BEq Expr := ⟨Expr.same⟩

mutual

/-- Whether two bodies differ at most in the places of names and in the order of arms. -/
def Body.same : Body → Body → Bool
  | .ret x, .ret y => x == y
  | .bind x e b, .bind y d c => x == y && e == d && b.same c
  | .case x as, .case y bs => x == y && (as.length == bs.length && armsIn as bs)
  | .inc x b, .inc y c => x == y && b.same c
  | .dec x b, .dec y c => x == y && b.same c
  | _, _ => false
termination_by structural b => b

/-- Whether every arm of the first list is the same as the arm for its tag in the second. -/
def armsIn : List Arm → List Arm → Bool
  | [], _ => true
  | (tag, b) :: rest, arms =>
    (match findArm arms tag with
      | some c => b.same c
      | none => false) && armsIn rest arms
termination_by structural as => as

end

instance : BEq Body := ⟨Body.same⟩

/-! ## Managed bodies -/

/-- Whether an expression works on the cell of a record rather than on its value. -/
def Expr.isManaged : Expr → Bool
  | .reset _ | .reuse .. => true
  | _ => false

mutual

/-- Whether a body adjusts reference counts or takes records apart itself. -/
def Body.isManaged : Body → Bool
  | .ret _ => false
  | .bind _ e b => e.isManaged || b.isManaged
  | .case _ arms => armsManaged arms
  | .inc .. | .dec .. => true
termination_by structural b => b

/-- Whether the body of some arm is managed. -/
def armsManaged : List Arm → Bool
  | [] => false
  | (_, b) :: rest => b.isManaged || armsManaged rest
termination_by structural as => as

end

end Reclaim.Core
