import Reclaim.Core.FreeVars

/-!
# Ownership

A reference to a cell belongs to a variable, and whoever owns one has to hand it on or give it up.
Calls, closures and records take over the references of their arguments.  Reading is free: a
projected record, the scrutinee of a `case` and the head of an application keep their references,
and the token of a `reuse` is accounted for by its `reset`.
-/

namespace Reclaim.Core

/-- What a bound variable holds. -/
inductive Holding where
  /-- A reference of its own. -/
  | owned
  /-- A field of a record, kept alive by the record. -/
  | borrowed (record : Var)
  /-- The result of a `reset`, which only a `reuse` can take. -/
  | token
deriving Repr, Inhabited

/-- What a variable bound to an expression holds. -/
def Expr.holding : Expr → Holding
  | .proj _ record => .borrowed record
  | .reset _ => .token
  | _ => .owned

/-- Whether a variable bound to an expression holds a reference of its own. -/
def Expr.isOwned (e : Expr) : Bool :=
  match e.holding with
  | .owned => true
  | _ => false

/-- The occurrences in an expression that hand a reference on, with repetitions. -/
def Expr.consumed : Expr → List Var
  | .call _ xs | .close _ xs | .apply _ xs | .extend _ xs => xs
  | .new c | .reuse _ c => c.fields
  | .reset x => [x]
  | .proj .. => []

mutual

/-- Adds the variables that a body binds to references of their own. -/
def Body.owners (vars : VarSet) : Body → VarSet
  | .ret _ => vars
  | .bind x e b => b.owners (if e.isOwned then vars.insert x else vars)
  | .case _ arms => ownersArms vars arms
  | .inc _ b | .dec _ b => b.owners vars
termination_by structural b => b

/-- Adds the owners of arms. -/
def ownersArms (vars : VarSet) : List Arm → VarSet
  | [] => vars
  | (_, b) :: rest => ownersArms (b.owners vars) rest
termination_by structural arms => arms

end

/-- The variables of a function that hold a reference of their own where they are bound: the
parameters, and whatever is bound neither to a field nor to a token. -/
def FnDef.owners (d : FnDef) : VarSet := d.body.owners (.ofList d.params)

/-! ## Bindings in review -/

/-- A binding with what follows it. -/
structure BindingSite where
  /-- The bound variable. -/
  binder : Var
  /-- What it is bound to. -/
  expr : Expr
  /-- The body in which it is bound. -/
  rest : Body
deriving Repr, Inhabited

mutual

/-- The bindings of a body, from the outside in and arm by arm. -/
def Body.bindings : Body → List BindingSite
  | .ret _ => []
  | .bind x e b => ⟨x, e, b⟩ :: b.bindings
  | .case _ arms => bindingsArms arms
  | .inc _ b | .dec _ b => b.bindings
termination_by structural b => b

/-- The bindings of arms. -/
def bindingsArms : List Arm → List BindingSite
  | [] => []
  | (_, b) :: rest => b.bindings ++ bindingsArms rest
termination_by structural arms => arms

end

end Reclaim.Core
