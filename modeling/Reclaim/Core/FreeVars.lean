import Reclaim.Core.Program
import Reclaim.OrderedSet

/-!
# Free variables

The variables that an expression or a body reads without binding them itself.  A variable is dead
at a point when it is not free in what remains to run from there, so these sets decide where
references are given up.  They are ordered by first use.
-/

namespace Reclaim.Core

/-- A set of variables; it holds one occurrence of each. -/
abbrev VarSet : Type := OrderedSet Var

/-- The variables that an expression reads. -/
def Expr.freeVars : Expr → VarSet
  | .call _ xs | .close _ xs => .ofList xs
  | .apply f xs | .extend f xs => (OrderedSet.singleton f).union (.ofList xs)
  | .new c => .ofList c.fields
  | .proj _ record => .singleton record
  | .reset x => .singleton x
  | .reuse token c => (OrderedSet.singleton token).union (.ofList c.fields)

mutual

/-- The variables that a body reads and does not bind. -/
def Body.freeVars : Body → VarSet
  | .ret x => .singleton x
  | .bind x e b => e.freeVars.union (b.freeVars.erase x)
  | .case x arms => freeVarsArms (.singleton x) arms
  | .inc x b | .dec x b => (OrderedSet.singleton x).union b.freeVars
termination_by structural b => b

/-- Adds the free variables of arms to a set. -/
def freeVarsArms (vars : VarSet) : List Arm → VarSet
  | [] => vars
  | (_, b) :: rest => freeVarsArms (vars.union b.freeVars) rest
termination_by structural arms => arms

end

/-- Whether an expression reads a variable. -/
def Expr.mentions (e : Expr) (x : Var) : Bool := e.freeVars.contains x

/-- Whether a body reads a variable that it does not bind. -/
def Body.mentions (b : Body) (x : Var) : Bool := b.freeVars.contains x

/-! ## All variables -/

mutual

/-- Adds every variable that a body reads or binds. -/
def Body.allVars (vars : VarSet) : Body → VarSet
  | .ret x => vars.union (.singleton x)
  | .bind x e b => b.allVars ((vars.union (Body.bind x e b).freeVars).insert x)
  | .case x arms => allVarsArms (vars.union (Body.case x arms).freeVars) arms
  | .inc x b => b.allVars (vars.union (Body.inc x b).freeVars)
  | .dec x b => b.allVars (vars.union (Body.dec x b).freeVars)
termination_by structural b => b

/-- Adds every variable of arms. -/
def allVarsArms (vars : VarSet) : List Arm → VarSet
  | [] => vars
  | (_, b) :: rest => allVarsArms (b.allVars vars) rest
termination_by structural arms => arms

end

/-- Every variable of a function: its parameters and what its body reads or binds. -/
def FnDef.allVars (d : FnDef) : VarSet := d.body.allVars (.ofList d.params)

end Reclaim.Core
