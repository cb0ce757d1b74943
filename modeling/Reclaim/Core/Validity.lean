import Reclaim.Core.Program
import Reclaim.Core.ValidityError

/-!
# Valid programs

A program is valid if the evaluator can rely on it: a call supplies exactly the parameters of a
function, a closure strictly fewer, and a record exactly the fields of its constructor; a field that
is read belongs to some constructor; and on every path through a body each variable is bound once,
before it is used.  Arms of one `case` may bind the same variable, since no path goes through two.

`Program.validate` looks at one function after the other and answers with the first fault.
-/

namespace Reclaim.Core

/-- What a check answers: nothing, or the first fault. -/
abbrev Checked : Type := Except ValidityError Unit

namespace Program

/-- Checks that a call supplies exactly the parameters of a function. -/
def checkCall (p : Program) (target : FnName) (supplied : Nat) : Checked :=
  match p.fn? target with
  | none => .error (.unknownFn target)
  | some d =>
    if supplied = d.params.length then .ok () else .error (.arity target d.params.length supplied)

/-- Checks that a closure is given fewer arguments than its function has parameters. -/
def checkClosure (p : Program) (target : FnName) (supplied : Nat) : Checked :=
  match p.fn? target with
  | none => .error (.unknownFn target)
  | some d =>
    if supplied < d.params.length then .ok ()
    else .error (.saturated target d.params.length supplied)

/-- Checks that a record has exactly the fields of its constructor. -/
def checkConstruction (p : Program) (c : Construction) : Checked :=
  match p.type? c.tag with
  | none => .error (.unknownTag c.tag)
  | some d =>
    if c.fields.length = d.fields.length then .ok ()
    else .error (.fieldCount c.tag d.tag.span d.fields.length c.fields.length)

/-- Checks that some constructor has a field. -/
def checkField (p : Program) (field : Field) : Checked :=
  if p.declaresField field then .ok () else .error (.unknownField field)

/-- Checks that some constructor has a tag. -/
def checkTag (p : Program) (tag : Tag) : Checked :=
  match p.type? tag with
  | none => .error (.unknownTag tag)
  | some _ => .ok ()

end Program

/-! ## Variables

`scope` lists the variables bound around a point of function `fn`, innermost first. -/

/-- Checks that a variable is bound. -/
def checkVar (fn : FnName) (scope : List Var) (x : Var) : Checked :=
  if scope.any (· == x) then .ok () else .error (.unbound x fn)

/-- Checks that variables are bound. -/
def checkVars (fn : FnName) (scope : List Var) : List Var → Checked
  | [] => .ok ()
  | x :: rest => do
    checkVar fn scope x
    checkVars fn scope rest

/-- Checks that a variable is not bound yet. -/
def checkBinder (fn : FnName) (scope : List Var) (x : Var) : Checked :=
  match scope.find? (· == x) with
  | some previous => .error (.rebound x fn previous.span)
  | none => .ok ()

/-- Checks that parameters differ from one another; those in `scope` come before them. -/
def checkParams (fn : FnName) (scope : List Var) : List Var → Checked
  | [] => .ok ()
  | x :: rest => do
    checkBinder fn scope x
    checkParams fn (x :: scope) rest

/-! ## Bodies -/

/-- Checks an expression. -/
def checkExpr (p : Program) (fn : FnName) (scope : List Var) : Expr → Checked
  | .call target xs => do
    p.checkCall target xs.length
    checkVars fn scope xs
  | .close target xs => do
    p.checkClosure target xs.length
    checkVars fn scope xs
  | .apply f xs | .extend f xs => do
    checkVar fn scope f
    checkVars fn scope xs
  | .new c => do
    p.checkConstruction c
    checkVars fn scope c.fields
  | .proj field record => do
    p.checkField field
    checkVar fn scope record
  | .reset x => checkVar fn scope x
  | .reuse token c => do
    checkVar fn scope token
    p.checkConstruction c
    checkVars fn scope c.fields

mutual

/-- Checks a body. -/
def checkBody (p : Program) (fn : FnName) (scope : List Var) : Body → Checked
  | .ret x => checkVar fn scope x
  | .bind x e b => do
    checkExpr p fn scope e
    checkBinder fn scope x
    checkBody p fn (x :: scope) b
  | .case x arms => do
    checkVar fn scope x
    checkArms p fn scope arms
  | .inc x b | .dec x b => do
    checkVar fn scope x
    checkBody p fn scope b
termination_by structural b => b

/-- Checks arms. -/
def checkArms (p : Program) (fn : FnName) (scope : List Var) : List Arm → Checked
  | [] => .ok ()
  | (tag, b) :: rest => do
    p.checkTag tag
    checkBody p fn scope b
    checkArms p fn scope rest
termination_by structural arms => arms

end

/-- Checks a function. -/
def checkFn (p : Program) (d : FnDef) : Checked := do
  checkParams d.name [] d.params
  checkBody p d.name d.params.reverse d.body

/-- Checks functions one after the other. -/
def checkFns (p : Program) : List FnDef → Checked
  | [] => .ok ()
  | d :: rest => do
    checkFn p d
    checkFns p rest

/-- Checks a program and answers with the first fault. -/
def Program.validate (p : Program) : Checked := checkFns p p.fns

end Reclaim.Core
