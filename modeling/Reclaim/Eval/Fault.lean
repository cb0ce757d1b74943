import Reclaim.Heap.Basic
import Reclaim.Source.Diagnostic

/-!
# Faults

What can go wrong while a program runs.  A fault points at the name whose evaluation failed.
Running out of the allotted depth of calls is no fault of the program, and is kept apart.
-/

namespace Reclaim

open Reclaim.Core

/-- A failure of a running program. -/
inductive Fault where
  /-- A variable that nothing binds. -/
  | unbound (var : Var)
  /-- The name of no function. -/
  | unknownFn (name : FnName)
  /-- The tag of no constructor. -/
  | unknownTag (tag : Tag)
  /-- A field that a record of this tag does not have. -/
  | unknownField (tag : Tag) (field : Field)
  /-- A variable that should hold a record and holds a closure. -/
  | notRecord (var : Var)
  /-- A variable that should hold a closure and holds a record. -/
  | notClosure (var : Var)
  /-- A location without a cell, reached through the name at `span`. -/
  | missing (cell : MissingCell) (span : Span)
  /-- A call with the wrong number of arguments. -/
  | arity (target : FnName) (expected supplied : Nat)
  /-- A closure that is given every argument or more. -/
  | saturated (target : FnName) (expected : Nat)
  /-- A record with the wrong number of fields. -/
  | fieldCount (tag : Tag) (expected supplied : Nat)
  /-- A tag without an arm. -/
  | noArm (scrutinee : Var) (tag : Tag)
  /-- An entry that is no function. -/
  | noEntry (name : String)
  /-- An entry that wants arguments. -/
  | entryTakesParams (name : FnName)
deriving Repr, Inhabited

/-- The report of a fault. -/
def Fault.diagnostic : Fault → Diagnostic
  | .unbound var =>
    .error "reference to unbound variable" var.span
      s!"'{var.text}' is not bound here (while evaluating)"
  | .unknownFn name =>
    .error "reference to unknown function" name.span s!"'{name.text}' is not a function"
  | .unknownTag tag =>
    .error "reference to unknown constructor" tag.span
      s!"'{tag.text}' is not declared by any 'deftype'"
  | .unknownField tag field =>
    .error "unknown field" field.span s!"'{tag.text}' values have no field '{field.text}'"
  | .notRecord var =>
    .error "expected a constructor value" var.span
      s!"'{var.text}' is bound to a partial application"
  | .notClosure var =>
    .error "expected a partial application" var.span
      s!"'{var.text}' is bound to a constructor value"
  | .missing cell span => .error "missing heap location" span cell.describe
  | .arity target expected supplied =>
    .error "arity mismatch" target.span
      s!"'{target.text}' takes {expected} argument(s), but {supplied} were supplied"
  | .saturated target expected =>
    .error "arity mismatch" target.span
      (s!"a partial application of '{target.text}' must supply fewer than {expected} "
        ++ "argument(s)")
  | .fieldCount tag expected supplied =>
    .error "arity mismatch" tag.span
      s!"'{tag.text}' has {expected} field(s), but {supplied} were supplied"
  | .noArm scrutinee tag =>
    .error "non-exhaustive match" scrutinee.span s!"no arm matches '{tag.text}' here"
  | .noEntry name => .error "invalid entry point" .none s!"there is no function named '{name}'"
  | .entryTakesParams name =>
    .error "invalid entry point" name.span s!"'{name.text}' must not take any parameters"

/-- Why an evaluation ended without a result. -/
inductive Halt where
  /-- The program failed. -/
  | fault (fault : Fault)
  /-- Calls are nested more deeply than was allowed. -/
  | exhausted
deriving Repr, Inhabited

/-- The report of an evaluation without a result. -/
def Halt.diagnostic : Halt → Diagnostic
  | .fault f => f.diagnostic
  | .exhausted => .bug "calls are nested too deeply" .none "the evaluation was given up"

end Reclaim
