import Reclaim.Core.Name
import Reclaim.Source.Diagnostic

/-!
# Validity errors

What can be wrong with a program.  A fault in the binding of variables is a bug, since resolution
rules it out and a transformation must not bring it in.  The other faults can be written.
-/

namespace Reclaim.Core

/-- A fault that makes a program invalid. -/
inductive ValidityError where
  /-- A binder of a name that is bound around it, in function `fn`. -/
  | rebound (var : Var) (fn : FnName) (previous : Span)
  /-- A variable that nothing binds, in function `fn`. -/
  | unbound (var : Var) (fn : FnName)
  /-- The name of no function. -/
  | unknownFn (name : FnName)
  /-- The tag of no constructor. -/
  | unknownTag (tag : Tag)
  /-- The name of no field. -/
  | unknownField (field : Field)
  /-- A call with the wrong number of arguments. -/
  | arity (target : FnName) (expected supplied : Nat)
  /-- A closure that is given every argument or more. -/
  | saturated (target : FnName) (expected supplied : Nat)
  /-- A record with the wrong number of fields; its constructor stands at `declared`. -/
  | fieldCount (tag : Tag) (declared : Span) (expected supplied : Nat)
deriving Repr, Inhabited

/-- The report of a validity error. -/
def ValidityError.diagnostic : ValidityError → Diagnostic
  | .rebound var fn previous =>
    (Diagnostic.bug "attempt to rebind variable" var.span
      s!"'{var.text}' is rebound in '{fn.text}'").relatedTo previous "previously bound here"
  | .unbound var fn =>
    .bug "reference to unbound variable" var.span s!"'{var.text}' is not bound here in '{fn.text}'"
  | .unknownFn name =>
    .error "reference to unknown function" name.span s!"'{name.text}' is not a function"
  | .unknownTag tag =>
    .error "reference to unknown constructor" tag.span
      s!"'{tag.text}' is not declared by any 'deftype'"
  | .unknownField field =>
    .error "reference to unknown field" field.span
      s!"no constructor declares a field named '{field.text}'"
  | .arity target expected supplied =>
    .error "arity mismatch" target.span
      (s!"'{target.text}' takes {expected} argument(s), but {supplied} were supplied")
  | .saturated target expected supplied =>
    .error "arity mismatch" target.span
      (s!"a partial application of '{target.text}' must supply fewer than {expected} argument(s), "
        ++ s!"but {supplied} were supplied")
  | .fieldCount tag declared expected supplied =>
    (Diagnostic.error "arity mismatch" tag.span
      s!"'{tag.text}' has {expected} field(s), but {supplied} were supplied").relatedTo
        declared "declared here"

end Reclaim.Core
