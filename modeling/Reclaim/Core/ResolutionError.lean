import Reclaim.Source.Diagnostic
import Reclaim.Surface.Token

/-!
# Resolution errors

What can be wrong with the names of a syntax tree: a name that is bound twice where it may be bound
once, or a name that is bound nowhere.
-/

namespace Reclaim.Core

open Reclaim.Surface (Ident)

/-- A fault in the use of names. -/
inductive ResolutionError where
  /-- A second type of one name; the first stands at `previous`. -/
  | typeRebound (tag : Ident) (previous : Span)
  /-- A second field of one name in a type. -/
  | fieldRepeated (field : Ident) (previous : Span)
  /-- A second function of one name. -/
  | fnRebound (name : Ident) (previous : Span)
  /-- A second parameter of one name. -/
  | paramRebound (param : Ident) (previous : Span)
  /-- A binder of a name that is bound around it. -/
  | varRebound (binder : Ident) (previous : Span)
  /-- A second arm for one tag. -/
  | armRepeated (tag : Ident) (previous : Span)
  /-- A variable that nothing binds. -/
  | unboundVar (var : Ident)
  /-- A tag that no type has. -/
  | unknownTag (tag : Ident)
  /-- A field that no type has. -/
  | unknownField (field : Ident)
  /-- The head of an application that is neither a local nor a function. -/
  | unknownFn (name : Ident)
deriving DecidableEq, Repr, Inhabited

/-- The report of a resolution error. -/
def ResolutionError.diagnostic : ResolutionError → Diagnostic
  | .typeRebound tag previous =>
    (Diagnostic.error "previously bound type name" tag.span
      s!"attempt to rebind '{tag.val}' here").relatedTo previous "previously bound here"
  | .fieldRepeated field previous =>
    (Diagnostic.error "malformed type declaration" field.span
      s!"'{field.val}' is declared twice").relatedTo previous "first declared here"
  | .fnRebound name previous =>
    (Diagnostic.error "attempt to rebind function name" name.span
      s!"'{name.val}' is already bound to a function").relatedTo previous "previously bound here"
  | .paramRebound param previous =>
    (Diagnostic.error "attempted to rebind formal parameter" param.span
      "a formal parameter with this name already exists").relatedTo previous "previously bound here"
  | .varRebound binder previous =>
    (Diagnostic.error "attempt to rebind variable" binder.span
      s!"'{binder.val}' is already bound in this scope").relatedTo previous "previously bound here"
  | .armRepeated tag previous =>
    (Diagnostic.error "duplicate case arm" tag.span
      s!"'{tag.val}' is already matched by this case").relatedTo previous "first matched here"
  | .unboundVar var =>
    .error "reference to unbound variable" var.span s!"'{var.val}' is not bound here (while lowering)"
  | .unknownTag tag =>
    .error "reference to unknown constructor" tag.span
      s!"'{tag.val}' is not declared by any 'deftype'"
  | .unknownField field =>
    .error "reference to unknown field" field.span
      s!"no constructor declares a field named '{field.val}'"
  | .unknownFn name =>
    .error "reference to unknown function" name.span
      s!"'{name.val}' is neither a local nor a function"

end Reclaim.Core
