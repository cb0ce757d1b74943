import Reclaim.Core.Program

/-!
# The places of a program's names

The span of every name of a program, in the order in which the names are written: the constructors
first, then each function with its parameters and its body.
-/

namespace Reclaim.Core

/-- The spans of a list of names. -/
def spansOf {kind : NameKind} (names : List (Name kind)) : List Span := names.map (·.span)

/-- The spans of the names of an expression. -/
def Expr.spans : Expr → List Span
  | .call f xs | .close f xs => f.span :: spansOf xs
  | .apply f xs | .extend f xs => f.span :: spansOf xs
  | .new c => c.tag.span :: spansOf c.fields
  | .proj f x => [f.span, x.span]
  | .reset x => [x.span]
  | .reuse w c => w.span :: c.tag.span :: spansOf c.fields

mutual

/-- The spans of the names of a body. -/
def Body.spans : Body → List Span
  | .ret x => [x.span]
  | .bind x e b => x.span :: (e.spans ++ b.spans)
  | .case x arms => x.span :: spansArms arms
  | .inc x b | .dec x b => x.span :: b.spans
termination_by structural b => b

/-- The spans of the names of arms. -/
def spansArms : List Arm → List Span
  | [] => []
  | (tag, b) :: rest => tag.span :: (b.spans ++ spansArms rest)
termination_by structural as => as

end

/-- The spans of the names of a constructor. -/
def TypeDef.spans (d : TypeDef) : List Span := d.tag.span :: spansOf d.fields

/-- The spans of the names of a function. -/
def FnDef.spans (d : FnDef) : List Span := d.name.span :: (spansOf d.params ++ d.body.spans)

/-- The spans of the names of a program. -/
def Program.spans (p : Program) : List Span :=
  p.types.flatMap TypeDef.spans ++ p.fns.flatMap FnDef.spans

end Reclaim.Core
