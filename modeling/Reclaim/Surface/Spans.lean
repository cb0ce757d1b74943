import Reclaim.Surface.Tree

/-!
# The places of a syntax tree

Every node and every name of a syntax tree has a span.  They are listed from the root down, a node
before its parts and the parts in the order in which they are written.
-/

namespace Reclaim.Surface

/-- The names of an expression, in order. -/
def Expr.idents : Expr → List Ident
  | .new tag fields => tag :: fields
  | .proj field record => [field, record]
  | .pap target args => target :: args
  | .app target args => target :: args
  | .reset var => [var]
  | .reuse token tag fields => token :: tag :: fields

/-- The spans of a binding: its name, its expression, and the names in that. -/
def Binding.spans (b : Binding) : List Span :=
  b.binder.span :: b.expr.span :: b.expr.val.idents.map (·.span)

mutual

/-- The spans below a body. -/
def Body.spans : Body → List Span
  | .ret var => [var.span]
  | .lets bindings ⟨s, b⟩ => bindings.flatMap Binding.spans ++ s :: b.spans
  | .case scrutinee arms => scrutinee.span :: spansArms arms
  | .inc var ⟨s, b⟩ => var.span :: s :: b.spans
  | .dec var ⟨s, b⟩ => var.span :: s :: b.spans
termination_by structural b => b

/-- The spans of arms. -/
def spansArms : List Arm → List Span
  | [] => []
  | (tag, ⟨s, b⟩) :: rest => tag.span :: s :: (b.spans ++ spansArms rest)
termination_by structural arms => arms

end

/-- The spans below an item. -/
def Item.spans : Item → List Span
  | .type tag fields => tag.span :: fields.map (·.span)
  | .fn name params body =>
    name.span :: (params.map (·.span) ++ body.span :: body.val.spans)

/-- The spans of a program text. -/
def Tree.spans (tree : Tree) : List Span := tree.flatMap fun item => item.span :: item.val.spans

end Reclaim.Surface
