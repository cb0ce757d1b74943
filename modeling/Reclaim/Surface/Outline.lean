import Reclaim.Layout
import Reclaim.Surface.Tree
import Reclaim.Text.Quoted

/-!
# Outlines of syntax trees

An outline shows a tree with every node named and every part on a line of its own, for a reader who
wants to see spans.  A node has either positional parts in parentheses or named parts in braces; a
part is followed by a comma, also the last one.
-/

namespace Reclaim.Surface

open Layout (Step)

/-- A tree of named nodes. -/
inductive Outline where
  /-- A leaf. -/
  | leaf (text : String)
  /-- Parts between an opening and a closing text. -/
  | group (opening : String) (parts : List (String × Outline)) (closing : String)
deriving Repr, Inhabited

namespace Outline

mutual

/-- The layout of an outline.  A group without parts stays on its line. -/
def layout : Outline → List Step
  | .leaf text => [.write text]
  | .group opening parts closing =>
    match parts with
    | [] => [.write (opening ++ closing)]
    | _ => [.write opening, .indent] ++ layoutParts parts ++ [.dedent, .newline, .write closing]
termination_by structural o => o

/-- The layout of parts, each after its name and before a comma. -/
def layoutParts : List (String × Outline) → List Step
  | [] => []
  | [(name, part)] => [.write name] ++ part.layout ++ [.write ","]
  | (name, part) :: rest => [.write name] ++ part.layout ++ [.write ",", .newline] ++ layoutParts rest
termination_by structural parts => parts

end

/-- A node with positional parts. -/
def tuple (name : String) (parts : List Outline) : Outline :=
  .group (name ++ "(") (parts.map ("", ·)) ")"

/-- A node with named parts. -/
def record (name : String) (parts : List (String × Outline)) : Outline :=
  .group (name ++ " \x7b") (parts.map fun (field, part) => (field ++ ": ", part)) "\x7d"

/-- A list. -/
def list (parts : List Outline) : Outline := .group "[" (parts.map ("", ·)) "]"

end Outline

/-- The outline of a span. -/
def outlineSpan (s : Span) : Outline :=
  let offset n := Outline.leaf s!"ByteIndex({toString (n : Nat)})"
  .tuple "Span" [.record "Span" [("start", offset s.lo), ("end", offset s.hi)]]

/-- The outline of a thing that stands at a place. -/
def outlineAt (s : Span) (o : Outline) : Outline := .tuple "Spanned" [outlineSpan s, o]

/-- The outline of a name. -/
def outlineIdent (x : Ident) : Outline := outlineAt x.span (.leaf (Text.quoted x.val))

/-- The outline of a list of names. -/
def outlineIdents (xs : List Ident) : Outline := .list (xs.map outlineIdent)

/-- The outline of an expression. -/
def Expr.outline : Expr → Outline
  | .new tag fields =>
    .record "New" [("tag", outlineIdent tag), ("fields", outlineIdents fields)]
  | .proj field record =>
    .record "Proj" [("field", outlineIdent field), ("record", outlineIdent record)]
  | .pap target args =>
    .record "Pap" [("target", outlineIdent target), ("args", outlineIdents args)]
  | .app target args =>
    .record "App" [("target", outlineIdent target), ("args", outlineIdents args)]
  | .reset var => .tuple "Reset" [outlineIdent var]
  | .reuse token tag fields =>
    .record "Reuse"
      [("token", outlineIdent token), ("tag", outlineIdent tag), ("fields", outlineIdents fields)]

/-- The outline of a binding, as a pair. -/
def Binding.outline (b : Binding) : Outline :=
  .tuple "" [outlineIdent b.binder, outlineAt b.expr.span b.expr.val.outline]

mutual

/-- The outline of a body. -/
def Body.outline : Body → Outline
  | .ret var => .tuple "Ret" [outlineIdent var]
  | .lets bindings ⟨s, b⟩ =>
    .record "Let" [("bindings", .list (bindings.map Binding.outline)), ("body", outlineAt s b.outline)]
  | .case scrutinee arms =>
    .record "Case" [("scrutinee", outlineIdent scrutinee), ("arms", .list (outlineArms arms))]
  | .inc var ⟨s, b⟩ => .record "Inc" [("var", outlineIdent var), ("body", outlineAt s b.outline)]
  | .dec var ⟨s, b⟩ => .record "Dec" [("var", outlineIdent var), ("body", outlineAt s b.outline)]
termination_by structural b => b

/-- The outlines of arms, as pairs. -/
def outlineArms : List Arm → List Outline
  | [] => []
  | (tag, ⟨s, b⟩) :: rest =>
    .tuple "" [outlineIdent tag, outlineAt s b.outline] :: outlineArms rest
termination_by structural arms => arms

end

/-- The outline of an item. -/
def Item.outline : Item → Outline
  | .fn name params body =>
    .tuple "Fn" [.record "FnDecl"
      [("name", outlineIdent name), ("params", outlineIdents params),
       ("body", outlineAt body.span body.val.outline)]]
  | .type tag fields =>
    .tuple "Type" [.record "TypeDecl" [("tag", outlineIdent tag), ("fields", outlineIdents fields)]]

/-- The text that shows a syntax tree in outline, item after item. -/
def Tree.outline (tree : Tree) : String :=
  String.join (tree.map fun item =>
    Layout.print ((outlineAt item.span item.val.outline).layout ++ [.newline]))

end Reclaim.Surface
