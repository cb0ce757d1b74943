import Reclaim.Layout
import Reclaim.Surface.Tree

/-!
# Printing syntax trees

A body inside another form starts on a line of its own, one level deeper, and the parentheses that
close it trail its last line.  Expressions and lists of names stay on one line.
-/

namespace Reclaim.Surface

open Layout (Step spaced)

/-- Names, each after a blank. -/
def trailing (names : List Ident) : String := String.join (names.map (" " ++ ·.val))

/-- The text of an expression. -/
def Expr.text : Expr → String
  | .new tag fields => "(new " ++ tag.val ++ trailing fields ++ ")"
  | .proj field record => "(proj " ++ field.val ++ " " ++ record.val ++ ")"
  | .pap target args => "(pap " ++ target.val ++ trailing args ++ ")"
  | .app target args => "(" ++ target.val ++ trailing args ++ ")"
  | .reset var => "(reset " ++ var.val ++ ")"
  | .reuse token tag fields =>
    "(reuse " ++ token.val ++ " " ++ tag.val ++ trailing fields ++ ")"

/-- A binding as it stands inside a `let`. -/
def Binding.text (b : Binding) : String := b.binder.val ++ " " ++ b.expr.val.text

mutual

/-- The layout of a body. -/
def Body.layout : Body → List Step
  | .ret var => [.write ("(ret " ++ var.val ++ ")")]
  | .lets bindings ⟨_, b⟩ =>
    [.write "(let ("] ++ spaced (bindings.map fun x => [.write x.text]) ++
      [.write ")", .indent] ++ b.layout ++ [.write ")", .dedent]
  | .case scrutinee arms =>
    [.write ("(case " ++ scrutinee.val), .indent] ++ layoutArms arms ++ [.write ")", .dedent]
  | .inc var ⟨_, b⟩ =>
    [.write ("(inc " ++ var.val), .indent] ++ b.layout ++ [.write ")", .dedent]
  | .dec var ⟨_, b⟩ =>
    [.write ("(dec " ++ var.val), .indent] ++ b.layout ++ [.write ")", .dedent]
termination_by structural b => b

/-- The layout of arms, each on a line of its own. -/
def layoutArms : List Arm → List Step
  | [] => []
  | [(tag, ⟨_, b⟩)] => [.write tag.val, .indent] ++ b.layout ++ [.dedent]
  | (tag, ⟨_, b⟩) :: rest =>
    [.write tag.val, .indent] ++ b.layout ++ [.dedent, .newline] ++ layoutArms rest
termination_by structural arms => arms

end

/-- The layout of an item. -/
def Item.layout : Item → List Step
  | .type tag fields => [.write ("(deftype " ++ tag.val ++ trailing fields ++ ")")]
  | .fn name params body =>
    [.write ("(defn " ++ name.val ++ " (")] ++ spaced (params.map fun x => [.write x.val]) ++
      [.write ")", .indent] ++ body.val.layout ++ [.write ")", .dedent]

/-- The layout of a program text, with an empty line after each item. -/
def Tree.layout (tree : Tree) : List Step :=
  tree.flatMap fun item => item.val.layout ++ [.newline, .newline]

/-- The text of a syntax tree. -/
def Tree.print (tree : Tree) : String := Layout.print tree.layout

end Reclaim.Surface
