import Reclaim.Core.Program
import Reclaim.Layout

/-!
# Printing programs

A program is printed in the form in which it could have been written.  Bindings that follow one
another share one `let`, so the layout of a body depends on whether a `let` is open around it:
a binding continues it, and any other step closes its list of bindings first.
-/

namespace Reclaim.Core

open Layout (Step spaced)

/-- Names, each after a blank. -/
def trailing {kind : NameKind} (names : List (Name kind)) : String :=
  String.join (names.map (" " ++ ·.text))

/-- The text of a tag and its fields. -/
def Construction.text (c : Construction) : String := c.tag.text ++ trailing c.fields

/-- The text of an expression. -/
def Expr.text : Expr → String
  | .call f xs => "(" ++ f.text ++ trailing xs ++ ")"
  | .close f xs => "(pap " ++ f.text ++ trailing xs ++ ")"
  | .apply f xs => "(" ++ f.text ++ trailing xs ++ ")"
  | .extend f xs => "(pap " ++ f.text ++ trailing xs ++ ")"
  | .new c => "(new " ++ c.text ++ ")"
  | .proj f x => "(proj " ++ f.text ++ " " ++ x.text ++ ")"
  | .reset x => "(reset " ++ x.text ++ ")"
  | .reuse w c => "(reuse " ++ w.text ++ " " ++ c.text ++ ")"

/-- Steps that stand inside an open `let`, if there is one, after its bindings. -/
def insideLet (isOpen : Bool) (steps : List Step) : List Step :=
  if isOpen then [.write ")", .indent] ++ steps ++ [.write ")", .dedent] else steps

mutual

/-- The layout of a body inside an open `let` or outside of one. -/
def Body.layoutIn (isOpen : Bool) : Body → List Step
  | .ret x => insideLet isOpen [.write ("(ret " ++ x.text ++ ")")]
  | .bind x e b =>
    [.write (if isOpen then " " else "(let ("), .write (x.text ++ " " ++ e.text)] ++ b.layoutIn true
  | .case x arms =>
    insideLet isOpen
      ([.write ("(case " ++ x.text), .indent] ++ layoutArms arms ++ [.write ")", .dedent])
  | .inc x b =>
    insideLet isOpen
      ([.write ("(inc " ++ x.text), .indent] ++ b.layoutIn false ++ [.write ")", .dedent])
  | .dec x b =>
    insideLet isOpen
      ([.write ("(dec " ++ x.text), .indent] ++ b.layoutIn false ++ [.write ")", .dedent])
termination_by structural b => b

/-- The layout of arms, each on a line of its own. -/
def layoutArms : List Arm → List Step
  | [] => []
  | [(tag, b)] => [.write tag.text, .indent] ++ b.layoutIn false ++ [.dedent]
  | (tag, b) :: rest =>
    [.write tag.text, .indent] ++ b.layoutIn false ++ [.dedent, .newline] ++ layoutArms rest
termination_by structural as => as

end

/-- The layout of a body. -/
def Body.layout (b : Body) : List Step := b.layoutIn false

/-- The layout of a constructor. -/
def TypeDef.layout (d : TypeDef) : List Step :=
  [.write ("(deftype " ++ d.tag.text ++ trailing d.fields ++ ")")]

/-- The layout of a function. -/
def FnDef.layout (d : FnDef) : List Step :=
  [.write ("(defn " ++ d.name.text ++ " (")] ++ spaced (d.params.map fun x => [.write x.text]) ++
    [.write ")", .indent] ++ d.body.layout ++ [.write ")", .dedent]

/-- The layout of a program: a line for each constructor, and an empty line before each function. -/
def Program.layout (p : Program) : List Step :=
  p.types.flatMap (fun d => d.layout ++ [.newline]) ++
    p.fns.flatMap fun d => [.newline] ++ d.layout ++ [.newline]

/-- The text of a program. -/
def Program.print (p : Program) : String := Layout.print p.layout

end Reclaim.Core
