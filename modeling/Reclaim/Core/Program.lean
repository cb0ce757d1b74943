import Reclaim.Core.Body

/-!
# Programs

A program is a table of types and a table of functions.  If a name is defined twice, which no
source text can do, looking it up finds the last definition.
-/

namespace Reclaim.Core

/-- A constructor: its tag and the names of its fields. -/
structure TypeDef where
  /-- The tag. -/
  tag : Tag
  /-- The fields, in order. -/
  fields : List Field
deriving Repr, Inhabited

/-- A function. -/
structure FnDef where
  /-- Its name. -/
  name : FnName
  /-- Its parameters, in order. -/
  params : List Var
  /-- Its body. -/
  body : Body
deriving Repr, Inhabited

/-- The definitions of a program, in order. -/
structure Program where
  /-- The constructors. -/
  types : List TypeDef
  /-- The functions. -/
  fns : List FnDef
deriving Repr, Inhabited

namespace Program

/-- The definition of a function. -/
def fn? (p : Program) (name : FnName) : Option FnDef := p.fns.findRev? fun d => d.name == name

/-- The definition of a constructor. -/
def type? (p : Program) (tag : Tag) : Option TypeDef := p.types.findRev? fun d => d.tag == tag

/-- Whether some constructor has a field of this name. -/
def declaresField (p : Program) (field : Field) : Bool :=
  p.types.any fun d => d.fields.any (· == field)

/-- The program with another body for each function. -/
def mapBodies (p : Program) (f : FnDef → Body) : Program :=
  { p with fns := p.fns.map fun d => { d with body := f d } }

end Program

end Reclaim.Core
