import Reclaim.Core.Program
import Reclaim.Core.ResolutionError
import Reclaim.Surface.Tree

/-!
# From syntax trees to programs

Resolution finds out what every name of a syntax tree stands for.  All types and all functions are
known before the first body is looked at, so definitions may come in any order.  A scope lists the
variables that are bound around a point, and an arm of a `case` has a scope of its own.  The head of
an application is the local of that name if there is one, and otherwise a function: this decides
between calling a function and applying a closure.

Every name keeps the place of its own occurrence.  Faults are found in a fixed order: types, then
the names of functions, then bodies, each from first to last.
-/

namespace Reclaim.Core

open Reclaim.Surface (Ident Tree)

/-- An identifier as a name of some kind. -/
def nameOf {kind : NameKind} (x : Ident) : Name kind := ⟨x.val, x.span⟩

/-- The first identifier that is spelled like an earlier one, with that earlier one.  `seen` holds
those before the list, the latest first. -/
def repeated? (seen : List Ident) : List Ident → Option (Ident × Ident)
  | [] => none
  | x :: rest => match seen.find? fun y => y.val == x.val with
    | some y => some (x, y)
    | none => repeated? (x :: seen) rest

/-! ## Tables -/

/-- What the items of a tree define: the types and the names of functions. -/
structure Globals where
  /-- The types, in order. -/
  types : List TypeDef := []
  /-- The names of functions, in order. -/
  fns : List Ident := []
deriving Inhabited

namespace Globals

/-- A tag that some type has. -/
def tag (g : Globals) (x : Ident) : Except ResolutionError Tag :=
  if g.types.any fun d => d.tag.text == x.val then .ok (nameOf x) else .error (.unknownTag x)

/-- A field that some type has. -/
def field (g : Globals) (x : Ident) : Except ResolutionError Field :=
  if g.types.any fun d => d.fields.any fun f => f.text == x.val then .ok (nameOf x)
  else .error (.unknownField x)

/-- The name of a function. -/
def fn (g : Globals) (x : Ident) : Except ResolutionError FnName :=
  if g.fns.any fun f => f.val == x.val then .ok (nameOf x) else .error (.unknownFn x)

end Globals

/-- The types of a tree, after those in `earlier`. -/
def typesOf (earlier : List TypeDef) : Tree → Except ResolutionError (List TypeDef)
  | [] => .ok earlier
  | ⟨_, .fn ..⟩ :: rest => typesOf earlier rest
  | ⟨_, .type tag fields⟩ :: rest =>
    match earlier.find? fun d => d.tag.text == tag.val with
    | some d => .error (.typeRebound tag d.tag.span)
    | none => match repeated? [] fields with
      | some (field, first) => .error (.fieldRepeated field first.span)
      | none => typesOf (earlier ++ [⟨nameOf tag, fields.map nameOf⟩]) rest

/-- The names of the functions of a tree. -/
def fnNamesOf (tree : Tree) : List Ident :=
  tree.filterMap fun item => match item.val with
    | .fn name _ _ => some name
    | .type .. => none

/-- The tables of a tree. -/
def globalsOf (tree : Tree) : Except ResolutionError Globals := do
  let types ← typesOf [] tree
  match repeated? [] (fnNamesOf tree) with
  | some (name, first) => throw (.fnRebound name first.span)
  | none => return ⟨types, fnNamesOf tree⟩

/-! ## Scopes -/

/-- The variables bound around a point, innermost first. -/
abbrev Scope : Type := List Var

namespace Scope

/-- The binding occurrence of a variable. -/
def binder? (scope : Scope) (x : Ident) : Option Var := scope.find? fun y => y.text == x.val

/-- A bound variable. -/
def lookup (scope : Scope) (x : Ident) : Except ResolutionError Var :=
  match scope.binder? x with
  | some _ => .ok (nameOf x)
  | none => .error (.unboundVar x)

/-- Bound variables. -/
def lookupAll (scope : Scope) (xs : List Ident) : Except ResolutionError (List Var) :=
  xs.mapM scope.lookup

/-- The scope with one more variable, which must be new. -/
def bind (scope : Scope) (x : Ident) : Except ResolutionError Scope :=
  match scope.binder? x with
  | some y => .error (.varRebound x y.span)
  | none => .ok (nameOf x :: scope)

end Scope

/-! ## Bodies -/

/-- A tag with its fields. -/
def resolveConstruction (g : Globals) (scope : Scope) (tag : Ident) (fields : List Ident) :
    Except ResolutionError Construction := do
  let tag ← g.tag tag
  return ⟨tag, ← scope.lookupAll fields⟩

/-- An expression.  A local of the head's name hides a function. -/
def resolveExpr (g : Globals) (scope : Scope) : Surface.Expr → Except ResolutionError Expr
  | .new tag fields => return .new (← resolveConstruction g scope tag fields)
  | .proj field record => do
    let field ← g.field field
    return .proj field (← scope.lookup record)
  | .pap target args => match scope.binder? target with
    | some _ => return .extend (nameOf target) (← scope.lookupAll args)
    | none => do
      let target ← g.fn target
      return .close target (← scope.lookupAll args)
  | .app target args => match scope.binder? target with
    | some _ => return .apply (nameOf target) (← scope.lookupAll args)
    | none => do
      let target ← g.fn target
      return .call target (← scope.lookupAll args)
  | .reset var => return .reset (← scope.lookup var)
  | .reuse token tag fields => do
    let token ← scope.lookup token
    return .reuse token (← resolveConstruction g scope tag fields)

/-- The bindings of a `let`, each in the scope of those before it, and the scope after them. -/
def resolveBindings (g : Globals) (scope : Scope) :
    List Surface.Binding → Except ResolutionError (List (Var × Expr) × Scope)
  | [] => .ok ([], scope)
  | b :: rest => do
    let expr ← resolveExpr g scope b.expr.val
    let inner ← scope.bind b.binder
    let (bound, last) ← resolveBindings g inner rest
    return ((nameOf b.binder, expr) :: bound, last)

/-- A chain of bindings in front of a body. -/
def bindAll (bound : List (Var × Expr)) (b : Body) : Body :=
  bound.foldr (fun x rest => .bind x.1 x.2 rest) b

mutual

/-- A body in a scope. -/
def resolveBody (g : Globals) (scope : Scope) : Surface.Body → Except ResolutionError Body
  | .ret x => return .ret (← scope.lookup x)
  | .lets bindings ⟨_, b⟩ => do
    let (bound, inner) ← resolveBindings g scope bindings
    return bindAll bound (← resolveBody g inner b)
  | .case x arms => do
    let x ← scope.lookup x
    return .case x (← resolveArms g scope [] arms)
  | .inc x ⟨_, b⟩ => do
    let x ← scope.lookup x
    return .inc x (← resolveBody g scope b)
  | .dec x ⟨_, b⟩ => do
    let x ← scope.lookup x
    return .dec x (← resolveBody g scope b)
termination_by structural b => b

/-- Arms in a scope, after arms for the tags in `earlier`. -/
def resolveArms (g : Globals) (scope : Scope) (earlier : List Tag) :
    List Surface.Arm → Except ResolutionError (List Arm)
  | [] => return []
  | (x, ⟨_, b⟩) :: rest => do
    let tag ← g.tag x
    match earlier.find? (· == tag) with
    | some first => throw (.armRepeated x first.span)
    | none =>
      let b ← resolveBody g scope b
      return (tag, b) :: (← resolveArms g scope (tag :: earlier) rest)
termination_by structural arms => arms

end

/-! ## Programs -/

/-- The definition of a function. -/
def resolveFn (g : Globals) (name : Ident) (params : List Ident) (body : Surface.Body) :
    Except ResolutionError FnDef :=
  match repeated? [] params with
  | some (param, first) => .error (.paramRebound param first.span)
  | none => do
    let params : List Var := params.map nameOf
    return ⟨nameOf name, params, ← resolveBody g params.reverse body⟩

/-- The definitions of the functions of a tree. -/
def resolveFns (g : Globals) : Tree → Except ResolutionError (List FnDef)
  | [] => return []
  | ⟨_, .type ..⟩ :: rest => resolveFns g rest
  | ⟨_, .fn name params body⟩ :: rest => do
    let d ← resolveFn g name params body.val
    return d :: (← resolveFns g rest)

/-- The program that a syntax tree stands for. -/
def resolve (tree : Tree) : Except ResolutionError Program := do
  let g ← globalsOf tree
  return ⟨g.types, ← resolveFns g tree⟩

end Reclaim.Core
