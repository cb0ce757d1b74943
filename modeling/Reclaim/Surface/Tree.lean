import Reclaim.Surface.Token

/-!
# Syntax trees

A program text is a list of items.  A type item declares a tag and its fields, and a function item
a name, parameters and a body.  A body is a sequence of steps that ends by returning a variable or
by a `case` with one body per arm.  Names are still plain identifiers: whether `(f x)` calls a
function or applies a local is decided by resolution.
-/

namespace Reclaim.Surface

/-- The right hand side of a binding. -/
inductive Expr where
  /-- `(new Tag x ...)` builds a record. -/
  | new (tag : Ident) (fields : List Ident)
  /-- `(proj f r)` reads a field. -/
  | proj (field record : Ident)
  /-- `(pap f x ...)` supplies some of the arguments. -/
  | pap (target : Ident) (args : List Ident)
  /-- `(f x ...)` supplies all of them. -/
  | app (target : Ident) (args : List Ident)
  /-- `(reset x)` takes a record apart for its cell. -/
  | reset (var : Ident)
  /-- `(reuse w Tag x ...)` builds a record in that cell. -/
  | reuse (token tag : Ident) (fields : List Ident)
deriving DecidableEq, Repr, Inhabited

/-- One name of a `let` with the expression it stands for. -/
structure Binding where
  /-- The name. -/
  binder : Ident
  /-- What it is bound to. -/
  expr : Spanned Expr
deriving DecidableEq, Repr, Inhabited

/-- The body of a function. -/
inductive Body where
  /-- `(ret x)` returns a variable. -/
  | ret (var : Ident)
  /-- `(let (x e ...) b)` binds names one after the other. -/
  | lets (bindings : List Binding) (body : Spanned Body)
  /-- `(case x Tag b ...)` goes on with the arm of the tag of `x`. -/
  | case (scrutinee : Ident) (arms : List (Ident × Spanned Body))
  /-- `(inc x b)` adds a reference to `x`. -/
  | inc (var : Ident) (body : Spanned Body)
  /-- `(dec x b)` gives up a reference to `x`. -/
  | dec (var : Ident) (body : Spanned Body)
deriving Repr, Inhabited

/-- One arm of a `case`: a tag and the body for it. -/
abbrev Arm : Type := Ident × Spanned Body

/-- A definition. -/
inductive Item where
  /-- `(defn f (x ...) b)` defines a function. -/
  | fn (name : Ident) (params : List Ident) (body : Spanned Body)
  /-- `(deftype Tag f ...)` declares a tag and its fields. -/
  | type (tag : Ident) (fields : List Ident)
deriving Repr, Inhabited

/-- The items of a program text. -/
abbrev Tree : Type := List (Spanned Item)

end Reclaim.Surface
