import Reclaim.Heap.Value

/-!
# Environments

An environment binds variables to locations.  The newest binding of a variable hides older ones.
-/

namespace Reclaim

open Reclaim.Core

/-- Variables with their locations, newest first. -/
abbrev Env : Type := List (Var × Location)

namespace Env

/-- The location of a variable. -/
def find? (env : Env) (x : Var) : Option Location :=
  (List.find? (fun b : Var × Location => b.1 == x) env).map (·.2)

/-- The environment with one more binding. -/
def bind (env : Env) (x : Var) (l : Location) : Env := (x, l) :: env

/-- The environment at the start of a call.  Of two parameters with one name the later one counts,
and parameters without an argument are not bound. -/
def ofArgs (params : List Var) (args : List Location) : Env := (params.zip args).reverse

end Env

end Reclaim
