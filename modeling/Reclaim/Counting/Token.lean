import Reclaim.Core.FreeVars
import Reclaim.Numbered

/-!
# Fresh tokens

The variable bound by an inserted `reset` is a new one.  Candidates are numbered, one counter serves
a whole function, and a candidate is passed over if the function has a variable or the program a
function of that name.  Each name in use rules out at most one candidate, so among one more
candidates than names in use there is a new one, and the search needs no other bound.
-/

namespace Reclaim.Counting

open Reclaim.Core

/-- The names that tokens of one function have to avoid. -/
structure Reserved where
  /-- The variables of the function. -/
  vars : VarSet
  /-- The functions of the program. -/
  fns : List FnName
deriving Inhabited

/-- A candidate for a token. -/
def candidate (n : Nat) : Var := ⟨"_r" ++ toString n, .none⟩

namespace Reserved

/-- Whether a candidate is spelled like no name in use. -/
def permits (r : Reserved) (n : Nat) : Bool :=
  !r.vars.contains (candidate n) && !r.fns.any fun f => f.text == (candidate n).text

/-- The next candidate that is permitted, after at most `attempts` that are not. -/
def search (r : Reserved) : Nat → Counter → Var × Counter
  | 0, c => (candidate c.next.1, c.next.2)
  | attempts + 1, c =>
    if r.permits c.next.1 then (candidate c.next.1, c.next.2) else r.search attempts c.next.2

/-- A new variable. -/
def fresh (r : Reserved) : StateM Counter Var := r.search (r.vars.size + r.fns.length)

end Reserved

end Reclaim.Counting
