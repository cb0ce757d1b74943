import Reclaim.Core.Resolution
import Reclaim.Core.Validity
import Reclaim.Surface.Parser

/-!
# Loading programs

A text becomes a program in three stages: it is parsed, its names are resolved, and the result is
checked.  The first stage that fails ends the loading.
-/

namespace Reclaim

open Reclaim.Core Reclaim.Surface

/-- Why a text is not a program. -/
inductive LoadError where
  /-- The form of the text is wrong. -/
  | malformed (error : SyntaxError)
  /-- A name is wrong. -/
  | unresolved (error : ResolutionError)
  /-- The program is not valid. -/
  | invalid (error : ValidityError)
deriving Repr, Inhabited

/-- The report of a failed stage. -/
def LoadError.diagnostic : LoadError → Diagnostic
  | .malformed e => e.diagnostic
  | .unresolved e => e.diagnostic
  | .invalid e => e.diagnostic

/-- The program of a text, without the check. -/
def loadUnchecked (source : String) : Except LoadError Program := do
  let tree ← (parse source).mapError .malformed
  (resolve tree).mapError .unresolved

/-- The program of a text. -/
def load (source : String) : Except LoadError Program := do
  let p ← loadUnchecked source
  p.validate.mapError .invalid
  return p

end Reclaim
