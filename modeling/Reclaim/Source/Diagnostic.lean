import Reclaim.Source.Span

/-!
# Diagnostics

A diagnostic is what a failed stage tells the user: a message, a primary label that says what is
wrong at a place, secondary labels that point at related places, and notes.  A `bug` is a failure
that no program accepted earlier should be able to cause.
-/

namespace Reclaim

/-- How bad a failure is. -/
inductive Severity where
  /-- The program or its input is at fault. -/
  | error
  /-- A stage received what an earlier stage should have refused. -/
  | bug
deriving DecidableEq, Repr, Inhabited

/-- The word a report starts with. -/
def Severity.title : Severity → String
  | .error => "error"
  | .bug => "bug"

/-- A remark on a place. -/
structure Label where
  /-- The place. -/
  span : Span
  /-- The remark. -/
  text : String
deriving DecidableEq, Repr, Inhabited

/-- The report of a failure. -/
structure Diagnostic where
  /-- How bad it is. -/
  severity : Severity := .error
  /-- What failed. -/
  message : String
  /-- Where, and in which way. -/
  label : Label
  /-- Related places. -/
  secondary : List Label := []
  /-- Remarks without a place. -/
  notes : List String := []
deriving DecidableEq, Repr, Inhabited

namespace Diagnostic

/-- An error with one label. -/
def error (message : String) (span : Span) (text : String) : Diagnostic :=
  { message, label := ⟨span, text⟩ }

/-- A bug with one label. -/
def bug (message : String) (span : Span) (text : String) : Diagnostic :=
  { severity := .bug, message, label := ⟨span, text⟩ }

/-- The diagnostic with one more related place. -/
def relatedTo (d : Diagnostic) (span : Span) (text : String) : Diagnostic :=
  { d with secondary := d.secondary ++ [⟨span, text⟩] }

/-- The diagnostic with one more remark. -/
def noting (d : Diagnostic) (note : String) : Diagnostic := { d with notes := d.notes ++ [note] }

end Diagnostic

end Reclaim
