/-!
# Laying out nested text

A document is a list of steps, and a page is what has been printed so far together with the depth
of nesting.  A level of nesting is four blanks.  The blanks at the head of a line are owed until
something is written on it, so an empty line stays empty and a closing parenthesis can trail the
form it closes.

The printers of this library produce steps and never text, so that two printers can be compared
step by step.
-/

namespace Reclaim.Layout

/-- One instruction to the page. -/
inductive Step where
  /-- Write on the current line. -/
  | write (text : String)
  /-- End the line. -/
  | newline
  /-- Move onto a fresh line one level deeper. -/
  | indent
  /-- Step back out a level, staying on the line. -/
  | dedent
deriving DecidableEq, Repr

/-- A page under the printer's hand. -/
structure Page where
  /-- What has been printed. -/
  text : String := ""
  /-- The depth of nesting. -/
  depth : Nat := 0
  /-- The levels of blanks owed to the line at hand. -/
  owed : Nat := 0
deriving DecidableEq, Repr

/-- The blanks of `n` levels. -/
def blanks : Nat → String
  | 0 => ""
  | n + 1 => "    " ++ blanks n

namespace Page

/-- Ends the line and owes the next one the blanks of the current depth. -/
def newline : Page → Page
  | ⟨text, depth, _⟩ => ⟨text ++ "\n", depth, depth⟩

/-- Pays the owed blanks, then appends `s`. -/
def write : Page → String → Page
  | ⟨text, depth, owed⟩, s => ⟨text ++ blanks owed ++ s, depth, 0⟩

/-- Goes a level deeper.  A line that is still owed its blanks is fresh already. -/
def indent : Page → Page
  | ⟨text, depth, 0⟩ => newline ⟨text, depth + 1, 0⟩
  | ⟨text, depth, _ + 1⟩ => ⟨text, depth + 1, depth + 1⟩

/-- Comes back a level. -/
def dedent : Page → Page
  | ⟨text, depth, owed⟩ => ⟨text, depth - 1, owed⟩

/-- Carries out one step. -/
def step (p : Page) : Step → Page
  | .write s => p.write s
  | .newline => p.newline
  | .indent => p.indent
  | .dedent => p.dedent

/-- Carries out steps in order. -/
def run (p : Page) (steps : List Step) : Page := steps.foldl step p

@[simp] theorem run_nil (p : Page) : p.run [] = p := rfl

@[simp] theorem run_cons (p : Page) (s : Step) (rest : List Step) :
    p.run (s :: rest) = (p.step s).run rest := rfl

@[simp] theorem run_append (p : Page) (a b : List Step) : p.run (a ++ b) = (p.run a).run b := by
  simp [run]

end Page

/-- The text that steps leave on an empty page. -/
def print (steps : List Step) : String := (Page.run {} steps).text

/-- Writes `s` and ends the line. -/
def writeLine (s : String) : List Step := [.write s, .newline]

/-- Lays out the parts of a list with a blank between any two. -/
def spaced (parts : List (List Step)) : List Step := List.intercalate [.write " "] parts

/-! ## Tests -/

example : print [.write "(a", .indent, .write "b", .newline, .newline, .write "c)", .dedent, .newline,
    .write "d"] = "(a\n    b\n\n    c)\nd" := by decide
example : print [.indent, .indent, .write "x"] = "\n        x" := by decide

end Reclaim.Layout
