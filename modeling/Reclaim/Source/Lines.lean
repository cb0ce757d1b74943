import Reclaim.Source.Span
import Reclaim.Text.Cluster

/-!
# Places in a text

A byte offset of a text lies on a line, which starts after the line feed before it.  Lines and
columns are numbered from one, and a column is a cluster of characters, as a reader counts them.
-/

namespace Reclaim.Source

/-- Splits characters after `n` bytes.  A character that the cut would go through comes before it. -/
def splitBytes : Nat → List Char → List Char × List Char
  | _, [] => ([], [])
  | 0, cs => ([], cs)
  | n + 1, c :: rest =>
    let (before, after) := splitBytes (n + 1 - c.utf8Size) rest
    (c :: before, after)

/-- The characters after the last line feed. -/
def lastLine (cs : List Char) : List Char := (cs.reverse.takeWhile (· != '\n')).reverse

/-- The characters before the first line feed. -/
def firstLine (cs : List Char) : List Char := cs.takeWhile (· != '\n')

/-- The number of the line that follows some characters. -/
def lineNumber (before : List Char) : Nat := before.count '\n' + 1

/-- The number of the column that follows some characters. -/
def columnNumber (before : List Char) : Nat := Text.clusters (lastLine before) + 1

/-- A span with the line around it. -/
structure Marked where
  /-- The number of the line. -/
  line : Nat
  /-- The line before the span. -/
  before : List Char
  /-- The text of the span. -/
  marked : List Char
  /-- The line after the span. -/
  after : List Char

/-- The line around a span that lies on one line. -/
def mark (source : List Char) (span : Span) : Marked :=
  let (before, rest) := splitBytes span.lo source
  let (marked, after) := splitBytes (span.hi - span.lo) rest
  ⟨lineNumber before, lastLine before, marked, firstLine after⟩

example : splitBytes 3 "aéb".toList = (['a', 'é'], ['b']) := by decide

end Reclaim.Source
