import Reclaim.Source.Diagnostic
import Reclaim.Source.Lines
import Reclaim.Text.Blank
import Reclaim.Text.Columns

/-!
# Reports

A diagnostic is shown with the source lines that its labels point at.  Under a heading with the
first labelled place stands a block for each label, the primary one first: the line with its number,
and below it the label's text after a mark under each column of the span.  A gutter on the left has
room for the number of the last labelled line.

A report is first made of pieces that say what they are, and then written with or without colours.
-/

namespace Reclaim.Source

/-- What a piece of a report is. -/
inductive Ink where
  /-- Text without a colour. -/
  | plain
  /-- The severity in the heading. -/
  | severity
  /-- The message in the heading. -/
  | message
  /-- Line numbers and everything drawn. -/
  | border
  /-- The primary label and what it points at. -/
  | primary
  /-- A secondary label and what it points at. -/
  | secondary
deriving DecidableEq, Repr, Inhabited

/-- The terminal codes that a piece starts with in colour. -/
def Ink.codes : Ink → List String
  | .plain => []
  | .severity => ["1", "38;5;9"]
  | .message => ["1"]
  | .border | .secondary => ["34"]
  | .primary => ["31"]

/-- A piece of a report. -/
abbrev Piece : Type := Ink × String

/-- A terminal code. -/
def escape (code : String) : String := "\x1b[" ++ code ++ "m"

/-- The text of a piece in colour.  The style before it is reset, and so is its own; the severity
leaves the latter to the message after it. -/
def Piece.coloured (p : Piece) : String :=
  match p.1 with
  | .plain => p.2
  | .severity => escape "0" ++ String.join (p.1.codes.map escape) ++ p.2
  | ink => escape "0" ++ String.join (ink.codes.map escape) ++ p.2 ++ escape "0"

/-- The text of a report. -/
def writePieces (isColoured : Bool) (pieces : List Piece) : String :=
  String.join (pieces.map fun p => if isColoured then p.coloured else p.2)

/-! ## Parts of a report -/

/-- A text of `n` blanks. -/
def padding (n : Nat) : String := String.ofList (List.replicate n ' ')

/-- An empty gutter with room for `width` digits, up to a border. -/
def gutter (width : Nat) (border : String) : List Piece :=
  [(.plain, padding (width + 2)), (.border, border)]

/-- An empty gutter with nothing after its border. -/
def rule (width : Nat) (border : String) : List Piece := gutter width border ++ [(.plain, "\n")]

/-- Characters without the white space at their end. -/
def trimEnd (cs : List Char) : List Char := (cs.reverse.dropWhile Text.isBlank).reverse

/-- The characters of a source line as they are shown. -/
def shown (cs : List Char) : String := String.ofList (Text.untabbed cs)

/-- The block of a label: its line, and below it a mark for each column of the span. -/
def labelBlock (source : List Char) (width : Nat) (ink : Ink) (sign : Char) (l : Label) :
    List Piece :=
  let m := mark source l.span
  let marks := List.replicate (max 1 (Text.columns m.marked)) sign
  let line := [(.plain, " "), (.border, toString m.line), (.plain, " "), (.border, "│"),
    (.plain, " " ++ shown m.before)]
  line ++ [(ink, shown m.marked), (.plain, shown (trimEnd m.after) ++ "\n")] ++ gutter width "│" ++
    [(.plain, " " ++ padding (Text.columns m.before)),
      (ink, String.ofList marks ++ " " ++ l.text), (.plain, "\n")]

/-! ## Reports -/

/-- The labels of a diagnostic, the primary one first. -/
def labelsOf (d : Diagnostic) : List Label := d.label :: d.secondary

/-- The least start of the labels. -/
def firstOffset (d : Diagnostic) : Nat :=
  d.secondary.foldl (fun n l => min n l.span.lo) d.label.span.lo

/-- The greatest end of the labels. -/
def lastOffset (d : Diagnostic) : Nat :=
  d.secondary.foldl (fun n l => max n l.span.hi) d.label.span.hi

/-- The pieces of a report on a source text. -/
def report (file : String) (source : List Char) (d : Diagnostic) : List Piece :=
  let first := (splitBytes (firstOffset d) source).1
  let last := (splitBytes (lastOffset d) source).1
  let width := (toString (lineNumber last)).length
  let place := s!" {file}:{lineNumber first}:{columnNumber first} "
  let heading := [(.severity, d.severity.title), (.message, ": " ++ d.message), (.plain, "\n\n")]
  let locus := [(.plain, padding (width + 2)), (.border, "┌"), (.border, "──"), (.plain, place),
    (.border, "───"), (.plain, "\n")]
  let primary := rule width "│" ++ labelBlock source width .primary '^' d.label
  let secondary := d.secondary.flatMap fun l =>
    rule width "·" ++ labelBlock source width .secondary '-' l
  let notes := d.notes.flatMap fun note => gutter width "=" ++ [(.plain, " " ++ note ++ "\n")]
  heading ++ locus ++ primary ++ secondary ++ rule width "│" ++ notes ++ [(.plain, "\n")]

/-- The text of a report on a source text. -/
def Diagnostic.print (isColoured : Bool) (file source : String) (d : Diagnostic) : String :=
  writePieces isColoured (report file source.toList d)

end Reclaim.Source
