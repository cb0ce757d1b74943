/-!
# Spans of source text

A span is a range of byte offsets into the source, with its end excluded.  Something that no source
text spelled has the empty span at the start of the text, `Span.none`.
-/

namespace Reclaim

/-- The bytes from `lo` up to, and without, `hi`. -/
structure Span where
  /-- The offset of the first byte. -/
  lo : Nat := 0
  /-- The offset after the last byte. -/
  hi : Nat := 0
deriving DecidableEq, Repr, Inhabited

namespace Span

/-- The span of what no source text spelled. -/
def none : Span := ⟨0, 0⟩

/-- The span with these bounds, if they are in order. -/
def ofBounds? (lo hi : Nat) : Option Span := if lo ≤ hi then some ⟨lo, hi⟩ else Option.none

/-- The empty span at the end. -/
def clip (s : Span) : Span := ⟨s.hi, s.hi⟩

/-- From the start of `s` to the end of `t`. -/
def through (s t : Span) : Span := ⟨s.lo, t.hi⟩

/-- From the start of `s` to the end of `t`, unless `t` ends before `s` starts. -/
def through? (s t : Span) : Option Span := ofBounds? s.lo t.hi

end Span

example : Span.through? ⟨4, 5⟩ ⟨0, 4⟩ = some ⟨4, 4⟩ := by decide
example : Span.through? ⟨4, 5⟩ ⟨0, 3⟩ = none := by decide

end Reclaim
