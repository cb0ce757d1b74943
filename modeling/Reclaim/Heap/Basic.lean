import Reclaim.Heap.Value
import Reclaim.Numbered

/-!
# A heap of counted cells

A cell holds a value and the number of references to it.  Cells are numbered in the order of their
allocation and a number is never given twice: when a cell is freed its slot stays, empty, and only a
`reuse` can fill it again.  The heap also keeps the number of live cells and counts what has been
done to it.

Every operation that may fail returns the heap it leaves behind also when it fails, with the effects
up to the failure.  The only failure is a location without a cell.
-/

namespace Reclaim

/-- A value with the number of references to it. -/
structure Cell where
  /-- The number of references. -/
  count : Nat
  /-- The value. -/
  value : Value
deriving Inhabited

/-- What has been done to a heap. -/
structure HeapStats where
  /-- New cells. -/
  allocations : Nat := 0
  /-- Records built in the cell of a token. -/
  reuses : Nat := 0
  /-- Cells whose last reference was given up. -/
  frees : Nat := 0
  /-- Resets of cells that others still referred to. -/
  declined : Nat := 0
deriving DecidableEq, Repr, Inhabited

/-- The counters as they are shown to the user. -/
def HeapStats.describe (s : HeapStats) : String :=
  s!"allocations: {s.allocations}, reuses: {s.reuses}, frees: {s.frees}, "
    ++ s!"declined resets: {s.declined}"

/-- The failure of a heap operation: there is no cell at a location. -/
structure MissingCell where
  /-- The location. -/
  location : Location
deriving DecidableEq, Repr, Inhabited

/-- The failure as it is shown to the user. -/
def MissingCell.describe (m : MissingCell) : String := s!"no heap cell at {m.location.describe}"

/-- A heap. -/
structure Heap where
  /-- One slot for each cell ever allocated, empty once the cell is freed. -/
  slots : Numbered (Option Cell) := .empty
  /-- The number of live cells. -/
  live : Nat := 0
  /-- What has been done. -/
  stats : HeapStats := {}
deriving Inhabited

/-- The outcome of a heap operation, together with the heap it leaves behind. -/
abbrev HeapResult (α : Type) : Type := Except MissingCell α × Heap

namespace Heap

/-- The heap without cells. -/
def empty : Heap := {}

/-- Whether no cell is live. -/
def isEmpty (h : Heap) : Bool := h.live == 0

/-! ## Reading -/

/-- The cell at a location. -/
def cell? (h : Heap) : Location → Option Cell
  | .invalid => none
  | .cell i => (h.slots.get? i).join

/-- The cell at a location, or the failure to find one. -/
def cell (h : Heap) (l : Location) : Except MissingCell Cell :=
  match h.cell? l with
  | some c => .ok c
  | none => .error ⟨l⟩

/-- The value at a location. -/
def get (h : Heap) (l : Location) : Except MissingCell Value := (h.cell l).map (·.value)

/-- The number of references to the cell at a location. -/
def count (h : Heap) (l : Location) : Except MissingCell Nat := (h.cell l).map (·.count)

/-- The live locations with their counts, in the order of allocation. -/
def liveCells (h : Heap) : List (Location × Nat) :=
  h.slots.entries.filterMap fun e => e.2.map fun c => (.cell e.1, c.count)

/-! ## Writing -/

/-- Puts a cell or nothing into a slot. -/
def write : Heap → Nat → Option Cell → Heap
  | ⟨slots, live, stats⟩, i, c => ⟨slots.set i c, live, stats⟩

/-- Puts a cell of one reference into an empty slot. -/
def fill : Heap → Nat → Value → Heap
  | ⟨slots, live, stats⟩, i, v => ⟨slots.set i (some ⟨1, v⟩), live + 1, stats⟩

/-- Empties the slot of a live cell. -/
def free : Heap → Nat → Heap
  | ⟨slots, live, stats⟩, i =>
    ⟨slots.set i none, live - 1, { stats with frees := stats.frees + 1 }⟩

/-- Puts a value into a new cell, with one reference. -/
def alloc : Heap → Value → Location × Heap
  | ⟨slots, live, stats⟩, v =>
    let (i, slots) := slots.push (some ⟨1, v⟩)
    (.cell i, ⟨slots, live + 1, { stats with allocations := stats.allocations + 1 }⟩)

/-- Replaces the value of a live cell and keeps its count, or fills an empty slot with a cell of one
reference. -/
def set (h : Heap) (l : Location) (v : Value) : HeapResult Unit :=
  match l with
  | .invalid => (.error ⟨l⟩, h)
  | .cell i => match h.slots.get? i with
    | none => (.error ⟨l⟩, h)
    | some (some c) => (.ok (), h.write i (some { c with value := v }))
    | some none => (.ok (), h.fill i v)

/-- Adds a reference to each location, one after the other.  The invalid location is skipped. -/
def inc (h : Heap) : List Location → HeapResult Unit
  | [] => (.ok (), h)
  | .invalid :: rest => h.inc rest
  | .cell i :: rest => match h.cell? (.cell i) with
    | none => (.error ⟨.cell i⟩, h)
    | some c => (h.write i (some { c with count := c.count + 1 })).inc rest

end Heap

end Reclaim
