import Reclaim.Proofs.Eval.Depth
import Reclaim.Proofs.Eval.Parallel

/-!
# Runs on heaps that are in use

A run that starts on a heap with cells in it does what it does on an empty heap, behind those cells.
What it leaves behind is what it leaves on an empty heap, put after them (`Heap.append`), and this is
so at every depth of calls (`run_append`).

No program is excluded.  A program that manages its memory by hand may come back to a location whose
cell it has given up, or put two records into one cell, and finds the same as on an empty heap: every
location that it gets hold of leads past the cells that were there before.
-/

namespace Reclaim

open Reclaim.Core Reclaim.Heap

variable {p : Program} {entry : String} {base h h' : Heap} {o : Except Fault Location}

/-! ## One heap after another -/

namespace Heap

/-- The slots of `base`, as they are, and after them those of `h`.  All locations that the cells of
`h` refer to are moved past the slots of `base`.  The live cells of both are counted together, and so
is what has been done to both. -/
def append (base h : Heap) : Heap where
  slots := ⟨base.slots.rows ++ h.slots.rows.map (·.map (·.relocate base.past))⟩
  live := base.live + h.live
  stats := base.stats + h.stats

theorem get?_append (base h : Heap) (i : Nat) :
    (base.append h).slots.get? i = if i < base.slots.size then base.slots.get? i
      else (h.slots.get? (i - base.slots.size)).map (·.map (·.relocate base.past)) := by
  rw [Numbered.get?, append, Array.getElem?_append, Array.getElem?_map]
  rfl

/-- A heap that stands behind `base`, with the same names, is just that. -/
theorem Behind.eq_append (b : Behind Eq base h h') : h' = base.append h := by
  have hslot (i : Nat) : h'.slots.get? i = (base.append h).slots.get? i := by
    rw [get?_append]
    by_cases hi : i < base.slots.size
    · rw [if_pos hi, b.front i hi]
    · obtain ⟨j, rfl⟩ := Nat.exists_eq_add_of_le (Nat.le_of_not_lt hi)
      rw [if_neg hi, Nat.add_sub_cancel_left]
      rcases b.slot_cases j with ⟨hs, hs'⟩ | ⟨hs, hs'⟩ | ⟨c, c', hs, hs', m⟩
      · rw [hs, hs', Option.map_none]
      · rw [hs, hs', Option.map_some, Option.map_none]
      · rw [hs, hs', m.eq_relocate, Option.map_some, Option.map_some]
  have hrows : h'.slots.rows = (base.append h).slots.rows := Array.ext_getElem? hslot
  have hlive := b.live
  have hstats := b.stats
  obtain ⟨⟨rows⟩, live, stats⟩ := h'
  obtain rfl : rows = _ := hrows
  obtain rfl : live = _ := hlive
  obtain rfl : stats = _ := hstats
  rfl

end Heap

/-! ## Runs -/

/-- The halt with the location moved at which a cell is missing. -/
def Halt.relocate (σ : Location → Location) : Halt → Halt
  | .fault f => .fault (f.relocate σ)
  | .exhausted => .exhausted

/-- At every depth of calls, a run on a heap in use ends as it ends on an empty heap, with all locations
moved past the cells that were there. -/
theorem run_append (p : Program) (depth : Nat) (entry : String) (base : Heap) :
    run p depth entry base
      = (((run p depth entry .empty).1.map base.past).mapError (·.relocate base.past),
        base.append (run p depth entry .empty).2) := by
  have hsame := Program.Matches.refl (fun _ => rfl) p
  have hout := run_inParallel hsame depth entry _ _ (behind_empty Eq base)
  generalize run p depth entry .empty = o at hout ⊢
  generalize run p depth entry base = o' at hout ⊢
  cases hout with
  | @ok l l' _ _ hl b =>
      obtain rfl : l' = base.past l := hl
      rw [b.eq_append]
      rfl
  | error he b =>
      rw [b.eq_append]
      cases he with
      | fault hf =>
          rw [hf.eq_relocate]
          rfl
      | exhausted => rfl

/-- The run from an entry on a heap comes to an end, with a result or with a fault, if calls may be
nested deeply enough. -/
def EndsFrom (p : Program) (entry : String) (start : Heap) (o : Except Fault Location) (h : Heap) :
    Prop :=
  ∃ depth, run p depth entry start = (o.mapError .fault, h)

/-- Runs do not depend on what else is in the heap.  If the run on an empty heap comes to an end, then
so does the run on any heap, with the corresponding outcome.  The cells that were there are neither
changed nor counted nor freed, the new ones are the same, and as much has been done. -/
theorem run_isolated (e : Ends p entry o h) (base : Heap) :
    EndsFrom p entry base ((o.map base.past).mapError (·.relocate base.past)) (base.append h) := by
  obtain ⟨depth, hrun⟩ := e
  refine ⟨depth, ?_⟩
  rw [run_append, hrun]
  cases o <;> rfl

/-! ### A program that counts wrongly -/

/-- A variable of no source text. -/
def handName (text : String) : Var := ⟨text, .none⟩

/-- Builds a box around a unit, gives up the box and goes on with its token `t`. -/
def givesUpBox (rest : Body) : Body :=
  .bind (handName "u") (.new ⟨⟨"Unit", .none⟩, []⟩)
    (.bind (handName "b") (.new ⟨⟨"Box", .none⟩, [handName "u"]⟩)
      (.bind (handName "t") (.reset (handName "b")) rest))

/-- `doubled` takes the token twice, and puts the box into itself.  `stale` looks into the box that it
has given up. -/
def mismanaged : Program where
  types := [⟨⟨"Unit", .none⟩, []⟩, ⟨⟨"Box", .none⟩, [⟨"val", .none⟩]⟩]
  fns := [
    ⟨⟨"doubled", .none⟩, [], givesUpBox
      (.bind (handName "c") (.reuse (handName "t") ⟨⟨"Box", .none⟩, [handName "u"]⟩)
        (.bind (handName "d") (.reuse (handName "t") ⟨⟨"Box", .none⟩, [handName "c"]⟩)
          (.inc (handName "d") (.ret (handName "d")))))⟩,
    ⟨⟨"stale", .none⟩, [], givesUpBox
      (.bind (handName "x") (.proj ⟨"val", .none⟩ (handName "b")) (.ret (handName "x")))⟩]

/-- Where a cell is missing, if that is why an evaluation halted. -/
def missing? : Except Halt Location → Option (MissingCell × Span)
  | .error (.fault (.missing cell span)) => some (cell, span)
  | _ => none

section

variable {r : Except Halt Location × Heap} {l : Location} {cell : MissingCell} {span : Span}

theorem exists_heap_of_ok (hr : r.1.toOption = some l) : ∃ h, r = (.ok l, h) := by
  obtain ⟨halt | m, h⟩ := r
  · cases hr
  · cases hr
    exact ⟨h, rfl⟩

theorem exists_heap_of_missing (hr : missing? r.1 = some (cell, span)) :
    ∃ h, r = (.error (.fault (.missing cell span)), h) := by
  obtain ⟨(f | _) | m, h⟩ := r
  · cases f <;> cases hr
    exact ⟨h, rfl⟩
  · cases hr
  · cases hr

end

/-- Behind the two cells of another heap the result is the fourth cell where it was the second one, and
so is the cell that is missing. -/
theorem run_isolated_mismanaged :
    (∃ h, Ends mismanaged "doubled" (.ok (.cell 1)) h ∧
      EndsFrom mismanaged "doubled" heldTwice (.ok (.cell 3)) (heldTwice.append h)) ∧
    ∃ h, Ends mismanaged "stale" (.error (.missing ⟨.cell 1⟩ .none)) h ∧
      EndsFrom mismanaged "stale" heldTwice (.error (.missing ⟨.cell 3⟩ .none))
        (heldTwice.append h) := by
  constructor
  · have hok : (run mismanaged 1 "doubled" .empty).1.toOption = some (.cell 1) := by decide +kernel
    obtain ⟨h, hrun⟩ := exists_heap_of_ok hok
    have ends : Ends mismanaged "doubled" (.ok (.cell 1)) h := ⟨1, hrun⟩
    exact ⟨h, ends, run_isolated ends heldTwice⟩
  · have hmissing : missing? (run mismanaged 1 "stale" .empty).1 = some (⟨.cell 1⟩, .none) := by
      decide +kernel
    obtain ⟨h, hrun⟩ := exists_heap_of_missing hmissing
    have ends : Ends mismanaged "stale" (.error (.missing ⟨.cell 1⟩ .none)) h := ⟨1, hrun⟩
    exact ⟨h, ends, run_isolated ends heldTwice⟩

end Reclaim
