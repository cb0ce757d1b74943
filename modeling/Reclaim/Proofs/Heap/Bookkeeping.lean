import Reclaim.Proofs.Heap.Cascades
import Reclaim.Proofs.Heap.Costs
import Reclaim.Proofs.Heap.Sessions

/-!
# Bookkeeping

A heap counts its live cells and what has been done to it.  Its client may be careless: it may give up
references that it does not hold, use a token twice or one that it made up, overwrite any cell, and go on
after a failure.  The books are right all the same.

What matters is how often a slot has been filled (`Heap.filled`), since the cell that was put there is live
or has been freed.  Operations that count references or take cells away fill no slot (`Heap.Drains`).  The
others fill at most one, and all of them but `set` write it down.  The main statement is
`perform_accurate`.
-/

namespace Reclaim.Heap

variable {h h' : Heap} {ops : List Operation} {op : Operation}

/-! ## Sequences of operations -/

/-- The heap that operations leave behind, one after the other, whether they succeed or fail. -/
def perform (h : Heap) : List Operation → Heap
  | [] => h
  | op :: rest => (op.run h).2.perform rest

/-- The location that an operation on `h` gets for a new cell, if it asks for one. -/
def Operation.allocated (h : Heap) : Operation → List Location
  | .alloc v | .reuse .invalid v => [(h.alloc v).1]
  | _ => []

/-- The locations that operations get for new cells, in order. -/
def allocated (h : Heap) : List Operation → List Location
  | [] => []
  | op :: rest => op.allocated h ++ (op.run h).2.allocated rest

/-- Whether an operation writes to a location directly. -/
def Operation.Sets : Operation → Prop
  | .set .. => True
  | _ => False

/-- The books of a heap are right. -/
structure Accurate (h : Heap) : Prop where
  /-- Live cells are counted. -/
  live : h.live = h.liveCells.length
  /-- Every live cell has a reference. -/
  counts : ∀ l n, h.count l = .ok n → 1 ≤ n
  /-- Each slot was handed out by an allocation. -/
  slots : h.slots.size = h.stats.allocations
  /-- The cell of every allocation is live or was freed. -/
  covered : h.stats.allocations ≤ h.live + h.stats.frees
  /-- Wherever a cascade stands, freeing a cell takes one from the number of live cells, which is not
  zero. -/
  cascades : ∀ ls m rest i c, Cascade (h, ls) (m, rest) → m.cell? (.cell i) = some c →
    (m.free i).live + 1 = m.live

/-! ## Live cells -/

theorem length_liveCells (h : Heap) :
    h.liveCells.length = (h.slots.rows.toList.map slotSize).sum := by
  rw [liveCells, Numbered.entries, List.filterMap_map]
  generalize h.slots.rows.toList = slots
  generalize 0 = n
  induction slots generalizing n with
  | nil => rfl
  | cons slot rest ih =>
      cases slot with
      | none => simpa [slotSize] using ih (n + 1)
      | some c =>
          rw [List.map_cons, List.sum_cons, ← ih (n + 1)]
          simp [slotSize, Nat.add_comm]

/-! ## Cascades -/

/-- A cascade fills no slot either, in whatever order it goes. -/
theorem Drains.cascade (ht : h.Tidy) {ls rest : Multiset Location} (c : Cascade (h, ls) (h', rest)) :
    h.Drains h' := by
  suffices ∀ s, Cascade (h, ls) s → h.Drains s.1 from this _ c
  intro s c
  induction c with
  | refl => exact .refl ht
  | tail _ step d =>
      cases step with
      | @step mid _ l _ _ hl =>
          cases l with
          | invalid =>
              obtain ⟨rfl, -⟩ := Prod.mk.inj (Option.some.inj hl)
              exact d
          | cell i =>
              obtain ⟨c, hc, hout⟩ := Option.map_eq_some_iff.1 hl
              obtain ⟨rfl, -⟩ := Prod.mk.inj hout
              by_cases hlt : 1 < c.count
              · simp only [Cell.dropOne, if_pos hlt, leave]
                exact d.recount hc (Nat.sub_pos_of_lt hlt)
              · simp only [Cell.dropOne, if_neg hlt, leave]
                exact d.free hc

/-! ## One operation -/

/-- What is kept of the books by every operation. -/
structure Kept (h : Heap) : Prop where
  /-- The number of live cells is right. -/
  tidy : h.Tidy
  /-- Each slot was handed out by an allocation. -/
  slots : h.slots.size = h.stats.allocations
  /-- Every slot has been filled. -/
  covered : h.stats.allocations ≤ h.filled

/-- As long as no slot is handed out, there may be more cells that are live or freed. -/
theorem Kept.fills (k : h.Kept) (tidy : h'.Tidy) (hslots : h'.slots.size = h.slots.size)
    (hallocations : h'.stats.allocations = h.stats.allocations) (hle : h.filled ≤ h'.filled) :
    h'.Kept :=
  ⟨tidy, by rw [hslots, hallocations, k.slots], by rw [hallocations]; exact k.covered.trans hle⟩

theorem Kept.drains (k : h.Kept) (d : h.Drains h') : h'.Kept :=
  k.fills d.tidy d.slots d.allocations d.filled.ge

theorem kept_empty : Heap.empty.Kept := ⟨tidy_empty, rfl, Nat.le_refl 0⟩

theorem filled_alloc (h : Heap) (v : Value) : (h.alloc v).2.filled = h.filled + 1 := by
  show h.live + 1 + h.stats.frees = h.live + h.stats.frees + 1
  omega

theorem Kept.alloc (k : h.Kept) (v : Value) : (h.alloc v).2.Kept := by
  refine ⟨alloc_tidy k.tidy v, ?_, ?_⟩
  · show (h.slots.push _).2.size = h.stats.allocations + 1
    rw [Numbered.size_push, k.slots]
  · rw [filled_alloc]
    exact Nat.succ_le_succ k.covered

/-- Writing to a location directly may fill its slot, and nothing is written down. -/
theorem set_cases (h : Heap) (l : Location) (v : Value) : (∃ e, h.set l v = (.error e, h)) ∨
    ∃ h', h.set l v = (.ok (), h') ∧ h'.stats = h.stats ∧ h'.slots.size = h.slots.size ∧
      (h'.filled = h.filled ∨ h'.filled = h.filled + 1) := by
  unfold set
  split
  · exact .inl ⟨_, rfl⟩
  · next i =>
      split
      · exact .inl ⟨_, rfl⟩
      · exact .inr ⟨_, rfl, rfl, Numbered.size_set _ _ _, .inl rfl⟩
      · refine .inr ⟨_, rfl, rfl, Numbered.size_set _ _ _, .inr ?_⟩
        show h.live + 1 + h.stats.frees = h.live + h.stats.frees + 1
        omega

/-- Building in a slot may fill it, and is written down. -/
theorem reuse_cases (h : Heap) (i : Nat) (v : Value) :
    (∃ e, h.reuse (.cell i) v = (.error e, h)) ∨ ∃ h', h.reuse (.cell i) v = (.ok (.cell i), h') ∧
      h'.stats = { h.stats with reuses := h.stats.reuses + 1 } ∧ h'.slots.size = h.slots.size ∧
      (h'.filled = h.filled ∨ h'.filled = h.filled + 1) := by
  rw [reuse]
  rcases h.set_cases (.cell i) v with ⟨e, heq⟩ | ⟨h', heq, hstats, hslots, hfilled⟩
  · exact .inl ⟨e, by rw [heq]⟩
  · rw [heq]
    exact .inr ⟨_, rfl, by rw [hstats], hslots, hfilled⟩

theorem Kept.set (k : h.Kept) (l : Location) (v : Value) : (h.set l v).2.Kept := by
  have htidy : (h.set l v).2.Tidy := set_tidy k.tidy
  rcases h.set_cases l v with ⟨e, heq⟩ | ⟨h', heq, hstats, hslots, hfilled⟩
  · rw [heq]
    exact k
  · rw [heq] at htidy ⊢
    exact k.fills htidy hslots (by rw [hstats]) (by dsimp only; omega)

theorem Kept.reuse (k : h.Kept) (t : Location) (v : Value) : (h.reuse t v).2.Kept := by
  cases t with
  | invalid => exact k.alloc v
  | cell i =>
      have htidy : (h.reuse (.cell i) v).2.Tidy := reuse_tidy k.tidy
      rcases h.reuse_cases i v with ⟨e, heq⟩ | ⟨h', heq, hstats, hslots, hfilled⟩
      · rw [heq]
        exact k
      · rw [heq] at htidy ⊢
        exact k.fills htidy hslots (by rw [hstats]) (by dsimp only; omega)

theorem Kept.run (k : h.Kept) (op : Operation) : (op.run h).2.Kept := by
  cases op with
  | alloc v => exact k.alloc v
  | inc ls => exact k.drains (.inc k.tidy ls)
  | dec ls => exact k.drains (.dec k.tidy ls)
  | reset l => exact k.drains (.reset k.tidy l)
  | reuse t v => exact k.reuse t v
  | set l v => exact k.set l v

/-- Unless slots are filled directly, it is written down how each of them was filled. -/
theorem filled_run (k : h.Kept) (hle : h.filled ≤ h.built) (hop : ¬ op.Sets) :
    (op.run h).2.filled ≤ (op.run h).2.built := by
  have drains {h' : Heap} (d : h.Drains h') : h'.filled ≤ h'.built := by
    rw [d.filled, built, d.allocations, d.reuses]
    exact hle
  have alloc (v : Value) : (h.alloc v).2.filled ≤ (h.alloc v).2.built := by
    rw [filled_alloc]
    show h.filled + 1 ≤ h.stats.allocations + 1 + h.stats.reuses
    rw [built] at hle
    omega
  cases op with
  | alloc v => exact alloc v
  | inc ls => exact drains (.inc k.tidy ls)
  | dec ls => exact drains (.dec k.tidy ls)
  | reset l => exact drains (.reset k.tidy l)
  | set l v => exact absurd trivial hop
  | reuse t v =>
      cases t with
      | invalid => exact alloc v
      | cell i =>
          show (h.reuse (.cell i) v).2.filled ≤ (h.reuse (.cell i) v).2.built
          rcases h.reuse_cases i v with ⟨e, heq⟩ | ⟨h', heq, hstats, -, hfilled⟩
          · rw [heq]
            exact hle
          · rw [heq]
            show h'.filled ≤ h'.built
            rw [built] at hle
            simp only [built, hstats]
            omega

/-! ## Sequences -/

theorem Kept.perform (k : h.Kept) (ops : List Operation) : (h.perform ops).Kept := by
  induction ops generalizing h with
  | nil => exact k
  | cons op rest ih => exact ih (k.run op)

theorem filled_perform (k : h.Kept) (hle : h.filled ≤ h.built) (hops : ∀ op ∈ ops, ¬ op.Sets) :
    (h.perform ops).filled ≤ (h.perform ops).built := by
  induction ops generalizing h with
  | nil => exact hle
  | cons op rest ih =>
      obtain ⟨hop, hrest⟩ := List.forall_mem_cons.1 hops
      exact ih (k.run op) (filled_run k hle hop) hrest

/-- The slots of a heap, in the order in which they were handed out. -/
def handedOut (h : Heap) : List Location := (List.range h.slots.size).map .cell

theorem handedOut_alloc (h : Heap) (v : Value) :
    (h.alloc v).2.handedOut = h.handedOut ++ [(h.alloc v).1] := by
  have hsize : (h.alloc v).2.slots.size = h.slots.size + 1 := Numbered.size_push _ _
  rw [handedOut, hsize, List.range_succ, List.map_append]
  rfl

/-- An operation that asks for a new cell is handed the next slot. -/
theorem handedOut_run (k : h.Kept) (op : Operation) :
    (op.run h).2.handedOut = h.handedOut ++ op.allocated h := by
  have same {h' : Heap} (hsize : h'.slots.size = h.slots.size) :
      h'.handedOut = h.handedOut ++ [] := by
    rw [handedOut, hsize, List.append_nil, handedOut]
  cases op with
  | alloc v => exact h.handedOut_alloc v
  | inc ls => exact same (Drains.inc k.tidy ls).slots
  | dec ls => exact same (Drains.dec k.tidy ls).slots
  | reset l => exact same (Drains.reset k.tidy l).slots
  | set l v =>
      refine same ?_
      show (h.set l v).2.slots.size = h.slots.size
      rcases h.set_cases l v with ⟨e, heq⟩ | ⟨h', heq, -, hslots, -⟩
      · rw [heq]
      · rw [heq, ← hslots]
  | reuse t v =>
      cases t with
      | invalid => exact h.handedOut_alloc v
      | cell i =>
          refine same ?_
          show (h.reuse (.cell i) v).2.slots.size = h.slots.size
          rcases h.reuse_cases i v with ⟨e, heq⟩ | ⟨h', heq, -, hslots, -⟩
          · rw [heq]
          · rw [heq, ← hslots]

theorem handedOut_perform (k : h.Kept) (ops : List Operation) :
    (h.perform ops).handedOut = h.handedOut ++ h.allocated ops := by
  induction ops generalizing h with
  | nil => exact (List.append_nil _).symm
  | cons op rest ih => rw [perform, ih (k.run op), handedOut_run k, allocated, List.append_assoc]

theorem nodup_handedOut (h : Heap) : h.handedOut.Nodup :=
  List.nodup_range.map fun _ _ heq => Location.cell.inj heq

theorem Kept.accurate (k : h.Kept) : h.Accurate where
  live := by rw [k.tidy.live, length_liveCells]
  counts := by
    intro l n hn
    rw [count, cell] at hn
    cases hc : h.cell? l with
    | none =>
        rw [hc] at hn
        cases hn
    | some c =>
        rw [hc] at hn
        cases hn
        exact k.tidy.counted hc
  slots := k.slots
  covered := k.covered
  cascades := by
    intro ls m rest i c hcascade hc
    have hpos := (Drains.cascade k.tidy hcascade).tidy.live_pos hc
    show m.live - 1 + 1 = m.live
    omega

/-- Whatever operations are carried out on an empty heap, with whatever arguments and even if some of them
fail, the books of the heap are right, also in the middle of a cascade.  No slot is handed out twice.  If
no location is written to directly, no more cells are live or freed than have been allocated or
reused. -/
theorem perform_accurate (ops : List Operation) :
    (Heap.empty.perform ops).Accurate ∧ (Heap.empty.allocated ops).Nodup ∧
    ((∀ op ∈ ops, ¬ op.Sets) →
      (Heap.empty.perform ops).live + (Heap.empty.perform ops).stats.frees ≤
        (Heap.empty.perform ops).stats.allocations + (Heap.empty.perform ops).stats.reuses) := by
  refine ⟨(kept_empty.perform ops).accurate, ?_, filled_perform kept_empty (Nat.le_refl 0)⟩
  have hslots : (Heap.empty.perform ops).handedOut = Heap.empty.allocated ops :=
    handedOut_perform kept_empty ops
  rw [← hslots]
  exact nodup_handedOut _

/-- A client that holds one reference to a cell and lets another cell give it up twice.  It fills a slot
that is not there, one that was freed and a live one, and then counts up a cell that is not there. -/
def careless : List Operation := [.alloc (.closure ⟨"f", .none⟩ []),
  .alloc (.closure ⟨"f", .none⟩ [.cell 0, .cell 0]), .dec [.cell 1],
  .reuse (.cell 7) (.closure ⟨"f", .none⟩ []), .reuse (.cell 1) (.closure ⟨"f", .none⟩ []),
  .reuse (.cell 1) (.closure ⟨"f", .none⟩ [.cell 1]), .reuse .invalid (.closure ⟨"f", .none⟩ []),
  .inc [.invalid, .cell 2, .cell 9]]

/-- The books are right, though three operations have failed. -/
theorem perform_accurate_careless : (∀ op ∈ careless, ¬ op.Sets) ∧
    ((Operation.dec [.cell 1]).run (Heap.empty.perform (careless.take 2))).1 = .error ⟨.cell 0⟩ ∧
    (Heap.empty.perform careless).Accurate ∧ (Heap.empty.allocated careless).Nodup ∧
    Heap.empty.allocated careless = [.cell 0, .cell 1, .cell 2] ∧
    (Heap.empty.perform careless).stats = { allocations := 3, reuses := 2, frees := 2 } ∧
    (Heap.empty.perform careless).live + 2 ≤ 3 + 2 := by
  have hops : ∀ op ∈ careless, ¬ op.Sets := by simp [careless, Operation.Sets]
  obtain ⟨accurate, nodup, hle⟩ := perform_accurate careless
  have hstats : (Heap.empty.perform careless).stats = { allocations := 3, reuses := 2, frees := 2 } := by
    decide +kernel
  have hbound := hle hops
  rw [hstats] at hbound
  exact ⟨hops, by decide +kernel, accurate, nodup, by decide +kernel, hstats, hbound⟩

end Reclaim.Heap
