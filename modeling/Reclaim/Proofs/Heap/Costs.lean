import Reclaim.Proofs.Heap.Leaks

/-!
# What a heap has cost

Every value has been put into a new cell or into the cell of a token (`Heap.built`), and its cell is live
or has been freed since.  An operation that only counts or takes away fills no slot (`Heap.Drains`) and
builds nothing, and a reuse builds one value, provided that the slot of the token is empty
(`Heap.Balances`).

Next to such a heap stands one that only grows, in which as many values have been built (`Heap.Level`).
-/

namespace Reclaim.Heap

variable {h h' mid h₁ h₂ : Heap} {ls : List Location} {l token : Location} {v v₁ v₂ : Value} {i : Nat}

/-- The number of values that have been put into cells, new ones or those of tokens. -/
def built (h : Heap) : Nat := h.stats.allocations + h.stats.reuses

/-- In a tidy heap each value that has been built has a cell that is live or has been freed. -/
structure Balances (h : Heap) : Prop where
  /-- The number of live cells is right. -/
  tidy : h.Tidy
  /-- Live and freed cells make up what has been built. -/
  total : h.live + h.stats.frees = h.built

/-! ## Operations that build nothing -/

/-- Adding references to cells changes neither their number nor what has been done. -/
theorem inc_stats (h : Heap) (ls : List Location) :
    (h.inc ls).2.stats = h.stats ∧ (h.inc ls).2.live = h.live := by
  refine inc_preserves (I := fun h' => h'.stats = h.stats ∧ h'.live = h.live) ?_ ls ⟨rfl, rfl⟩
  intro h' i c hsame _
  exact hsame

/-- How often a slot has been filled.  The cell is live, or has been freed since. -/
def filled (h : Heap) : Nat := h.live + h.stats.frees

/-- `h'` has come out of `h`, and no slot has been filled. -/
structure Drains (h h' : Heap) : Prop where
  /-- The heap is tidy. -/
  tidy : h'.Tidy
  /-- Cells have only been freed. -/
  filled : h'.filled = h.filled
  /-- No cell has been added. -/
  allocations : h'.stats.allocations = h.stats.allocations
  /-- No slot has been filled again. -/
  reuses : h'.stats.reuses = h.stats.reuses
  /-- No slot has been handed out. -/
  slots : h'.slots.size = h.slots.size

namespace Drains

theorem refl (ht : h.Tidy) : h.Drains h := ⟨ht, rfl, rfl, rfl, rfl⟩

theorem recount {c : Cell} {n : Nat} (d : h.Drains mid) (hc : mid.cell? (.cell i) = some c)
    (hn : 0 < n) : h.Drains (mid.write i (some { c with count := n })) :=
  ⟨recount_tidy d.tidy hc hn, d.filled, d.allocations, d.reuses, (Numbered.size_set _ _ _).trans d.slots⟩

/-- A cell that is freed was counted. -/
theorem free {c : Cell} (d : h.Drains mid) (hc : mid.cell? (.cell i) = some c) :
    h.Drains (mid.free i) := by
  refine ⟨free_tidy d.tidy hc, ?_, d.allocations, d.reuses, (Numbered.size_set _ _ _).trans d.slots⟩
  have hpos := d.tidy.live_pos hc
  have hfilled := d.filled
  show mid.live - 1 + (mid.stats.frees + 1) = _
  rw [← hfilled, Heap.filled]
  omega

theorem inc (ht : h.Tidy) (ls : List Location) : h.Drains (h.inc ls).2 :=
  inc_preserves (fun _ _ _ d hc => d.recount hc (Nat.succ_pos _)) ls (.refl ht)

theorem dec (ht : h.Tidy) (ls : List Location) : h.Drains (h.dec ls).2 :=
  dec_preserves (fun _ _ _ d hc hlt => d.recount hc (Nat.sub_pos_of_lt hlt))
    (fun _ _ _ d hc => d.free hc) ls (.refl ht)

theorem reset (ht : h.Tidy) (l : Location) : h.Drains (h.reset l).2 :=
  reset_preserves (fun _ _ _ d hc hlt => d.recount hc (Nat.sub_pos_of_lt hlt))
    (fun _ _ _ d hc => d.free hc)
    (fun _ d => ⟨⟨d.tidy.live, d.tidy.counted⟩, d.filled, d.allocations, d.reuses, d.slots⟩) l (.refl ht)

end Drains

/-- What fills no slot builds nothing and keeps the balance. -/
theorem Balances.drains (b : h.Balances) (d : h.Drains h') : h'.Balances ∧ h'.built = h.built := by
  have hbuilt : h'.built = h.built := by rw [built, d.allocations, d.reuses, built]
  exact ⟨⟨d.tidy, d.filled.trans (b.total.trans hbuilt.symm)⟩, hbuilt⟩

theorem inc_balances (b : h.Balances) (ls : List Location) :
    (h.inc ls).2.Balances ∧ (h.inc ls).2.built = h.built :=
  b.drains (.inc b.tidy ls)

theorem dec_balances (b : h.Balances) (ls : List Location) :
    (h.dec ls).2.Balances ∧ (h.dec ls).2.built = h.built :=
  b.drains (.dec b.tidy ls)

theorem reset_balances (b : h.Balances) (l : Location) :
    (h.reset l).2.Balances ∧ (h.reset l).2.built = h.built :=
  b.drains (.reset b.tidy l)

/-! ## Operations that build a value -/

theorem alloc_balances (b : h.Balances) (v : Value) :
    (h.alloc v).2.Balances ∧ (h.alloc v).2.built = h.built + 1 := by
  have hbuilt : (h.alloc v).2.built = h.built + 1 := by
    show h.stats.allocations + 1 + h.stats.reuses = h.built + 1
    rw [built]
    omega
  refine ⟨⟨alloc_tidy b.tidy v, ?_⟩, hbuilt⟩
  have := b.total
  show h.live + 1 + h.stats.frees = _
  omega

/-- A value that is put into an empty slot costs no new cell. -/
theorem reuse_balances (b : h.Balances) (hs : h.Spare i) :
    (h.reuse (.cell i) v).2.Balances ∧ (h.reuse (.cell i) v).2.built = h.built + 1 := by
  have htidy := reuse_tidy (t := .cell i) (v := v) b.tidy
  rw [reuse_spare v hs] at htidy ⊢
  have hbuilt := b.total
  refine ⟨⟨htidy, ?_⟩, ?_⟩
  · show h.live + 1 + h.stats.frees = h.stats.allocations + (h.stats.reuses + 1)
    rw [built] at hbuilt
    omega
  · show h.stats.allocations + (h.stats.reuses + 1) = h.built + 1
    rw [built]
    omega

/-! ## Two heaps side by side -/

/-- Of two heaps, the first only grows, and has built as many values as the second. -/
structure Level (h₁ h₂ : Heap) : Prop where
  /-- All that has been done to the first heap is to allocate cells. -/
  grown : h₁.stats = { allocations := h₂.built }
  /-- All its cells are live. -/
  live : h₁.live = h₂.built
  /-- The second heap is in balance. -/
  balances : h₂.Balances

theorem level_empty : Level .empty .empty := ⟨rfl, rfl, tidy_empty, rfl⟩

namespace Level

/-- Adding references on the left makes no difference. -/
theorem inc_left (lev : Level h₁ h₂) (ls : List Location) : Level (h₁.inc ls).2 h₂ := by
  obtain ⟨hstats, hlive⟩ := inc_stats h₁ ls
  exact ⟨hstats.trans lev.grown, hlive.trans lev.live, lev.balances⟩

/-- What builds nothing on the right makes no difference. -/
theorem right (lev : Level h₁ h₂) (b : h'.Balances ∧ h'.built = h₂.built) : Level h₁ h' := by
  obtain ⟨b, hbuilt⟩ := b
  exact ⟨hbuilt ▸ lev.grown, hbuilt ▸ lev.live, b⟩

/-- A new cell on the left is level with any value that is built on the right. -/
theorem build (lev : Level h₁ h₂) (b : h'.Balances ∧ h'.built = h₂.built + 1) (v : Value) :
    Level (h₁.alloc v).2 h' := by
  obtain ⟨b, hbuilt⟩ := b
  refine ⟨?_, ?_, b⟩
  · show { h₁.stats with allocations := h₁.stats.allocations + 1 } = _
    rw [lev.grown, hbuilt]
  · show h₁.live + 1 = _
    rw [lev.live, hbuilt]

theorem alloc (lev : Level h₁ h₂) (v₁ v₂ : Value) : Level (h₁.alloc v₁).2 (h₂.alloc v₂).2 :=
  lev.build (alloc_balances lev.balances v₂) v₁

/-- So is one that is built in the cell of a token. -/
theorem reuse (lev : Level h₁ h₂) (hs : ∀ i, token = .cell i → h₂.Spare i) (v₁ v₂ : Value) :
    Level (h₁.alloc v₁).2 (h₂.reuse token v₂).2 := by
  cases token with
  | invalid => exact lev.alloc v₁ v₂
  | cell i => exact lev.build (reuse_balances lev.balances (hs i rfl)) v₁

end Level

end Reclaim.Heap
