import Reclaim.Proofs.Heap.Costs
import Reclaim.Proofs.Heap.Data

/-!
# Heaps that only grow

A heap *descends* if every cell refers to live cells only, each at a lower location than its own
(`Heap.Descends`).  References never run in a circle then, so there is a datum at every live location
(`Descends.exists_snapshot`).

A heap *advances* by a list of locations to another one if cells have been added to it, and references to
the locations of the list, each as often as it is listed (`Heap.Advances`).  Nothing else has been done:
no cell is lost, no value is replaced, and what is new descends like what was there.
-/

namespace Reclaim.Heap

variable {h h' mid : Heap} {l m : Location} {v : Value} {i : Nat} {log log' ls : List Location}

/-! ## Heaps that descend -/

/-- The parts of each cell are live and at lower locations. -/
def Descends (h : Heap) : Prop := ∀ ⦃i v⦄, h.value? (.cell i) = some v →
  ∀ m ∈ v.children, ∃ j < i, m = .cell j ∧ h.Live (.cell j)

theorem Live.exists_lt_size (hl : h.Live l) : ∃ i < h.slots.size, l = .cell i := by
  obtain ⟨v, hv⟩ := hl
  cases l with
  | invalid => cases hv
  | cell i => exact ⟨i, lt_size_of_value? hv, rfl⟩

theorem Live.grows (hl : h.Live l) (g : h.Grows h') : h'.Live l := by
  obtain ⟨v, hv⟩ := hl
  exact ⟨v, g hv⟩

theorem Descends.live_of_child (d : h.Descends) (hv : h.value? l = some v) (hm : m ∈ v.children) :
    h.Live m := by
  cases l with
  | invalid => cases hv
  | cell i =>
      obtain ⟨j, -, rfl, hj⟩ := d hv m hm
      exact hj

theorem Descends.readable (d : h.Descends) (hi : h.Live (.cell i)) : h.Readable (i + 1) (.cell i) := by
  induction i using Nat.strong_induction_on with
  | _ i ih =>
      obtain ⟨v, hv⟩ := hi
      refine readable_succ_iff.2 ⟨v, hv, fun m hm => ?_⟩
      obtain ⟨j, hj, rfl, hlive⟩ := d hv m hm
      exact (ih j hj hlive).mono hj

/-- There is a datum at every live location. -/
theorem Descends.exists_snapshot (d : h.Descends) (hl : h.Live l) : ∃ datum, h.snapshot l = .ok datum := by
  obtain ⟨i, -, rfl⟩ := hl.exists_lt_size
  obtain ⟨datum, hdatum⟩ := d.readable hl
  exact ⟨datum, snapshot_of_readWithin hdatum⟩

theorem descends_empty : Heap.empty.Descends := by
  intro i v hv
  simp at hv

theorem Recounts.descends (r : h.Recounts h') (d : h.Descends) : h'.Descends := by
  intro i v hv m hm
  rw [r.value] at hv
  obtain ⟨j, hj, rfl, hlive⟩ := d hv m hm
  exact ⟨j, hj, rfl, hlive.grows r.grows⟩

/-- A new cell is higher than all that it can refer to. -/
theorem alloc_descends (d : h.Descends) (hv : ∀ m ∈ v.children, h.Live m) : (h.alloc v).2.Descends := by
  intro i w hw m hm
  by_cases hi : (Location.cell i) = (h.alloc v).1
  · rw [value?_alloc, if_pos hi] at hw
    cases hw
    rw [alloc_fst] at hi
    cases hi
    obtain ⟨j, hj, rfl⟩ := (hv m hm).exists_lt_size
    exact ⟨j, hj, rfl, (hv _ hm).grows (alloc_grows h v)⟩
  · rw [value?_alloc, if_neg hi] at hw
    obtain ⟨j, hj, rfl, hlive⟩ := d hw m hm
    exact ⟨j, hj, rfl, hlive.grows (alloc_grows h v)⟩

/-! ## Heaps that advance -/

/-- The count of the cell at a location, which is one when the cell is new. -/
def firstCount (h : Heap) (l : Location) : Nat :=
  match h.cell? l with
  | some c => c.count
  | none => 1

/-- `h'` is `h` with new cells, and with new references to the locations of a list. -/
structure Advances (h : Heap) (log : List Location) (h' : Heap) : Prop where
  /-- The cells of `h` are live and hold what they held. -/
  grows : h.Grows h'
  /-- The parts of each cell, new or old, are live and at lower locations. -/
  descends : h'.Descends
  /-- New cells are all that has been made, and nothing has been freed, reused or declined. -/
  made : ∃ n, h'.slots.size = h.slots.size + n ∧ h'.live = h.live + n ∧
    h'.stats = { h.stats with allocations := h.stats.allocations + n }
  /-- References have been added to live cells only. -/
  logged : ∀ l ∈ log, h'.Live l
  /-- Each cell counts the references that were there, or its first one, and those that are listed. -/
  counts : ∀ ⦃l c⦄, h'.cell? l = some c → c.count = h.firstCount l + log.count l

namespace Advances

theorem refl (d : h.Descends) : h.Advances [] h where
  grows := id
  descends := d
  made := ⟨0, rfl, rfl, rfl⟩
  logged := by simp
  counts := by
    intro l c hc
    simp [firstCount, hc]

theorem live (a : h.Advances log h') (hl : h.Live l) : h'.Live l :=
  hl.grows a.grows

theorem trans (a : h.Advances log mid) (b : mid.Advances log' h') : h.Advances (log ++ log') h' where
  grows := fun hv => b.grows (a.grows hv)
  descends := b.descends
  made := by
    obtain ⟨n, hsize, hlive, hstats⟩ := a.made
    obtain ⟨n', hsize', hlive', hstats'⟩ := b.made
    refine ⟨n + n', by omega, by omega, ?_⟩
    rw [hstats', hstats, Nat.add_assoc]
  logged := by
    intro l hl
    rcases List.mem_append.1 hl with hl | hl
    · exact b.live (a.logged l hl)
    · exact b.logged l hl
  counts := by
    intro l c hc
    rw [b.counts hc, List.count_append, ← Nat.add_assoc]
    congr 1
    rw [firstCount]
    cases hmid : mid.cell? l with
    | some c' => exact a.counts hmid
    | none =>
        -- The cell is made later, so it was not there before, and nothing refers to it yet.
        have hdead : ¬ mid.Live l := by
          rintro ⟨v, hv⟩
          simp [value?, hmid] at hv
        have hold : h.cell? l = none := by
          cases hc' : h.cell? l with
          | none => rfl
          | some c' => exact absurd (a.live ⟨_, value?_eq_some_iff.2 ⟨c', hc', rfl⟩⟩) hdead
        rw [firstCount, hold, List.count_eq_zero.2 fun hl => hdead (a.logged l hl)]

/-- A new cell has one reference. -/
theorem alloc (d : h.Descends) (hv : ∀ m ∈ v.children, h.Live m) : h.Advances [] (h.alloc v).2 where
  grows := alloc_grows h v
  descends := alloc_descends d hv
  made := ⟨1, Numbered.size_push h.slots _, rfl, rfl⟩
  logged := by simp
  counts := by
    intro l c hc
    rw [cell?_alloc] at hc
    split at hc
    · next hl =>
        cases hc
        rw [hl, alloc_fst, firstCount, cell?_fresh]
        rfl
    · simp [firstCount, hc]

/-- One more reference to a live cell. -/
theorem recount {c : Cell} (d : h.Descends) (hc : h.cell? (.cell i) = some c) :
    h.Advances [.cell i] (h.write i (some { c with count := c.count + 1 })) := by
  have r := replaces_write (some { c with count := c.count + 1 }) (get?_of_cell? hc)
  refine ⟨r.recounts.grows, r.recounts.descends d, ⟨0, r.size_eq, rfl, rfl⟩, ?_, ?_⟩
  · intro l hl
    rw [List.mem_singleton] at hl
    subst hl
    exact Live.grows ⟨_, value?_eq_some_iff.2 ⟨c, hc, rfl⟩⟩ r.recounts.grows
  · intro l c' hc'
    by_cases hl : l = .cell i
    · subst hl
      rw [r.cell?_self] at hc'
      cases hc'
      simp [firstCount, hc]
    · rw [r.cell?_other hl] at hc'
      simp [firstCount, hc', Ne.symm hl]

end Advances

/-- References to live cells are added one after the other. -/
theorem inc_advances (d : h.Descends) (hls : ∀ l ∈ ls, h.Live l) :
    ∃ h', h.inc ls = (.ok (), h') ∧ h.Advances ls h' := by
  induction ls generalizing h with
  | nil => exact ⟨h, rfl, .refl d⟩
  | cons l rest ih =>
      obtain ⟨i, -, rfl⟩ := (hls l (.head _)).exists_lt_size
      obtain ⟨v, hv⟩ := hls (.cell i) (.head _)
      obtain ⟨c, hc, -⟩ := value?_eq_some_iff.1 hv
      have first := Advances.recount d hc
      obtain ⟨h', hinc, advances⟩ := ih first.descends fun l hl => first.live (hls l (.tail _ hl))
      refine ⟨h', ?_, first.trans advances⟩
      rw [inc, hc]
      exact hinc

end Reclaim.Heap
