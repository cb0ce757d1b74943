import Mathlib.Algebra.Order.BigOperators.Group.List
import Mathlib.Algebra.GroupWithZero.Nat
import Mathlib.Algebra.Order.Group.Nat
import Mathlib.Data.Finset.Max
import Reclaim.Proofs.Heap.Reach

/-!
# Heaps without leaks

Counts alone do not find cells that keep one another alive.  In a heap built by a program there are
none, since references lead downwards in some ranking of the locations (`Heap.Ranked`): a new cell
refers to cells that are there already, and a slot that is filled anew is referred to by nobody.

A heap is tidy if the number of live cells is kept right and no live cell has a count of zero
(`Heap.Tidy`).  In a tidy and ranked heap every cell is reachable from the references that are held
outside (`Sound.reachable`), and if there are none the heap is empty (`Sound.empty`).
-/

namespace Reclaim.Heap

variable {h h' : Heap} {E : Multiset Location} {i : Nat} {v : Value}

/-- Every reference leads to a location of smaller rank. -/
def Ranked (h : Heap) : Prop :=
  ∃ rank : Location → Nat, ∀ {l v m}, h.value? l = some v → m ∈ v.children → rank m < rank l

/-- One for a cell and nothing for an empty slot. -/
def slotSize : Option Cell → Nat
  | none => 0
  | some _ => 1

/-- The number of live cells is kept right, and each has been given a reference. -/
structure Tidy (h : Heap) : Prop where
  /-- The number of live cells. -/
  live : h.live = (h.slots.rows.toList.map slotSize).sum
  /-- Counts are positive. -/
  counted : ∀ {l c}, h.cell? l = some c → 0 < c.count

/-- A tidy heap without circles. -/
structure Sound (h : Heap) : Prop where
  /-- The heap is tidy. -/
  tidy : h.Tidy
  /-- References lead downwards. -/
  ranked : h.Ranked

/-! ## Ranks -/

theorem Shrinks.ranked (s : h.Shrinks h') (hr : h.Ranked) : h'.Ranked := by
  obtain ⟨rank, hrank⟩ := hr
  exact ⟨rank, fun hv hm => hrank (s.value hv) hm⟩

/-- A cell that nothing refers to can get the greatest rank. -/
theorem Ranked.add {m : Location} (hr : h.Ranked) (hv : ∀ l, h'.value? l =
    if l = m then some v else h.value? l) (hm : m ∉ v.children)
    (hrefs : ∀ {l w}, h.value? l = some w → m ∉ w.children) : h'.Ranked := by
  obtain ⟨rank, hrank⟩ := hr
  obtain ⟨top, htop⟩ : ∃ top, ∀ l ∈ v.children, rank l < top :=
    ⟨(v.children.map rank).sum + 1, fun l hl =>
      Nat.lt_succ_of_le (List.single_le_sum (by simp) _ (List.mem_map_of_mem hl))⟩
  refine ⟨fun l => if l = m then top else rank l, fun {l w k} hw hk => ?_⟩
  rw [hv] at hw
  by_cases hl : l = m
  · rw [if_pos hl] at hw
    obtain rfl := Option.some.inj hw
    have hkm : k ≠ m := fun e => hm (e ▸ hk)
    simp only [hl, if_true, if_neg hkm]
    exact htop k hk
  · rw [if_neg hl] at hw
    have hkm : k ≠ m := fun e => hrefs hw (e ▸ hk)
    simp only [if_neg hl, if_neg hkm]
    exact hrank hw hk

theorem alloc_ranked (hr : h.Ranked) (acc : h.AccountedFor (v.children + E)) :
    (h.alloc v).2.Ranked := by
  obtain ⟨hE, hrefs⟩ := acc.count_eq_zero h.cell?_fresh
  refine hr.add (value?_alloc h v) (fun hm => ?_) fun hw hm => ?_
  · have := Multiset.count_pos.2 (Multiset.mem_coe.2 hm)
    rw [Multiset.count_add, ← alloc_fst h v] at hE
    omega
  · exact Multiset.count_eq_zero.1 hrefs (mem_references.2 ⟨_, _, hw, hm⟩)

theorem fill_ranked (hr : h.Ranked) (acc : h.AccountedFor (v.children + E)) (hs : h.Spare i) :
    (h.fill i v).Ranked := by
  have r := replaces_fill v hs
  obtain ⟨hE, hrefs⟩ := acc.count_eq_zero r.cell?_before
  refine hr.add (m := .cell i) (v := v) (fun l => ?_) (fun hm => ?_) fun hw hm => ?_
  · by_cases hl : l = .cell i
    · subst hl
      rw [if_pos rfl, r.value?_self]
      rfl
    · rw [if_neg hl, r.value?_other hl]
  · have := Multiset.count_pos.2 (Multiset.mem_coe.2 hm)
    rw [Multiset.count_add] at hE
    omega
  · exact Multiset.count_eq_zero.1 hrefs (mem_references.2 ⟨_, _, hw, hm⟩)

/-! ## Tidiness -/

theorem Replaces.sum_slotSize {old new : Option Cell} (r : h.Replaces i old new h') :
    (h'.slots.rows.toList.map slotSize).sum + slotSize old
      = (h.slots.rows.toList.map slotSize).sum + slotSize new := by
  have ho : h.slots.rows.toList[i]? = some old := by
    rw [Array.getElem?_toList]
    exact r.before
  have hn : h'.slots.rows.toList = h.slots.rows.toList.set i new := by
    simp [r.slots, Numbered.set]
  rw [hn]
  exact sum_map_set slotSize new _ i old ho

theorem Tidy.replace {old new : Option Cell} (ht : h.Tidy) (r : h.Replaces i old new h')
    (live : h'.live + slotSize old = h.live + slotSize new)
    (counted : ∀ {c}, new = some c → 0 < c.count) : h'.Tidy := by
  constructor
  · have := r.sum_slotSize
    have := ht.live
    omega
  · intro l c hc
    by_cases hl : l = .cell i
    · subst hl
      rw [r.cell?_self] at hc
      exact counted hc
    · rw [r.cell?_other hl] at hc
      exact ht.counted hc

theorem tidy_empty : Heap.empty.Tidy := ⟨rfl, by simp⟩

theorem alloc_tidy (ht : h.Tidy) (v : Value) : (h.alloc v).2.Tidy := by
  constructor
  · have := ht.live
    simp [alloc, Numbered.push, slotSize, this]
  · intro l c hc
    rw [cell?_alloc] at hc
    split at hc
    · cases hc
      exact Nat.one_pos
    · exact ht.counted hc

theorem recount_tidy {c : Cell} {n : Nat} (ht : h.Tidy) (hc : h.cell? (.cell i) = some c)
    (hn : 0 < n) : (h.write i (some { c with count := n })).Tidy := by
  refine ht.replace (replaces_write _ (get?_of_cell? hc)) rfl fun hc' => ?_
  cases hc'
  exact hn

/-- A heap that has a cell counts it. -/
theorem Tidy.live_pos {c : Cell} (ht : h.Tidy) (hc : h.cell? (.cell i) = some c) : 0 < h.live := by
  have := (replaces_free (get?_of_cell? hc)).sum_slotSize
  have := ht.live
  simp only [slotSize] at *
  omega

theorem free_tidy {c : Cell} (ht : h.Tidy) (hc : h.cell? (.cell i) = some c) : (h.free i).Tidy := by
  refine ht.replace (replaces_free (get?_of_cell? hc)) ?_ nofun
  have hpos := ht.live_pos hc
  simp only [free, slotSize]
  omega

theorem fill_tidy (ht : h.Tidy) (hs : h.Spare i) : (h.fill i v).Tidy := by
  refine ht.replace (replaces_fill v hs) rfl fun hc => ?_
  cases hc
  exact Nat.one_pos

theorem inc_tidy {ls : List Location} (ht : h.Tidy) : (h.inc ls).2.Tidy := by
  refine inc_preserves ?_ ls ht
  intro h i c ht hc
  exact recount_tidy ht hc (Nat.succ_pos _)

theorem dec_tidy {ls : List Location} (ht : h.Tidy) : (h.dec ls).2.Tidy := by
  refine dec_preserves ?_ ?_ ls ht
  · intro h i c ht hc hlt
    exact recount_tidy ht hc (Nat.sub_pos_of_lt hlt)
  · intro h i c ht hc
    exact free_tidy ht hc

theorem reset_tidy {l : Location} (ht : h.Tidy) : (h.reset l).2.Tidy := by
  refine reset_preserves ?_ ?_ ?_ l ht
  · intro h i c ht hc hlt
    exact recount_tidy ht hc (Nat.sub_pos_of_lt hlt)
  · intro h i c ht hc
    exact free_tidy ht hc
  · intro h ht
    exact ⟨ht.live, ht.counted⟩

theorem set_tidy {l : Location} (ht : h.Tidy) : (h.set l v).2.Tidy := by
  unfold set
  split
  · exact ht
  · next i =>
      split
      · exact ht
      · next c hc =>
          refine ht.replace (replaces_write _ hc) rfl fun hc' => ?_
          cases hc'
          exact ht.counted (l := .cell i) (c := c) (by simp [cell?, hc])
      · next hs => exact fill_tidy ht hs

theorem reuse_tidy {t : Location} (ht : h.Tidy) : (h.reuse t v).2.Tidy := by
  unfold reuse
  split
  · exact alloc_tidy ht v
  · next i =>
      have := set_tidy (l := .cell i) (v := v) ht
      split <;> simp_all
      exact ⟨this.live, this.counted⟩

/-! ## No leaks -/

/-- Every cell is reachable from the references that are held outside. -/
theorem Sound.reachable (hs : h.Sound) (acc : h.AccountedFor E) (hl : h.Live (.cell i)) :
    h.Reachable E (.cell i) := by
  classical
  obtain ⟨rank, hrank⟩ := hs.ranked
  -- An unreachable cell of greatest rank would be a child of one of greater rank.
  by_contra hi
  let lost := (Finset.range h.slots.size).filter fun i =>
    h.Live (.cell i) ∧ ¬ h.Reachable E (.cell i)
  have mem {i : Nat} (hl : h.Live (.cell i)) (hi : ¬ h.Reachable E (.cell i)) : i ∈ lost := by
    refine Finset.mem_filter.2 ⟨Finset.mem_range.2 ?_, hl, hi⟩
    obtain ⟨v, hv⟩ := hl
    obtain ⟨c, hc, -⟩ := value?_eq_some_iff.1 hv
    exact (Array.getElem?_eq_some_iff.1 (get?_of_cell? hc)).1
  obtain ⟨j, hj, hmax⟩ := Finset.exists_max_image lost (fun i => rank (.cell i)) ⟨i, mem hl hi⟩
  obtain ⟨⟨v, hv⟩, hnot⟩ := (Finset.mem_filter.1 hj).2
  obtain ⟨c, hc, -⟩ := value?_eq_some_iff.1 hv
  have hpos : 0 < (E + h.references).count (.cell j) := by
    rw [acc j, tally, hc]
    exact hs.tidy.counted hc
  rcases Multiset.mem_add.1 (Multiset.count_pos.1 hpos) with hE | href
  · exact hnot (.held hE)
  · obtain ⟨m, w, hw, hjw⟩ := mem_references.1 href
    obtain ⟨k, rfl⟩ : ∃ k, m = .cell k := by
      cases m with
      | invalid => simp at hw
      | cell k => exact ⟨k, rfl⟩
    have := hmax k (mem ⟨w, hw⟩ fun hk => hnot (.child hk hw hjw))
    have := hrank hw hjw
    omega

/-- A heap to which no reference is held from outside has no cell. -/
theorem Sound.empty (hs : h.Sound) (acc : h.AccountedFor 0) : ∀ l, h.value? l = none := by
  have none_reachable {l : Location} : ¬ h.Reachable 0 l := by
    intro hl
    induction hl with
    | held hl => exact Multiset.notMem_zero _ hl
    | child _ _ _ ih => exact ih
  intro l
  cases l with
  | invalid => rfl
  | cell i =>
      by_contra hne
      exact none_reachable (hs.reachable acc (Option.ne_none_iff_exists'.1 hne))

/-- An operation that takes cells away and keeps a heap tidy keeps it sound. -/
theorem Sound.shrinks {α : Type} {o : HeapResult α} {a : Except MissingCell α} (s : h.Sound)
    (k : h.Shrinks h') (t : o.2.Tidy) (ho : o = (a, h')) : h'.Sound := by
  rw [ho] at t
  exact ⟨t, k.ranked s.ranked⟩

/-- The number of live cells of an empty heap is zero. -/
theorem Tidy.isEmpty (ht : h.Tidy) (he : ∀ l, h.value? l = none) : h.isEmpty = true := by
  have hzero : ∀ slot ∈ h.slots.rows.toList, slotSize slot = 0 := by
    intro slot hslot
    obtain ⟨i, hi⟩ := List.mem_iff_getElem?.1 hslot
    rw [Array.getElem?_toList] at hi
    have := he (.cell i)
    cases slot with
    | none => rfl
    | some c => simp [value?, cell?, Numbered.get?, hi] at this
  have : (h.slots.rows.toList.map slotSize).sum = 0 := List.sum_eq_zero (by simpa using hzero)
  simp [Heap.isEmpty, ht.live, this]

/-- Giving up all references that are held outside leaves no cell. -/
theorem Sound.dec_all {ls : List Location} (s : h.Sound) (acc : h.AccountedFor ls) :
    ∃ h', h.dec ls = (.ok (), h') ∧ h'.isEmpty = true ∧ ∀ l, h'.cell? l = none := by
  have acc₀ : h.AccountedFor (ls + 0) := by rwa [add_zero]
  obtain ⟨h', hdec, acc', shrinks⟩ := dec_accounted acc₀
  have s' : h'.Sound := s.shrinks shrinks (dec_tidy s.tidy) hdec
  have hnone := s'.empty acc'
  exact ⟨h', hdec, s'.tidy.isEmpty hnone, fun l => by simpa [value?] using hnone l⟩

end Reclaim.Heap
