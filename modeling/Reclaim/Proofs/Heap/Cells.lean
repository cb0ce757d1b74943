import Mathlib.Algebra.BigOperators.Group.List.Basic
import Mathlib.Algebra.Order.Group.Multiset
import Mathlib.Data.Multiset.AddSub
import Reclaim.Heap.Release

/-!
# What operations do to cells

A heap is seen through the values at its locations (`Heap.value?`), the counts of its cells
(`Heap.tally`), the references that live cells hold (`Heap.references`) and the slots that are
handed out and empty (`Heap.Spare`).  Every single change of a heap replaces what is in one slot
(`Heap.Replaces`) or adds a slot, and has one lemma for each view.  An operation that is made of
many such changes keeps what each of them keeps (`Heap.dec_preserves`).
-/

namespace Reclaim

/-- The number of references that what is in a slot has been given. -/
def slotTally : Option Cell → Nat
  | none => 0
  | some c => c.count

/-- The references that what is in a slot holds. -/
def slotReferences : Option Cell → Multiset Location
  | none => 0
  | some c => c.value.children

namespace Heap

/-! ## Views -/

/-- The value at a location, if there is a cell. -/
def value? (h : Heap) (l : Location) : Option Value := (h.cell? l).map (·.value)

/-- The number of references to a location: the count of its cell, and nothing without a cell. -/
def tally (h : Heap) (l : Location) : Nat := slotTally (h.cell? l)

/-- The references that live cells hold, each as often as it is held. -/
def references (h : Heap) : Multiset Location := (h.slots.rows.toList.map slotReferences).sum

/-- A slot that was handed out and is empty. -/
def Spare (h : Heap) (i : Nat) : Prop := h.slots.get? i = some none

@[simp] theorem value?_invalid (h : Heap) : h.value? .invalid = none := rfl

theorem get_eq_ok_iff {h : Heap} {l : Location} {v : Value} :
    h.get l = .ok v ↔ h.value? l = some v := by
  unfold get cell value?
  cases h.cell? l <;> simp [Except.map]

theorem value?_eq_some_iff {h : Heap} {l : Location} {v : Value} :
    h.value? l = some v ↔ ∃ c, h.cell? l = some c ∧ c.value = v := by
  simp [value?]

theorem Spare.value? {h : Heap} {i : Nat} (hs : h.Spare i) : h.value? (.cell i) = none := by
  simp [Heap.value?, cell?, show h.slots.get? i = some none from hs]

theorem get?_of_cell? {h : Heap} {i : Nat} {c : Cell} (hc : h.cell? (.cell i) = some c) :
    h.slots.get? i = some (some c) :=
  Option.join_eq_some_iff.1 hc

/-! ## One slot replaced -/

/-- `h'` is `h` with `new` in place of `old` in slot `i`. -/
structure Replaces (h : Heap) (i : Nat) (old new : Option Cell) (h' : Heap) : Prop where
  /-- What was there before. -/
  before : h.slots.get? i = some old
  /-- No other slot is touched. -/
  slots : h'.slots = h.slots.set i new

variable {h h' : Heap} {i : Nat} {old new : Option Cell}

theorem replaces_write (c : Option Cell) (ho : h.slots.get? i = some old) :
    h.Replaces i old c (h.write i c) := ⟨ho, rfl⟩

theorem replaces_free (ho : h.slots.get? i = some old) : h.Replaces i old none (h.free i) :=
  ⟨ho, rfl⟩

theorem replaces_fill (v : Value) (ho : h.slots.get? i = some old) :
    h.Replaces i old (some ⟨1, v⟩) (h.fill i v) := ⟨ho, rfl⟩

namespace Replaces

theorem lt_size (r : h.Replaces i old new h') : i < h.slots.size :=
  (Array.getElem?_eq_some_iff.1 r.before).1

theorem size_eq (r : h.Replaces i old new h') : h'.slots.size = h.slots.size := by
  rw [r.slots, Numbered.size_set]

theorem get? (r : h.Replaces i old new h') (j : Nat) :
    h'.slots.get? j = if i = j then some new else h.slots.get? j := by
  rw [r.slots, Numbered.get?_set]
  simp [r.lt_size]

theorem cell?_self (r : h.Replaces i old new h') : h'.cell? (.cell i) = new := by
  simp [cell?, r.get?]

theorem cell?_other (r : h.Replaces i old new h') {l : Location} (hl : l ≠ .cell i) :
    h'.cell? l = h.cell? l := by
  cases l with
  | invalid => rfl
  | cell j =>
      have hj : i ≠ j := fun e => hl (e ▸ rfl)
      simp [cell?, r.get?, hj]

theorem cell?_before (r : h.Replaces i old new h') : h.cell? (.cell i) = old := by
  simp [cell?, r.before]

theorem value?_self (r : h.Replaces i old new h') :
    h'.value? (.cell i) = new.map (·.value) := by
  rw [Heap.value?, r.cell?_self]

theorem value?_other (r : h.Replaces i old new h') {l : Location} (hl : l ≠ .cell i) :
    h'.value? l = h.value? l := by
  rw [Heap.value?, Heap.value?, r.cell?_other hl]

theorem spare_other (r : h.Replaces i old new h') {j : Nat} (hj : j ≠ i) (hs : h.Spare j) :
    h'.Spare j := by
  rw [Heap.Spare, r.get?, if_neg hj.symm]
  exact hs

theorem tally (r : h.Replaces i old new h') (j : Nat) :
    h'.tally (.cell j) = if j = i then slotTally new else h.tally (.cell j) := by
  by_cases hj : j = i
  · subst hj
    simp [Heap.tally, r.cell?_self]
  · rw [if_neg hj, Heap.tally, Heap.tally, r.cell?_other (by simpa using hj)]

/-- The references of the old content go out and those of the new one come in. -/
theorem references (r : h.Replaces i old new h') :
    h'.references + slotReferences old = h.references + slotReferences new := by
  have ho : h.slots.rows.toList[i]? = some old := by
    rw [Array.getElem?_toList]
    exact r.before
  have hn : h'.slots.rows.toList = h.slots.rows.toList.set i new := by
    simp [r.slots, Numbered.set]
  rw [Heap.references, Heap.references, hn]
  exact sum_map_set slotReferences new _ i old ho

end Replaces

/-! ## A slot added -/

theorem alloc_fst (h : Heap) (v : Value) : (h.alloc v).1 = .cell h.slots.size := rfl

theorem get?_alloc (h : Heap) (v : Value) (j : Nat) :
    (h.alloc v).2.slots.get? j = if j = h.slots.size then some (some ⟨1, v⟩) else h.slots.get? j :=
  Numbered.get?_push h.slots (some ⟨1, v⟩) j

theorem cell?_fresh (h : Heap) : h.cell? (.cell h.slots.size) = none := by
  simp [cell?, Numbered.get?, Numbered.size]

theorem cell?_alloc (h : Heap) (v : Value) (l : Location) :
    (h.alloc v).2.cell? l = if l = (h.alloc v).1 then some ⟨1, v⟩ else h.cell? l := by
  cases l with
  | invalid => rfl
  | cell j =>
      by_cases hj : j = h.slots.size <;> simp [cell?, get?_alloc, alloc_fst, hj]

theorem value?_alloc (h : Heap) (v : Value) (l : Location) :
    (h.alloc v).2.value? l = if l = (h.alloc v).1 then some v else h.value? l := by
  unfold Heap.value?
  rw [cell?_alloc]
  split <;> rfl

theorem spare_alloc {v : Value} {j : Nat} (hs : h.Spare j) : (h.alloc v).2.Spare j := by
  have hj : j < h.slots.size := (Array.getElem?_eq_some_iff.1 hs).1
  rw [Heap.Spare, get?_alloc, if_neg (by omega)]
  exact hs

theorem references_alloc (h : Heap) (v : Value) :
    (h.alloc v).2.references = h.references + v.children := by
  simp [references, alloc, Numbered.push, slotReferences]

/-! ## References given up -/

theorem dec_missing {rest : List Location} (hc : h.cell? (.cell i) = none) :
    h.dec (.cell i :: rest) = (.error ⟨.cell i⟩, h) := by
  rw [dec]
  split
  · rfl
  · next c hc' => rw [hc] at hc'; cases hc'

/-- While there are other references a cell stays. -/
theorem dec_shared {c : Cell} {rest : List Location} (hc : h.cell? (.cell i) = some c)
    (hlt : 1 < c.count) :
    h.dec (.cell i :: rest) = (h.write i (some { c with count := c.count - 1 })).dec rest := by
  rw [dec]
  split
  · next hnone => rw [hc] at hnone; cases hnone
  · next c' hc' =>
      obtain rfl : c = c' := Option.some.inj (hc.symm.trans hc')
      rw [if_pos hlt]

/-- With the last reference the cell goes, and the references that it holds join the list. -/
theorem dec_unshared {c : Cell} {rest : List Location} (hc : h.cell? (.cell i) = some c)
    (hle : ¬1 < c.count) :
    h.dec (.cell i :: rest) = (h.free i).dec (c.value.children ++ rest) := by
  rw [dec]
  split
  · next hnone => rw [hc] at hnone; cases hnone
  · next c' hc' =>
      obtain rfl : c = c' := Option.some.inj (hc.symm.trans hc')
      rw [if_neg hle]

/-! ## What operations keep

An operation keeps a property of heaps, whether it succeeds or fails, if each single change does that
it is made of. -/

section

variable {I : Heap → Prop}

theorem inc_preserves (hcount : ∀ ⦃h i c⦄, I h → h.cell? (.cell i) = some c →
      I (h.write i (some { c with count := c.count + 1 }))) (ls : List Location) (hI : I h) :
    I (h.inc ls).2 := by
  induction ls generalizing h with
  | nil => exact hI
  | cons l rest ih =>
      cases l with
      | invalid => exact ih hI
      | cell i =>
          rw [inc]
          cases hc : h.cell? (.cell i) with
          | none => exact hI
          | some c => exact ih (hcount hI hc)

variable (hcount : ∀ ⦃h i c⦄, I h → h.cell? (.cell i) = some c → 1 < c.count →
    I (h.write i (some { c with count := c.count - 1 })))
  (hfree : ∀ ⦃h i c⦄, I h → h.cell? (.cell i) = some c → I (h.free i))

include hcount hfree

theorem dec_preserves (ls : List Location) (hI : I h) : I (h.dec ls).2 := by
  induction h, ls using dec.induct with
  | case1 h => rwa [dec]
  | case2 h rest ih =>
      rw [dec]
      exact ih hI
  | case3 h i rest hc =>
      rw [dec_missing hc]
      exact hI
  | case4 h i rest c hc hlt ih =>
      rw [dec_shared hc hlt]
      exact ih (hcount hI hc hlt)
  | case5 h i rest c hc hlt ih =>
      rw [dec_unshared hc hlt]
      exact ih (hfree hI hc)

theorem reset_preserves (hdecline : ∀ ⦃h⦄, I h →
      I { h with stats := { h.stats with declined := h.stats.declined + 1 } })
    (l : Location) (hI : I h) : I (h.reset l).2 := by
  unfold reset
  split
  · next i c hc =>
      split
      · have hdec := dec_preserves hcount hfree c.value.children (hfree hI hc)
        split <;> next heq => rwa [heq] at hdec
      · have hdec := dec_preserves hcount hfree [.cell i] hI
        split
        · next heq =>
            rw [heq] at hdec
            exact hdecline hdec
        · next heq => rwa [heq] at hdec
  · exact hI

end

/-! ## The empty heap -/

@[simp] theorem cell?_empty (l : Location) : Heap.empty.cell? l = none := by
  cases l <;> rfl

@[simp] theorem value?_empty (l : Location) : Heap.empty.value? l = none := by
  simp [value?]

@[simp] theorem references_empty : Heap.empty.references = 0 := rfl

end Heap

end Reclaim
