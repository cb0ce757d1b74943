import Mathlib.Data.Finset.Card
import Mathlib.Data.Nat.Find
import Mathlib.Tactic.Choose
import Mathlib.Tactic.Push
import Reclaim.Heap.Datum
import Reclaim.Proofs.Checks
import Reclaim.Proofs.Heap.Cells

/-!
# Reading data

The datum at a location is read with a bound on the number of cells along a path.  A greater bound
changes nothing (`readWithin_mono`), and the number of slots is always enough: if a location cannot be
read within a smaller bound, there is a cell for each smaller bound that needs just this one, and
these cells are all different (`snapshot_of_readWithin`).
-/

namespace Reclaim

open Reclaim.Core

/-! ## Shapes -/

/-- What a value is apart from the locations of its parts. -/
inductive Shape where
  /-- A closure of a function with a number of arguments. -/
  | closure (target : FnName) (size : Nat)
  /-- A record with a tag and fields. -/
  | record (tag : Tag) (fields : List Field)

/-- The shape of a value. -/
def Value.shape : Value → Shape
  | .closure target args => .closure target args.length
  | .record tag fields => .record tag fields.keys

/-- The number of parts. -/
def Shape.size : Shape → Nat
  | .closure _ size => size
  | .record _ fields => fields.length

/-- The datum of a shape with data for its parts. -/
def Shape.datum : Shape → List Datum → Datum
  | .closure target _, ds => .closure target ds
  | .record tag fields, ds => .record tag (fields.zip ds)

theorem Value.length_children (v : Value) : v.children.length = v.shape.size := by
  cases v with
  | closure target args => rfl
  | record tag fields => simp [children, shape, Shape.size, OrderedMap.values, OrderedMap.keys]

/-! ## Sequences of readings -/

/-- Reading the second parts of pairs leaves the first parts as they are. -/
theorem mapM_snd {ε α β γ : Type} (f : β → Except ε γ) (es : List (α × β)) :
    (es.mapM fun e => return (e.1, ← f e.2))
      = ((es.map (·.2)).mapM f).map (es.map (·.1)).zip := by
  induction es with
  | nil => rfl
  | cons e rest ih =>
      rw [List.mapM_cons, ih, List.map_cons, List.map_cons, List.mapM_cons]
      cases f e.2 with
      | error e => rfl
      | ok y => cases (rest.map (·.2)).mapM f <;> rfl

namespace Heap

variable {h : Heap} {l : Location} {v : Value} {n m : Nat} {d : Datum}

/-- The datum at a cell is made of the data at its parts. -/
theorem readWithin_succ (hv : h.value? l = some v) (n : Nat) :
    h.readWithin (n + 1) l = (v.children.mapM (h.readWithin n)).map v.shape.datum := by
  obtain ⟨⟨count, v⟩, hc, rfl⟩ := value?_eq_some_iff.1 hv
  rw [readWithin, hc]
  cases v with
  | closure target args =>
      simp only [Value.children, Value.shape]
      cases args.mapM (h.readWithin n) <;> rfl
  | record tag fields =>
      simp only [mapM_snd, Value.children, Value.shape, OrderedMap.values, OrderedMap.keys]
      cases (fields.entries.map (·.2)).mapM (h.readWithin n) <;> rfl

theorem readWithin_eq_ok_iff : h.readWithin (n + 1) l = .ok d ↔ ∃ v ds, h.value? l = some v ∧
    List.Forall₂ (fun m d => h.readWithin n m = .ok d) v.children ds ∧ d = v.shape.datum ds := by
  cases hv : h.value? l with
  | none =>
      rw [value?, Option.map_eq_none_iff] at hv
      simp [readWithin, hv]
  | some v =>
      rw [readWithin_succ hv]
      constructor
      · intro hd
        cases hds : v.children.mapM (h.readWithin n) with
        | error e =>
            rw [hds] at hd
            cases hd
        | ok ds =>
            rw [hds] at hd
            cases hd
            exact ⟨v, ds, rfl, mapM_eq_ok.1 hds, rfl⟩
      · rintro ⟨w, ds, hw, hds, rfl⟩
        cases hw
        rw [mapM_eq_ok.2 hds]
        rfl

/-- A greater bound changes nothing. -/
theorem readWithin_mono (hd : h.readWithin n l = .ok d) (hnm : n ≤ m) :
    h.readWithin m l = .ok d := by
  induction n generalizing l d m with
  | zero => cases hd
  | succ n ih =>
      obtain ⟨m, rfl⟩ : ∃ k, m = k + 1 := ⟨m - 1, by omega⟩
      obtain ⟨v, ds, hv, hds, rfl⟩ := readWithin_eq_ok_iff.1 hd
      exact readWithin_eq_ok_iff.2 ⟨v, ds, hv, hds.imp fun _ _ hx => ih hx (by omega), rfl⟩

/-! ## The bound -/

/-- There is a datum at a location within a bound. -/
def Readable (h : Heap) (n : Nat) (l : Location) : Prop := ∃ d, h.readWithin n l = .ok d

theorem Readable.mono (r : h.Readable n l) (hnm : n ≤ m) : h.Readable m l := by
  obtain ⟨d, hd⟩ := r
  exact ⟨d, readWithin_mono hd hnm⟩

theorem not_readable_zero : ¬ h.Readable 0 l := by
  rintro ⟨d, hd⟩
  cases hd

theorem readable_succ_iff : h.Readable (n + 1) l ↔
    ∃ v, h.value? l = some v ∧ ∀ m ∈ v.children, h.Readable n m := by
  constructor
  · rintro ⟨d, hd⟩
    obtain ⟨v, ds, hv, hds, -⟩ := readWithin_eq_ok_iff.1 hd
    refine ⟨v, hv, fun m hm => ?_⟩
    obtain ⟨i, hi, rfl⟩ := List.getElem_of_mem hm
    exact ⟨_, (List.forall₂_iff_get.1 hds).2 i hi (hds.length_eq ▸ hi)⟩
  · rintro ⟨v, hv, hread⟩
    have : ∃ ds, List.Forall₂ (fun m d => h.readWithin n m = .ok d) v.children ds := by
      revert hread
      generalize v.children = ms
      intro hread
      induction ms with
      | nil => exact ⟨[], .nil⟩
      | cons m rest ih =>
          obtain ⟨d, hd⟩ := hread m (.head _)
          obtain ⟨ds, hds⟩ := ih fun k hk => hread k (.tail _ hk)
          exact ⟨d :: ds, .cons hd hds⟩
    obtain ⟨ds, hds⟩ := this
    exact ⟨_, readWithin_eq_ok_iff.2 ⟨v, ds, hv, hds, rfl⟩⟩

/-- A location needs a bound if it can be read within it and within no smaller one. -/
def Needs (h : Heap) (n : Nat) (l : Location) : Prop := h.Readable (n + 1) l ∧ ¬ h.Readable n l

theorem Needs.unique (hn : h.Needs n l) (hm : h.Needs m l) : n = m := by
  rcases Nat.lt_trichotomy n m with hlt | heq | hlt
  · exact absurd (hn.1.mono hlt) hm.2
  · exact heq
  · exact absurd (hm.1.mono hlt) hn.2

theorem lt_size_of_value? {i : Nat} (hv : h.value? (.cell i) = some v) : i < h.slots.size := by
  obtain ⟨c, hc, -⟩ := value?_eq_some_iff.1 hv
  exact (Array.getElem?_eq_some_iff.1 (get?_of_cell? hc)).1

/-- Below a location that needs a bound there is a cell for each smaller bound. -/
theorem Needs.below (hl : h.Needs n l) (hm : m ≤ n) : ∃ i < h.slots.size, h.Needs m (.cell i) := by
  induction n generalizing l with
  | zero =>
      obtain rfl : m = 0 := by omega
      obtain ⟨v, hv, -⟩ := readable_succ_iff.1 hl.1
      cases l with
      | invalid => cases hv
      | cell i => exact ⟨i, lt_size_of_value? hv, hl⟩
  | succ n ih =>
      obtain ⟨v, hv, hread⟩ := readable_succ_iff.1 hl.1
      rcases Nat.lt_or_eq_of_le hm with hlt | rfl
      · -- Some child is the reason why no smaller bound is enough.
        obtain ⟨k, hk, hnot⟩ : ∃ k ∈ v.children, ¬ h.Readable n k := by
          by_contra hall
          push Not at hall
          exact hl.2 (readable_succ_iff.2 ⟨v, hv, hall⟩)
        exact ih ⟨hread k hk, hnot⟩ (by omega)
      · cases l with
        | invalid => cases hv
        | cell i => exact ⟨i, lt_size_of_value? hv, hl⟩

/-- Any datum can be read within the number of slots. -/
theorem Readable.bounded (r : h.Readable n l) : h.Readable h.slots.size l := by
  classical
  have hex : ∃ n, h.Readable n l := ⟨n, r⟩
  have hleast := Nat.find_spec hex
  have hmin := fun {k : Nat} => Nat.find_min hex (m := k)
  generalize Nat.find hex = least at hleast hmin
  cases least with
  | zero => exact absurd hleast not_readable_zero
  | succ k =>
      have hneeds : h.Needs k l := ⟨hleast, hmin (Nat.lt_succ_self k)⟩
      choose! f hf using fun m (hm : m ≤ k) => hneeds.below hm
      have hmaps : ∀ m ∈ Finset.range (k + 1), f m ∈ Finset.range h.slots.size := fun m hm =>
        Finset.mem_range.2 (hf m (Nat.lt_succ_iff.1 (Finset.mem_range.1 hm))).1
      have hinj : Set.InjOn f (Finset.range (k + 1)) := by
        intro m hm m' hm' heq
        have hm := (hf m (Nat.lt_succ_iff.1 (Finset.mem_range.1 hm))).2
        have hm' := (hf m' (Nat.lt_succ_iff.1 (Finset.mem_range.1 hm'))).2
        rw [heq] at hm
        exact hm.unique hm'
      have := Finset.card_le_card_of_injOn f hmaps hinj
      rw [Finset.card_range, Finset.card_range] at this
      exact hleast.mono this

/-- Whatever can be read within some bound is the datum at the location. -/
theorem snapshot_of_readWithin (hd : h.readWithin n l = .ok d) : h.snapshot l = .ok d := by
  obtain ⟨d', hd'⟩ := Readable.bounded ⟨d, hd⟩
  have h₁ := readWithin_mono hd (Nat.le_max_left n h.slots.size)
  have h₂ := readWithin_mono hd' (Nat.le_max_right n h.slots.size)
  rw [h₁] at h₂
  cases h₂
  exact readWithin_mono hd' (Nat.le_succ _)

end Heap

end Reclaim
