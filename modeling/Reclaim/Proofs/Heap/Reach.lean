import Reclaim.Proofs.Heap.Accounts

/-!
# What held references keep alive

A location is reachable from references if they lead to it through the children of live cells
(`Heap.Reachable`).  A change of the heap keeps what is reachable from some references if each
location reached has the value that it had before (`Heap.Keeps`).

Whoever holds references while others work on the heap relies on two facts.  Taking cells away keeps
everything that is reachable from references still held, because the account afterwards shows that
these cells are live.  Adding cells keeps it, because the account before shows that they were.

Tokens are held as well: slots that are spare and known to nobody else (`Heap.Vacant`).
-/

namespace Reclaim.Heap

variable {h h' h'' : Heap} {E F F' T T' : Multiset Location} {l m : Location} {i : Nat} {v : Value}

/-- A location to which references lead through the children of live cells. -/
inductive Reachable (h : Heap) (F : Multiset Location) : Location → Prop where
  | held {l : Location} : l ∈ F → Reachable h F l
  | child {l m : Location} {v : Value} :
      Reachable h F l → h.value? l = some v → m ∈ v.children → Reachable h F m

/-- Everything that is reachable from references has the value that it had. -/
def Keeps (h : Heap) (F : Multiset Location) (h' : Heap) : Prop :=
  ∀ {l : Location}, h.Reachable F l → h'.value? l = h.value? l

/-- What is reachable from reachable locations is reachable. -/
theorem Reachable.trans (r : h.Reachable F l) (hF : ∀ m ∈ F, h.Reachable F' m) :
    h.Reachable F' l := by
  induction r with
  | held hl => exact hF _ hl
  | child _ hv hm ih => exact .child ih hv hm

theorem Reachable.mono (r : h.Reachable F l) (hF : F ⊆ F') : h.Reachable F' l :=
  r.trans fun _ hm => .held (hF hm)

/-- More references reach more. -/
theorem Reachable.add (r : h.Reachable F l) (F' : Multiset Location) : h.Reachable (F + F') l :=
  r.mono (Multiset.subset_of_le (Multiset.le_add_right _ _))

/-- What references reach together one of them reaches. -/
theorem reachable_add : h.Reachable (F + F') l ↔ h.Reachable F l ∨ h.Reachable F' l := by
  constructor
  · intro r
    induction r with
    | held hl => exact (Multiset.mem_add.1 hl).imp .held .held
    | child _ hv hm ih => exact ih.imp (fun r => .child r hv hm) fun r => .child r hv hm
  · rintro (r | r)
    · exact r.add F'
    · exact add_comm F' F ▸ r.add F

/-- From a cell one reaches the cell and what its parts reach. -/
theorem Reachable.eq_or_parts (r : h.Reachable {l} m) (hv : h.value? l = some v) :
    m = l ∨ h.Reachable v.children m := by
  induction r with
  | held hm => exact .inl (Multiset.mem_singleton.1 hm)
  | child _ hw hm ih =>
      rcases ih with rfl | r
      · obtain rfl := Option.some.inj (hv.symm.trans hw)
        exact .inr (.held hm)
      · exact .inr (.child r hw hm)

/-- References of an account reach live cells only. -/
theorem AccountedFor.live_of_reachable (acc : h.AccountedFor E) (hF : F ≤ E)
    (r : h.Reachable F (.cell i)) : h.Live (.cell i) := by
  cases r with
  | held hl => exact acc.live_of_mem (Multiset.mem_of_le hF hl)
  | child _ hv hm => exact acc.live_of_child hv hm

namespace Keeps

theorem refl (h : Heap) (F : Multiset Location) : h.Keeps F h := fun _ => rfl

theorem mono (k : h.Keeps F h') (hF : F' ⊆ F) : h.Keeps F' h' := fun r => k (r.mono hF)

theorem left (k : h.Keeps (F + F') h') : h.Keeps F h' :=
  k.mono (Multiset.subset_of_le (Multiset.le_add_right _ _))

theorem right (k : h.Keeps (F + F') h') : h.Keeps F' h' :=
  k.mono (Multiset.subset_of_le (Multiset.le_add_left _ _))

theorem reachable (k : h.Keeps F h') (r : h.Reachable F l) : h'.Reachable F l := by
  induction r with
  | held hl => exact .held hl
  | child r hv hm ih => exact .child ih ((k r).trans hv) hm

theorem of_reachable (k : h.Keeps F h') (r : h'.Reachable F l) : h.Reachable F l := by
  induction r with
  | held hl => exact .held hl
  | child _ hv hm ih => exact .child ih ((k ih).symm.trans hv) hm

theorem trans (k : h.Keeps F h') (k' : h'.Keeps F h'') : h.Keeps F h'' := fun r =>
  (k' (k.reachable r)).trans (k r)

end Keeps

/-- Taking cells away keeps what is reachable from references in the account afterwards. -/
theorem Shrinks.keeps (s : h.Shrinks h') (acc : h'.AccountedFor E) (hF : F ≤ E) : h.Keeps F h' := by
  have live {m : Location} (hm : m = .invalid ∨ h'.Live m) : h'.value? m = h.value? m := by
    rcases hm with rfl | ⟨v, hv⟩
    · rfl
    · rw [hv, s.value hv]
  intro l r
  induction r with
  | @held l hl =>
      cases l with
      | invalid => rfl
      | cell i => exact live (.inr (acc.live_of_mem (Multiset.mem_of_le hF hl)))
  | @child l m v _ hv hm ih =>
      cases m with
      | invalid => rfl
      | cell i => exact live (.inr (acc.live_of_child (ih.trans hv) hm))

/-- Adding cells keeps what is reachable from references in the account before. -/
theorem Grows.keeps (g : h.Grows h') (acc : h.AccountedFor E) (hF : F ≤ E) : h.Keeps F h' := by
  intro l r
  cases l with
  | invalid => rfl
  | cell i =>
      obtain ⟨v, hv⟩ := acc.live_of_reachable hF r
      rw [g hv, hv]

theorem Recounts.keeps (s : h.Recounts h') (F : Multiset Location) : h.Keeps F h' :=
  fun _ => s.value _

/-! ## Tokens -/

/-- The valid locations in `T` are different slots, all spare. -/
structure Vacant (h : Heap) (T : Multiset Location) : Prop where
  /-- Each slot is spare. -/
  spare : ∀ {i}, .cell i ∈ T → h.Spare i
  /-- No slot is listed twice. -/
  apart : ∀ i, T.count (.cell i) ≤ 1

namespace Vacant

theorem mono (t : h.Vacant T) (hT : T' ≤ T) : h.Vacant T' :=
  ⟨fun hi => t.spare (Multiset.mem_of_le hT hi),
    fun i => (Multiset.count_le_of_le _ hT).trans (t.apart i)⟩

theorem shrinks (t : h.Vacant T) (s : h.Shrinks h') : h'.Vacant T :=
  ⟨fun hi => s.spare (t.spare hi), t.apart⟩

theorem alloc (t : h.Vacant T) (v : Value) : (h.alloc v).2.Vacant T :=
  ⟨fun hi => spare_alloc (t.spare hi), t.apart⟩

theorem cons_invalid (t : h.Vacant T) : h.Vacant (.invalid ::ₘ T) :=
  ⟨fun hi => t.spare (by simpa using hi), fun i => by simpa using t.apart i⟩

/-- A slot that is emptied becomes a token. -/
theorem cons_cell (t : h.Vacant T) (hi : .cell i ∉ T) (hs : h.Spare i) :
    h.Vacant (.cell i ::ₘ T) := by
  constructor
  · intro j hj
    rcases Multiset.mem_cons.1 hj with hj | hj
    · obtain rfl := Location.cell.inj hj
      exact hs
    · exact t.spare hj
  · intro j
    by_cases hj : j = i
    · subst hj
      simp [Multiset.count_eq_zero.2 hi]
    · simpa [Multiset.count_cons, hj] using t.apart j

/-- Filling one token leaves the others spare. -/
theorem fill {old new : Option Cell} (t : h.Vacant (.cell i ::ₘ T))
    (r : h.Replaces i old new h') : h'.Vacant T := by
  have t' : h.Vacant T := t.mono (Multiset.le_cons_self _ _)
  refine ⟨fun {j} hj => r.spare_other (fun e => ?_) (t'.spare hj), t'.apart⟩
  subst e
  have := t.apart j
  have := Multiset.count_pos.2 hj
  simp only [Multiset.count_cons_self] at *
  omega

/-- A live cell is no token. -/
theorem notMem_of_live (t : h.Vacant T) (hl : h.Live (.cell i)) : .cell i ∉ T := by
  intro hi
  obtain ⟨v, hv⟩ := hl
  rw [(t.spare hi).value?] at hv
  cases hv

end Vacant

end Reclaim.Heap
