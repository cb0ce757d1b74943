import Reclaim.Proofs.Heap.Cells

/-!
# Accounts of references

A heap is *accounted for* by a multiset of references if every cell has been given exactly the
references that are in the multiset or held by live cells, and there is no reference to a location
without a cell (`Heap.AccountedFor`).  The multiset stands for what is held outside the heap.

Replacing what is in one slot keeps the account if as many references come in as go out
(`AccountedFor.replace`), and every operation is a chain of such replacements.  A cascade of `dec`
counts the references on its list among those held outside, so that the account is exact before
each of its steps (`dec_accounted`), on shared, repeated and cyclic structures alike.
-/

namespace Reclaim.Heap

variable {h h' : Heap} {E E' : Multiset Location} {l : Location} {i : Nat} {v : Value}

/-- Each cell has been given exactly the references in `E` and those that live cells hold, and
nothing refers to a location without a cell.  The invalid location does not count. -/
def AccountedFor (h : Heap) (E : Multiset Location) : Prop :=
  ∀ i, (E + h.references).count (.cell i) = h.tally (.cell i)

/-- There is a cell at a location. -/
def Live (h : Heap) (l : Location) : Prop := ∃ v, h.value? l = some v

/-! ## References and cells -/

theorem mem_sum_slotReferences {slots : List (Option Cell)} :
    l ∈ (slots.map slotReferences).sum ↔ ∃ slot ∈ slots, l ∈ slotReferences slot := by
  induction slots with
  | nil => simp
  | cons slot rest ih => simp [ih]

theorem mem_references :
    l ∈ h.references ↔ ∃ m v, h.value? m = some v ∧ l ∈ v.children := by
  constructor
  · intro hl
    obtain ⟨slot, hslot, hl⟩ := mem_sum_slotReferences.1 hl
    cases slot with
    | none => simp [slotReferences] at hl
    | some c =>
        obtain ⟨i, hi⟩ := List.mem_iff_getElem?.1 hslot
        rw [Array.getElem?_toList] at hi
        exact ⟨.cell i, c.value, by simp [value?, cell?, Numbered.get?, hi],
          by simpa [slotReferences] using hl⟩
  · rintro ⟨m, v, hm, hl⟩
    obtain ⟨c, hc, rfl⟩ := value?_eq_some_iff.1 hm
    cases m with
    | invalid => simp [cell?] at hc
    | cell i =>
        have hi := get?_of_cell? hc
        have hmem : some c ∈ h.slots.rows.toList := by
          refine List.mem_iff_getElem?.2 ⟨i, ?_⟩
          rw [Array.getElem?_toList]
          exact hi
        exact mem_sum_slotReferences.2 ⟨_, hmem, hl⟩

theorem tally_eq_zero (hl : h.cell? l = none) : h.tally l = 0 := by
  simp [tally, hl, slotTally]

theorem live_of_tally_pos (ht : 0 < h.tally l) : ∃ c, h.cell? l = some c ∧ 0 < c.count := by
  unfold tally at ht
  cases hc : h.cell? l with
  | none => simp [hc, slotTally] at ht
  | some c => exact ⟨c, rfl, by simpa [hc, slotTally] using ht⟩

namespace AccountedFor

/-- An account only depends on how often it lists each cell. -/
theorem congr (acc : h.AccountedFor E) (hE : ∀ i, E'.count (.cell i) = E.count (.cell i)) :
    h.AccountedFor E' := by
  intro i
  rw [Multiset.count_add, hE, ← Multiset.count_add]
  exact acc i

theorem cons_invalid_iff : h.AccountedFor (.invalid ::ₘ E) ↔ h.AccountedFor E :=
  ⟨fun acc => acc.congr (by simp), fun acc => acc.congr (by simp)⟩

/-- A listed cell is live. -/
theorem cell_of_mem (acc : h.AccountedFor E) (hi : .cell i ∈ E + h.references) :
    ∃ c, h.cell? (.cell i) = some c ∧ 0 < c.count := by
  refine live_of_tally_pos ?_
  rw [← acc i]
  exact Multiset.count_pos.2 hi

theorem live_of_mem (acc : h.AccountedFor E) (hi : .cell i ∈ E) : h.Live (.cell i) := by
  obtain ⟨c, hc, -⟩ := acc.cell_of_mem (Multiset.mem_add.2 (.inl hi))
  exact ⟨c.value, value?_eq_some_iff.2 ⟨c, hc, rfl⟩⟩

/-- The children of a live cell are live. -/
theorem live_of_child (acc : h.AccountedFor E) (hv : h.value? l = some v)
    (hi : .cell i ∈ v.children) : h.Live (.cell i) := by
  have hr : .cell i ∈ h.references := mem_references.2 ⟨l, v, hv, hi⟩
  obtain ⟨c, hc, -⟩ := acc.cell_of_mem (Multiset.mem_add.2 (.inr hr))
  exact ⟨c.value, value?_eq_some_iff.2 ⟨c, hc, rfl⟩⟩

/-- Nothing refers to a location without a cell. -/
theorem count_eq_zero (acc : h.AccountedFor E) (hi : h.cell? (.cell i) = none) :
    E.count (.cell i) = 0 ∧ h.references.count (.cell i) = 0 := by
  have := acc i
  rw [tally_eq_zero hi, Multiset.count_add] at this
  omega

/-- The account stays exact when the references that a slot gives up and those that its new content
takes over are exchanged for one another. -/
theorem replace {old new : Option Cell} (acc : h.AccountedFor E) (r : h.Replaces i old new h')
    (balance : E' + slotReferences new + slotTally old • {.cell i}
      = E + slotReferences old + slotTally new • {.cell i}) : h'.AccountedFor E' := by
  intro j
  have hb := congrArg (Multiset.count (.cell j)) balance
  have hr := congrArg (Multiset.count (.cell j)) r.references
  have ha := acc j
  have hi : h.tally (.cell i) = slotTally old := by rw [tally, r.cell?_before]
  rw [r.tally]
  simp only [Multiset.count_add, Multiset.count_nsmul, Multiset.count_singleton,
    Location.cell.injEq] at hb hr ha ⊢
  by_cases hj : j = i
  · subst hj
    simp only [if_true] at hb ⊢
    omega
  · simp only [if_neg hj] at hb ⊢
    omega

end AccountedFor

/-! ## How values change -/

/-- `h'` is `h` without some of its cells, apart from counts. -/
structure Shrinks (h h' : Heap) : Prop where
  /-- No slot is added or taken away. -/
  size : h'.slots.size = h.slots.size
  /-- What is left was there. -/
  value : ∀ {l v}, h'.value? l = some v → h.value? l = some v

/-- `h'` has all cells of `h`, apart from counts. -/
def Grows (h h' : Heap) : Prop := ∀ {l v}, h.value? l = some v → h'.value? l = some v

/-- `h'` has the values of `h` at the same locations. -/
structure Recounts (h h' : Heap) : Prop where
  /-- No slot is added or taken away. -/
  size : h'.slots.size = h.slots.size
  /-- No value changes. -/
  value : ∀ l, h'.value? l = h.value? l

theorem Shrinks.refl (h : Heap) : h.Shrinks h := ⟨rfl, id⟩

theorem Shrinks.trans {h'' : Heap} (s : h.Shrinks h') (t : h'.Shrinks h'') : h.Shrinks h'' :=
  ⟨t.size.trans s.size, fun hv => s.value (t.value hv)⟩

theorem Recounts.refl (h : Heap) : h.Recounts h := ⟨rfl, fun _ => rfl⟩

theorem Recounts.trans {h'' : Heap} (s : h.Recounts h') (t : h'.Recounts h'') : h.Recounts h'' :=
  ⟨t.size.trans s.size, fun l => (t.value l).trans (s.value l)⟩

theorem Recounts.shrinks (s : h.Recounts h') : h.Shrinks h' :=
  ⟨s.size, fun hv => (s.value _).symm.trans hv⟩

theorem Grows.refl (h : Heap) : h.Grows h := id

theorem Grows.trans {h'' : Heap} (s : h.Grows h') (t : h'.Grows h'') : h.Grows h'' :=
  fun hv => t (s hv)

theorem Recounts.grows (s : h.Recounts h') : h.Grows h' := fun hv => (s.value _).trans hv

/-- A slot is spare if it was handed out and has no cell. -/
theorem spare_iff : h.Spare i ↔ i < h.slots.size ∧ h.value? (.cell i) = none := by
  constructor
  · intro hs
    exact ⟨(Array.getElem?_eq_some_iff.1 hs).1, hs.value?⟩
  · rintro ⟨hlt, hv⟩
    unfold Spare
    obtain ⟨slot, hget⟩ : ∃ slot, h.slots.get? i = some slot := ⟨_, Array.getElem?_eq_getElem hlt⟩
    cases slot with
    | none => exact hget
    | some c => simp [value?, cell?, hget] at hv

theorem Shrinks.spare (s : h.Shrinks h') (hs : h.Spare i) : h'.Spare i := by
  obtain ⟨hlt, hv⟩ := spare_iff.1 hs
  refine spare_iff.2 ⟨s.size ▸ hlt, ?_⟩
  cases hv' : h'.value? (.cell i) with
  | none => rfl
  | some v => rw [s.value hv'] at hv; cases hv

theorem Replaces.recounts {c : Cell} {n : Nat} (r : h.Replaces i (some c) (some ⟨n, c.value⟩) h') :
    h.Recounts h' := by
  refine ⟨r.size_eq, fun l => ?_⟩
  by_cases hl : l = .cell i
  · subst hl
    rw [r.value?_self, value?, r.cell?_before]
    rfl
  · exact r.value?_other hl

theorem Replaces.shrinks {old : Option Cell} (r : h.Replaces i old none h') : h.Shrinks h' := by
  refine ⟨r.size_eq, fun {l v} hv => ?_⟩
  by_cases hl : l = .cell i
  · subst hl
    rw [r.value?_self] at hv
    cases hv
  · rwa [r.value?_other hl] at hv

theorem Replaces.grows {new : Option Cell} (r : h.Replaces i none new h') : h.Grows h' := by
  intro l v hv
  have hl : l ≠ .cell i := by
    rintro rfl
    rw [value?, r.cell?_before] at hv
    cases hv
  rwa [r.value?_other hl]

theorem alloc_grows (h : Heap) (v : Value) : h.Grows (h.alloc v).2 := by
  intro l w hw
  have hl : l ≠ (h.alloc v).1 := by
    rintro rfl
    rw [alloc_fst, value?, cell?_fresh] at hw
    cases hw
  rwa [value?_alloc, if_neg hl]

/-! ### The operations

They do so on every heap, also where they fail. -/

theorem inc_recounts (h : Heap) (ls : List Location) : h.Recounts (h.inc ls).2 := by
  refine inc_preserves ?_ ls (.refl h)
  intro h' i c s hc
  exact s.trans (replaces_write _ (get?_of_cell? hc)).recounts

theorem dec_shrinks (h : Heap) (ls : List Location) : h.Shrinks (h.dec ls).2 := by
  refine dec_preserves ?_ ?_ ls (.refl h)
  · intro h' i c s hc _
    exact s.trans (replaces_write _ (get?_of_cell? hc)).recounts.shrinks
  · intro h' i c s hc
    exact s.trans (replaces_free (get?_of_cell? hc)).shrinks

theorem reset_shrinks (h : Heap) (l : Location) : h.Shrinks (h.reset l).2 := by
  refine reset_preserves ?_ ?_ ?_ l (.refl h)
  · intro h' i c s hc _
    exact s.trans (replaces_write _ (get?_of_cell? hc)).recounts.shrinks
  · intro h' i c s hc
    exact s.trans (replaces_free (get?_of_cell? hc)).shrinks
  · intro h' s
    exact ⟨s.size, s.value⟩

/-- What is in a heap after an allocation is the new value, or was there before. -/
theorem value_of_alloc {w : Value} (hw : (h.alloc v).2.value? l = some w) :
    w = v ∨ h.value? l = some w := by
  rw [value?_alloc] at hw
  split at hw
  · exact .inl (Option.some.inj hw).symm
  · exact .inr hw

theorem Replaces.value_of {old : Option Cell} {n : Nat} {w : Value}
    (r : h.Replaces i old (some ⟨n, v⟩) h') (hw : h'.value? l = some w) :
    w = v ∨ h.value? l = some w := by
  by_cases hl : l = .cell i
  · subst hl
    rw [r.value?_self] at hw
    exact .inl (Option.some.inj hw).symm
  · rw [r.value?_other hl] at hw
    exact .inr hw

/-- So it is after a reuse. -/
theorem value_of_reuse {token : Location} {w : Value}
    (hw : (h.reuse token v).2.value? l = some w) : w = v ∨ h.value? l = some w := by
  cases token with
  | invalid => exact value_of_alloc hw
  | cell i =>
      simp only [reuse, set] at hw
      cases hs : h.slots.get? i with
      | none =>
          rw [hs] at hw
          exact .inr hw
      | some slot =>
          rw [hs] at hw
          cases slot with
          | none => exact (replaces_fill v hs).value_of hw
          | some c => exact (replaces_write (some { c with value := v }) hs).value_of hw

/-! ## One lemma for each operation -/

/-- A new cell takes over the references to its children, and one reference to it comes in. -/
theorem alloc_accounted (acc : h.AccountedFor (v.children + E)) :
    (h.alloc v).2.AccountedFor ((h.alloc v).1 ::ₘ E) := by
  intro j
  have ha := acc j
  rw [alloc_fst, references_alloc, tally, cell?_alloc, alloc_fst]
  simp only [Multiset.count_add, Multiset.count_cons, Location.cell.injEq] at ha ⊢
  by_cases hj : j = h.slots.size
  · subst hj
    rw [tally_eq_zero h.cell?_fresh] at ha
    simp only [if_true, slotTally]
    omega
  · simp only [if_neg hj, tally] at ha ⊢
    omega

/-- A spare slot that is filled takes over the references to the children. -/
theorem fill_accounted (acc : h.AccountedFor (v.children + E)) (hs : h.Spare i) :
    (h.fill i v).AccountedFor (.cell i ::ₘ E) := by
  refine acc.replace (replaces_fill v hs) ?_
  simp only [slotReferences, slotTally, zero_nsmul, one_nsmul, add_zero, Multiset.cons_add]
  rw [← Multiset.singleton_add]
  ac_rfl

/-- References to live cells can be added, whatever the account. -/
theorem inc_live {ls : List Location} (live : ∀ l ∈ ls, l ≠ .invalid → h.Live l) :
    ∃ h', h.inc ls = (.ok (), h') ∧ h.Recounts h' ∧
      ∀ {E}, h.AccountedFor E → h'.AccountedFor (ls + E) := by
  induction ls generalizing h with
  | nil => exact ⟨h, rfl, .refl h, fun acc => by simpa using acc⟩
  | cons l rest ih =>
      cases l with
      | invalid =>
          obtain ⟨h', hinc, same, acc'⟩ := ih fun l hl => live l (.tail _ hl)
          refine ⟨h', hinc, same, fun acc => ?_⟩
          rw [← Multiset.cons_coe, Multiset.cons_add]
          exact AccountedFor.cons_invalid_iff.2 (acc' acc)
      | cell i =>
          obtain ⟨v, hv⟩ := live (.cell i) (.head _) (by simp)
          obtain ⟨c, hc, rfl⟩ := value?_eq_some_iff.1 hv
          have r := replaces_write (some { c with count := c.count + 1 }) (get?_of_cell? hc)
          obtain ⟨h', hinc, same, acc'⟩ := ih fun l hl hne => by
            obtain ⟨w, hw⟩ := live l (.tail _ hl) hne
            exact ⟨w, r.recounts.grows hw⟩
          refine ⟨h', ?_, r.recounts.trans same, fun {E} acc => ?_⟩
          · rw [inc, hc]
            exact hinc
          · have acc₁ : (h.write i (some { c with count := c.count + 1 })).AccountedFor
                (.cell i ::ₘ E) := by
              refine acc.replace r ?_
              simp only [slotReferences, slotTally, succ_nsmul, Multiset.cons_add]
              rw [← Multiset.singleton_add]
              ac_rfl
            have := acc' acc₁
            rw [← Multiset.cons_coe, Multiset.cons_add]
            rwa [Multiset.add_cons] at this

/-- References to live cells can be added to an account. -/
theorem inc_accounted {ls : List Location} (acc : h.AccountedFor E)
    (live : ∀ l ∈ ls, l ≠ .invalid → h.Live l) :
    ∃ h', h.inc ls = (.ok (), h') ∧ h'.AccountedFor (ls + E) ∧ h.Recounts h' := by
  obtain ⟨h', hinc, same, acc'⟩ := inc_live live
  exact ⟨h', hinc, acc' acc, same⟩

/-- Giving up references that are held succeeds, whatever it frees, and the references on the list
are the only ones that go out of the account. -/
theorem dec_accounted {ls : List Location} (acc : h.AccountedFor (ls + E)) :
    ∃ h', h.dec ls = (.ok (), h') ∧ h'.AccountedFor E ∧ h.Shrinks h' := by
  induction h, ls using dec.induct with
  | case1 h => exact ⟨h, by rw [dec], by simpa using acc, .refl h⟩
  | case2 h rest ih =>
      rw [← Multiset.cons_coe, Multiset.cons_add] at acc
      obtain ⟨h', hdec, res⟩ := ih (AccountedFor.cons_invalid_iff.1 acc)
      exact ⟨h', by rw [dec, hdec], res⟩
  | case3 h i rest hc =>
      -- The entry is held, so it has a cell.
      have hi : .cell i ∈ (↑(Location.cell i :: rest) + E) + h.references := by simp
      obtain ⟨c, hc', -⟩ := acc.cell_of_mem hi
      rw [hc] at hc'
      cases hc'
  | case4 h i rest c hc hlt ih =>
      have r := replaces_write (some { c with count := c.count - 1 }) (get?_of_cell? hc)
      obtain ⟨n, hn⟩ : ∃ n, c.count = n + 1 := ⟨c.count - 1, by omega⟩
      have acc₁ : (h.write i (some { c with count := c.count - 1 })).AccountedFor (rest + E) := by
        refine acc.replace r ?_
        simp only [slotReferences, slotTally, hn, succ_nsmul, Nat.add_sub_cancel,
          ← Multiset.cons_coe, ← Multiset.singleton_add]
        ac_rfl
      obtain ⟨h', hdec, acc', shrinks⟩ := ih acc₁
      exact ⟨h', by rw [dec_shared hc hlt, hdec], acc', r.recounts.shrinks.trans shrinks⟩
  | case5 h i rest c hc hlt ih =>
      -- The last reference: those that the cell holds join the list.
      have r := replaces_free (get?_of_cell? hc)
      have hone : c.count = 1 := by
        have hi : .cell i ∈ (↑(Location.cell i :: rest) + E) + h.references := by simp
        obtain ⟨c', hc', hpos⟩ := acc.cell_of_mem hi
        obtain rfl : c = c' := Option.some.inj (hc.symm.trans hc')
        omega
      have acc₁ : (h.free i).AccountedFor ((c.value.children ++ rest : List Location) + E) := by
        refine acc.replace r ?_
        simp only [slotReferences, slotTally, hone, one_nsmul, zero_nsmul, add_zero,
          ← Multiset.cons_coe, ← Multiset.singleton_add, ← Multiset.coe_add]
        ac_rfl
      obtain ⟨h', hdec, acc', shrinks⟩ := ih acc₁
      exact ⟨h', by rw [dec_unshared hc hlt, hdec], acc', r.shrinks.trans shrinks⟩

/-- A reset gives up its reference.  The token is the emptied slot or invalid. -/
theorem reset_accounted (acc : h.AccountedFor (.cell i ::ₘ E)) :
    ∃ t h', h.reset (.cell i) = (.ok t, h') ∧ h'.AccountedFor E ∧ h.Shrinks h' ∧
      (t = .invalid ∨ t = .cell i ∧ h'.Spare i) := by
  obtain ⟨c, hc, -⟩ := acc.cell_of_mem (i := i) (by simp)
  by_cases hone : c.count = 1
  · have r := replaces_free (get?_of_cell? hc)
    have acc₁ : (h.free i).AccountedFor (c.value.children + E) := by
      refine acc.replace r ?_
      simp only [slotReferences, slotTally, hone, one_nsmul, zero_nsmul, add_zero,
        ← Multiset.singleton_add]
      ac_rfl
    obtain ⟨h', hdec, acc', shrinks⟩ := dec_accounted acc₁
    have hs : (h.free i).Spare i := by simp [Spare, r.get?]
    exact ⟨.cell i, h', by simp [reset, hc, hone, hdec], acc', r.shrinks.trans shrinks,
      .inr ⟨rfl, shrinks.spare hs⟩⟩
  · have acc₁ : h.AccountedFor (([.cell i] : List Location) + E) := by simpa using acc
    obtain ⟨h', hdec, acc', shrinks⟩ := dec_accounted acc₁
    refine ⟨.invalid, { h' with stats := { h'.stats with declined := h'.stats.declined + 1 } },
      ?_, acc', ⟨shrinks.size, shrinks.value⟩, .inl rfl⟩
    simp [reset, hc, hone, hdec]

/-- A reuse of the invalid location is an allocation. -/
theorem reuse_invalid (h : Heap) (v : Value) :
    h.reuse .invalid v = (.ok (h.alloc v).1, (h.alloc v).2) := rfl

/-- A reuse of a spare slot fills it, and is counted. -/
theorem reuse_spare (v : Value) (hs : h.Spare i) : h.reuse (.cell i) v = (.ok (.cell i),
    { h.fill i v with stats := { h.stats with reuses := h.stats.reuses + 1 } }) := by
  have hset : h.set (.cell i) v = (.ok (), h.fill i v) := by
    simp only [set, show h.slots.get? i = some none from hs]
  simp only [reuse, hset]
  rfl

theorem reuse_accounted (acc : h.AccountedFor (v.children + E)) (hs : h.Spare i) :
    ∃ h', h.reuse (.cell i) v = (.ok (.cell i), h') ∧ h'.AccountedFor (.cell i ::ₘ E) ∧
      h'.slots = (h.fill i v).slots :=
  ⟨_, reuse_spare v hs, fill_accounted acc hs, rfl⟩

/-- A live cell whose value is replaced gives its references to the old children back. -/
theorem set_accounted {old : Value} (acc : h.AccountedFor (v.children + E))
    (hold : h.value? (.cell i) = some old) :
    ∃ h', h.set (.cell i) v = (.ok (), h') ∧ h'.AccountedFor (old.children + E) := by
  obtain ⟨c, hc, rfl⟩ := value?_eq_some_iff.1 hold
  have hs := get?_of_cell? hc
  refine ⟨h.write i (some { c with value := v }), by simp only [set, hs], ?_⟩
  refine acc.replace (replaces_write _ hs) ?_
  simp only [slotReferences, slotTally]
  ac_rfl

end Reclaim.Heap
