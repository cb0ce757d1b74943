import Mathlib.Logic.Equiv.Basic
import Reclaim.Proofs.Heap.Costs
import Reclaim.Proofs.Heap.Sessions

/-!
# Rebuilding in place

A reset gives up a reference, as `dec` does, and asks for the emptied slot.  It does no more and no
less to the cells (`reset_matches_dec`): if the reference was the last one it frees the cell first and
then gives up what the cell held, which is what a cascade does, and otherwise it only counts down.

A value that is put into the slot of the token differs only by its place from one that is put into a
new cell after `dec` (`reset_reuse_matches_dec_alloc`).  Both places are vacant in the heap that the
reference has left, and in an account nothing refers to a vacant place
(`AccountedFor.notMem_of_vacant`).  So exchanging the two places takes one heap to the other
(`BuiltAt.relocated`).
-/

namespace Reclaim

/-! ## Moving cells -/

/-- The map with each value replaced, under the same key. -/
def OrderedMap.mapValues {κ ν : Type} [BEq κ] (f : ν → ν) (m : OrderedMap κ ν) : OrderedMap κ ν :=
  ⟨m.entries.map fun e => (e.1, f e.2), List.pairwise_map.2 m.distinct⟩

/-- The value with each location that it refers to replaced. -/
def Value.relocate (σ : Location → Location) : Value → Value
  | .closure f args => .closure f (args.map σ)
  | .record tag fields => .record tag (fields.mapValues σ)

/-- The cell with each location that it refers to replaced. -/
def Cell.relocate (σ : Location → Location) (c : Cell) : Cell :=
  { c with value := c.value.relocate σ }

/-- Only the locations that a value refers to matter. -/
theorem Value.relocate_eq_self {σ : Location → Location} {v : Value}
    (hσ : ∀ l ∈ v.children, σ l = l) : v.relocate σ = v := by
  cases v with
  | closure f args =>
      have hargs : args.map σ = args := by
        conv_rhs => rw [← List.map_id' args]
        exact List.map_congr_left hσ
      rw [relocate, hargs]
  | record tag fields =>
      obtain ⟨entries, distinct⟩ := fields
      have hentries : entries.map (fun e => (e.1, σ e.2)) = entries := by
        conv_rhs => rw [← List.map_id' entries]
        refine List.map_congr_left fun e he => ?_
        rw [hσ e.2 (List.mem_map_of_mem he)]
      simp only [relocate, OrderedMap.mapValues, hentries]

namespace Heap

variable {h h' h₁ h₂ : Heap} {E : Multiset Location} {l l₁ l₂ : Location} {i : Nat} {v : Value}
  {c : Cell}

/-- `h'` holds the cells of `h` at other places, and all references have moved with them. -/
def Relocated (σ : Location → Location) (h h' : Heap) : Prop :=
  ∀ l, h'.cell? (σ l) = (h.cell? l).map (·.relocate σ)

/-! ## A reset beside a drop -/

/-- The heap with one more reset declined. -/
def decline (h : Heap) : Heap :=
  { h with stats := { h.stats with declined := h.stats.declined + 1 } }

theorem reset_missing (hc : h.cell? l = none) : h.reset l = (.error ⟨l⟩, h) := by
  cases l <;> simp only [reset, hc]

/-- With the last reference a reset does what `dec` does, and hands out the slot. -/
theorem reset_unshared (hc : h.cell? (.cell i) = some c) (hone : c.count = 1) :
    h.reset (.cell i) = ((h.dec [.cell i]).1.map fun _ => .cell i, (h.dec [.cell i]).2) := by
  rw [dec_unshared hc (by omega), List.append_nil]
  simp only [reset, hc, hone, if_true]
  cases (h.free i).dec c.value.children with
  | mk outcome h' => cases outcome <;> rfl

theorem dec_single_shared (hc : h.cell? (.cell i) = some c) (hlt : 1 < c.count) :
    h.dec [.cell i] = (.ok (), h.write i (some { c with count := c.count - 1 })) := by
  rw [dec_shared hc hlt, dec]

/-- While there are other references a reset counts down, as `dec` does, and is declined. -/
theorem reset_shared (hc : h.cell? (.cell i) = some c) (hlt : 1 < c.count) :
    h.reset (.cell i) = (.ok .invalid, (h.dec [.cell i]).2.decline) := by
  have hone : c.count ≠ 1 := by omega
  simp only [reset, hc, if_neg hone, dec_single_shared hc hlt]
  rfl

/-- A reset fails if and only if `dec` does, with the same missing location, and in any case it
leaves the same slots with the same cells, as many live cells and as many freed ones.  If it succeeds
it hands out its location exactly if the reference was the only one.  Otherwise it answers with the
invalid location, has been counted as declined, and has freed nothing. -/
theorem reset_matches_dec (counted : ∀ {m c}, h.cell? m = some c → 0 < c.count)
    (hl : l ≠ .invalid) :
    (h.reset l).1.map (fun _ => ()) = (h.dec [l]).1 ∧
      (h.reset l).2.slots = (h.dec [l]).2.slots ∧ (h.reset l).2.live = (h.dec [l]).2.live ∧
      (h.reset l).2.stats.frees = (h.dec [l]).2.stats.frees ∧
      ∀ token, (h.reset l).1 = .ok token → (token = l ↔ h.count l = .ok 1) ∧
        (token ≠ l → token = .invalid ∧ (h.reset l).2.stats.declined = h.stats.declined + 1 ∧
          (h.reset l).2.stats.frees = h.stats.frees) := by
  cases l with
  | invalid => exact absurd rfl hl
  | cell i =>
      cases hc : h.cell? (.cell i) with
      | none =>
          rw [reset_missing hc, dec_missing hc]
          exact ⟨rfl, rfl, rfl, rfl, nofun⟩
      | some c =>
          have hcount : h.count (.cell i) = .ok c.count := by simp [count, cell, hc, Except.map]
          rw [hcount]
          by_cases hone : c.count = 1
          · rw [reset_unshared hc hone]
            cases (h.dec [.cell i]).1 with
            | error e => exact ⟨rfl, rfl, rfl, rfl, nofun⟩
            | ok =>
                refine ⟨rfl, rfl, rfl, rfl, ?_⟩
                intro token htoken
                obtain rfl := Except.ok.inj htoken
                exact ⟨⟨fun _ => congrArg _ hone, fun _ => rfl⟩, fun hne => absurd rfl hne⟩
          · have hpos := counted hc
            have hlt : 1 < c.count := by omega
            rw [reset_shared hc hlt, dec_single_shared hc hlt]
            refine ⟨rfl, rfl, rfl, rfl, ?_⟩
            intro token htoken
            obtain rfl := Except.ok.inj htoken
            exact ⟨⟨nofun, fun hok => absurd (Except.ok.inj hok) hone⟩, fun _ => ⟨rfl, rfl, rfl⟩⟩

/-- A cell to which nothing refers but the cell itself. -/
def selfHolder : Heap where
  slots := .ofList [some ⟨1, .closure ⟨"f", .none⟩ [.cell 0]⟩]
  live := 1

/-- The cell is freed before the reference that it holds is found to lead nowhere. -/
theorem reset_matches_dec_selfHolder :
    (∀ {m c}, selfHolder.cell? m = some c → 0 < c.count) ∧
      (selfHolder.reset (.cell 0)).1 = .error ⟨.cell 0⟩ ∧
      (selfHolder.dec [.cell 0]).1 = .error ⟨.cell 0⟩ ∧
      (selfHolder.reset (.cell 0)).2.slots = (selfHolder.dec [.cell 0]).2.slots ∧
      (selfHolder.reset (.cell 0)).2.stats.frees = (selfHolder.dec [.cell 0]).2.stats.frees := by
  have counted {m : Location} {c : Cell} (hc : selfHolder.cell? m = some c) : 0 < c.count := by
    cases m with
    | invalid => cases hc
    | cell i =>
        cases i with
        | zero =>
            cases hc
            exact Nat.one_pos
        | succ i => cases hc
  obtain ⟨hout, hslots, -, hfrees, -⟩ := reset_matches_dec (l := .cell 0) counted nofun
  have hreset : (selfHolder.reset (.cell 0)).1 = .error ⟨.cell 0⟩ := by decide +kernel
  rw [hreset] at hout
  exact ⟨counted, hreset, hout.symm, hslots, hfrees⟩

/-! ## Building a value anew -/

/-- `h'` is `h` with a value built at a vacant place. -/
structure BuiltAt (h : Heap) (v : Value) (l : Location) (h' : Heap) : Prop where
  /-- There was no cell. -/
  vacant : h.cell? l = none
  /-- The new cell has one reference, and no other cell is touched. -/
  cell : ∀ m, h'.cell? m = if m = l then some ⟨1, v⟩ else h.cell? m
  /-- One more cell is live. -/
  live : h'.live = h.live + 1
  /-- One more value has been built. -/
  built : h'.built = h.built + 1
  /-- Nothing is freed. -/
  frees : h'.stats.frees = h.stats.frees

theorem BuiltAt.cell_self (b : h.BuiltAt v l h') : h'.cell? l = some ⟨1, v⟩ := by
  rw [b.cell, if_pos rfl]

theorem alloc_builtAt (h : Heap) (v : Value) : h.BuiltAt v (h.alloc v).1 (h.alloc v).2 where
  vacant := h.cell?_fresh
  cell := cell?_alloc h v
  live := rfl
  built := Nat.add_right_comm _ _ _
  frees := rfl

theorem reuse_builtAt (v : Value) (hs : h.Spare i) :
    h.BuiltAt v (.cell i) (h.reuse (.cell i) v).2 := by
  rw [reuse_spare v hs]
  have r := replaces_fill v hs
  refine ⟨r.cell?_before, fun m => ?_, rfl, rfl, rfl⟩
  by_cases hm : m = .cell i
  · subst hm
    rw [if_pos rfl]
    exact r.cell?_self
  · rw [if_neg hm]
    exact r.cell?_other hm

/-- Nothing refers to a vacant place, neither a live cell nor a value that can be built. -/
theorem AccountedFor.notMem_of_vacant (acc : h.AccountedFor (v.children + E))
    (b : h.BuiltAt v l h') : l ∉ v.children ∧ l ∉ h.references := by
  cases l with
  | invalid =>
      have hcell := b.cell .invalid
      simp [cell?] at hcell
  | cell i =>
      obtain ⟨hheld, hrefs⟩ := acc.count_eq_zero b.vacant
      rw [Multiset.count_add, Nat.add_eq_zero_iff] at hheld
      exact ⟨Multiset.count_eq_zero.1 hheld.1, Multiset.count_eq_zero.1 hrefs⟩

/-- Cells of two heaps that differ by an exchange of two places, next to the same counters. -/
structure Exchanged (l₁ l₂ : Location) (h₁ h₂ : Heap) : Prop where
  /-- The exchange takes one heap to the other. -/
  relocated : Relocated (Equiv.swap l₁ l₂) h₁ h₂
  /-- At all other places there are the same cells. -/
  elsewhere : ∀ m, m ≠ l₁ → m ≠ l₂ → h₁.cell? m = h₂.cell? m
  /-- As many cells are live. -/
  live : h₁.live = h₂.live
  /-- As many have been freed. -/
  frees : h₁.stats.frees = h₂.stats.frees
  /-- As many values have been built, in new cells or in those of tokens. -/
  built : h₁.stats.allocations + h₁.stats.reuses = h₂.stats.allocations + h₂.stats.reuses

/-- Building a value at one vacant place or at another makes no difference apart from the place. -/
theorem BuiltAt.relocated (acc : h.AccountedFor (v.children + E)) (b₁ : h.BuiltAt v l₁ h₁)
    (b₂ : h.BuiltAt v l₂ h₂) : Relocated (Equiv.swap l₁ l₂) h₁ h₂ := by
  have apart₁ := acc.notMem_of_vacant b₁
  have apart₂ := acc.notMem_of_vacant b₂
  -- No value refers to one of the two places, so none changes.
  have hself {w : Value} (h₁ : l₁ ∉ w.children) (h₂ : l₂ ∉ w.children) :
      w.relocate (Equiv.swap l₁ l₂) = w :=
    Value.relocate_eq_self fun l hl =>
      Equiv.swap_apply_of_ne_of_ne (fun e => h₁ (e ▸ hl)) fun e => h₂ (e ▸ hl)
  have hnew : (⟨1, v⟩ : Cell).relocate (Equiv.swap l₁ l₂) = ⟨1, v⟩ := by
    rw [Cell.relocate, hself apart₁.1 apart₂.1]
  have hold (m : Location) : (h.cell? m).map (·.relocate (Equiv.swap l₁ l₂)) = h.cell? m := by
    cases hc : h.cell? m with
    | none => rfl
    | some c =>
        have hrefs {k : Location} (hk : k ∈ c.value.children) : k ∈ h.references :=
          mem_references.2 ⟨m, c.value, value?_eq_some_iff.2 ⟨c, hc, rfl⟩, hk⟩
        rw [Option.map_some, Cell.relocate,
          hself (fun hk => apart₁.2 (hrefs hk)) fun hk => apart₂.2 (hrefs hk)]
  intro m
  rw [b₁.cell, b₂.cell]
  by_cases hm₁ : m = l₁
  · rw [if_pos hm₁, hm₁, Equiv.swap_apply_left, if_pos rfl, Option.map_some, hnew]
  · rw [if_neg hm₁, hold]
    by_cases hm₂ : m = l₂
    · rw [hm₂, Equiv.swap_apply_right, b₂.vacant, if_neg fun e => hm₁ (hm₂.trans e.symm), b₁.vacant]
    · rw [Equiv.swap_apply_of_ne_of_ne hm₁ hm₂, if_neg hm₂]

theorem BuiltAt.exchanged (acc : h.AccountedFor (v.children + E)) (b₁ : h.BuiltAt v l₁ h₁)
    (b₂ : h.BuiltAt v l₂ h₂) : Exchanged l₁ l₂ h₁ h₂ where
  relocated := b₁.relocated acc b₂
  elsewhere m hm₁ hm₂ := by rw [b₁.cell, b₂.cell, if_neg hm₁, if_neg hm₂]
  live := b₁.live.trans b₂.live.symm
  frees := b₁.frees.trans b₂.frees.symm
  built := b₁.built.trans b₂.built.symm

/-- What a reset and a reuse build is built in the heap that `dec` leaves behind: in the slot of the
token, or in a new cell if the reset was declined. -/
theorem reset_reuse_builtAt (acc : h.AccountedFor (.cell i ::ₘ (v.children + E))) :
    ∃ token h₁ l₁ h₁' h₂, h.reset (.cell i) = (.ok token, h₁) ∧ h₁.reuse token v = (.ok l₁, h₁') ∧
      h.dec [.cell i] = (.ok (), h₂) ∧ h₂.AccountedFor (v.children + E) ∧ h₂.BuiltAt v l₁ h₁' := by
  obtain ⟨c, hc, hpos⟩ := acc.cell_of_mem (i := i) (by simp)
  have acc₁ : h.AccountedFor (↑[Location.cell i] + (v.children + E)) := by simpa using acc
  obtain ⟨h₂, hdec, acc₂, -⟩ := dec_accounted acc₁
  by_cases hone : c.count = 1
  · have hreset := reset_unshared hc hone
    rw [hdec] at hreset
    have hs : h₂.Spare i := by
      obtain ⟨token, h₁, hreset', -, -, htoken⟩ := reset_accounted acc
      rw [hreset] at hreset'
      obtain ⟨htok, rfl⟩ := Prod.mk.inj hreset'
      obtain rfl := Except.ok.inj htok
      exact (htoken.resolve_left nofun).2
    exact ⟨_, _, _, _, h₂, hreset, Prod.ext (by rw [reuse_spare v hs]) rfl, hdec, acc₂,
      reuse_builtAt v hs⟩
  · have hreset := reset_shared hc (by omega)
    rw [hdec] at hreset
    -- A declined reset is counted, which makes no difference to what is built.
    have b := alloc_builtAt h₂.decline v
    exact ⟨_, _, _, _, h₂, hreset, reuse_invalid _ v, hdec, acc₂,
      ⟨b.vacant, b.cell, b.live, b.built, b.frees⟩⟩

/-- In an account of references that are held outside, one of them is given up and a value is built
that takes over others.  Whether this is done by a reset and a reuse of its token or by `dec` and an
allocation, it succeeds.  The heaps are the same up to an exchange of the places of the new cells, of
which each has one reference. -/
theorem reset_reuse_matches_dec_alloc (acc : h.AccountedFor E) (hne : l ≠ .invalid) (hl : l ∈ E)
    (hv : cells v.children ≤ E.erase l) :
    ∃ token h₁ l₁ h₁' h₂ l₂ h₂', h.reset l = (.ok token, h₁) ∧ h₁.reuse token v = (.ok l₁, h₁') ∧
      h.dec [l] = (.ok (), h₂) ∧ h₂.alloc v = (l₂, h₂') ∧
      h₁'.cell? l₁ = some ⟨1, v⟩ ∧ h₂'.cell? l₂ = some ⟨1, v⟩ ∧ Exchanged l₁ l₂ h₁' h₂' := by
  obtain ⟨i, rfl⟩ : ∃ i, l = .cell i := by
    cases l with
    | invalid => exact absurd rfl hne
    | cell i => exact ⟨i, rfl⟩
  -- The references that the value takes over are set apart first, next to the one given up.
  have acc' : h.AccountedFor (.cell i ::ₘ (v.children + (E.erase (.cell i) - cells v.children))) := by
    rw [← Multiset.cons_erase hl] at acc
    refine acc.congr fun j => ?_
    have := Multiset.count_le_of_le (.cell j) hv
    simp only [Multiset.count_cons, Multiset.count_add, Multiset.count_sub, count_cells] at this ⊢
    omega
  obtain ⟨token, h₁, l₁, h₁', h₂, hreset, hreuse, hdec, acc₂, b⟩ := reset_reuse_builtAt acc'
  have b' := alloc_builtAt h₂ v
  exact ⟨token, h₁, l₁, h₁', h₂, (h₂.alloc v).1, (h₂.alloc v).2, hreset, hreuse, hdec, rfl,
    b.cell_self, b'.cell_self, b.exchanged acc₂ b'⟩

/-- A cell that is held outside and by another one, which is held outside too. -/
def heldTwice : Heap where
  slots := .ofList [some ⟨2, .closure ⟨"f", .none⟩ []⟩, some ⟨1, .closure ⟨"f", .none⟩ [.cell 0]⟩]
  live := 2

/-- The second cell is given up, and a value is built that takes over the first one. -/
theorem reset_reuse_matches_dec_alloc_heldTwice :
    heldTwice.AccountedFor {.cell 0, .cell 1} ∧
      ∃ token h₁ l₁ h₁' h₂ l₂ h₂', heldTwice.reset (.cell 1) = (.ok token, h₁) ∧
        h₁.reuse token (.closure ⟨"g", .none⟩ [.cell 0]) = (.ok l₁, h₁') ∧
        heldTwice.dec [.cell 1] = (.ok (), h₂) ∧
        h₂.alloc (.closure ⟨"g", .none⟩ [.cell 0]) = (l₂, h₂') ∧
        h₁'.cell? l₁ = some ⟨1, .closure ⟨"g", .none⟩ [.cell 0]⟩ ∧
        h₂'.cell? l₂ = some ⟨1, .closure ⟨"g", .none⟩ [.cell 0]⟩ ∧ Exchanged l₁ l₂ h₁' h₂' := by
  have acc : heldTwice.AccountedFor {.cell 0, .cell 1} := by
    intro i
    match i with
    | 0 => decide
    | 1 => decide
    | i + 2 =>
        simp [references, heldTwice, tally, cell?, Numbered.get?, Numbered.ofList, slotTally,
          slotReferences, Value.children]
  exact ⟨acc, reset_reuse_matches_dec_alloc acc (by decide) (by decide) (by decide)⟩

end Heap

end Reclaim
