import Mathlib.Data.Multiset.AddSub
import Mathlib.Logic.Relation
import Reclaim.Proofs.Heap.Cells

/-!
# Cascades in any order

`dec` gives up the references on its list from first to last, and those of a freed cell before the
rest.  Here a cascade is freed from that order: what is still to be given up is a multiset, and any of
it can be next (`GivesUp`).

Giving up two references in one order or the other comes to the same (`GivesUp.diamond`), so a cascade
that can end leads to that end from every state it passes through (`Cascade.completes`).  It cannot
fail on the way, because a missing cell stays missing and the reference to it stays pending
(`GivesUp.dangling`).  The main statement is `dec_of_perm`.  It holds of every heap: counts may be
wrong, and references may lead nowhere or in circles.
-/

namespace Reclaim

/-- What is left of a cell when one reference to it is given up. -/
def Cell.dropOne (c : Cell) : Option Cell :=
  if 1 < c.count then some { c with count := c.count - 1 } else none

/-- The references that a cell gives up together with one reference to it. -/
def Cell.released (c : Cell) : List Location := if 1 < c.count then [] else c.value.children

namespace Heap

open Relation (ReflTransGen)

variable {h h' h₁ h₂ : Heap} {l m : Location} {i j : Nat} {ls ms : List Location}

/-! ## One reference -/

/-- Puts what is left of a cell in its place. -/
def leave (h : Heap) (i : Nat) : Option Cell → Heap
  | some c => h.write i (some c)
  | none => h.free i

/-- Gives up one reference, and no other.  The answer is the heap that this leaves behind, with the
references that have to be given up next, and there is none without a cell. -/
def giveUp? (h : Heap) : Location → Option (Heap × List Location)
  | .invalid => some (h, [])
  | .cell i => (h.cell? (.cell i)).map fun c => (h.leave i c.dropOne, c.released)

theorem replaces_leave {old : Option Cell} (new : Option Cell) (ho : h.slots.get? i = some old) :
    h.Replaces i old new (h.leave i new) := by
  cases new with
  | none => exact replaces_free ho
  | some c => exact replaces_write (some c) ho

/-- Slots that are different are changed in any order. -/
theorem leave_comm (hij : i ≠ j) (a b : Option Cell) :
    (h.leave i a).leave j b = (h.leave j b).leave i a := by
  have hslots (a b : Option Cell) : (h.slots.set i a).set j b = (h.slots.set j b).set i a := by
    simp only [Numbered.set, Numbered.mk.injEq]
    exact Array.setIfInBounds_comm a b hij
  cases a <;> cases b <;> simp only [leave, write, free, hslots]

theorem giveUp?_cell {c : Cell} (hc : h.cell? (.cell i) = some c) :
    h.giveUp? (.cell i) = some (h.leave i c.dropOne, c.released) := by
  rw [giveUp?, hc]
  rfl

theorem giveUp?_eq_none : h.giveUp? l = none ↔ ∃ i, l = .cell i ∧ h.cell? (.cell i) = none := by
  cases l with
  | invalid => simp [giveUp?]
  | cell i => simp [giveUp?]

/-- A cell at another location is not touched. -/
theorem cell?_of_giveUp? {freed : List Location} (hl : h.giveUp? l = some (h', freed))
    (hlm : l ≠ m) : h'.cell? m = h.cell? m := by
  cases l with
  | invalid =>
      obtain ⟨rfl, rfl⟩ := Prod.mk.inj (Option.some.inj hl)
      rfl
  | cell i =>
      obtain ⟨c, hc, hout⟩ := Option.map_eq_some_iff.1 hl
      obtain ⟨rfl, rfl⟩ := Prod.mk.inj hout
      exact (replaces_leave c.dropOne (get?_of_cell? hc)).cell?_other hlm.symm

/-- References to two locations can be given up in any order. -/
theorem giveUp?_comm {freed₁ freed₂ : List Location} (hlm : l ≠ m)
    (hl : h.giveUp? l = some (h₁, freed₁)) (hm : h.giveUp? m = some (h₂, freed₂)) :
    ∃ h', h₁.giveUp? m = some (h', freed₂) ∧ h₂.giveUp? l = some (h', freed₁) := by
  cases l with
  | invalid =>
      obtain ⟨rfl, rfl⟩ := Prod.mk.inj (Option.some.inj hl)
      exact ⟨h₂, hm, rfl⟩
  | cell i =>
      cases m with
      | invalid =>
          obtain ⟨rfl, rfl⟩ := Prod.mk.inj (Option.some.inj hm)
          exact ⟨h₁, rfl, hl⟩
      | cell j =>
          have hij : i ≠ j := fun e => hlm (e ▸ rfl)
          have hm' := cell?_of_giveUp? hl hlm
          have hl' := cell?_of_giveUp? hm hlm.symm
          obtain ⟨c, hc, hout⟩ := Option.map_eq_some_iff.1 hl
          obtain ⟨rfl, rfl⟩ := Prod.mk.inj hout
          obtain ⟨d, hd, hout⟩ := Option.map_eq_some_iff.1 hm
          obtain ⟨rfl, rfl⟩ := Prod.mk.inj hout
          refine ⟨_, giveUp?_cell (hm'.trans hd), ?_⟩
          rw [leave_comm hij, giveUp?_cell (hl'.trans hc)]

/-- What has to be given up next was held by a cell that is gone. -/
theorem weight_of_giveUp? {freed : List Location} (hl : h.giveUp? l = some (h', freed)) :
    h'.weight + freed.length = h.weight := by
  cases l with
  | invalid =>
      obtain ⟨rfl, rfl⟩ := Prod.mk.inj (Option.some.inj hl)
      rfl
  | cell i =>
      obtain ⟨c, hc, hout⟩ := Option.map_eq_some_iff.1 hl
      obtain ⟨rfl, rfl⟩ := Prod.mk.inj hout
      by_cases hlt : 1 < c.count
      · simp only [Cell.dropOne, Cell.released, if_pos hlt, leave]
        exact weight_recount hc
      · simp only [Cell.dropOne, Cell.released, if_neg hlt, leave]
        exact weight_free hc

/-- A cascade gives up the first reference on its list and goes on with what that releases. -/
theorem dec_cons (h : Heap) (l : Location) (rest : List Location) :
    h.dec (l :: rest) = match h.giveUp? l with
      | none => (.error ⟨l⟩, h)
      | some (h', freed) => h'.dec (freed ++ rest) := by
  cases l with
  | invalid => simp only [dec, giveUp?, List.nil_append]
  | cell i =>
      cases hc : h.cell? (.cell i) with
      | none => rw [dec_missing hc, giveUp?, hc, Option.map_none]
      | some c =>
          rw [giveUp?_cell hc]
          by_cases hlt : 1 < c.count
          · simp only [dec_shared hc hlt, Cell.dropOne, Cell.released, if_pos hlt, leave,
              List.nil_append]
          · simp only [dec_unshared hc hlt, Cell.dropOne, Cell.released, if_neg hlt, leave]

/-! ## Steps of a cascade -/

/-- A heap and the references that are still to be given up. -/
abbrev Pending : Type := Heap × Multiset Location

/-- One of the pending references is given up, whichever, and those that it releases join the
others. -/
inductive GivesUp : Pending → Pending → Prop where
  | step {h h' : Heap} {l : Location} {freed : List Location} {rest : Multiset Location} :
      h.giveUp? l = some (h', freed) → GivesUp (h, l ::ₘ rest) (h', freed + rest)

/-- One of the pending references leads to no cell. -/
def Dangling (s : Pending) : Prop := ∃ l ∈ s.2, s.1.giveUp? l = none

/-- Steps are taken one after the other. -/
abbrev Cascade : Pending → Pending → Prop := ReflTransGen GivesUp

namespace GivesUp

variable {s t u : Pending}

/-- Each step makes the references that are held or pending fewer. -/
theorem measure_lt (step : GivesUp s t) :
    t.1.weight + Multiset.card t.2 < s.1.weight + Multiset.card s.2 := by
  cases step with
  | step hl =>
      have := weight_of_giveUp? hl
      simp only [Multiset.card_cons, Multiset.card_add, Multiset.coe_card]
      omega

/-- No cascade goes on for ever. -/
theorem wellFounded : WellFounded fun t s => GivesUp s t :=
  Subrelation.wf measure_lt (measure fun s : Pending => s.1.weight + Multiset.card s.2).wf

/-- Two steps from one state are the same, or each can be followed by the other. -/
theorem diamond (hst : GivesUp s t) (hsu : GivesUp s u) :
    t = u ∨ ∃ s', GivesUp t s' ∧ GivesUp u s' := by
  obtain ⟨h, pending⟩ := s
  generalize hs : (h, pending) = s at hst
  cases hst with
  | @step h h₁ l freed₁ rest₁ hl =>
      obtain ⟨rfl, rfl⟩ := Prod.mk.inj hs
      generalize hs : (h, l ::ₘ rest₁) = s at hsu
      cases hsu with
      | @step h h₂ m freed₂ rest₂ hm =>
          obtain ⟨rfl, hrest⟩ := Prod.mk.inj hs
          rcases Multiset.cons_eq_cons.1 hrest with ⟨rfl, rfl⟩ | ⟨hlm, rest, rfl, rfl⟩
          · rw [hl] at hm
            obtain ⟨rfl, rfl⟩ := Prod.mk.inj (Option.some.inj hm)
            exact .inl rfl
          · obtain ⟨h', hm', hl'⟩ := giveUp?_comm hlm hl hm
            refine .inr ⟨(h', freed₁ + (freed₂ + rest)), ?_, ?_⟩
            · rw [Multiset.add_cons, add_left_comm]
              exact .step hm'
            · rw [Multiset.add_cons]
              exact .step hl'

/-- A reference that leads nowhere stays pending and goes on leading nowhere. -/
theorem dangling (step : GivesUp s t) (hs : Dangling s) : Dangling t := by
  cases step with
  | @step h h' l freed rest hl =>
      obtain ⟨m, hm, hnone⟩ := hs
      have hlm : l ≠ m := by
        rintro rfl
        rw [hl] at hnone
        cases hnone
      obtain ⟨i, rfl, hc⟩ := giveUp?_eq_none.1 hnone
      refine ⟨.cell i, ?_, giveUp?_eq_none.2 ⟨i, rfl, ?_⟩⟩
      · exact Multiset.mem_add.2 (.inr ((Multiset.mem_cons.1 hm).resolve_left hlm.symm))
      · rw [cell?_of_giveUp? hl hlm, hc]

end GivesUp

namespace Cascade

variable {s t : Pending}

theorem dangling (c : Cascade s t) (hs : Dangling s) : Dangling t := by
  induction c with
  | refl => exact hs
  | tail _ step ih => exact step.dangling ih

/-- With nothing pending a cascade is over. -/
theorem eq_of_done (c : Cascade (h, 0) t) : t = (h, 0) := by
  cases ReflTransGen.cases_head c with
  | inl heq => exact heq.symm
  | inr first =>
      obtain ⟨u, step, -⟩ := first
      generalize hs : ((h, 0) : Pending) = s at step
      cases step with
      | step hl => exact absurd (Prod.mk.inj hs).2.symm Multiset.cons_ne_zero

/-- A cascade that can end leads to that end, whichever way it has gone so far. -/
theorem completes (done : Cascade s (h, 0)) (c : Cascade s t) : Cascade t (h, 0) := by
  have confluent : Relation.Join Cascade (h, 0) t := by
    refine Relation.church_rosser (fun s t u hst hsu => ?_) done c
    rcases hst.diamond hsu with rfl | ⟨s', ht, hu⟩
    · exact ⟨t, .refl, .refl⟩
    · exact ⟨s', .single ht, .single hu⟩
  obtain ⟨u, hdone, hu⟩ := confluent
  rwa [eq_of_done hdone] at hu

theorem not_dangling (done : Cascade s (h, 0)) (c : Cascade s t) : ¬ Dangling t := fun ht => by
  obtain ⟨l, hl, -⟩ := (completes done c).dangling ht
  exact Multiset.notMem_zero l hl

end Cascade

/-! ## Cascades of `dec` -/

/-- `dec` is a cascade that ends with nothing pending, or fails with a reference to no cell. -/
theorem cascade_dec (h : Heap) (ls : List Location) : ∃ rest : Multiset Location,
    Cascade (h, ls) ((h.dec ls).2, rest) ∧
      ((h.dec ls).1 = .ok () ∧ rest = 0 ∨
        (∃ e, (h.dec ls).1 = .error e) ∧ Dangling ((h.dec ls).2, rest)) := by
  generalize hs : ((h, ls) : Pending) = s
  induction s using GivesUp.wellFounded.induction generalizing h ls with
  | _ s ih =>
      subst hs
      cases ls with
      | nil => exact ⟨0, by rw [dec]; exact .refl, .inl ⟨by rw [dec], rfl⟩⟩
      | cons l ls =>
          rw [dec_cons]
          cases hl : h.giveUp? l with
          | none => exact ⟨_, .refl, .inr ⟨⟨_, rfl⟩, l, by simp, hl⟩⟩
          | some out =>
              obtain ⟨h', freed⟩ := out
              have step : GivesUp (h, ↑(l :: ls)) (h', ↑(freed ++ ls)) := by
                rw [← Multiset.cons_coe, ← Multiset.coe_add]
                exact .step hl
              obtain ⟨rest, c, hend⟩ := ih _ step h' (freed ++ ls) rfl
              exact ⟨rest, .head step c, hend⟩

/-- A cascade that succeeds does so with its list in any other order, and leaves the same heap. -/
theorem dec_eq_of_perm (perm : ls.Perm ms) (hok : (h.dec ls).1 = .ok ()) : h.dec ms = h.dec ls := by
  have done : Cascade (h, (ms : Multiset Location)) ((h.dec ls).2, 0) := by
    obtain ⟨rest, c, ⟨-, rfl⟩ | ⟨⟨e, he⟩, -⟩⟩ := cascade_dec h ls
    · rwa [Multiset.coe_eq_coe.2 perm] at c
    · rw [hok] at he
      cases he
  obtain ⟨rest, c, ⟨hok', rfl⟩ | ⟨-, hmissing⟩⟩ := cascade_dec h ms
  · have heq := Cascade.eq_of_done (Cascade.completes done c)
    exact Prod.ext (hok'.trans hok.symm) (Prod.mk.inj heq).1.symm
  · exact absurd hmissing (Cascade.not_dangling done c)

/-- The order in which references are given up makes no difference.  In whatever order, the cascade
ends; it succeeds for all orders of a list or for none; and if it succeeds, the heaps are equal: their
cells with values and counts, the number of live cells, and all counters. -/
theorem dec_of_perm (perm : ls.Perm ms) :
    Acc (fun t s => GivesUp s t) (h, (ls : Multiset Location)) ∧
      ((h.dec ls).1 = .ok () ↔ (h.dec ms).1 = .ok ()) ∧
      ((h.dec ls).1 = .ok () → h.dec ls = h.dec ms) := by
  refine ⟨GivesUp.wellFounded.apply _, ⟨?_, ?_⟩, ?_⟩
  · intro hok
    rw [dec_eq_of_perm perm hok, hok]
  · intro hok
    rw [dec_eq_of_perm perm.symm hok, hok]
  · intro hok
    exact (dec_eq_of_perm perm hok).symm

/-- Two cells that share a third one, to which the first refers twice. -/
def sharedPart : Heap where
  slots := .ofList [some ⟨3, .closure ⟨"f", .none⟩ []⟩,
    some ⟨1, .closure ⟨"f", .none⟩ [.cell 0, .cell 0]⟩, some ⟨1, .closure ⟨"f", .none⟩ [.cell 0]⟩]
  live := 3

/-- Whichever of the two is given up first, nothing is left. -/
theorem dec_of_perm_sharedPart : [Location.cell 1, .cell 2].Perm [.cell 2, .cell 1] ∧
    (sharedPart.dec [.cell 1, .cell 2]).1 = .ok () ∧
    sharedPart.dec [.cell 1, .cell 2] = sharedPart.dec [.cell 2, .cell 1] ∧
    (sharedPart.dec [.cell 2, .cell 1]).2.live = 0 := by
  have perm : [Location.cell 1, .cell 2].Perm [.cell 2, .cell 1] := .swap _ _ _
  have hok : (sharedPart.dec [.cell 1, .cell 2]).1 = .ok () := by decide +kernel
  obtain ⟨-, -, heq⟩ := dec_of_perm (h := sharedPart) perm
  exact ⟨perm, hok, heq hok, by rw [← heq hok]; decide +kernel⟩

end Heap

end Reclaim
