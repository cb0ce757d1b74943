import Reclaim.Proofs.Counting.Validity
import Reclaim.Proofs.Eval.Invariants
import Reclaim.Proofs.Loading

/-!
# Canonical forms of cells

In a loaded program the fields of a constructor have different names, so a record that is built for it
lists them all, in order, each with its location (`canonical_of_fits`).  Hence whatever is found in a
cell is a partial application of a function of the program or a complete record of a declared
constructor (`cells_canonical`).  This is so however memory is managed, in the cells of tokens as in new
ones, and wherever an evaluation stops.
-/

namespace Reclaim

open Reclaim.Core
open Reclaim.Counting (insertCounts insertCounts?)

variable {source : String} {p q : Program} {h : Heap} {l : Location} {v : Value}

/-- A closure is of a function that wants more arguments than have been captured.  A record is of a
declared constructor, and its keys are the fields of the constructor in order. -/
def Value.Canonical (p : Program) : Value → Prop
  | .closure target args => ∃ d, p.fn? target = some d ∧ args.length < d.params.length
  | .record tag fields => ∃ d, p.type? tag = some d ∧ fields.keys = d.fields

theorem canonical_of_fits (hp : ∀ d ∈ p.types, (d.fields.map (·.text)).Nodup) (hv : v.Fits p) :
    v.Canonical p := by
  cases v with
  | closure target args => exact hv
  | record tag fields =>
      obtain ⟨d, ls, hd, hlen, rfl⟩ := hv
      refine ⟨d, hd, ?_⟩
      rw [OrderedMap.keys, entries_of_fields (hp d (Program.mem_of_type? hd)) hlen]
      exact List.map_fst_zip hlen.le

theorem eq_insertCounts (hq : insertCounts? p = .ok q) : insertCounts p = q := by
  rw [insertCounts?, bind_eq_ok] at hq
  obtain ⟨_, -, hq⟩ := hq
  exact (pure_eq_ok.1 hq).symm

/-- Every cell that evaluations of a loaded program come across, or of what becomes of it when its memory
management is made explicit, holds a closure that wants more arguments or a complete record. -/
theorem cells_canonical (hload : load source = .ok p) (hq : q = p ∨ insertCounts? p = .ok q)
    (hr : Reached q h) (hv : h.value? l = some v) : v.Canonical q := by
  have htypes : q.types = p.types := by
    rcases hq with rfl | hq
    · rfl
    · rw [← eq_insertCounts hq]
      rfl
  refine canonical_of_fits ?_ (hr.fits hv)
  rw [htypes]
  exact (wellFormed_of_load hload).fields

/-- A function that builds a box in the cell of another record, captures the box and what is in it, one
after the other, and then asks for a result too early. -/
def rebuildingSource : String :=
  "(deftype N) (deftype Box v)
  (defn f (x y z) (ret x))
  (defn main () (let (n (new N) t (reset n) m (new N) b (reuse t Box m) k (pap f b) e (pap k m)
    r (e)) (ret r)))"

/-- The run fails, and leaves the box behind in the cell of the first record, and the extended closure. -/
theorem cells_canonical_rebuilding : ∃ p e h v w, load rebuildingSource = .ok p ∧
    run p 2 "main" .empty = (.error e, h) ∧ Reached p h ∧ h.stats.reuses = 1 ∧
    h.value? (.cell 0) = some v ∧ v.Canonical p ∧ h.value? (.cell 3) = some w ∧ w.Canonical p := by
  have hcheck : ((load rebuildingSource).toOption.any fun p => match run p 2 "main" .empty with
      | (.error _, h) => h.stats.reuses == 1 && (h.value? (.cell 0)).isSome
        && (h.value? (.cell 3)).isSome
      | (.ok _, _) => false) = true := by
    decide +kernel
  obtain ⟨p, hload, hcheck⟩ := any_toOption.1 hcheck
  have hr := Reached.empty.run (p := p) 2 "main"
  rcases hrun : run p 2 "main" .empty with ⟨e | l, h⟩
  · rw [hrun] at hcheck hr
    simp only [Bool.and_eq_true, beq_iff_eq, Option.isSome_iff_exists] at hcheck
    obtain ⟨⟨hreuses, v, hv⟩, w, hw⟩ := hcheck
    exact ⟨p, e, h, v, w, hload, hrun, hr, hreuses, hv, cells_canonical hload (.inl rfl) hr hv,
      hw, cells_canonical hload (.inl rfl) hr hw⟩
  · rw [hrun] at hcheck
    cases hcheck

end Reclaim
