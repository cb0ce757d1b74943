import Reclaim.Proofs.Counting.Readable
import Reclaim.Proofs.Resolution.Rereading
import Reclaim.Proofs.Resolution.Spans
import Reclaim.Proofs.Surface.Reading

/-!
# Printed programs load back

The text of a printed program is read into the tokens of its tree, so it parses to that tree up to
spans, and the tree resolves to the program.  Since neither resolution nor the check looks at spans,
what is loaded from the printed text is the program again, except for where its names stand.  This
holds for every program that a text can express (`reloads_of_expressible`), hence for a loaded program
before and after its memory management has been made explicit (`load_print`).
-/

namespace Reclaim

open Reclaim.Core Reclaim.Surface Reclaim.Counting

variable {source : String} {p : Program}

/-- The printed program loads, to the same types and functions in the same order up to spans, and is
printed as the same text again. -/
def Reloads (p : Program) : Prop :=
  ∃ q, load p.print = .ok q ∧ q.bare = p.bare ∧ q.print = p.print

theorem reloads_of_expressible (hp : Expressible p) : Reloads p := by
  obtain ⟨hstop, hshapes⟩ := lex_print (named_tree hp)
  obtain ⟨tree, hparse, htree⟩ := parse_of_shapes hstop hshapes
  have hbare : resolve p.tree.bare = .ok p.bare :=
    Agree.ok_right (resolve_tree hp ▸ resolve_bare p.tree)
  obtain ⟨q, hresolve, hq⟩ : ∃ q, resolve tree = .ok q ∧ q.bare = p.bare :=
    Agree.exists_ok (hbare ▸ htree ▸ resolve_bare tree)
  have hvalid : q.validate = .ok () := by
    rw [← q.validate_bare, hq, p.validate_bare]
    exact hp.valid
  refine ⟨q, load_eq_ok.2 ⟨tree, hparse, hresolve, hvalid⟩, hq, ?_⟩
  calc
    q.print = q.bare.print := q.print_bare.symm
    _ = p.bare.print := by rw [hq]
    _ = p.print := p.print_bare

/-- A loaded program, printed as it is or with its memory management made explicit, loads back
unchanged. -/
theorem load_print (h : load source = .ok p) :
    Reloads p ∧ ∃ q, insertCounts? p = .ok q ∧ Reloads q := by
  have hp := expressible_of_load h
  have hmanaged : insertCounts? p = .ok (insertCounts p) :=
    bind_eq_ok.2 ⟨(), validate_insertCounts hp.valid, rfl⟩
  exact ⟨reloads_of_expressible hp, insertCounts p, hmanaged,
    reloads_of_expressible (expressible_insertCounts hp)⟩

/-- A function that reuses a box, and one that applies its parameter, which is spelled like a
function, and has no arm for any record. -/
def shadowSource : String :=
  "(deftype Box v)
  (defn f (x) (case x Box (let (y (proj v x) z (new Box y)) (ret z))))
  (defn g (f) (let (h (f f)) (case h)))"

/-- Both functions come back, before and after the cell of the box is used again. -/
theorem load_print_shadow : ∃ p, load shadowSource = .ok p ∧
    Reloads p ∧ ∃ q, insertCounts? p = .ok q ∧ Reloads q := by
  have hcheck : (load shadowSource).toOption.isSome = true := by decide +kernel
  cases hload : load shadowSource with
  | error e =>
      rw [hload] at hcheck
      cases hcheck
  | ok p => exact ⟨p, rfl, load_print hload⟩

end Reclaim
