import Reclaim.Proofs.Eval.Depth
import Reclaim.Proofs.Eval.Lockstep
import Reclaim.Proofs.Transformed

/-!
# Transparency

Making the memory management of a program explicit does not show.  If no function of a program manages
memory itself, a run of the program and a run of the transformed program come to an end together, and
the one ends with the same datum, and so with the same text, or with the same report as the other
(`run_transparent`).
-/

namespace Reclaim

open Reclaim.Core Reclaim.Counting Reclaim.Heap

variable {p : Program} {source entry : String} {o : Except Fault Location} {h : Heap}

mutual

/-- The text of a datum does not depend on the bodies of functions. -/
theorem renderAfter_mapBodies (p : Program) (f : FnDef → Body) (text : String) :
    ∀ d : Datum, d.renderAfter (p.mapBodies f) text = d.renderAfter p text
  | .record tag [] => rfl
  | .record tag (field :: fields) => by
      rw [Datum.renderAfter, Datum.renderAfter, renderFieldsAfter_mapBodies]
  | .closure target args => by
      rw [Datum.renderAfter, Datum.renderAfter, Program.fn?_mapBodies]
      cases p.fn? target <;> rfl

theorem renderFieldsAfter_mapBodies (p : Program) (f : FnDef → Body) (text : String) :
    ∀ fields : List (Field × Datum),
      Datum.renderFieldsAfter (p.mapBodies f) text fields = Datum.renderFieldsAfter p text fields
  | [] => rfl
  | (field, d) :: rest => by
      rw [Datum.renderFieldsAfter, Datum.renderFieldsAfter, renderAfter_mapBodies,
        renderFieldsAfter_mapBodies]

end

/-- What two runs show is the same: both have results, with one datum and one text, or both have
failed, with one report. -/
inductive SameAnswer (p q : Program) :
    Except Fault Location → Heap → Except Fault Location → Heap → Prop where
  | result {l l' : Location} {h h' : Heap} {d : Datum} {text : String} :
      h.snapshot l = .ok d → h'.snapshot l' = .ok d →
      renderAt p h l = .ok text → renderAt q h' l' = .ok text →
      SameAnswer p q (.ok l) h (.ok l') h'
  | failure {fault fault' : Fault} {h h' : Heap} :
      fault.diagnostic = fault'.diagnostic → SameAnswer p q (.error fault) h (.error fault') h'

/-- Runs are in lockstep, to whatever depth calls are nested. -/
theorem run_mirrors (hp : WellFormed p) (hm : Unmanaged p) (depth : Nat) (entry : String) :
    Mirrors (Builds .empty) (run p depth entry .empty)
      (run (insertCounts p) depth entry .empty) := by
  have hcalls : Simulates (callFn p depth) (callFn (insertCounts p) depth) :=
    callFn_simulates hp.fields (balancedFns_insertCounts hp hm)
      (fun d hd => managedBody_plain (hm d hd)) depth
  unfold run
  rw [insertCounts, Program.fn?_mapBodies]
  cases p.fn? ⟨entry, .none⟩ with
  | none => rfl
  | some d =>
      dsimp only [Option.map]
      split
      · exact hcalls (F := 0) accountedFor_empty .nil
      · rfl

/-- Locations that are alike show the same. -/
theorem sameAnswer_of_alike {f : FnDef → Body} {l l' : Location} {h h' : Heap}
    (a : Alike h h' l l') : SameAnswer p (p.mapBodies f) (.ok l) h (.ok l') h' := by
  obtain ⟨d, hd, hd'⟩ := a.snapshot
  have htext : renderAt p h l = .ok (d.render p) := by rw [renderAt, hd]
  refine .result hd hd' htext ?_
  rw [renderAt, hd']
  exact congrArg Except.ok (renderAfter_mapBodies p f "" d)

/-- For every run that comes to an end there is one of the transformed program that shows the same. -/
theorem exists_ends (hp : WellFormed p) (hm : Unmanaged p) (e : Ends p entry o h) :
    ∃ o' h', Ends (insertCounts p) entry o' h' ∧ SameAnswer p (insertCounts p) o h o' h' := by
  obtain ⟨depth, hrun⟩ := e
  have m := run_mirrors hp hm depth entry
  rw [hrun] at m
  rcases hrun' : run (insertCounts p) depth entry .empty with ⟨e' | l', h'⟩ <;> rw [hrun'] at m
  · cases o with
    | ok l => exact m.elim
    | error fault =>
        obtain rfl : Halt.fault fault = e' := m
        exact ⟨.error fault, h', ⟨depth, hrun'⟩, .failure rfl⟩
  · cases o with
    | ok l => exact ⟨.ok l', h', ⟨depth, hrun'⟩, sameAnswer_of_alike m.2⟩
    | error fault => exact m.elim

/-- If a run of a program comes to an end, so does the run of the transformed program, and however
that ends, it shows the same. -/
theorem run_transparent (hload : load source = .ok p) (hm : Unmanaged p) (e : Ends p entry o h) :
    (∃ o' h', Ends (insertCounts p) entry o' h') ∧
      ∀ {o' : Except Fault Location} {h' : Heap}, Ends (insertCounts p) entry o' h' →
        SameAnswer p (insertCounts p) o h o' h' := by
  obtain ⟨o', h', e', same⟩ := exists_ends (wellFormed_of_load hload) hm e
  refine ⟨⟨o', h', e'⟩, fun e'' => ?_⟩
  obtain ⟨rfl, rfl⟩ := e'.unique e''
  exact same

/-- A pair that is taken apart and built again in its own cell shows the same. -/
theorem run_transparent_swap : ∃ p o h o' h', load swapSource = .ok p ∧ Unmanaged p ∧
    Ends p "main" o h ∧ Ends (insertCounts p) "main" o' h' ∧
    SameAnswer p (insertCounts p) o h o' h' := by
  obtain ⟨p, hload, hm, ⟨l, h, hrun⟩, ⟨l', h', hrun'⟩, -⟩ := exists_swap
  have ends : Ends p "main" (.ok l) h := ⟨2, hrun⟩
  have ends' : Ends (insertCounts p) "main" (.ok l') h' := ⟨2, hrun'⟩
  exact ⟨p, .ok l, h, .ok l', h', hload, hm, ends, ends', (run_transparent hload hm ends).2 ends'⟩

end Reclaim
