import Reclaim.Proofs.Bodies
import Reclaim.Proofs.Eval.Outcomes

/-!
# The depth of calls

Calls are carried out to a depth of nesting.  An evaluation that comes to an end within some depth
ends in the same way within every greater one (`callFn_mono`), so whether and how a run ends does not
depend on the depth (`Ends.unique`).
-/

namespace Reclaim

open Reclaim.Core

variable {α β : Type} {p : Program} {call call' : Caller} {env : Env} {e : Expr} {x : Var}
  {h : Heap} {depth depth' : Nat} {entry : String}

/-- An outcome is the same as another one, unless that ran out of depth. -/
def Settles (o o' : Except Halt α × Heap) : Prop := o.1 ≠ .error .exhausted → o' = o

/-- A way to carry out calls that comes to an end at least as often as another one, and then in the
same way. -/
def Deepens (call call' : Caller) : Prop :=
  ∀ target args h, Settles (call target args h) (call' target args h)

theorem Settles.refl (o : Except Halt α × Heap) : Settles o o := fun _ => rfl

theorem Settles.bind {m m' : Eval α} {f f' : α → Eval β} (s : Settles (m h) (m' h))
    (hf : ∀ a h', Settles (f a h') (f' a h')) : Settles ((m >>= f) h) ((m' >>= f') h) := by
  intro hne
  rcases hm : m h with ⟨e | a, h'⟩
  · rw [Eval.bind_error hm] at hne ⊢
    rw [hm] at s
    refine Eval.bind_error (s fun he => hne ?_)
    cases he
    rfl
  · rw [hm] at s
    have hm' : m' h = (.ok a, h') := s nofun
    rw [Eval.bind_ok hm] at hne ⊢
    rw [Eval.bind_ok hm']
    exact hf a h' hne

/-! ## Bodies -/

theorem evalExpr_settles (d : Deepens call call') :
    Settles (evalExpr p call env e h) (evalExpr p call' env e h) := by
  cases e with
  | call target xs =>
      rw [evalExpr, evalExpr]
      exact (Settles.refl _).bind fun args h' => d target args h'
  | apply x xs =>
      rw [evalExpr, evalExpr]
      exact (Settles.refl _).bind fun r h' => d r.1 r.2 h'
  | _ => exact .refl _

theorem evalArm_settles {tag : Tag} {arms : List Arm}
    (harms : ∀ arm ∈ arms, Settles (evalBody p call env arm.2 h) (evalBody p call' env arm.2 h)) :
    Settles (evalArm p call env x tag arms h) (evalArm p call' env x tag arms h) := by
  rw [evalArm_eq, evalArm_eq]
  cases hb : findArm arms tag with
  | none => exact .refl _
  | some b =>
      obtain ⟨arm, hmem, rfl⟩ := mem_of_findArm hb
      exact harms arm hmem

theorem evalBody_settles (d : Deepens call call') (body : Body) :
    Settles (evalBody p call env body h) (evalBody p call' env body h) := by
  induction body generalizing env h with
  | ret x => exact .refl _
  | bind x e body ih =>
      rw [evalBody, evalBody]
      exact (evalExpr_settles d).bind fun l h' => ih
  | case x arms ih =>
      rw [evalBody, evalBody]
      exact (Settles.refl _).bind fun r h' => evalArm_settles fun arm harm => ih arm harm
  | inc x body ih | dec x body ih =>
      rw [evalBody, evalBody]
      exact (Settles.refl _).bind fun l h' => (Settles.refl _).bind fun _ h'' => ih

/-! ## Calls and runs -/

theorem callFn_mono (p : Program) (hle : depth ≤ depth') :
    Deepens (callFn p depth) (callFn p depth') := by
  induction depth generalizing depth' with
  | zero => exact fun target args h hne => absurd rfl hne
  | succ depth ih =>
      obtain ⟨k, rfl⟩ : ∃ k, depth' = k + 1 := ⟨depth' - 1, by omega⟩
      intro target args h
      rw [callFn, callFn]
      cases p.fn? target with
      | none => exact .refl _
      | some d =>
          dsimp only
          split
          · exact evalBody_settles (ih (by omega)) d.body
          · exact .refl _

theorem run_mono (p : Program) (entry : String) (hle : depth ≤ depth') (h : Heap) :
    Settles (run p depth entry h) (run p depth' entry h) := by
  unfold run
  cases p.fn? ⟨entry, .none⟩ with
  | none => exact .refl _
  | some d =>
      dsimp only
      split
      · exact callFn_mono p hle d.name [] h
      · exact .refl _

/-- The run from an entry on the empty heap comes to an end, with a result or with a fault, if calls
may be nested deeply enough. -/
def Ends (p : Program) (entry : String) (o : Except Fault Location) (h : Heap) : Prop :=
  ∃ depth, run p depth entry .empty = (o.mapError .fault, h)

theorem mapError_ne_exhausted (o : Except Fault Location) :
    o.mapError Halt.fault ≠ .error .exhausted := by
  cases o <;> nofun

/-- What has not been given up has ended, with a result or with a fault. -/
theorem exists_ended {r : Except Halt Location × Heap} (hr : r.1 ≠ .error .exhausted) :
    ∃ (o : Except Fault Location) (h : Heap), r = (o.mapError .fault, h) := by
  obtain ⟨(f | _) | l, h⟩ := r
  · exact ⟨.error f, h, rfl⟩
  · exact absurd rfl hr
  · exact ⟨.ok l, h, rfl⟩

/-- From some depth on, the run ends like that at every depth. -/
theorem Ends.eventually {o : Except Fault Location} (e : Ends p entry o h) :
    ∃ n, ∀ m, n ≤ m → run p m entry .empty = (o.mapError .fault, h) := by
  obtain ⟨n, hn⟩ := e
  refine ⟨n, fun m hle => ?_⟩
  rw [← hn]
  refine run_mono p entry hle .empty ?_
  rw [hn]
  exact mapError_ne_exhausted o

/-- A run ends in one way only. -/
theorem Ends.unique {o o' : Except Fault Location} {h h' : Heap} (e : Ends p entry o h)
    (e' : Ends p entry o' h') : o' = o ∧ h' = h := by
  obtain ⟨n, hn⟩ := e.eventually
  obtain ⟨m, hm⟩ := e'.eventually
  have heq := (hm _ (Nat.le_max_right n m)).symm.trans (hn _ (Nat.le_max_left n m))
  obtain ⟨ho, hh⟩ := Prod.mk.inj heq
  refine ⟨?_, hh⟩
  cases o <;> cases o' <;> cases ho <;> rfl

end Reclaim
