import Reclaim.Proofs.Eval.Safety
import Reclaim.Proofs.Labels

/-!
# Where faults point

What is done at a point of an evaluation fails at a name that the body of the point starts with
(`pointsAt_first`).  Bodies of points are parts of functions of the program (`Leads.names`), so every fault
of a run is at a name of the program, whatever the heap is.  A run that does not find its entry, or that is
given up, points at nothing (`points_of_run`).

The function of a closure is named where the closure is, so no place comes out of the heap.
-/

namespace Reclaim

open Reclaim.Core Reclaim.Eval
open Relation (ReflTransGen)

variable {P : Span → Prop} {p : Program} {env : Env} {x : Var} {xs : List Var} {e : Expr} {b : Body}
  {h h' : Heap} {target : FnName} {args : List Location} {c c' : Point} {depth : Nat} {halt : Halt}

/-- A fault points at a place with a property. -/
def Fault.PointsAt (P : Span → Prop) (fault : Fault) : Prop := fault.diagnostic.Points P

theorem mayRead_of_span (hx : P x.span) : MayRead (Fault.PointsAt P) env x := .inr (points_error hx)

/-- What is wrong with the value of a variable is reported where the variable is named. -/
theorem mayInspect_of_span (hx : P x.span) : MayInspect (Fault.PointsAt P) env x where
  read := mayRead_of_span hx
  missing _ := points_error hx
  notRecord := points_error hx
  notClosure := points_error hx
  noArm _ := points_error hx

/-! ## Functions, closures and records -/

/-- The function of a closure is named where the closure is. -/
theorem span_of_forward (hforward : forward env x xs h = (.ok (target, args), h')) :
    target.span = x.span := by
  obtain ⟨r, _, -, hrest⟩ := of_bind_ok hforward
  obtain ⟨ls, _, -, hrest⟩ := of_bind_ok hrest
  obtain ⟨_, _, -, hrest⟩ := of_bind_ok hrest
  cases hrest
  rfl

theorem pointsAt_consult (htarget : P target.span) :
    RaisesOnly (Fault.PointsAt P) (consult p target args) h := by
  unfold consult
  split
  · exact raisesOnly_fail (points_error htarget)
  · split
    · exact raisesOnly_pure _
    · exact raisesOnly_fail (points_error htarget)

theorem pointsAt_allocClosure (htarget : P target.span) :
    RaisesOnly (Fault.PointsAt P) (allocClosure p target args) h := by
  unfold allocClosure
  split
  · exact raisesOnly_fail (points_error htarget)
  · split
    · exact raisesOnly_ok rfl
    · exact raisesOnly_fail (points_error htarget)

theorem pointsAt_buildRecord {c : Construction} (htag : P c.tag.span)
    (hfields : ∀ x ∈ c.fields, P x.span) :
    RaisesOnly (Fault.PointsAt P) (buildRecord p env c) h := by
  unfold buildRecord
  split
  · exact raisesOnly_fail (points_error htag)
  · split
    · refine (raisesOnly_readAll fun x hx => mayRead_of_span (hfields x hx)).bind ?_
      intro ls h' _
      exact raisesOnly_pure _
    · exact raisesOnly_fail (points_error htag)

/-! ## Points -/

/-- An expression fails at one of its names. -/
theorem pointsAt_evalExpr (he : ∀ o ∈ e.names, P o.span) :
    RaisesOnly (Fault.PointsAt P) (evalExpr p (consult p) env e) h := by
  have hreads {ys : List Var} (hys : ∀ o ∈ occurrencesOf ys, P o.span) :
      ∀ y ∈ ys, MayRead (Fault.PointsAt P) env y := fun y hy =>
    mayRead_of_span (forall_occurrencesOf.1 hys y hy)
  cases e with
  | call f xs =>
      obtain ⟨hf, hxs⟩ := List.forall_mem_cons.1 he
      refine (raisesOnly_readAll (hreads hxs)).bind ?_
      intro args h' _
      exact pointsAt_consult hf
  | close f xs =>
      obtain ⟨hf, hxs⟩ := List.forall_mem_cons.1 he
      refine (raisesOnly_readAll (hreads hxs)).bind ?_
      intro args h' _
      exact pointsAt_allocClosure hf
  | apply x xs =>
      obtain ⟨hx, hxs⟩ := List.forall_mem_cons.1 he
      refine (raisesOnly_forward (mayInspect_of_span hx) (hreads hxs)).bind ?_
      rintro ⟨target, args⟩ h' hforward
      have htarget : P target.span := span_of_forward hforward ▸ hx
      exact pointsAt_consult htarget
  | extend x xs =>
      obtain ⟨hx, hxs⟩ := List.forall_mem_cons.1 he
      refine (raisesOnly_forward (mayInspect_of_span hx) (hreads hxs)).bind ?_
      rintro ⟨target, args⟩ h' hforward
      have htarget : P target.span := span_of_forward hforward ▸ hx
      exact pointsAt_allocClosure htarget
  | new c =>
      obtain ⟨htag, hxs⟩ := List.forall_mem_cons.1 he
      refine (pointsAt_buildRecord htag (forall_occurrencesOf.1 hxs)).bind ?_
      intro v h' _
      exact raisesOnly_ok rfl
  | proj field record =>
      obtain ⟨hfield, hrecord⟩ := List.forall_mem_cons.1 he
      have hx : P record.span := hrecord _ (.head _)
      exact raisesOnly_proj (mayInspect_of_span hx) fun _ => points_error hfield
  | reset x =>
      have hx : P x.span := he _ (.head _)
      exact raisesOnly_reset (mayInspect_of_span hx)
  | reuse token c =>
      obtain ⟨htoken, hrest⟩ := List.forall_mem_cons.1 he
      obtain ⟨htag, hxs⟩ := List.forall_mem_cons.1 hrest
      refine (raisesOnly_read (mayRead_of_span htoken)).bind ?_
      intro l h₁ _
      refine (pointsAt_buildRecord htag (forall_occurrencesOf.1 hxs)).bind ?_
      intro v h₂ _
      exact raisesOnly_onHeap fun _ => points_error htoken

/-- What is done at a point fails at a name of its body. -/
theorem pointsAt_first (hb : ∀ o ∈ b.names, P o.span) :
    RaisesOnly (Fault.PointsAt P) (b.first p env) h := by
  cases b with
  | ret x =>
      have hx : P x.span := hb _ (.head _)
      refine (raisesOnly_read (mayRead_of_span hx)).bind ?_
      intro l h' _
      exact raisesOnly_pure _
  | bind x e b =>
      obtain ⟨-, he, -⟩ := Body.forall_names_bind.1 hb
      refine (pointsAt_evalExpr he).bind ?_
      intro l h' _
      exact raisesOnly_pure _
  | case x arms =>
      obtain ⟨hx, -⟩ := Body.forall_names_case.1 hb
      refine (raisesOnly_chooseArm (mayInspect_of_span hx)).bind ?_
      intro b h' _
      exact raisesOnly_pure _
  | inc x b =>
      obtain ⟨hx, -⟩ := Body.forall_names_inc.1 hb
      exact raisesOnly_addReference (mayInspect_of_span hx)
  | dec x b =>
      obtain ⟨hx, -⟩ := Body.forall_names_dec.1 hb
      exact raisesOnly_dropReference (mayInspect_of_span hx)

/-- The evaluation goes on with the rest of a body, with an arm of it, or with the body of a function. -/
theorem Leads.names {Q : Occurrence → Prop} (hp : ∀ d ∈ p.fns, ∀ o ∈ d.names, Q o)
    (hleads : Leads p c c') (hc : ∀ o ∈ c.body.names, Q o) : ∀ o ∈ c'.body.names, Q o := by
  cases hleads with
  | rest _ => exact (Body.forall_names_bind.1 hc).2.2
  | call _ hd _ => exact (FnDef.forall_names.1 (hp _ (Program.mem_of_fn? hd))).2.2
  | arm harm =>
      obtain ⟨arm, hmem, rfl⟩ := mem_of_chooseArm harm
      exact ((Body.forall_names_case.1 hc).2 arm hmem).2
  | inc _ => exact (Body.forall_names_inc.1 hc).2
  | dec _ => exact (Body.forall_names_dec.1 hc).2

theorem names_of_visits {Q : Occurrence → Prop} (hp : ∀ d ∈ p.fns, ∀ o ∈ d.names, Q o)
    (hvisits : ReflTransGen (Leads p) c c') (hc : ∀ o ∈ c.body.names, Q o) :
    ∀ o ∈ c'.body.names, Q o := by
  induction hvisits with
  | refl => exact hc
  | tail _ hleads ih => exact hleads.names hp ih

/-! ## Runs -/

section

variable (hp : ∀ o ∈ p.names, P o.span) (hnone : P .none)

include hp hnone

theorem points_of_callFn (htarget : P target.span)
    (hfail : callFn p depth target args h = (.error halt, h')) : halt.diagnostic.Points P := by
  obtain ⟨-, hfns⟩ := Program.forall_names.1 hp
  cases halt with
  | exhausted => exact points_bug hnone
  | fault fault =>
      cases depth with
      | zero => cases hfail
      | succ depth =>
          rcases callFn_succ p depth target args h with ⟨fault', hconsult, hcall⟩ | ⟨d, hd, -, hcall⟩
          · rw [hcall] at hfail
            cases hfail
            exact pointsAt_consult htarget hconsult
          · rw [hcall] at hfail
            obtain ⟨c, hvisits, hraises⟩ := exists_raises hfail
            have hbody := (FnDef.forall_names.1 (hfns d (Program.mem_of_fn? hd))).2.2
            exact pointsAt_first (names_of_visits hfns hvisits hbody) hraises

/-- A run that ends without a result points at a name of the program, or at nothing. -/
theorem points_of_run {entry : String} (hfail : run p depth entry h = (.error halt, h')) :
    halt.diagnostic.Points P := by
  rw [run] at hfail
  cases hd : p.fn? ⟨entry, .none⟩ with
  | none =>
      rw [hd] at hfail
      cases hfail
      exact points_error hnone
  | some d =>
      have hname : P d.name.span :=
        (FnDef.forall_names.1 ((Program.forall_names.1 hp).2 d (Program.mem_of_fn? hd))).1
      rw [hd] at hfail
      dsimp only at hfail
      split at hfail
      · exact points_of_callFn hp hnone hname hfail
      · cases hfail
        exact points_error hname

end

end Reclaim
