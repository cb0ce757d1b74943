import Reclaim.Counting.Insertion
import Reclaim.Proofs.Counting.Balance
import Reclaim.Proofs.Counting.Drops

/-!
# Erasing memory management

The plain part of a body is what is left when all adjustments of counts and all resets are left out
and every reuse builds a new record (`Body.plain`).  A body that is not managed is plain already, and
making its memory management explicit only adds what erasure takes away (`managedBody_plain`), down
to the places of names.
-/

namespace Reclaim.Core

/-- An expression that builds a new record where it would use a token. -/
def Expr.plain : Expr → Expr
  | .reuse _ c => .new c
  | e => e

mutual

/-- A body without its memory management. -/
def Body.plain : Body → Body
  | .ret x => .ret x
  | .bind x e b => match e with
    | .reset _ => b.plain
    | e => .bind x e.plain b.plain
  | .case x arms => .case x (plainArms arms)
  | .inc _ b | .dec _ b => b.plain
termination_by structural b => b

/-- Arms without their memory management. -/
def plainArms : List Arm → List Arm
  | [] => []
  | (tag, b) :: rest => (tag, b.plain) :: plainArms rest
termination_by structural arms => arms

end

theorem plainArms_eq (arms : List Arm) :
    plainArms arms = arms.map fun arm => (arm.1, arm.2.plain) := by
  induction arms with
  | nil => rfl
  | cons arm rest ih =>
      obtain ⟨tag, b⟩ := arm
      rw [plainArms, ih, List.map_cons]

theorem mem_plainArms {arms : List Arm} {arm : Arm} (harm : arm ∈ arms) :
    (arm.1, arm.2.plain) ∈ plainArms arms := by
  rw [plainArms_eq]
  exact List.mem_map.2 ⟨arm, harm, rfl⟩

theorem findArm_plainArms (arms : List Arm) (tag : Tag) :
    findArm (plainArms arms) tag = (findArm arms tag).map Body.plain := by
  rw [findArm, findArm, plainArms_eq, List.find?_map, Option.map_map, Option.map_map]
  rfl

/-- Two cases have the same plain part if their arms have. -/
theorem plain_case {x : Var} {arms : List Arm} {f : Arm → Body}
    (hf : ∀ arm ∈ arms, (f arm).plain = arm.2.plain) :
    (Body.case x (arms.map fun arm => (arm.1, f arm))).plain = (Body.case x arms).plain := by
  rw [Body.plain, Body.plain, plainArms_eq, plainArms_eq, List.map_map]
  congr 1
  refine List.map_congr_left fun arm harm => ?_
  rw [Function.comp_apply, hf arm harm]

theorem plain_bind_congr {x : Var} {e : Expr} {b b' : Body} (h : b.plain = b'.plain) :
    (Body.bind x e b).plain = (Body.bind x e b').plain := by
  rw [Body.plain.eq_def, Body.plain.eq_def]
  cases e <;> simp only [h]

/-- A binding stays unless it is a reset. -/
theorem plain_bind {x : Var} {e : Expr} {b : Body} (he : ∀ y, e ≠ .reset y) :
    (Body.bind x e b).plain = .bind x e.plain b.plain := by
  rw [Body.plain.eq_def]
  cases e with
  | reset y => exact absurd rfl (he y)
  | _ => rfl

/-- A body that is not managed is plain. -/
theorem Body.plain_of_unmanaged {b : Body} (hm : b.isManaged = false) : b.plain = b := by
  induction b with
  | ret x => rfl
  | bind x e b ih =>
      rw [isManaged, Bool.or_eq_false_iff] at hm
      rw [plain.eq_def]
      cases e with
      | reset | reuse => cases hm.1
      | _ => simp only [ih hm.2, Expr.plain]
  | case x arms ih =>
      rw [isManaged, armsManaged_eq_false_iff] at hm
      rw [plain, plainArms_eq]
      congr 1
      conv_rhs => rw [← List.map_id arms]
      refine List.map_congr_left fun arm harm => ?_
      rw [ih arm harm (hm arm harm)]
      rfl
  | inc x b ih => cases hm
  | dec x b ih => cases hm

end Reclaim.Core

namespace Reclaim.Counting

open Reclaim.Core

variable {r : Reserved} {May : Adjustment → Prop} {Owner : Var → Prop} {E : Entered} {b b' : Body}
  {c c' : Counter} {o o' : Body × Counter}

/-! ## Counts -/

theorem adjusting_plain (ops : List Adjustment) (b : Body) : (adjusting ops b).plain = b.plain := by
  induction ops with
  | nil => rfl
  | cons op rest ih => cases op <;> exact ih

theorem withCounts_plain (h : Holdings) (b : Body) : (withCounts h b).plain = b.plain := by
  induction b generalizing h with
  | ret x =>
      rw [withCounts, adjusting_plain, adjusting_plain]
  | bind x e b ih =>
      rw [withCounts]
      dsimp only
      rw [adjusting_plain, adjusting_plain]
      exact plain_bind_congr (ih _)
  | case x arms ih =>
      rw [withCounts_case, adjusting_plain]
      exact plain_case fun arm harm => ih arm harm _
  | inc x b ih =>
      rw [withCounts]
      dsimp only
      rw [adjusting_plain]
      exact ih _
  | dec x b ih =>
      rw [withCounts]
      dsimp only
      rw [adjusting_plain, adjusting_plain]
      exact ih _

/-! ## Drops -/

theorem reuseFirst_plain (w : Var) (tag : Tag) (b : Body) :
    (reuseFirst w tag b).plain = b.plain := by
  induction b with
  | ret x => rfl
  | bind x e b ih =>
      rcases reuseFirst_bind w tag x e b with h | ⟨k, rfl, -, h⟩
      · rw [h]
        exact plain_bind_congr ih
      · rw [h]
        rfl
  | case x arms ih =>
      rw [reuseFirst_case]
      exact plain_case ih
  | inc x b ih => exact ih
  | dec x b ih => exact ih

/-- An insertion leaves the plain part as it is. -/
theorem Inserts.plain (h : Inserts r May Owner E b c b' c') : b'.plain = b.plain := by
  induction h with
  | adjust _ => exact adjusting_plain _ _
  | drop _ _ => rfl
  | recycle _ _ _ _ _ => exact reuseFirst_plain _ _ _
  | bind _ ih => exact plain_bind_congr ih
  | arm _ ih =>
      rw [Body.plain, Body.plain, plainArms_eq, plainArms_eq]
      simp only [List.map_append, List.map_cons, ih]
  | inc _ ih | dec _ ih => exact ih

theorem Inserted.plain (h : Inserted r May Owner E o o') : o'.1.plain = o.1.plain :=
  h.induction (I := fun b _ => b.plain = o.1.plain) (fun h hb => h.plain.trans hb) rfl

/-- Inserting drops changes nothing else. -/
theorem withDrops_plain {p : Program} {d : FnDef} (hm : d.body.isManaged = false) :
    (withDrops p d).plain = d.body := by
  obtain ⟨c, drops⟩ := inserted_withDrops p d
  rw [drops.plain, Body.plain_of_unmanaged hm]

/-- Making the memory management of a body explicit changes nothing else. -/
theorem managedBody_plain {p : Program} {d : FnDef} (hm : d.body.isManaged = false) :
    (managedBody p d).plain = d.body := by
  rw [managedBody, hm, if_neg Bool.false_ne_true, withCounts_plain, withDrops_plain hm]

end Reclaim.Counting
