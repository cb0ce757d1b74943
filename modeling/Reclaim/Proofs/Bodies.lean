import Reclaim.Core.Ownership
import Reclaim.Proofs.Names

/-!
# Bodies and their free variables

Bodies are taken apart by one induction principle that treats the arms of a `case` alike
(`Body.induction`), and sets of free variables are described by their spellings.

An expression uses a variable in one of three roles: it hands a reference on (`Expr.consumed`), it
only looks at the value (`Expr.inspected`), or it takes a token (`Expr.spent`).
-/

namespace Reclaim.Core

theorem sizeOf_arm_lt {arms : List (Tag × Body)} {arm : Tag × Body} (harm : arm ∈ arms) :
    sizeOf arm.2 < sizeOf arms := by
  have hlt := List.sizeOf_lt_of_mem harm
  obtain ⟨tag, b⟩ := arm
  rw [Prod.mk.sizeOf_spec] at hlt
  dsimp only
  omega

/-- Induction on bodies, with one case for all arms of a `case`. -/
@[induction_eliminator]
theorem Body.induction {motive : Body → Prop} (ret : ∀ x, motive (.ret x))
    (bind : ∀ x e b, motive b → motive (.bind x e b))
    (case : ∀ x arms, (∀ arm ∈ arms, motive arm.2) → motive (.case x arms))
    (inc : ∀ x b, motive b → motive (.inc x b)) (dec : ∀ x b, motive b → motive (.dec x b)) :
    ∀ b, motive b
  | .ret x => ret x
  | .bind x e b => bind x e b (Body.induction ret bind case inc dec b)
  | .case x arms => case x arms fun arm harm =>
      have := sizeOf_arm_lt harm
      Body.induction ret bind case inc dec arm.2
  | .inc x b => inc x b (Body.induction ret bind case inc dec b)
  | .dec x b => dec x b (Body.induction ret bind case inc dec b)

/-! ## Managed bodies -/

theorem armsManaged_eq_false_iff {arms : List Arm} :
    armsManaged arms = false ↔ ∀ arm ∈ arms, arm.2.isManaged = false := by
  induction arms with
  | nil => simp [armsManaged]
  | cons arm rest ih =>
      obtain ⟨tag, b⟩ := arm
      simp [armsManaged, ih]

/-! ## Free variables of expressions -/

/-- The variables whose value an expression looks at without handing a reference on. -/
def Expr.inspected : Expr → List Var
  | .apply f _ | .extend f _ => [f]
  | .proj _ record => [record]
  | _ => []

/-- The tokens that an expression takes. -/
def Expr.spent : Expr → List Var
  | .reuse token _ => [token]
  | _ => []

theorem Expr.mem_freeVars {e : Expr} {t : String} : t ∈ e.freeVars.texts ↔
    t ∈ e.consumed.map (·.text) ∨ t ∈ e.inspected.map (·.text) ∨ t ∈ e.spent.map (·.text) := by
  cases e with
  | call f xs | close f xs =>
      rw [freeVars, OrderedSet.mem_texts_ofList]
      simp [consumed, inspected, spent]
  | apply f xs | extend f xs =>
      rw [freeVars, OrderedSet.mem_texts_union, OrderedSet.mem_texts_ofList,
        OrderedSet.mem_texts_singleton, or_comm]
      simp [consumed, inspected, spent]
  | new c =>
      rw [freeVars, OrderedSet.mem_texts_ofList]
      simp [consumed, inspected, spent]
  | proj field record | reset x =>
      rw [freeVars, OrderedSet.mem_texts_singleton]
      simp [consumed, inspected, spent]
  | reuse token c =>
      rw [freeVars, OrderedSet.mem_texts_union, OrderedSet.mem_texts_ofList,
        OrderedSet.mem_texts_singleton, or_comm]
      simp [consumed, inspected, spent]

/-- A projection looks at its record and hands nothing on. -/
theorem Expr.inspected_of_borrowed {e : Expr} {record : Var} (h : e.holding = .borrowed record) :
    record ∈ e.inspected ∧ e.consumed = [] := by
  cases e with
  | proj field r =>
      cases h
      exact ⟨.head _, rfl⟩
  | _ => cases h

/-! ## Free variables of bodies -/

namespace Body

variable {x : Var} {e : Expr} {b : Body} {arms : List Arm} {t : String}

theorem mem_freeVarsArms {vars : VarSet} :
    t ∈ (freeVarsArms vars arms).texts ↔
      t ∈ vars.texts ∨ ∃ arm ∈ arms, t ∈ arm.2.freeVars.texts := by
  induction arms generalizing vars with
  | nil => simp [freeVarsArms]
  | cons arm rest ih =>
      obtain ⟨tag, b⟩ := arm
      rw [freeVarsArms, ih, OrderedSet.mem_texts_union]
      simp [or_assoc]

theorem mem_freeVars_ret : t ∈ (Body.ret x).freeVars.texts ↔ t = x.text := by
  rw [freeVars, OrderedSet.mem_texts_singleton]

theorem mem_freeVars_bind : t ∈ (Body.bind x e b).freeVars.texts ↔
    t ∈ e.freeVars.texts ∨ t ∈ b.freeVars.texts ∧ t ≠ x.text := by
  rw [freeVars, OrderedSet.mem_texts_union, OrderedSet.mem_texts_erase]

theorem mem_freeVars_case : t ∈ (Body.case x arms).freeVars.texts ↔
    t = x.text ∨ ∃ arm ∈ arms, t ∈ arm.2.freeVars.texts := by
  rw [freeVars, mem_freeVarsArms, OrderedSet.mem_texts_singleton]

theorem mem_freeVars_inc :
    t ∈ (Body.inc x b).freeVars.texts ↔ t = x.text ∨ t ∈ b.freeVars.texts := by
  rw [freeVars, OrderedSet.mem_texts_union, OrderedSet.mem_texts_singleton]

theorem mem_freeVars_dec :
    t ∈ (Body.dec x b).freeVars.texts ↔ t = x.text ∨ t ∈ b.freeVars.texts := by
  rw [freeVars, OrderedSet.mem_texts_union, OrderedSet.mem_texts_singleton]

/-! ## All variables -/

theorem mem_allVarsArms_of_mem {vars : VarSet}
    (keep : ∀ arm ∈ arms, ∀ {vars : VarSet}, t ∈ vars.texts → t ∈ (arm.2.allVars vars).texts)
    (ht : t ∈ vars.texts) : t ∈ (allVarsArms vars arms).texts := by
  induction arms generalizing vars with
  | nil => exact ht
  | cons arm rest ih =>
      obtain ⟨tag, b⟩ := arm
      rw [allVarsArms]
      exact ih (fun arm harm => keep arm (.tail _ harm)) (keep (tag, b) (.head _) ht)

/-- What holds of a set and of what each arm adds to one holds of all that is collected. -/
theorem forall_allVarsArms {N : String → Prop} {vars : VarSet}
    (harms : ∀ arm ∈ arms, ∀ {vars : VarSet}, (∀ t ∈ vars.texts, N t) →
      ∀ t ∈ (arm.2.allVars vars).texts, N t)
    (hvars : ∀ t ∈ vars.texts, N t) : ∀ t ∈ (allVarsArms vars arms).texts, N t := by
  induction arms generalizing vars with
  | nil => exact hvars
  | cons arm rest ih =>
      obtain ⟨tag, b⟩ := arm
      rw [allVarsArms]
      exact ih (fun arm harm => harms arm (.tail _ harm)) (harms (tag, b) (.head _) hvars)

/-- Collecting the variables of a body loses none. -/
theorem mem_allVars_of_mem {vars : VarSet} (ht : t ∈ vars.texts) : t ∈ (b.allVars vars).texts := by
  induction b generalizing vars with
  | ret x =>
      rw [allVars, OrderedSet.mem_texts_union]
      exact .inl ht
  | bind x e b ih =>
      rw [allVars]
      refine ih ?_
      rw [OrderedSet.mem_texts_insert, OrderedSet.mem_texts_union]
      exact .inl (.inl ht)
  | case x arms ih =>
      rw [allVars]
      exact mem_allVarsArms_of_mem (fun arm harm _ => ih arm harm)
        (OrderedSet.mem_texts_union.2 (.inl ht))
  | inc x b ih | dec x b ih =>
      rw [allVars]
      exact ih (OrderedSet.mem_texts_union.2 (.inl ht))

/-- The variables of each arm are collected. -/
theorem allVars_of_mem {vars : VarSet} {arm : Arm} (harm : arm ∈ arms) : ∃ before : VarSet,
    ∀ t ∈ (arm.2.allVars before).texts, t ∈ (allVarsArms vars arms).texts := by
  induction arms generalizing vars with
  | nil => cases harm
  | cons first rest ih =>
      obtain ⟨tag, b⟩ := first
      rw [allVarsArms]
      rcases List.mem_cons.1 harm with rfl | harm
      · exact ⟨vars, fun t ht => mem_allVarsArms_of_mem (fun _ _ _ => mem_allVars_of_mem) ht⟩
      · exact ih harm

end Body

end Reclaim.Core
