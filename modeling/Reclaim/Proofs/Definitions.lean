import Reclaim.Proofs.Eval.Outcomes
import Reclaim.Proofs.Validity

/-!
# Programs with the same definitions

Checks and evaluation use a program only to look names up.  So two programs that find the same under
every name (`Program.Same`) pass the same checks, function by function (`Same.checkFn`), and run alike,
with the same results, the same failures and the same heaps (`Same.callFn`, `Same.run`).
-/

namespace Reclaim.Core.Program

variable {p q : Program} {call : Caller} {env : Env} {fn : FnName} {scope : List Var} {arms : List Arm}

/-- Under every name two programs find the same definition. -/
structure Same (p q : Program) : Prop where
  /-- The functions are the same. -/
  fn? : ∀ name, p.fn? name = q.fn? name
  /-- The constructors are the same. -/
  type? : ∀ tag, p.type? tag = q.type? tag
  /-- The same fields are declared. -/
  declaresField : ∀ field, p.declaresField field = q.declaresField field

/-- Programs with the same definitions in another order find the same, if no name is defined twice. -/
theorem same_of_perm (htags : (p.types.map (·.tag.text)).Nodup)
    (hnames : (p.fns.map (·.name.text)).Nodup) (htypes : p.types.Perm q.types)
    (hfns : p.fns.Perm q.fns) : p.Same q where
  fn? := by
    intro name
    have hnames' : (q.fns.map (·.name.text)).Nodup := (hfns.map _).nodup_iff.1 hnames
    refine Option.ext fun d => ?_
    rw [fn?_eq_some hnames, fn?_eq_some hnames', hfns.mem_iff]
  type? := by
    intro tag
    have htags' : (q.types.map (·.tag.text)).Nodup := (htypes.map _).nodup_iff.1 htags
    refine Option.ext fun d => ?_
    rw [type?_eq_some htags, type?_eq_some htags', htypes.mem_iff]
  declaresField := by
    intro field
    exact htypes.any_eq

/-- Arms are evaluated alike in two programs, if each of them is. -/
theorem evalArm_congr {x : Var} {tag : Tag}
    (hb : ∀ arm ∈ arms, evalBody p call env arm.2 = evalBody q call env arm.2) :
    evalArm p call env x tag arms = evalArm q call env x tag arms := by
  induction arms with
  | nil => rfl
  | cons arm rest ih =>
      obtain ⟨hfirst, hrest⟩ := List.forall_mem_cons.1 hb
      obtain ⟨armTag, b⟩ := arm
      rw [evalArm, evalArm, hfirst, ih hrest]

namespace Same

variable (same : p.Same q)

include same

/-! ## Checks -/

theorem checkConstruction (c : Construction) : p.checkConstruction c = q.checkConstruction c := by
  rw [Program.checkConstruction, Program.checkConstruction, same.type?]

theorem checkExpr (e : Expr) : checkExpr p fn scope e = checkExpr q fn scope e := by
  cases e with
  | call target xs =>
      rw [Core.checkExpr, Core.checkExpr, checkCall, checkCall, same.fn?]
  | close target xs =>
      rw [Core.checkExpr, Core.checkExpr, checkClosure, checkClosure, same.fn?]
  | new c => rw [Core.checkExpr, Core.checkExpr, same.checkConstruction]
  | proj field record =>
      rw [Core.checkExpr, Core.checkExpr, checkField, checkField, same.declaresField]
  | reuse token c => rw [Core.checkExpr, Core.checkExpr, same.checkConstruction]
  | apply | extend | reset => rfl

theorem checkArms (hb : ∀ arm ∈ arms, checkBody p fn scope arm.2 = checkBody q fn scope arm.2) :
    checkArms p fn scope arms = checkArms q fn scope arms := by
  induction arms with
  | nil => rfl
  | cons arm rest ih =>
      obtain ⟨hfirst, hrest⟩ := List.forall_mem_cons.1 hb
      obtain ⟨tag, b⟩ := arm
      rw [Core.checkArms, Core.checkArms, checkTag, checkTag, same.type?, hfirst, ih hrest]

theorem checkBody (b : Body) : checkBody p fn scope b = checkBody q fn scope b := by
  induction b generalizing scope with
  | ret x => rfl
  | bind x e b ih => rw [Core.checkBody, Core.checkBody, same.checkExpr, ih]
  | case x arms ih =>
      rw [Core.checkBody, Core.checkBody, same.checkArms fun arm harm => ih arm harm]
  | inc x b ih | dec x b ih => rw [Core.checkBody, Core.checkBody, ih]

theorem checkFn (d : FnDef) : checkFn p d = checkFn q d := by
  rw [Core.checkFn, Core.checkFn, same.checkBody]

/-- Programs with the same functions, in whatever order, are valid together. -/
theorem validate (hfns : p.fns.Perm q.fns) : p.validate = .ok () ↔ q.validate = .ok () := by
  rw [validate_eq_ok, validate_eq_ok]
  constructor
  · intro hp d hd
    rw [← same.checkFn]
    exact hp d (hfns.mem_iff.2 hd)
  · intro hq d hd
    rw [same.checkFn]
    exact hq d (hfns.mem_iff.1 hd)

/-! ## Evaluation -/

theorem buildRecord (c : Construction) : buildRecord p env c = buildRecord q env c := by
  rw [Reclaim.buildRecord, Reclaim.buildRecord, same.type?]

theorem allocClosure (target : FnName) (args : List Location) :
    allocClosure p target args = allocClosure q target args := by
  rw [Reclaim.allocClosure, Reclaim.allocClosure, same.fn?]

theorem evalExpr (e : Expr) : evalExpr p call env e = evalExpr q call env e := by
  cases e with
  | close target xs => simp only [Reclaim.evalExpr, same.allocClosure]
  | extend x xs => simp only [Reclaim.evalExpr, same.allocClosure]
  | new c => rw [Reclaim.evalExpr, Reclaim.evalExpr, same.buildRecord]
  | reuse token c => simp only [Reclaim.evalExpr, same.buildRecord]
  | call | apply | proj | reset => rfl

theorem evalBody (b : Body) : evalBody p call env b = evalBody q call env b := by
  induction b generalizing env with
  | ret x => rfl
  | bind x e b ih => simp only [Reclaim.evalBody, same.evalExpr, ih]
  | case x arms ih => simp only [Reclaim.evalBody, evalArm_congr fun arm harm => ih arm harm]
  | inc x b ih | dec x b ih => simp only [Reclaim.evalBody, ih]

/-- Calls are carried out alike, to whatever depth. -/
theorem callFn (depth : Nat) : callFn p depth = callFn q depth := by
  induction depth with
  | zero => rfl
  | succ depth ih =>
      funext target args
      simp only [Reclaim.callFn, same.fn?, ih, same.evalBody]

theorem run (depth : Nat) (entry : String) : run p depth entry = run q depth entry := by
  rw [Reclaim.run, Reclaim.run, same.fn?, same.callFn]

end Same

end Reclaim.Core.Program
