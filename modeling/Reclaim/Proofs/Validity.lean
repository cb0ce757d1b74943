import Reclaim.Proofs.Checks
import Reclaim.Proofs.Programs

/-!
# Validity as a judgement

What the check of a body asks for comes in two independent parts.  `Bound N S b` is about variables:
what `b` reads is in scope where it is read, and a binder is new on its path and has a name in `N`.
`Body.Fits p b` is about the definitions of the program: calls and records have the arity of what
they name, and every tag and field is declared.  The check succeeds exactly if both hold
(`checkBody_eq_ok`, `validate_eq_ok`).

A program that gives its functions other bodies, but keeps their parameters, fits the same bodies.
-/

namespace Reclaim.Core

variable {p : Program} {fn : FnName} {scope : List Var} {x : Var} {e : Expr} {b : Body}
  {N M : String → Prop} {S S' : List String} {arms : List Arm}

/-- Every variable of a body is in scope where it is read, and is bound once on a path, to a name
in `N`. -/
inductive Bound (N : String → Prop) : List String → Body → Prop where
  | ret {S : List String} {x : Var} : x.text ∈ S → Bound N S (.ret x)
  | bind {S : List String} {x : Var} {e : Expr} {b : Body} :
      (∀ t ∈ e.freeVars.texts, t ∈ S) → x.text ∉ S → N x.text → Bound N (x.text :: S) b →
      Bound N S (.bind x e b)
  | case {S : List String} {x : Var} {arms : List Arm} :
      x.text ∈ S → (∀ arm ∈ arms, Bound N S arm.2) → Bound N S (.case x arms)
  | inc {S : List String} {x : Var} {b : Body} : x.text ∈ S → Bound N S b → Bound N S (.inc x b)
  | dec {S : List String} {x : Var} {b : Body} : x.text ∈ S → Bound N S b → Bound N S (.dec x b)

/-- A record has exactly the fields of its constructor. -/
def Construction.Fits (p : Program) (c : Construction) : Prop :=
  ∃ d, p.type? c.tag = some d ∧ c.fields.length = d.fields.length

/-- An expression respects the definitions of a program. -/
def Expr.Fits (p : Program) : Expr → Prop
  | .call f xs => ∃ d, p.fn? f = some d ∧ xs.length = d.params.length
  | .close f xs => ∃ d, p.fn? f = some d ∧ xs.length < d.params.length
  | .new c | .reuse _ c => c.Fits p
  | .proj field _ => p.declaresField field = true
  | .apply .. | .extend .. | .reset _ => True

/-- The expressions and tags of a body respect the definitions of a program. -/
inductive Body.Fits (p : Program) : Body → Prop where
  | ret {x : Var} : Fits p (.ret x)
  | bind {x : Var} {e : Expr} {b : Body} : e.Fits p → Fits p b → Fits p (.bind x e b)
  | case {x : Var} {arms : List Arm} : (∀ arm ∈ arms, ∃ d, p.type? arm.1 = some d) →
      (∀ arm ∈ arms, Fits p arm.2) → Fits p (.case x arms)
  | inc {x : Var} {b : Body} : Fits p b → Fits p (.inc x b)
  | dec {x : Var} {b : Body} : Fits p b → Fits p (.dec x b)

theorem bound_ret : Bound N S (.ret x) ↔ x.text ∈ S := ⟨fun (.ret hx) => hx, .ret⟩

theorem bound_bind : Bound N S (.bind x e b) ↔
    (∀ t ∈ e.freeVars.texts, t ∈ S) ∧ x.text ∉ S ∧ N x.text ∧ Bound N (x.text :: S) b :=
  ⟨fun (.bind hreads hx hn hb) => ⟨hreads, hx, hn, hb⟩,
    fun ⟨hreads, hx, hn, hb⟩ => .bind hreads hx hn hb⟩

theorem bound_case :
    Bound N S (.case x arms) ↔ x.text ∈ S ∧ ∀ arm ∈ arms, Bound N S arm.2 :=
  ⟨fun (.case hx hb) => ⟨hx, hb⟩, fun ⟨hx, hb⟩ => .case hx hb⟩

theorem bound_inc : Bound N S (.inc x b) ↔ x.text ∈ S ∧ Bound N S b :=
  ⟨fun (.inc hx hb) => ⟨hx, hb⟩, fun ⟨hx, hb⟩ => .inc hx hb⟩

theorem bound_dec : Bound N S (.dec x b) ↔ x.text ∈ S ∧ Bound N S b :=
  ⟨fun (.dec hx hb) => ⟨hx, hb⟩, fun ⟨hx, hb⟩ => .dec hx hb⟩

theorem Body.fits_bind : (Body.bind x e b).Fits p ↔ e.Fits p ∧ b.Fits p :=
  ⟨fun (.bind he hb) => ⟨he, hb⟩, fun ⟨he, hb⟩ => .bind he hb⟩

theorem Body.fits_case : (Body.case x arms).Fits p ↔
    (∀ arm ∈ arms, ∃ d, p.type? arm.1 = some d) ∧ ∀ arm ∈ arms, arm.2.Fits p :=
  ⟨fun (.case htags hb) => ⟨htags, hb⟩, fun ⟨htags, hb⟩ => .case htags hb⟩

theorem Body.fits_inc : (Body.inc x b).Fits p ↔ b.Fits p := ⟨fun (.inc hb) => hb, .inc⟩

theorem Body.fits_dec : (Body.dec x b).Fits p ↔ b.Fits p := ⟨fun (.dec hb) => hb, .dec⟩

/-! ## Single checks -/

theorem checkCall_eq_ok {target : FnName} {n : Nat} :
    p.checkCall target n = .ok () ↔ ∃ d, p.fn? target = some d ∧ n = d.params.length := by
  unfold Program.checkCall
  cases p.fn? target <;> simp

theorem checkClosure_eq_ok {target : FnName} {n : Nat} :
    p.checkClosure target n = .ok () ↔ ∃ d, p.fn? target = some d ∧ n < d.params.length := by
  unfold Program.checkClosure
  cases p.fn? target <;> simp

theorem checkConstruction_eq_ok {c : Construction} : p.checkConstruction c = .ok () ↔ c.Fits p := by
  unfold Program.checkConstruction Construction.Fits
  cases p.type? c.tag <;> simp

theorem checkField_eq_ok {field : Field} :
    p.checkField field = .ok () ↔ p.declaresField field = true := by
  simp [Program.checkField]

theorem checkTag_eq_ok {tag : Tag} : p.checkTag tag = .ok () ↔ ∃ d, p.type? tag = some d := by
  unfold Program.checkTag
  cases p.type? tag <;> simp

theorem checkVars_eq_ok_texts {xs : List Var} : checkVars fn scope xs = .ok () ↔
    ∀ t ∈ xs.map (·.text), t ∈ scope.map (·.text) := by
  rw [checkVars_eq_ok, List.forall_mem_map]

theorem checkExpr_eq_ok : checkExpr p fn scope e = .ok () ↔
    (∀ t ∈ e.freeVars.texts, t ∈ scope.map (·.text)) ∧ e.Fits p := by
  cases e with
  | call f xs =>
      rw [checkExpr, both_eq_ok, checkCall_eq_ok, checkVars_eq_ok_texts, and_comm]
      simp only [Expr.freeVars, OrderedSet.mem_texts_ofList, Expr.Fits]
  | close f xs =>
      rw [checkExpr, both_eq_ok, checkClosure_eq_ok, checkVars_eq_ok_texts, and_comm]
      simp only [Expr.freeVars, OrderedSet.mem_texts_ofList, Expr.Fits]
  | apply f xs | extend f xs =>
      rw [checkExpr, both_eq_ok, checkVar_eq_ok, checkVars_eq_ok_texts]
      simp only [Expr.freeVars, OrderedSet.mem_texts_union, OrderedSet.mem_texts_singleton,
        OrderedSet.mem_texts_ofList, Expr.Fits, or_imp, forall_and, forall_eq, and_true]
  | new c =>
      rw [checkExpr, both_eq_ok, checkConstruction_eq_ok, checkVars_eq_ok_texts, and_comm]
      simp only [Expr.freeVars, OrderedSet.mem_texts_ofList, Expr.Fits]
  | proj field record =>
      rw [checkExpr, both_eq_ok, checkField_eq_ok, checkVar_eq_ok, and_comm]
      simp only [Expr.freeVars, OrderedSet.mem_texts_singleton, forall_eq, Expr.Fits]
  | reset x =>
      rw [checkExpr, checkVar_eq_ok]
      simp only [Expr.freeVars, OrderedSet.mem_texts_singleton, forall_eq, Expr.Fits, and_true]
  | reuse token c =>
      rw [checkExpr, both_eq_ok, both_eq_ok, checkVar_eq_ok, checkConstruction_eq_ok,
        checkVars_eq_ok_texts]
      simp only [Expr.freeVars, OrderedSet.mem_texts_union, OrderedSet.mem_texts_singleton,
        OrderedSet.mem_texts_ofList, Expr.Fits, or_imp, forall_and, forall_eq]
      tauto

/-! ## Bodies -/

theorem checkArms_eq_ok : checkArms p fn scope arms = .ok () ↔
    ∀ arm ∈ arms, (∃ d, p.type? arm.1 = some d) ∧ checkBody p fn scope arm.2 = .ok () := by
  induction arms with
  | nil => simp [checkArms]
  | cons arm rest ih =>
      obtain ⟨tag, b⟩ := arm
      rw [checkArms, both_eq_ok, both_eq_ok, checkTag_eq_ok, ih, List.forall_mem_cons, and_assoc]

/-- The check of a body succeeds if its variables are bound and the body fits the program. -/
theorem checkBody_eq_ok : checkBody p fn scope b = .ok () ↔
    Bound (fun _ => True) (scope.map (·.text)) b ∧ b.Fits p := by
  induction b generalizing scope with
  | ret x =>
      rw [checkBody, checkVar_eq_ok, bound_ret]
      exact ⟨fun hx => ⟨hx, .ret⟩, fun h => h.1⟩
  | bind x e b ih =>
      rw [checkBody, both_eq_ok, both_eq_ok, checkExpr_eq_ok, checkBinder_eq_ok, ih, List.map_cons,
        bound_bind, Body.fits_bind]
      tauto
  | case x arms ih =>
      rw [checkBody, both_eq_ok, checkVar_eq_ok, checkArms_eq_ok, bound_case, Body.fits_case]
      constructor
      · rintro ⟨hx, harms⟩
        have hparts (arm) (harm : arm ∈ arms) := (ih arm harm).1 (harms arm harm).2
        exact ⟨⟨hx, fun arm harm => (hparts arm harm).1⟩,
          fun arm harm => (harms arm harm).1, fun arm harm => (hparts arm harm).2⟩
      · rintro ⟨⟨hx, hbound⟩, htags, hfits⟩
        exact ⟨hx, fun arm harm =>
          ⟨htags arm harm, (ih arm harm).2 ⟨hbound arm harm, hfits arm harm⟩⟩⟩
  | inc x b ih =>
      rw [checkBody, both_eq_ok, checkVar_eq_ok, ih, bound_inc, Body.fits_inc, and_assoc]
  | dec x b ih =>
      rw [checkBody, both_eq_ok, checkVar_eq_ok, ih, bound_dec, Body.fits_dec, and_assoc]

theorem Bound.mono (h : Bound N S b) (hN : ∀ t, N t → M t) : Bound M S b := by
  induction h with
  | ret hx => exact .ret hx
  | bind hreads hx hn _ ih => exact .bind hreads hx (hN _ hn) ih
  | case hx _ ih => exact .case hx ih
  | inc hx _ ih => exact .inc hx ih
  | dec hx _ ih => exact .dec hx ih

/-- More names may be in scope, if the body binds none of them. -/
theorem Bound.widen (h : Bound N S b) (hsub : S ⊆ S') (hnew : ∀ t ∈ S', t ∉ S → ¬ N t) :
    Bound N S' b := by
  induction h generalizing S' with
  | ret hx => exact .ret (hsub hx)
  | bind hreads hx hn _ ih =>
      refine .bind (fun t ht => hsub (hreads t ht)) (fun hx' => hnew _ hx' hx hn) hn ?_
      refine ih (List.cons_subset_cons _ hsub) fun t ht hold => ?_
      rw [List.mem_cons, not_or] at hold
      exact hnew t ((List.mem_cons.1 ht).resolve_left hold.1) hold.2
  | case hx _ ih => exact .case (hsub hx) fun arm harm => ih arm harm hsub hnew
  | inc hx _ ih => exact .inc (hsub hx) (ih hsub hnew)
  | dec hx _ ih => exact .dec (hsub hx) (ih hsub hnew)

/-- The binders of a body are among its variables. -/
theorem Bound.of_allVars {vars : VarSet} (h : Bound M S b)
    (hN : ∀ t ∈ (b.allVars vars).texts, N t) : Bound N S b := by
  induction b generalizing S vars with
  | ret x => exact .ret (bound_ret.1 h)
  | bind x e b ih =>
      obtain ⟨hreads, hx, -, hb⟩ := bound_bind.1 h
      rw [Body.allVars] at hN
      refine .bind hreads hx (hN _ ?_) (ih hb hN)
      exact Body.mem_allVars_of_mem (OrderedSet.mem_texts_insert.2 (.inr rfl))
  | case x arms ih =>
      obtain ⟨hx, hb⟩ := bound_case.1 h
      rw [Body.allVars] at hN
      refine .case hx fun arm harm => ?_
      obtain ⟨before, hbefore⟩ := Body.allVars_of_mem harm
      exact ih arm harm (hb arm harm) fun t ht => hN t (hbefore t ht)
  | inc x b ih =>
      obtain ⟨hx, hb⟩ := bound_inc.1 h
      exact .inc hx (ih hb hN)
  | dec x b ih =>
      obtain ⟨hx, hb⟩ := bound_dec.1 h
      exact .dec hx (ih hb hN)

theorem Bound.freeVars (h : Bound N S b) : ∀ t ∈ b.freeVars.texts, t ∈ S := by
  induction h with
  | ret hx =>
      intro t ht
      exact Body.mem_freeVars_ret.1 ht ▸ hx
  | bind hreads _ _ _ ih =>
      intro t ht
      rcases Body.mem_freeVars_bind.1 ht with ht | ⟨ht, hne⟩
      · exact hreads t ht
      · exact (List.mem_cons.1 (ih t ht)).resolve_left hne
  | case hx _ ih =>
      intro t ht
      rcases Body.mem_freeVars_case.1 ht with rfl | ⟨arm, harm, ht⟩
      · exact hx
      · exact ih arm harm t ht
  | inc hx _ ih =>
      intro t ht
      exact (Body.mem_freeVars_inc.1 ht).elim (· ▸ hx) (ih t)
  | dec hx _ ih =>
      intro t ht
      exact (Body.mem_freeVars_dec.1 ht).elim (· ▸ hx) (ih t)

/-- The variables of a body are those in scope and its binders. -/
theorem Bound.allVars {vars : VarSet} (h : Bound N S b) (hS : ∀ t ∈ S, N t)
    (hvars : ∀ t ∈ vars.texts, N t) : ∀ t ∈ (b.allVars vars).texts, N t := by
  -- The set that is handed on: what was there, and what the body reads.
  have hnext {b : Body} {S : List String} (h : Bound N S b) (hS : ∀ t ∈ S, N t) {vars : VarSet}
      (hvars : ∀ t ∈ vars.texts, N t) : ∀ t ∈ (vars.union b.freeVars).texts, N t := by
    intro t ht
    rw [OrderedSet.mem_texts_union] at ht
    exact ht.elim (hvars t) fun ht => hS t (h.freeVars t ht)
  induction h generalizing vars with
  | @ret S x hx => exact hnext (.ret (N := N) hx) hS hvars
  | @bind S x e b hreads hnew hn hb ih =>
      refine ih (List.forall_mem_cons.2 ⟨hn, hS⟩) fun t ht => ?_
      rw [OrderedSet.mem_texts_insert] at ht
      exact ht.elim (hnext (.bind hreads hnew hn hb) hS hvars t) (· ▸ hn)
  | @case S x arms hx hb ih =>
      rw [Body.allVars]
      exact Body.forall_allVarsArms (fun arm harm _ => ih arm harm hS) (hnext (.case hx hb) hS hvars)
  | @inc S x b hx hb ih => exact ih hS (hnext (.inc hx hb) hS hvars)
  | @dec S x b hx hb ih => exact ih hS (hnext (.dec hx hb) hS hvars)

/-! ## Programs -/

/-- Parameters pass the check if they are spelled differently. -/
theorem checkParams_eq_ok {xs : List Var} : checkParams fn scope xs = .ok () ↔
    (xs.map (·.text)).Nodup ∧ ∀ x ∈ xs, x.text ∉ scope.map (·.text) := by
  refine ⟨nodup_of_checkParams, fun h => ?_⟩
  induction xs generalizing scope with
  | nil => rfl
  | cons x rest ih =>
      obtain ⟨hnodup, hnew⟩ := h
      rw [List.map_cons, List.nodup_cons] at hnodup
      obtain ⟨hx, hrest⟩ := List.forall_mem_cons.1 hnew
      rw [checkParams, both_eq_ok]
      refine ⟨checkBinder_eq_ok.2 hx, ih ⟨hnodup.2, fun y hy => ?_⟩⟩
      rw [List.map_cons, List.mem_cons, not_or]
      exact ⟨fun h => hnodup.1 (List.mem_map.2 ⟨y, hy, h⟩), hrest y hy⟩

theorem checkFns_eq_ok {ds : List FnDef} :
    checkFns p ds = .ok () ↔ ∀ d ∈ ds, checkFn p d = .ok () := by
  induction ds with
  | nil => simp [checkFns]
  | cons d rest ih => rw [checkFns, both_eq_ok, ih, List.forall_mem_cons]

theorem checkFn_eq_ok {d : FnDef} : checkFn p d = .ok () ↔
    checkParams d.name [] d.params = .ok () ∧
      Bound (fun _ => True) (d.params.reverse.map (·.text)) d.body ∧ d.body.Fits p := by
  rw [checkFn, both_eq_ok, checkBody_eq_ok]

/-- A program is valid if each of its functions is. -/
theorem validate_eq_ok : p.validate = .ok () ↔ ∀ d ∈ p.fns, checkFn p d = .ok () := checkFns_eq_ok

/-- What fits a program fits it with other bodies. -/
theorem Expr.Fits.mapBodies (h : e.Fits p) (f : FnDef → Body) : e.Fits (p.mapBodies f) := by
  cases e with
  | call target xs | close target xs =>
      obtain ⟨d, hd, hlen⟩ := h
      exact ⟨{ d with body := f d }, by rw [Program.fn?_mapBodies, hd]; rfl, hlen⟩
  | _ => exact h

theorem Body.Fits.mapBodies (h : b.Fits p) (f : FnDef → Body) : b.Fits (p.mapBodies f) := by
  induction h with
  | ret => exact .ret
  | bind he _ ih => exact .bind (he.mapBodies f) ih
  | case htags _ ih => exact .case htags ih
  | inc _ ih => exact .inc ih
  | dec _ ih => exact .dec ih

end Reclaim.Core
