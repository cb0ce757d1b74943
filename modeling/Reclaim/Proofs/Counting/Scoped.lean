import Reclaim.Proofs.Checks
import Reclaim.Proofs.Counting.Ledger

/-!
# Scopes of variables and tokens

A context lists the variables that are bound around a point and the tokens that are bound and not
taken yet.  `Scoped N Γ b` says that every variable of `b` is used in its role: a reference is never
taken from a token, each token is taken at most once on a path, and a binder is new and has a name
in `N`.  Bodies that adjust counts upwards are left out, since nothing inserts them before the walk
that makes counts explicit.

A body that passes the check and is not managed is scoped without tokens (`scoped_of_checkBody`).
-/

namespace Reclaim.Counting

open Reclaim.Core

/-- The names bound around a point. -/
structure Context where
  /-- The variables that are no tokens. -/
  vars : List String
  /-- The tokens that are not taken yet. -/
  tokens : Multiset String

namespace Context

/-- The variables of an expression are bound, each in its role. -/
structure Admits (Γ : Context) (e : Expr) : Prop where
  /-- References are handed on by variables. -/
  consumed : ∀ x ∈ e.consumed, x.text ∈ Γ.vars
  /-- Variables are looked at. -/
  inspected : ∀ x ∈ e.inspected, x.text ∈ Γ.vars
  /-- Tokens are taken. -/
  spent : spellings e.spent ≤ Γ.tokens

/-- A name that is not bound. -/
structure Free (Γ : Context) (x : String) : Prop where
  /-- It is no variable. -/
  var : x ∉ Γ.vars
  /-- It is no token. -/
  token : x ∉ Γ.tokens

/-- The context without the token that an expression takes. -/
def spend (Γ : Context) (e : Expr) : Context := { Γ with tokens := Γ.tokens - spellings e.spent }

/-- The context with one more name. -/
def gain (Γ : Context) (x : String) : Holding → Context
  | .owned | .borrowed _ => { Γ with vars := x :: Γ.vars }
  | .token => { Γ with tokens := x ::ₘ Γ.tokens }

/-- The context after a binding. -/
def bind (Γ : Context) (x : Var) (e : Expr) : Context := (Γ.spend e).gain x.text e.holding

/-- Every name bound in a context satisfies `N`. -/
structure Within (N : String → Prop) (Γ : Context) : Prop where
  /-- Every variable does. -/
  vars : ∀ x ∈ Γ.vars, N x
  /-- Every token does. -/
  tokens : ∀ x ∈ Γ.tokens, N x

end Context

/-- Every name of a body is bound where it is used, is used in its role, and is bound only once on
a path, to a name in `N`. -/
inductive Scoped (N : String → Prop) : Context → Body → Prop where
  | ret {Γ : Context} {x : Var} : x.text ∈ Γ.vars → Scoped N Γ (.ret x)
  | bind {Γ : Context} {x : Var} {e : Expr} {b : Body} :
      Γ.Admits e → Γ.Free x.text → N x.text → Scoped N (Γ.bind x e) b → Scoped N Γ (.bind x e b)
  | case {Γ : Context} {x : Var} {arms : List Arm} :
      x.text ∈ Γ.vars → (∀ arm ∈ arms, Scoped N Γ arm.2) → Scoped N Γ (.case x arms)
  | dec {Γ : Context} {x : Var} {b : Body} :
      x.text ∈ Γ.vars → Scoped N Γ b → Scoped N Γ (.dec x b)

variable {N M : String → Prop} {Γ : Context} {x : Var} {e : Expr} {b : Body} {t : String}
  {k : Holding}

namespace Context

theorem mem_vars_gain (ht : t ∈ Γ.vars) : t ∈ (Γ.gain x.text k).vars := by
  cases k with
  | owned | borrowed record => exact .tail _ ht
  | token => exact ht

theorem mem_vars_of_bind (ht : t ∈ (Γ.bind x e).vars) (hx : t ≠ x.text) : t ∈ Γ.vars := by
  unfold Context.bind at ht
  cases hk : e.holding with
  | owned | borrowed record =>
      rw [hk] at ht
      exact (List.mem_cons.1 ht).resolve_left hx
  | token => rwa [hk] at ht

theorem Free.spend (f : Γ.Free t) (e : Expr) : (Γ.spend e).Free t :=
  ⟨f.var, fun ht => f.token (Multiset.mem_of_le (Multiset.sub_le_self _ _) ht)⟩

/-- A token does not become a variable. -/
theorem Free.holding_of_mem (f : Γ.Free x.text) (hx : x.text ∈ (Γ.bind x e).vars) :
    e.holding ≠ .token := by
  intro hk
  rw [Context.bind, hk] at hx
  exact f.var hx

theorem Within.mono (w : Γ.Within N) (hN : ∀ t, N t → M t) : Γ.Within M :=
  ⟨fun x hx => hN x (w.vars x hx), fun x hx => hN x (w.tokens x hx)⟩

theorem Within.bind (w : Γ.Within N) (hx : N x.text) : (Γ.bind x e).Within N := by
  have ws : (Γ.spend e).Within N :=
    ⟨w.vars, fun y hy => w.tokens y (Multiset.mem_of_le (Multiset.sub_le_self _ _) hy)⟩
  unfold Context.bind
  cases e.holding with
  | owned | borrowed record =>
      exact ⟨fun y hy => (List.mem_cons.1 hy).elim (fun e => e ▸ hx) (ws.vars y), ws.tokens⟩
  | token =>
      exact ⟨ws.vars, fun y hy => (Multiset.mem_cons.1 hy).elim (fun e => e ▸ hx) (ws.tokens y)⟩

end Context

theorem Scoped.mono (s : Scoped N Γ b) (hN : ∀ t, N t → M t) : Scoped M Γ b := by
  induction s with
  | ret hx => exact .ret hx
  | bind ha hf hn _ ih => exact .bind ha hf (hN _ hn) ih
  | case hx _ ih => exact .case hx ih
  | dec hx _ ih => exact .dec hx ih

/-! ## Checked bodies -/

theorem admits_of_checkExpr {p : Program} {fn : FnName} {scope : List Var}
    (h : checkExpr p fn scope e = .ok ()) (hm : e.isManaged = false) :
    Context.Admits ⟨scope.map (·.text), 0⟩ e := by
  cases e with
  | call f xs | close f xs =>
      obtain ⟨-, hxs⟩ := both_eq_ok.1 h
      exact ⟨checkVars_eq_ok.1 hxs, by simp [Expr.inspected], Multiset.zero_le _⟩
  | apply f xs | extend f xs =>
      obtain ⟨hf, hxs⟩ := both_eq_ok.1 h
      refine ⟨checkVars_eq_ok.1 hxs, ?_, Multiset.zero_le _⟩
      simpa [Expr.inspected] using checkVar_eq_ok.1 hf
  | new c =>
      obtain ⟨-, hxs⟩ := both_eq_ok.1 h
      exact ⟨checkVars_eq_ok.1 hxs, by simp [Expr.inspected], Multiset.zero_le _⟩
  | proj field record =>
      obtain ⟨-, hr⟩ := both_eq_ok.1 h
      refine ⟨by simp [Expr.consumed], ?_, Multiset.zero_le _⟩
      simpa [Expr.inspected] using checkVar_eq_ok.1 hr
  | reset y => cases hm
  | reuse w c => cases hm

theorem bind_of_unmanaged (scope : List Var) (x : Var) (hm : e.isManaged = false) :
    Context.bind ⟨scope.map (·.text), 0⟩ x e = ⟨(x :: scope).map (·.text), 0⟩ := by
  cases e with
  | reset | reuse => cases hm
  | _ => rfl

/-- A checked body that is not managed is scoped. -/
theorem scoped_of_checkBody {p : Program} {fn : FnName} {scope : List Var} {vars : VarSet}
    (h : checkBody p fn scope b = .ok ()) (hm : b.isManaged = false)
    (hN : ∀ t ∈ (b.allVars vars).texts, N t) : Scoped N ⟨scope.map (·.text), 0⟩ b := by
  induction b generalizing scope vars with
  | ret x => exact .ret (checkVar_eq_ok.1 h)
  | bind x e b ih =>
      rw [Body.isManaged, Bool.or_eq_false_iff] at hm
      rw [checkBody] at h
      obtain ⟨he, h⟩ := both_eq_ok.1 h
      obtain ⟨hx, hb⟩ := both_eq_ok.1 h
      rw [Body.allVars] at hN
      refine .bind (admits_of_checkExpr he hm.1) ⟨checkBinder_eq_ok.1 hx, by simp⟩ ?_ ?_
      · exact hN _ (Body.mem_allVars_of_mem (OrderedSet.mem_texts_insert.2 (.inr rfl)))
      · rw [bind_of_unmanaged scope x hm.1]
        exact ih hb hm.2 hN
  | case x arms ih =>
      rw [Body.isManaged, armsManaged_eq_false_iff] at hm
      rw [checkBody] at h
      obtain ⟨hx, harms⟩ := both_eq_ok.1 h
      refine .case (checkVar_eq_ok.1 hx) fun arm harm => ?_
      rw [Body.allVars] at hN
      obtain ⟨before, hbefore⟩ := Body.allVars_of_mem harm
      exact ih arm harm (checkBody_of_mem harms harm) (hm arm harm) fun t ht => hN t (hbefore t ht)
  | inc x b ih => cases hm
  | dec x b ih => cases hm

end Reclaim.Counting
