import Mathlib.Logic.Relation
import Reclaim.Proofs.Bodies
import Reclaim.Proofs.Eval.Outcomes

/-!
# Points of an evaluation

The evaluation of a body goes through points: the rest of a body, the arm that is chosen, and the body
of a function that is called, each with its variables and its heap (`Leads`).  What is done at a point
itself is small (`Body.first`): a variable is read, an expression is evaluated, with calls left out, or
a count is adjusted.

An evaluation that fails does so at one of the points that it visits, where what is done fails in that
way (`exists_raises`).  So what can go wrong in an evaluation is what can go wrong at its points.
-/

namespace Reclaim

open Reclaim.Core
open Relation (ReflTransGen)

variable {p : Program} {call : Caller} {env : Env} {h h' : Heap} {x : Var} {e : Expr} {b : Body}
  {target : FnName} {args : List Location} {fault : Fault}

/-! ## Points -/

/-- A body that is about to be evaluated. -/
structure Point where
  /-- How deep calls may still be nested. -/
  depth : Nat
  /-- The variables. -/
  env : Env
  /-- The body. -/
  body : Body
  /-- The heap. -/
  heap : Heap

namespace Point

/-- How the evaluation goes on from here. -/
def outcome (p : Program) (c : Point) : Except Halt Location × Heap :=
  evalBody p (callFn p c.depth) c.env c.body c.heap

/-- The start of a call. -/
def entry (d : FnDef) (args : List Location) (depth : Nat) (h : Heap) : Point :=
  ⟨depth, .ofArgs d.params args, d.body, h⟩

end Point

/-- A reference is added to a variable. -/
def addReference (env : Env) (x : Var) : Eval Unit := do
  let l ← env.read x
  Eval.onHeap x.span fun h => h.inc [l]

/-- A reference to a variable is given up. -/
def dropReference (env : Env) (x : Var) : Eval Unit := do
  let l ← env.read x
  Eval.onHeap x.span fun h => h.dec [l]

/-- A call is looked up, but the body of the function is left out. -/
def consult (p : Program) : Caller := fun target args =>
  match p.fn? target with
  | none => Eval.fail (.unknownFn target)
  | some d =>
    if d.params.length = args.length then return .invalid
    else Eval.fail (.arity target d.params.length args.length)

/-- The arm for the tag of a variable. -/
def chooseArm (env : Env) (x : Var) (arms : List Arm) : Eval Body := do
  let (tag, _) ← readRecord env x
  match findArm arms tag with
  | some b => return b
  | none => Eval.fail (.noArm x tag)

/-- What is done at a point itself. -/
def Core.Body.first (p : Program) (env : Env) : Body → Eval Unit
  | .ret x => do let _ ← env.read x
  | .bind _ e _ => do let _ ← evalExpr p (consult p) env e
  | .case x arms => do let _ ← chooseArm env x arms
  | .inc x _ => addReference env x
  | .dec x _ => dropReference env x

/-- What is done at a point fails, and leaves a heap behind. -/
def Point.Raises (p : Program) (c : Point) (fault : Fault) (h : Heap) : Prop :=
  c.body.first p c.env c.heap = (.error (.fault fault), h)

/-- An expression calls a function with arguments on a heap. -/
inductive Requests (env : Env) (h : Heap) : Expr → FnName → List Location → Heap → Prop where
  | call {target : FnName} {xs : List Var} {args : List Location} {h' : Heap} :
      env.readAll xs h = (.ok args, h') → Requests env h (.call target xs) target args h'
  | apply {x : Var} {xs : List Var} {target : FnName} {args : List Location} {h' : Heap} :
      forward env x xs h = (.ok (target, args), h') → Requests env h (.apply x xs) target args h'

/-- The evaluation from one point goes through another one next. -/
inductive Leads (p : Program) : Point → Point → Prop where
  | rest {n : Nat} {env : Env} {x : Var} {e : Expr} {b : Body} {h h' : Heap} {l : Location} :
      evalExpr p (callFn p n) env e h = (.ok l, h') →
      Leads p ⟨n, env, .bind x e b, h⟩ ⟨n, env.bind x l, b, h'⟩
  | call {n : Nat} {env : Env} {x : Var} {e : Expr} {b : Body} {h h' : Heap} {target : FnName}
      {args : List Location} {d : FnDef} : Requests env h e target args h' →
      p.fn? target = some d → d.params.length = args.length →
      Leads p ⟨n + 1, env, .bind x e b, h⟩ (.entry d args n h')
  | arm {n : Nat} {env : Env} {x : Var} {arms : List Arm} {b : Body} {h h' : Heap} :
      chooseArm env x arms h = (.ok b, h') → Leads p ⟨n, env, .case x arms, h⟩ ⟨n, env, b, h'⟩
  | inc {n : Nat} {env : Env} {x : Var} {b : Body} {h h' : Heap} :
      addReference env x h = (.ok (), h') → Leads p ⟨n, env, .inc x b, h⟩ ⟨n, env, b, h'⟩
  | dec {n : Nat} {env : Env} {x : Var} {b : Body} {h h' : Heap} :
      dropReference env x h = (.ok (), h') → Leads p ⟨n, env, .dec x b, h⟩ ⟨n, env, b, h'⟩

/-! ## Sequences, seen from their ends -/

section

variable {α β : Type} {m : Eval α} {f : α → Eval β} {halt : Halt} {r : β}

theorem Eval.of_bind_error (hm : (m >>= f) h = (.error halt, h')) : m h = (.error halt, h') ∨
    ∃ a mid, m h = (.ok a, mid) ∧ f a mid = (.error halt, h') := by
  rcases heq : m h with ⟨halt' | a, mid⟩
  · rw [Eval.bind_error heq] at hm
    obtain ⟨hhalt, rfl⟩ := Prod.mk.inj hm
    obtain rfl : halt' = halt := Except.error.inj hhalt
    exact .inl rfl
  · rw [Eval.bind_ok heq] at hm
    exact .inr ⟨a, mid, rfl, hm⟩

theorem Eval.of_bind_ok (hm : (m >>= f) h = (.ok r, h')) :
    ∃ a mid, m h = (.ok a, mid) ∧ f a mid = (.ok r, h') := by
  rcases heq : m h with ⟨halt | a, mid⟩
  · rw [Eval.bind_error heq] at hm
    cases hm
  · rw [Eval.bind_ok heq] at hm
    exact ⟨a, mid, rfl, hm⟩

end

/-! ## Evaluation, point by point -/

theorem evalBody_case (arms : List Arm) :
    evalBody p call env (.case x arms) = (do evalBody p call env (← chooseArm env x arms)) := by
  rw [evalBody, chooseArm, bind_assoc]
  congr 1
  funext r
  obtain ⟨tag, fields⟩ := r
  dsimp only
  rw [evalArm_eq]
  cases findArm arms tag <;> rfl

/-- The body that is chosen is that of an arm. -/
theorem mem_of_chooseArm {arms : List Arm} (harm : chooseArm env x arms h = (.ok b, h')) :
    ∃ arm ∈ arms, arm.2 = b := by
  obtain ⟨⟨tag, fields⟩, mid, -, hfind⟩ := Eval.of_bind_ok harm
  dsimp only at hfind
  cases hb : findArm arms tag with
  | none =>
      rw [hb] at hfind
      cases hfind
  | some b' =>
      rw [hb] at hfind
      cases hfind
      exact mem_of_findArm hb

theorem evalBody_inc : evalBody p call env (.inc x b) = (do
    addReference env x
    evalBody p call env b) := by
  rw [evalBody, addReference, bind_assoc]

theorem evalBody_dec : evalBody p call env (.dec x b) = (do
    dropReference env x
    evalBody p call env b) := by
  rw [evalBody, dropReference, bind_assoc]

/-- A call fails right away, or it goes on with the body of a function. -/
theorem callFn_succ (p : Program) (n : Nat) (target : FnName) (args : List Location) (h : Heap) :
    (∃ fault, consult p target args h = (.error (.fault fault), h) ∧
      callFn p (n + 1) target args h = (.error (.fault fault), h)) ∨
    ∃ d, p.fn? target = some d ∧ d.params.length = args.length ∧
      callFn p (n + 1) target args h = (Point.entry d args n h).outcome p := by
  rw [callFn, consult]
  cases hd : p.fn? target with
  | none => exact .inl ⟨_, rfl, rfl⟩
  | some d =>
      dsimp only
      by_cases hlen : d.params.length = args.length
      · refine .inr ⟨d, rfl, hlen, ?_⟩
        rw [if_pos hlen]
        rfl
      · rw [if_neg hlen, if_neg hlen]
        exact .inl ⟨_, rfl, rfl⟩

/-- The value of an expression is that of a call, or calls play no part in it. -/
theorem evalExpr_cases (p : Program) (env : Env) (e : Expr) (h : Heap) :
    (∃ target args mid, Requests env h e target args mid ∧
      ∀ call, evalExpr p call env e h = call target args mid) ∨
    ∃ o, ∀ call, evalExpr p call env e h = o := by
  cases e with
  | call target xs =>
      rcases hargs : env.readAll xs h with ⟨halt | args, mid⟩
      · exact .inr ⟨_, fun call => Eval.bind_error hargs⟩
      · exact .inl ⟨target, args, mid, .call hargs, fun call => Eval.bind_ok hargs⟩
  | apply x xs =>
      rcases hforward : forward env x xs h with ⟨halt | ⟨target, args⟩, mid⟩
      · exact .inr ⟨_, fun call => Eval.bind_error hforward⟩
      · exact .inl ⟨target, args, mid, .apply hforward, fun call => Eval.bind_ok hforward⟩
  | _ => exact .inr ⟨_, fun _ => rfl⟩

/-! ## Where an evaluation fails -/

theorem exists_raises_body {n : Nat} (hfail : evalBody p (callFn p n) env b h =
    (.error (.fault fault), h')) :
    ∃ c, ReflTransGen (Leads p) ⟨n, env, b, h⟩ c ∧ c.Raises p fault h' := by
  -- A call is one level further down, and everything else is a part of the body.
  induction n using Nat.strong_induction_on generalizing env b h with
  | _ n ih =>
  induction b generalizing env h with
  | ret x => exact ⟨_, .refl, Eval.bind_error hfail⟩
  | bind x e b ihb =>
      rw [evalBody] at hfail
      rcases Eval.of_bind_error hfail with he | ⟨l, mid, he, hrest⟩
      · rcases evalExpr_cases p env e h with ⟨target, args, mid, hreq, hcall⟩ | ⟨o, ho⟩
        · rw [hcall] at he
          cases n with
          | zero => cases he
          | succ n =>
              rcases callFn_succ p n target args mid with ⟨fault', hconsult, hcallee⟩ |
                ⟨d, hd, hlen, hcallee⟩
              · rw [← hcall (consult p), ← hcallee, he] at hconsult
                exact ⟨_, .refl, Eval.bind_error hconsult⟩
              · rw [hcallee] at he
                obtain ⟨c, hleads, hraises⟩ := ih n (Nat.lt_succ_self n) he
                exact ⟨c, .head (.call hreq hd hlen) hleads, hraises⟩
        · rw [ho] at he
          exact ⟨_, .refl, Eval.bind_error ((ho (consult p)).trans he)⟩
      · obtain ⟨c, hleads, hraises⟩ := ihb hrest
        exact ⟨c, .head (.rest he) hleads, hraises⟩
  | case x arms ihb =>
      rw [evalBody_case] at hfail
      rcases Eval.of_bind_error hfail with harm | ⟨b, mid, harm, hrest⟩
      · exact ⟨_, .refl, Eval.bind_error harm⟩
      · obtain ⟨arm, hmem, rfl⟩ := mem_of_chooseArm harm
        obtain ⟨c, hleads, hraises⟩ := ihb arm hmem hrest
        exact ⟨c, .head (.arm harm) hleads, hraises⟩
  | inc x b ihb =>
      rw [evalBody_inc] at hfail
      rcases Eval.of_bind_error hfail with hinc | ⟨_, mid, hinc, hrest⟩
      · exact ⟨_, .refl, hinc⟩
      · obtain ⟨c, hleads, hraises⟩ := ihb hrest
        exact ⟨c, .head (.inc hinc) hleads, hraises⟩
  | dec x b ihb =>
      rw [evalBody_dec] at hfail
      rcases Eval.of_bind_error hfail with hdec | ⟨_, mid, hdec, hrest⟩
      · exact ⟨_, .refl, hdec⟩
      · obtain ⟨c, hleads, hraises⟩ := ihb hrest
        exact ⟨c, .head (.dec hdec) hleads, hraises⟩

/-- An evaluation that fails visits a point where what is done fails in that way. -/
theorem exists_raises {c : Point} (hfail : c.outcome p = (.error (.fault fault), h)) :
    ∃ c', ReflTransGen (Leads p) c c' ∧ c'.Raises p fault h :=
  exists_raises_body hfail

end Reclaim
