import Reclaim.Proofs.Counting.Collisions
import Reclaim.Proofs.Equality

/-!
# The first construction on each path

A token is bound in front of a body only if a record of the tag is built on some path through it (`builds`).
A second walk finds the constructions that take the token (`reuseFirst`).  What the two do is described here
by the routes through a body, which are the trails that cannot be prolonged (`Route.exists_trail`,
`Body.Trail.mem_routes`): they end with a return or in front of a case without arms.

A record of the tag is built on some route exactly if the first walk says so (`builds_iff_routes`).  The
second walk keeps the routes, one by one: along each of them the first construction of the tag takes the
token, if there is one, and everything else stays (`routes_reuseFirst`).  So a token that does not occur in
the body is read once on the routes on which a record is built, and never on the others
(`reads_reuseFirst`).  The main statement is `reuseFirst_agrees`.
-/

namespace Reclaim.Core

/-! ## Routes -/

/-- A path through a body to its end. -/
structure Route where
  /-- The steps along the path. -/
  steps : List PathStep
  /-- What is matched by the case without arms where the path ends, unless it returns. -/
  stop : Option Var
deriving Repr, Inhabited

/-- A route with one more step in front. -/
def Route.after (s : PathStep) (r : Route) : Route := { r with steps := s :: r.steps }

mutual

/-- The routes through a body, arm by arm. -/
def Body.routes : Body → List Route
  | .ret x => [⟨[.ret x], none⟩]
  | .bind x e b => b.routes.map (.after (.bind x e))
  | .case x arms => if arms.isEmpty then [⟨[], some x⟩] else routesIn x arms
  | .inc x b => b.routes.map (.after (.inc x))
  | .dec x b => b.routes.map (.after (.dec x))
termination_by structural b => b

/-- The routes that enter an arm. -/
def routesIn (x : Var) : List Arm → List Route
  | [] => []
  | (tag, b) :: rest => b.routes.map (.after (.enter x tag)) ++ routesIn x rest
termination_by structural arms => arms

end

variable {b c : Body} {x w : Var} {e : Expr} {tag : Tag} {arms : List Arm} {r r' : Route} {s : PathStep}
  {t : List Waypoint} {q : Waypoint} {o : Option Body}

theorem mem_routesIn : r ∈ routesIn x arms ↔
    ∃ arm ∈ arms, ∃ rest ∈ arm.2.routes, rest.after (.enter x arm.1) = r := by
  induction arms with
  | nil => simp [routesIn]
  | cons arm others ih =>
      obtain ⟨tag, b⟩ := arm
      rw [routesIn, List.mem_append, List.mem_map, ih, List.exists_mem_cons_iff]

theorem routes_case_of_mem {arm : Arm} (harm : arm ∈ arms) :
    (Body.case x arms).routes = routesIn x arms := by
  cases arms with
  | nil => cases harm
  | cons first rest => rfl

/-- A route is made along a trail, which ends where the route does. -/
theorem Route.exists_trail (hr : r ∈ b.routes) :
    ∃ t, t.map (·.step) = r.steps ∧ b.Trail t (r.stop.map fun x => .case x []) := by
  induction b generalizing r with
  | ret x =>
      obtain rfl := List.mem_singleton.1 hr
      exact ⟨_, rfl, .ret⟩
  | bind x e b ih =>
      obtain ⟨rest, hrest, rfl⟩ := List.mem_map.1 hr
      obtain ⟨t, hsteps, ht⟩ := ih hrest
      exact ⟨_, congrArg _ hsteps, .bind ht⟩
  | case x arms ih =>
      cases arms with
      | nil =>
          obtain rfl := List.mem_singleton.1 hr
          exact ⟨[], rfl, .here⟩
      | cons first others =>
          obtain ⟨arm, harm, rest, hrest, rfl⟩ := mem_routesIn.1 hr
          obtain ⟨t, hsteps, ht⟩ := ih arm harm hrest
          exact ⟨_, congrArg _ hsteps, .case harm ht⟩
  | inc x b ih =>
      obtain ⟨rest, hrest, rfl⟩ := List.mem_map.1 hr
      obtain ⟨t, hsteps, ht⟩ := ih hrest
      exact ⟨_, congrArg _ hsteps, .inc ht⟩
  | dec x b ih =>
      obtain ⟨rest, hrest, rfl⟩ := List.mem_map.1 hr
      obtain ⟨t, hsteps, ht⟩ := ih hrest
      exact ⟨_, congrArg _ hsteps, .dec ht⟩

/-- A trail that ends where a route can is made along a route. -/
theorem Body.Trail.mem_routes {stop : Option Var} (ht : b.Trail t (stop.map fun x => .case x [])) :
    ⟨t.map (·.step), stop⟩ ∈ b.routes := by
  generalize hend : stop.map (fun x => Body.case x []) = o at ht
  induction ht with
  | here =>
      obtain ⟨x, rfl, rfl⟩ := Option.map_eq_some_iff.1 hend
      exact .head _
  | ret =>
      obtain rfl := Option.map_eq_none_iff.1 hend
      exact .head _
  | bind _ ih => exact List.mem_map.2 ⟨_, ih hend, rfl⟩
  | case harm _ ih =>
      rw [routes_case_of_mem harm]
      exact mem_routesIn.2 ⟨_, harm, _, ih hend, rfl⟩
  | inc _ ih => exact List.mem_map.2 ⟨_, ih hend, rfl⟩
  | dec _ ih => exact List.mem_map.2 ⟨_, ih hend, rfl⟩

/-- There is always a route. -/
theorem Body.exists_route (b : Body) : ∃ r, r ∈ b.routes := by
  obtain ⟨t, ht | ⟨x, ht⟩⟩ := b.exists_finishes
  · exact ⟨⟨_, none⟩, ht.mem_routes⟩
  · exact ⟨⟨_, some x⟩, ht.mem_routes⟩

/-! ## What is read along a route -/

/-- The variables that a step reads, from left to right. -/
def PathStep.operands : PathStep → List Var
  | .bind _ e => e.operands
  | .enter x _ | .inc x | .dec x | .ret x => [x]

/-- The variables that are read along a route, from its start to its end. -/
def Route.operands (r : Route) : List Var := r.steps.flatMap PathStep.operands ++ r.stop.toList

theorem Body.Trail.operands (h : b.Trail (q :: t) o) :
    q.body = b ∧ q.step.operands = b.operands := by
  cases h <;> exact ⟨rfl, rfl⟩

/-- What is read along a route occurs in the body. -/
theorem Route.occurs (hr : r ∈ b.routes) (hx : x ∈ r.operands) : b.Occurs x.text := by
  obtain ⟨t, hsteps, ht⟩ := exists_trail hr
  refine Body.occurs_iff_trail.2 (.inr ?_)
  rcases List.mem_append.1 hx with hstep | hstop
  · rw [← hsteps, List.flatMap_map] at hstep
    obtain ⟨q, hq, hread⟩ := List.mem_flatMap.1 hstep
    obtain ⟨before, after, rfl⟩ := List.append_of_mem hq
    obtain ⟨hbefore, hafter⟩ := ht.split
    exact ⟨before, q.body, hbefore, x, hafter.operands.2 ▸ hread, rfl⟩
  · rw [Option.mem_toList.1 hstop] at ht
    exact ⟨t, _, ht, x, .head _, rfl⟩

/-! ## Equal bodies -/

/-- A body takes the tokens that an equal body takes. -/
theorem Body.Takes.of_same (h : b.Takes w) (hsame : b.same c = true) : c.Takes w := by
  induction h generalizing c with
  | @take x u k b hu =>
      cases c with
      | bind y e c =>
          obtain ⟨hxe, -⟩ := Bool.and_eq_true_iff.1 hsame
          have he := (Bool.and_eq_true_iff.1 hxe).2
          cases e with
          | reuse v d =>
              obtain ⟨hv, -⟩ := Bool.and_eq_true_iff.1 he
              exact .take ((Name.beq_iff.1 hv).symm.trans hu)
          | _ => cases he
      | _ => cases hsame
  | bind _ ih =>
      cases c with
      | bind y e c => exact .bind (ih (Bool.and_eq_true_iff.1 hsame).2)
      | _ => cases hsame
  | case harm _ ih =>
      cases c with
      | case y bs =>
          obtain ⟨-, harms⟩ := Bool.and_eq_true_iff.1 hsame
          obtain ⟨-, hin⟩ := Bool.and_eq_true_iff.1 harms
          obtain ⟨c, hc, hsame⟩ := armsIn_iff.1 hin _ harm
          obtain ⟨arm, harm, -, rfl⟩ := text_of_findArm hc
          exact .case harm (ih hsame)
      | _ => cases hsame
  | inc _ ih =>
      cases c with
      | inc y c => exact .inc (ih (Bool.and_eq_true_iff.1 hsame).2)
      | _ => cases hsame
  | dec _ ih =>
      cases c with
      | dec y c => exact .dec (ih (Bool.and_eq_true_iff.1 hsame).2)
      | _ => cases hsame

/-! ## The first construction -/

/-- Whether a step builds a record with the tag. -/
def PathStep.builds (tag : Tag) : PathStep → Bool
  | .bind _ (.new c) => c.tag == tag
  | _ => false

/-- Whether a record with the tag is built along a route. -/
def Route.builds (tag : Tag) (r : Route) : Bool := r.steps.any (·.builds tag)

theorem Route.builds_after (s : PathStep) (r : Route) :
    (r.after s).builds tag = (s.builds tag || r.builds tag) := rfl

/-- A step that does not build such a record does not decide whether one is built behind it. -/
theorem Route.exists_builds_after (hs : s.builds tag = false) {rs : List Route} :
    (∃ r ∈ rs.map (after s), r.builds tag = true) ↔ ∃ r ∈ rs, r.builds tag = true := by
  simp [builds_after, hs]

/-- The first construction with the tag along a route takes the token, and everything else stays. -/
inductive Route.ReusesFirst (w : Var) (tag : Tag) : Route → Route → Prop where
  | absent {r : Route} : (∀ s ∈ r.steps, s.builds tag = false) → ReusesFirst w tag r r
  | first (before after : List PathStep) {x : Var} {k : Construction} {stop : Option Var} :
      (∀ s ∈ before, s.builds tag = false) → k.tag.text = tag.text →
      ReusesFirst w tag ⟨before ++ .bind x (.new k) :: after, stop⟩
        ⟨before ++ .bind x (.reuse w k) :: after, stop⟩

namespace Route.ReusesFirst

/-- Another step in front changes nothing if it does not build such a record. -/
theorem after (h : ReusesFirst w tag r r') (hs : s.builds tag = false) :
    ReusesFirst w tag (r.after s) (r'.after s) := by
  cases h with
  | absent hnone => exact .absent (List.forall_mem_cons.2 ⟨hs, hnone⟩)
  | first before after hbefore hk =>
      exact .first (s :: before) after (List.forall_mem_cons.2 ⟨hs, hbefore⟩) hk

theorem all_after {rs rs' : List Route} (h : List.Forall₂ (ReusesFirst w tag) rs rs')
    (hs : s.builds tag = false) :
    List.Forall₂ (ReusesFirst w tag) (rs.map (.after s)) (rs'.map (.after s)) := by
  rw [List.forall₂_map_left_iff, List.forall₂_map_right_iff]
  exact h.imp fun r r' h => h.after hs

/-- Where a record is built the token is read once more than before, and nothing else is read. -/
theorem perm_operands (h : ReusesFirst w tag r r') :
    r'.operands.Perm (if r.builds tag then w :: r.operands else r.operands) := by
  cases h with
  | absent hnone =>
      have hbuilds : r.builds tag = false := List.any_eq_false.2 fun s hs => by simp [hnone s hs]
      rw [hbuilds]
      exact .refl _
  | @first before after x k stop _ hk =>
      have hbuilds : Route.builds tag ⟨before ++ .bind x (.new k) :: after, stop⟩ = true :=
        List.any_eq_true.2 ⟨.bind x (.new k), List.mem_append_right _ (.head _), Name.beq_iff.2 hk⟩
      rw [hbuilds, if_pos rfl]
      simp only [operands, PathStep.operands, Expr.operands, List.flatMap_append, List.flatMap_cons,
        List.append_assoc, List.cons_append]
      exact List.perm_middle

end Route.ReusesFirst

end Reclaim.Core

namespace Reclaim.Counting

open Reclaim.Core

variable {b : Body} {x w : Var} {e : Expr} {k : Construction} {tag : Tag} {arms : List Arm}

/-! ## The search -/

theorem builds_bind : builds tag (.bind x e b) = ((PathStep.bind x e).builds tag || builds tag b) := by
  rw [builds.eq_def]
  cases e <;> rfl

/-- A record is built on some route exactly if the search for one succeeds. -/
theorem builds_iff_routes : builds tag b = true ↔ ∃ r ∈ b.routes, r.builds tag = true := by
  induction b with
  | ret x => simp [builds, Body.routes, Route.builds, PathStep.builds]
  | bind x e b ih =>
      rw [builds_bind, Bool.or_eq_true, Body.routes]
      cases hs : (PathStep.bind x e).builds tag with
      | true =>
          -- The record is built whatever route is taken behind the step.
          obtain ⟨r, hr⟩ := b.exists_route
          refine iff_of_true (.inl rfl) ⟨_, List.mem_map_of_mem hr, ?_⟩
          rw [Route.builds_after, hs, Bool.true_or]
      | false =>
          rw [Route.exists_builds_after hs, ← ih]
          exact or_iff_right Bool.false_ne_true
  | case x arms ih =>
      rw [builds, buildsIn_iff]
      cases arms with
      | nil => simp [Body.routes, Route.builds]
      | cons first others =>
          rw [routes_case_of_mem (.head _)]
          constructor
          · rintro ⟨arm, harm, hb⟩
            obtain ⟨r, hr, hbuilds⟩ := (ih arm harm).1 hb
            exact ⟨_, mem_routesIn.2 ⟨arm, harm, r, hr, rfl⟩, hbuilds⟩
          · rintro ⟨_, hroute, hbuilds⟩
            obtain ⟨arm, harm, r, hr, rfl⟩ := mem_routesIn.1 hroute
            exact ⟨arm, harm, (ih arm harm).2 ⟨r, hr, hbuilds⟩⟩
  | inc x b ih => rw [builds, ih, Body.routes, Route.exists_builds_after rfl]
  | dec x b ih => rw [builds, ih, Body.routes, Route.exists_builds_after rfl]

/-! ## The rewriting -/

theorem reuseFirst_of_builds (hk : k.tag.text = tag.text) :
    reuseFirst w tag (.bind x (.new k) b) = .bind x (.reuse w k) b := by
  rw [reuseFirst.eq_def]
  exact if_pos (Name.beq_iff.2 hk)

theorem reuseFirst_of_not_builds (hs : (PathStep.bind x e).builds tag = false) :
    reuseFirst w tag (.bind x e b) = .bind x e (reuseFirst w tag b) := by
  rw [reuseFirst.eq_def]
  cases e with
  | new k => exact if_neg (Bool.eq_false_iff.1 hs)
  | _ => rfl

/-- If no record is built nothing is rewritten. -/
theorem reuseFirst_eq_self (hb : builds tag b = false) : reuseFirst w tag b = b := by
  induction b with
  | ret x => rfl
  | bind x e b ih =>
      rw [builds_bind, Bool.or_eq_false_iff] at hb
      rw [reuseFirst_of_not_builds hb.1, ih hb.2]
  | case x arms ih =>
      rw [builds, ← Bool.not_eq_true, buildsIn_iff] at hb
      rw [reuseFirst_case]
      refine congrArg _ ((List.map_congr_left fun arm harm => ?_).trans (List.map_id arms))
      exact Prod.ext rfl (ih arm harm (Bool.eq_false_iff.2 fun h => hb ⟨arm, harm, h⟩))
  | inc x b ih => exact congrArg _ (ih hb)
  | dec x b ih => exact congrArg _ (ih hb)

/-- Arms are rewritten one by one. -/
theorem routesIn_reuseFirst
    (harms : ∀ arm ∈ arms,
      List.Forall₂ (Route.ReusesFirst w tag) arm.2.routes (reuseFirst w tag arm.2).routes) :
    List.Forall₂ (Route.ReusesFirst w tag) (routesIn x arms)
      (routesIn x (arms.map fun arm => (arm.1, reuseFirst w tag arm.2))) := by
  induction arms with
  | nil => exact .nil
  | cons arm rest ih =>
      obtain ⟨hfirst, hrest⟩ := List.forall_mem_cons.1 harms
      exact List.rel_append (Route.ReusesFirst.all_after hfirst rfl) (ih hrest)

/-- The rewritten body has the routes that the body had, one by one, but for the first construction along
each of them. -/
theorem routes_reuseFirst (w : Var) (tag : Tag) (b : Body) :
    List.Forall₂ (Route.ReusesFirst w tag) b.routes (reuseFirst w tag b).routes := by
  induction b with
  | ret x => exact .cons (.absent (List.forall_mem_singleton.2 rfl)) .nil
  | bind x e b ih =>
      cases hs : (PathStep.bind x e).builds tag with
      | true =>
          obtain ⟨k, rfl, hk⟩ : ∃ k, e = .new k ∧ k.tag.text = tag.text := by
            cases e with
            | new k => exact ⟨k, rfl, Name.beq_iff.1 hs⟩
            | _ => cases hs
          rw [reuseFirst_of_builds hk, Body.routes, Body.routes, List.forall₂_map_left_iff,
            List.forall₂_map_right_iff, List.forall₂_same]
          exact fun r _ => .first [] r.steps nofun hk
      | false =>
          rw [reuseFirst_of_not_builds hs]
          exact Route.ReusesFirst.all_after ih hs
  | case x arms ih =>
      rw [reuseFirst_case]
      cases arms with
      | nil => exact .cons (.absent nofun) .nil
      | cons first others => exact routesIn_reuseFirst ih
  | inc x b ih => exact Route.ReusesFirst.all_after ih rfl
  | dec x b ih => exact Route.ReusesFirst.all_after ih rfl

/-- How often the token is read along the routes of the rewritten body. -/
theorem reads_reuseFirst (tag : Tag) (hw : ¬ b.Occurs w.text) :
    (reuseFirst w tag b).routes.map (·.operands.countP (· == w)) =
      b.routes.map fun r => (r.builds tag).toNat := by
  have hunread : ∀ r ∈ b.routes, r.operands.countP (· == w) = 0 := fun r hr =>
    List.countP_eq_zero.2 fun x hx heq => hw (Name.beq_iff.1 heq ▸ Route.occurs hr hx)
  have hreads := (List.forall₂_and_left _ _).2 ⟨hunread, routes_reuseFirst w tag b⟩
  rw [eq_comm, ← List.forall₂_eq_eq_eq, List.forall₂_map_left_iff, List.forall₂_map_right_iff]
  refine hreads.imp fun r r' ⟨hzero, h⟩ => ?_
  rw [h.perm_operands.countP_eq]
  cases r.builds tag with
  | true =>
      rw [if_pos rfl, List.countP_cons, hzero, if_pos BEq.rfl]
      rfl
  | false => exact hzero.symm

/-! ## Main statement -/

theorem not_takes_of_not_occurs (hw : ¬ b.Occurs w.text) : ¬ b.Takes w := by
  intro h
  obtain ⟨t, x, u, k, b', ht, hu⟩ := h.trail
  exact hw (Body.occurs_iff_trail.2 (.inr ⟨t, _, ht, u, .head _, hu⟩))

/-- The rewriting changes a body exactly if the search finds that a record of the tag is built, and then
the result is another body also up to places and the order of arms.  The routes stay, one by one; along
each of them the first construction of the tag takes the token, and nothing else changes.  A token that
does not occur in the body is read at most once on each route, and once on some route exactly if the
search succeeds. -/
theorem reuseFirst_agrees (hw : ¬ b.Occurs w.text) :
    (reuseFirst w tag b ≠ b ↔ builds tag b = true) ∧
    (builds tag b = true → (reuseFirst w tag b == b) = false) ∧
    List.Forall₂ (Route.ReusesFirst w tag) b.routes (reuseFirst w tag b).routes ∧
    (∀ r ∈ (reuseFirst w tag b).routes, r.operands.countP (· == w) ≤ 1) ∧
    ((∃ r ∈ (reuseFirst w tag b).routes, r.operands.countP (· == w) = 1) ↔ builds tag b = true) := by
  have hreads := reads_reuseFirst tag hw
  refine ⟨⟨fun hne => ?_, fun hb heq => ?_⟩, fun hb => ?_, routes_reuseFirst w tag b, fun r hr => ?_, ?_⟩
  · by_contra hb
    exact hne (reuseFirst_eq_self (Bool.eq_false_iff.2 hb))
  · exact not_takes_of_not_occurs hw (heq ▸ takes_of_builds hb)
  · -- An equal body would take the token, of which the given one knows nothing.
    rw [← Bool.not_eq_true]
    exact fun hsame => not_takes_of_not_occurs hw ((takes_of_builds hb).of_same hsame)
  · have hcount := List.mem_map_of_mem (f := fun r : Route => r.operands.countP (· == w)) hr
    obtain ⟨r₀, -, heq⟩ := List.mem_map.1 (hreads ▸ hcount)
    rw [← heq]
    exact Bool.toNat_le _
  · rw [builds_iff_routes, ← List.mem_map (f := fun r : Route => r.operands.countP (· == w)), hreads]
    simp

/-- A body with a route on which no pair is built, one on which two pairs are built, and one that builds a
pair and ends in front of a case without arms. -/
def branching : Body :=
  .case ⟨"x", .none⟩ [
    (⟨"Nil", .none⟩, .ret ⟨"x", .none⟩),
    (⟨"Pair", .none⟩, .case ⟨"y", .none⟩ [
      (⟨"Nil", .none⟩,
        .bind ⟨"p", .none⟩ (.new ⟨⟨"Pair", .none⟩, [⟨"x", .none⟩, ⟨"y", .none⟩]⟩)
          (.bind ⟨"q", .none⟩ (.new ⟨⟨"Pair", .none⟩, [⟨"p", .none⟩, ⟨"y", .none⟩]⟩)
            (.ret ⟨"q", .none⟩))),
      (⟨"Pair", .none⟩,
        .bind ⟨"p", .none⟩ (.new ⟨⟨"Pair", .none⟩, [⟨"y", .none⟩, ⟨"x", .none⟩]⟩)
          (.case ⟨"p", .none⟩ []))])]

/-- The token is taken for the first of the two pairs and for the pair in front of the case. -/
theorem reuseFirst_agrees_branching : ¬ branching.Occurs "_r0" ∧
    builds ⟨"Pair", .none⟩ branching = true ∧
    branching.routes.map (·.builds ⟨"Pair", .none⟩) = [false, true, true] ∧
    ∃ out, reuseFirst ⟨"_r0", .none⟩ ⟨"Pair", .none⟩ branching = out ∧ out ≠ branching ∧
      (out == branching) = false ∧
      List.Forall₂ (Route.ReusesFirst ⟨"_r0", .none⟩ ⟨"Pair", .none⟩) branching.routes out.routes ∧
      (∀ r ∈ out.routes, r.operands.countP (· == ⟨"_r0", .none⟩) ≤ 1) ∧
      ∃ r ∈ out.routes, r.operands.countP (· == ⟨"_r0", .none⟩) = 1 := by
  have hvars : "_r0" ∉ (branching.allVars .empty).texts := by decide
  have hw : ¬ branching.Occurs "_r0" := fun h => hvars (Body.mem_allVars_iff.2 (.inr h))
  have hbuilds : builds ⟨"Pair", .none⟩ branching = true := by decide
  obtain ⟨hne, hother, hroutes, honce, hsome⟩ :=
    @reuseFirst_agrees branching ⟨"_r0", .none⟩ ⟨"Pair", .none⟩ hw
  exact ⟨hw, hbuilds, by decide, _, rfl, hne.2 hbuilds, hother hbuilds, hroutes, honce, hsome.2 hbuilds⟩

end Reclaim.Counting
