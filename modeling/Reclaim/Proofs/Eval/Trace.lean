import Reclaim.Proofs.Eval.Points

/-!
# Traces

The points that an evaluation goes through come one after the other: a point, the points of the call
that it makes, if it makes one, and the points of what remains.  `Point.trace` lists them in this order,
up to the end of the evaluation or to where it stops.  It lists just the points that are visited
(`mem_trace_iff`), each as often as it is, so it says how often something is done in an evaluation.
-/

namespace Reclaim

open Reclaim.Core
open Relation (ReflTransGen)

variable {α : Type} {p : Program} {n : Nat} {env : Env} {h h' : Heap} {x : Var} {e : Expr} {b : Body}
  {arms : List Arm} {target : FnName} {args : List Location} {c c' : Point}

/-! ## Calls that are made -/

/-- The call that an expression makes, with the heap that it finds. -/
def Core.Expr.request? (env : Env) (h : Heap) : Expr → Option (FnName × List Location × Heap)
  | .call target xs => match env.readAll xs h with
    | (.ok args, h') => some (target, args, h')
    | (.error _, _) => none
  | .apply x xs => match forward env x xs h with
    | (.ok (target, args), h') => some (target, args, h')
    | (.error _, _) => none
  | _ => none

theorem request?_eq_some :
    e.request? env h = some (target, args, h') ↔ Requests env h e target args h' := by
  constructor
  · intro hreq
    cases e with
    | call f xs =>
        rcases hargs : env.readAll xs h with ⟨halt | ls, mid⟩
        · simp [Expr.request?, hargs] at hreq
        · simp only [Expr.request?, hargs, Option.some.injEq, Prod.mk.injEq] at hreq
          obtain ⟨rfl, rfl, rfl⟩ := hreq
          exact .call hargs
    | apply f xs =>
        rcases hforward : forward env f xs h with ⟨halt | ⟨name, ls⟩, mid⟩
        · simp [Expr.request?, hforward] at hreq
        · simp only [Expr.request?, hforward, Option.some.injEq, Prod.mk.injEq] at hreq
          obtain ⟨rfl, rfl, rfl⟩ := hreq
          exact .apply hforward
    | _ => cases hreq
  · intro hreq
    cases hreq with
    | call hargs => simp [Expr.request?, hargs]
    | apply hforward => simp [Expr.request?, hforward]

/-! ## The points of an evaluation -/

/-- The points that a call goes through. -/
abbrev Tracer : Type := FnName → List Location → Heap → List Point

/-- The points of a call, if there is one. -/
def requested (calls : Tracer) : Option (FnName × List Location × Heap) → List Point
  | some (target, args, h) => calls target args h
  | none => []

/-- The points that come after a computation, if it comes to a result. -/
def followed (k : α → Heap → List Point) : Except Halt α × Heap → List Point
  | (.ok a, h) => k a h
  | (.error _, _) => []

mutual

/-- The points that the evaluation of a body goes through. -/
def bodyTrace (p : Program) (n : Nat) (calls : Tracer) (env : Env) (h : Heap) : Body → List Point
  | .ret x => [⟨n, env, .ret x, h⟩]
  | .bind x e b => ⟨n, env, .bind x e b, h⟩ :: (requested calls (e.request? env h) ++
      followed (fun l h' => bodyTrace p n calls (env.bind x l) h' b) (evalExpr p (callFn p n) env e h))
  | .case x arms => ⟨n, env, .case x arms, h⟩ ::
      followed (fun r h' => armTrace p n calls env h' r.1 arms) (readRecord env x h)
  | .inc x b => ⟨n, env, .inc x b, h⟩ ::
      followed (fun _ h' => bodyTrace p n calls env h' b) (addReference env x h)
  | .dec x b => ⟨n, env, .dec x b, h⟩ ::
      followed (fun _ h' => bodyTrace p n calls env h' b) (dropReference env x h)
termination_by structural b => b

/-- The points that the evaluation of the arm for a tag goes through. -/
def armTrace (p : Program) (n : Nat) (calls : Tracer) (env : Env) (h : Heap) (tag : Tag) :
    List Arm → List Point
  | [] => []
  | (armTag, b) :: rest =>
    if armTag == tag then bodyTrace p n calls env h b else armTrace p n calls env h tag rest
termination_by structural arms => arms

end

/-- The points that a call goes through, with calls nested at most `depth` deep. -/
def callTrace (p : Program) : Nat → Tracer
  | 0, _, _, _ => []
  | depth + 1, target, args, h => match p.fn? target with
    | none => []
    | some d =>
      if d.params.length = args.length then
        bodyTrace p depth (callTrace p depth) (.ofArgs d.params args) h d.body
      else []

/-- The points that the evaluation goes through from here, in order. -/
def Point.trace (p : Program) (c : Point) : List Point :=
  bodyTrace p c.depth (callTrace p c.depth) c.env c.heap c.body

/-! ## What comes next -/

/-- The point where a call starts, if there is such a function with so many parameters. -/
def entered (p : Program) : Nat → Tracer
  | 0, _, _, _ => []
  | depth + 1, target, args, h => match p.fn? target with
    | none => []
    | some d => if d.params.length = args.length then [.entry d args depth h] else []

/-- The points that come next: the start of the call that is made, and where the evaluation goes on. -/
def Point.next (p : Program) : Point → List Point
  | ⟨_, _, .ret _, _⟩ => []
  | ⟨n, env, .bind x e b, h⟩ => requested (entered p n) (e.request? env h) ++
      followed (fun l h' => [⟨n, env.bind x l, b, h'⟩]) (evalExpr p (callFn p n) env e h)
  | ⟨n, env, .case x arms, h⟩ => followed (fun b h' => [⟨n, env, b, h'⟩]) (chooseArm env x arms h)
  | ⟨n, env, .inc x b, h⟩ => followed (fun _ h' => [⟨n, env, b, h'⟩]) (addReference env x h)
  | ⟨n, env, .dec x b, h⟩ => followed (fun _ h' => [⟨n, env, b, h'⟩]) (dropReference env x h)

section

variable {k : α → Heap → List Point} {o : Except Halt α × Heap}

theorem mem_followed : c ∈ followed k o ↔ ∃ a h', o = (.ok a, h') ∧ c ∈ k a h' := by
  obtain ⟨halt | a, h⟩ := o
  · simp [followed]
  · constructor
    · intro hc
      exact ⟨a, h, rfl, hc⟩
    · rintro ⟨_, _, ho, hc⟩
      cases ho
      exact hc

theorem followed_flatMap (f : Point → List Point) :
    (followed k o).flatMap f = followed (fun a h => (k a h).flatMap f) o := by
  obtain ⟨halt | a, h⟩ := o <;> rfl

theorem nodup_followed (k : α → Heap → Point) : (followed (fun a h => [k a h]) o).Nodup := by
  obtain ⟨halt | a, h⟩ := o
  · exact List.nodup_nil
  · exact List.nodup_singleton _

end

theorem mem_entered : c ∈ entered p n target args h ↔ ∃ m d, n = m + 1 ∧ p.fn? target = some d ∧
    d.params.length = args.length ∧ c = .entry d args m h := by
  cases n with
  | zero => simp [entered]
  | succ m =>
      rw [entered]
      cases hd : p.fn? target with
      | none => simp
      | some d =>
          dsimp only
          by_cases hlen : d.params.length = args.length
          · simp [hlen]
          · simp [hlen]

theorem mem_requested : c ∈ requested (entered p n) (e.request? env h) ↔ ∃ m d target args h',
    n = m + 1 ∧ Requests env h e target args h' ∧ p.fn? target = some d ∧
      d.params.length = args.length ∧ c = .entry d args m h' := by
  constructor
  · intro hc
    rcases hreq : e.request? env h with _ | ⟨target, args, h'⟩
    · rw [hreq] at hc
      cases hc
    · rw [hreq] at hc
      obtain ⟨m, d, hn, hd, hlen, hc⟩ := mem_entered.1 hc
      exact ⟨m, d, target, args, h', hn, request?_eq_some.1 hreq, hd, hlen, hc⟩
  · rintro ⟨m, d, target, args, h', hn, hreq, hd, hlen, hc⟩
    rw [request?_eq_some.2 hreq]
    exact mem_entered.2 ⟨m, d, hn, hd, hlen, hc⟩

theorem mem_next : c' ∈ c.next p ↔ Leads p c c' := by
  obtain ⟨n, env, b, h⟩ := c
  cases b with
  | ret x =>
      constructor
      · intro hc
        cases hc
      · intro hleads
        cases hleads
  | bind x e b =>
      rw [Point.next, List.mem_append, mem_requested, mem_followed]
      constructor
      · rintro (⟨m, d, target, args, h', rfl, hreq, hd, hlen, rfl⟩ | ⟨l, h', he, hc⟩)
        · exact .call hreq hd hlen
        · obtain rfl := List.mem_singleton.1 hc
          exact .rest he
      · intro hleads
        cases hleads with
        | rest he => exact .inr ⟨_, _, he, .head _⟩
        | call hreq hd hlen => exact .inl ⟨_, _, _, _, _, rfl, hreq, hd, hlen, rfl⟩
  | case x arms =>
      rw [Point.next, mem_followed]
      constructor
      · rintro ⟨b, h', harm, hc⟩
        obtain rfl := List.mem_singleton.1 hc
        exact .arm harm
      · intro hleads
        cases hleads with
        | arm harm => exact ⟨_, _, harm, .head _⟩
  | inc x b =>
      rw [Point.next, mem_followed]
      constructor
      · rintro ⟨_, h', hinc, hc⟩
        obtain rfl := List.mem_singleton.1 hc
        exact .inc hinc
      · intro hleads
        cases hleads with
        | inc hinc => exact ⟨(), _, hinc, .head _⟩
  | dec x b =>
      rw [Point.next, mem_followed]
      constructor
      · rintro ⟨_, h', hdec, hc⟩
        obtain rfl := List.mem_singleton.1 hc
        exact .dec hdec
      · intro hleads
        cases hleads with
        | dec hdec => exact ⟨(), _, hdec, .head _⟩

theorem nodup_requested : (requested (entered p n) (e.request? env h)).Nodup := by
  rcases e.request? env h with _ | ⟨target, args, h'⟩
  · exact List.nodup_nil
  · cases n with
    | zero => exact List.nodup_nil
    | succ m =>
        rw [requested, entered]
        cases p.fn? target with
        | none => exact List.nodup_nil
        | some d =>
            dsimp only
            split
            · exact List.nodup_singleton _
            · exact List.nodup_nil

/-- No point comes next twice. -/
theorem nodup_next (p : Program) (c : Point) : (c.next p).Nodup := by
  obtain ⟨n, env, b, h⟩ := c
  cases b with
  | ret x => exact List.nodup_nil
  | bind x e b =>
      refine List.nodup_append'.2 ⟨nodup_requested, nodup_followed _, ?_⟩
      -- A call starts one level further down.
      intro c hcall hrest
      obtain ⟨m, d, _, args, h', rfl, -, -, -, rfl⟩ := mem_requested.1 hcall
      obtain ⟨l, h'', -, hrest⟩ := mem_followed.1 hrest
      have hdepth := congrArg Point.depth (List.mem_singleton.1 hrest)
      exact absurd hdepth (Nat.ne_of_lt (Nat.lt_succ_self m))
  | case x arms => exact nodup_followed _
  | inc x b => exact nodup_followed _
  | dec x b => exact nodup_followed _

/-! ## The parts of a trace -/

theorem armTrace_eq {calls : Tracer} {tag : Tag} :
    armTrace p n calls env h tag arms = match findArm arms tag with
      | some b => bodyTrace p n calls env h b
      | none => [] := by
  induction arms with
  | nil => rfl
  | cons arm rest ih =>
      obtain ⟨armTag, b⟩ := arm
      rw [armTrace, findArm, List.find?_cons]
      by_cases ht : (armTag == tag) = true
      · simp [ht]
      · simp only [ht, if_false, Bool.false_eq_true]
        exact ih

/-- The points of a `case` are those of the arm that is chosen. -/
theorem followed_arms {calls : Tracer} :
    followed (fun r h' => armTrace p n calls env h' r.1 arms) (readRecord env x h) =
      followed (fun b h' => bodyTrace p n calls env h' b) (chooseArm env x arms h) := by
  rw [chooseArm]
  rcases hread : readRecord env x h with ⟨halt | ⟨tag, fields⟩, mid⟩
  · rw [Eval.bind_error hread]
    rfl
  · rw [Eval.bind_ok hread]
    show armTrace p n calls env mid tag arms = followed _ ((match findArm arms tag with
      | some b => return b
      | none => Eval.fail (.noArm x tag) : Eval Body) mid)
    rw [armTrace_eq]
    cases findArm arms tag <;> rfl

/-- A call goes through the points of a function's body. -/
theorem callTrace_eq (p : Program) (n : Nat) (target : FnName) (args : List Location) (h : Heap) :
    callTrace p n target args h = (entered p n target args h).flatMap (Point.trace p) := by
  cases n with
  | zero => rfl
  | succ m =>
      rw [callTrace, entered]
      cases p.fn? target with
      | none => rfl
      | some d =>
          dsimp only
          split
          · exact (List.flatMap_singleton _ _).symm
          · rfl

theorem requested_flatMap (p : Program) (n : Nat)
    (request : Option (FnName × List Location × Heap)) :
    requested (callTrace p n) request = (requested (entered p n) request).flatMap (Point.trace p) := by
  rcases request with _ | ⟨target, args, h⟩
  · rfl
  · exact callTrace_eq p n target args h

/-- A trace starts with its point and goes on with the traces of the points that come next, one after the
other. -/
theorem trace_eq (p : Program) (c : Point) :
    c.trace p = c :: (c.next p).flatMap (Point.trace p) := by
  obtain ⟨n, env, b, h⟩ := c
  cases b with
  | ret x => rfl
  | bind x e b =>
      rw [Point.trace, bodyTrace, Point.next, List.flatMap_append, requested_flatMap, followed_flatMap]
      simp only [List.flatMap_singleton]
      rfl
  | case x arms =>
      rw [Point.trace, bodyTrace, followed_arms, Point.next, followed_flatMap]
      simp only [List.flatMap_singleton]
      rfl
  | inc x b =>
      rw [Point.trace, bodyTrace, Point.next, followed_flatMap]
      simp only [List.flatMap_singleton]
      rfl
  | dec x b =>
      rw [Point.trace, bodyTrace, Point.next, followed_flatMap]
      simp only [List.flatMap_singleton]
      rfl

/-! ## Traces and visits -/

theorem mem_trace_step : c' ∈ c.trace p ↔ c' = c ∨ ∃ mid, Leads p c mid ∧ c' ∈ mid.trace p := by
  simp only [trace_eq p c, List.mem_cons, List.mem_flatMap, mem_next]

theorem sizeOf_lt_of_chooseArm (harm : chooseArm env x arms h = (.ok b, h')) :
    sizeOf b < sizeOf (Body.case x arms) := by
  obtain ⟨arm, hmem, rfl⟩ := mem_of_chooseArm harm
  have := sizeOf_arm_lt hmem
  rw [Body.case.sizeOf_spec]
  omega

/-- What comes next is a call less deep or a smaller body. -/
theorem Leads.decreases (hleads : Leads p c c') :
    c'.depth < c.depth ∨ c'.depth = c.depth ∧ sizeOf c'.body < sizeOf c.body := by
  cases hleads with
  | call hreq hd hlen => exact .inl (Nat.lt_succ_self _)
  | arm harm => exact .inr ⟨rfl, sizeOf_lt_of_chooseArm harm⟩
  | @rest n env x e b =>
      refine .inr ⟨rfl, ?_⟩
      show sizeOf b < sizeOf (Body.bind x e b)
      rw [Body.bind.sizeOf_spec]
      omega
  | @inc n env x b =>
      refine .inr ⟨rfl, ?_⟩
      show sizeOf b < sizeOf (Body.inc x b)
      rw [Body.inc.sizeOf_spec]
      omega
  | @dec n env x b =>
      refine .inr ⟨rfl, ?_⟩
      show sizeOf b < sizeOf (Body.dec x b)
      rw [Body.dec.sizeOf_spec]
      omega

theorem visits_of_mem_trace (hc : c' ∈ c.trace p) : ReflTransGen (Leads p) c c' := by
  -- The induction is on the depth first and on the body second.
  obtain ⟨n, hn⟩ : ∃ n, n = c.depth := ⟨_, rfl⟩
  obtain ⟨m, hm⟩ : ∃ m, m = sizeOf c.body := ⟨_, rfl⟩
  induction n using Nat.strong_induction_on generalizing c m with
  | _ n ihn =>
  induction m using Nat.strong_induction_on generalizing c with
  | _ m ihm =>
  rcases mem_trace_step.1 hc with rfl | ⟨mid, hleads, hc⟩
  · exact .refl
  · refine .head hleads ?_
    rcases hleads.decreases with hlt | ⟨heq, hlt⟩
    · exact ihn _ (hn ▸ hlt) hc rfl _ rfl
    · exact ihm _ (hm ▸ hlt) hc (hn.trans heq.symm) rfl

/-- The points of a trace are those that are visited. -/
theorem mem_trace_iff : c' ∈ c.trace p ↔ ReflTransGen (Leads p) c c' := by
  constructor
  · exact visits_of_mem_trace
  · intro hvisits
    induction hvisits using ReflTransGen.head_induction_on with
    | refl => exact mem_trace_step.2 (.inl rfl)
    | head hleads _ ih => exact mem_trace_step.2 (.inr ⟨_, hleads, ih⟩)

end Reclaim
