import Reclaim.Proofs.Eval.Depth

/-!
# What a run reads of its environment

Two environments *agree* on a set of variables when each of them is bound to the same location in
both, or bound in neither (`Env.AgreeOn`).  A body whose free variables two environments agree on is
evaluated alike in both, and this holds for every way of carrying out calls (`evalBody_congr`): each
location that the evaluation asks for is that of a free variable, also where it goes on to fail.  So
a variable that is not mentioned may be bound, rebound or removed (`runs_read_free_variables_only`).
-/

namespace Reclaim

open Reclaim.Core

variable {p : Program} {call : Caller} {env env' : Env} {e : Expr} {b : Body} {x : Var}
  {xs : List Var} {vars : VarSet} {l : Location} {t : String} {h : Heap}

/-! ## Environments that agree -/

namespace Env

/-- Each of the variables has the same location in both environments, or none in either. -/
def AgreeOn (vars : VarSet) (env env' : Env) : Prop :=
  ∀ x ∈ vars.toList, env.find? x = env'.find? x

/-- The environment without the bindings of a variable. -/
def unbind (env : Env) (x : Var) : Env := env.filter fun b => !(b.1 == x)

/-- The variable with a spelling has the same location in both environments, or none in either. -/
def SameAt (env env' : Env) (t : String) : Prop :=
  env.find? ⟨t, .none⟩ = env'.find? ⟨t, .none⟩

theorem SameAt.find? (same : SameAt env env' x.text) : env.find? x = env'.find? x := same

theorem AgreeOn.sameAt (agree : AgreeOn vars env env') (ht : t ∈ vars.texts) :
    SameAt env env' t := by
  obtain ⟨x, hx, rfl⟩ := List.mem_map.1 ht
  exact agree x hx

theorem SameAt.bind (same : t ≠ x.text → SameAt env env' t) (l : Location) :
    SameAt (env.bind x l) (env'.bind x l) t := by
  unfold SameAt
  rw [find?_bind, find?_bind]
  split
  · rfl
  · next ht => exact same ht

theorem sameAt_bind_of_ne (ht : t ≠ x.text) (l : Location) : SameAt (env.bind x l) env t := by
  unfold SameAt
  rw [find?_bind, if_neg ht]

theorem sameAt_unbind_of_ne (ht : t ≠ x.text) : SameAt (env.unbind x) env t := by
  unfold SameAt unbind Env.find?
  rw [List.find?_filter]
  congr 2
  funext b
  by_cases hb : b.1.text = t
  · have hx : (b.1 == x) = false := Name.beq_eq_false_iff.2 (hb ▸ ht)
    simp [hx]
  · have hx : (b.1 == (⟨t, .none⟩ : Var)) = false := Name.beq_eq_false_iff.2 hb
    simp [hx]

end Env

open Env (SameAt AgreeOn)

theorem Core.Body.ne_of_not_mentions (hx : b.mentions x = false) (ht : t ∈ b.freeVars.texts) :
    t ≠ x.text := by
  rintro rfl
  rw [Body.mentions, OrderedSet.contains_iff.2 ht] at hx
  cases hx

/-! ## Reading -/

theorem read_congr (hx : SameAt env env' x.text) : env.read x = env'.read x := by
  rw [Env.read, Env.read, hx.find?]

theorem readAll_congr (hxs : ∀ t ∈ xs.map (·.text), SameAt env env' t) :
    env.readAll xs = env'.readAll xs := by
  unfold Env.readAll
  induction xs with
  | nil => rfl
  | cons x rest ih =>
      rw [List.mapM_cons, List.mapM_cons, read_congr (hxs _ (.head _)),
        ih fun t ht => hxs t (.tail _ ht)]

theorem readRecord_congr (hx : SameAt env env' x.text) :
    readRecord env x = readRecord env' x := by
  rw [readRecord, readRecord, readValue, readValue, read_congr hx]

theorem readClosure_congr (hx : SameAt env env' x.text) :
    readClosure env x = readClosure env' x := by
  rw [readClosure, readClosure, readValue, readValue, read_congr hx]

theorem buildRecord_congr {c : Construction}
    (hfields : ∀ t ∈ c.fields.map (·.text), SameAt env env' t) :
    buildRecord p env c = buildRecord p env' c := by
  rw [buildRecord, buildRecord, readAll_congr hfields]

theorem forward_congr (hx : SameAt env env' x.text)
    (hxs : ∀ t ∈ xs.map (·.text), SameAt env env' t) : forward env x xs = forward env' x xs := by
  rw [forward, forward, readClosure_congr hx, readAll_congr hxs]

/-! ## Expressions and bodies -/

/-- An expression asks for the locations of its free variables only. -/
theorem evalExpr_congr (agree : ∀ t ∈ e.freeVars.texts, SameAt env env' t) :
    evalExpr p call env e = evalExpr p call env' e := by
  have hconsumed : ∀ t ∈ e.consumed.map (·.text), SameAt env env' t := fun t ht =>
    agree t (Expr.mem_freeVars.2 (.inl ht))
  have hinspected : ∀ t ∈ e.inspected.map (·.text), SameAt env env' t := fun t ht =>
    agree t (Expr.mem_freeVars.2 (.inr (.inl ht)))
  have hspent : ∀ t ∈ e.spent.map (·.text), SameAt env env' t := fun t ht =>
    agree t (Expr.mem_freeVars.2 (.inr (.inr ht)))
  cases e with
  | call target xs | close target xs =>
      have hargs : env.readAll xs = env'.readAll xs := readAll_congr hconsumed
      rw [evalExpr, evalExpr, hargs]
  | apply x xs | extend x xs =>
      have hforward : forward env x xs = forward env' x xs :=
        forward_congr (hinspected x.text (.head _)) hconsumed
      rw [evalExpr, evalExpr, hforward]
  | new c => rw [evalExpr, evalExpr, buildRecord_congr hconsumed]
  | proj field record =>
      rw [evalExpr, evalExpr, readRecord_congr (hinspected record.text (.head _))]
  | reset x => rw [evalExpr, evalExpr, read_congr (hconsumed x.text (.head _))]
  | reuse token c =>
      rw [evalExpr, evalExpr, read_congr (hspent token.text (.head _)), buildRecord_congr hconsumed]

theorem evalArm_congr {tag : Tag} {arms : List Arm}
    (harms : ∀ arm ∈ arms, evalBody p call env arm.2 = evalBody p call env' arm.2) :
    evalArm p call env x tag arms = evalArm p call env' x tag arms := by
  rw [evalArm_eq, evalArm_eq]
  cases hb : findArm arms tag with
  | none => rfl
  | some b =>
      obtain ⟨arm, hmem, rfl⟩ := mem_of_findArm hb
      exact harms arm hmem

/-- A body asks for the locations of its free variables only. -/
theorem evalBody_congr (agree : ∀ t ∈ b.freeVars.texts, SameAt env env' t) :
    evalBody p call env b = evalBody p call env' b := by
  induction b generalizing env env' with
  | ret x => rw [evalBody, evalBody, read_congr (agree _ (Body.mem_freeVars_ret.2 rfl))]
  | bind x e b ih =>
      rw [evalBody, evalBody, evalExpr_congr fun t ht => agree t (Body.mem_freeVars_bind.2 (.inl ht))]
      refine bind_congr fun l => ih fun t ht => ?_
      -- Both environments now bind `x` to the value of the expression, whatever they did before.
      exact .bind (fun hne => agree t (Body.mem_freeVars_bind.2 (.inr ⟨ht, hne⟩))) l
  | case x arms ih =>
      rw [evalBody, evalBody, readRecord_congr (agree _ (Body.mem_freeVars_case.2 (.inl rfl)))]
      refine bind_congr fun r => evalArm_congr fun arm harm => ih arm harm fun t ht => ?_
      exact agree t (Body.mem_freeVars_case.2 (.inr ⟨arm, harm, ht⟩))
  | inc x b ih =>
      rw [evalBody, evalBody, read_congr (agree _ (Body.mem_freeVars_inc.2 (.inl rfl))),
        ih fun t ht => agree t (Body.mem_freeVars_inc.2 (.inr ht))]
  | dec x b ih =>
      rw [evalBody, evalBody, read_congr (agree _ (Body.mem_freeVars_dec.2 (.inl rfl))),
        ih fun t ht => agree t (Body.mem_freeVars_dec.2 (.inr ht))]

/-! ## How the evaluation of a body ends -/

/-- The evaluation of a body in an environment comes to an end, with a result or with a fault, if
calls may be nested deeply enough. -/
def Evaluates (p : Program) (env : Env) (b : Body) (h : Heap) (o : Except Fault Location)
    (h' : Heap) : Prop :=
  ∃ depth, evalBody p (callFn p depth) env b h = (o.mapError .fault, h')

/-- The evaluation of a body comes to no end, however deeply calls may be nested. -/
def Diverges (p : Program) (env : Env) (b : Body) (h : Heap) : Prop :=
  ∀ depth, (evalBody p (callFn p depth) env b h).1 = .error .exhausted

/-- Either the evaluation comes to no end, or it ends in some way. -/
theorem diverges_or_evaluates (p : Program) (env : Env) (b : Body) (h : Heap) :
    Diverges p env b h ∨ ∃ o h', Evaluates p env b h o h' := by
  by_cases hdiv : Diverges p env b h
  · exact .inl hdiv
  · obtain ⟨depth, hne⟩ := not_forall.1 hdiv
    obtain ⟨o, h', hrun⟩ := exists_ended hne
    exact .inr ⟨o, h', depth, hrun⟩

/-- The evaluations of a body in two environments come to no end, or they both end with the same
result or the same report and leave the same heap. -/
def SameRun (p : Program) (b : Body) (h : Heap) (env env' : Env) : Prop :=
  (Diverges p env b h ∧ Diverges p env' b h) ∨
    ∃ o h', Evaluates p env b h o h' ∧ Evaluates p env' b h o h'

theorem sameRun_of_agree (agree : ∀ t ∈ b.freeVars.texts, SameAt env env' t) (p : Program)
    (h : Heap) : SameRun p b h env env' := by
  have hevaluates : ∀ {o h'}, Evaluates p env b h o h' → Evaluates p env' b h o h' := by
    rintro o h' ⟨depth, hrun⟩
    exact ⟨depth, evalBody_congr agree ▸ hrun⟩
  rcases diverges_or_evaluates p env b h with hdiv | ⟨o, h', hev⟩
  · refine .inl ⟨hdiv, fun depth => ?_⟩
    rw [← evalBody_congr agree]
    exact hdiv depth
  · exact .inr ⟨o, h', hev, hevaluates hev⟩

/-- A body runs alike in environments that agree on its free variables.  So a variable that it does
not mention may be bound or bound anew, and its bindings may be removed. -/
theorem runs_read_free_variables_only (p : Program) (b : Body) (h : Heap) :
    (∀ env env', AgreeOn b.freeVars env env' → SameRun p b h env env') ∧
    ∀ env x, b.mentions x = false →
      (∀ l, SameRun p b h (env.bind x l) env) ∧ SameRun p b h (env.unbind x) env := by
  refine ⟨?_, ?_⟩
  · intro env env' agree
    exact sameRun_of_agree (fun t ht => agree.sameAt ht) p h
  · intro env x hx
    refine ⟨fun l => ?_, ?_⟩
    · exact sameRun_of_agree (fun t ht => Env.sameAt_bind_of_ne (b.ne_of_not_mentions hx ht) l) p h
    · exact sameRun_of_agree (fun t ht => Env.sameAt_unbind_of_ne (b.ne_of_not_mentions hx ht)) p h

/-- The body of a function that counts and returns the first component of a pair, which it calls
`y`. -/
def firstOfPair : Body :=
  .case ⟨"p", .none⟩ [(⟨"Pair", .none⟩,
    .bind ⟨"y", .none⟩ (.proj ⟨"fst", .none⟩ ⟨"p", .none⟩) (.inc ⟨"y", .none⟩ (.ret ⟨"y", .none⟩)))]

/-- A heap with a `Unit` in its first cell, and with a pair of two references to it. -/
def heapOfPair : Heap :=
  let unit := Value.record ⟨"Unit", .none⟩ .empty
  let fields := .ofList [(⟨"fst", .none⟩, .cell 0), (⟨"snd", .none⟩, .cell 0)]
  ((Heap.empty.alloc unit).2.alloc (.record ⟨"Pair", .none⟩ fields)).2

/-- An environment where `p` is that pair, and `y` is the pair too. -/
def envOfPair : Env := [(⟨"y", .none⟩, .cell 1), (⟨"p", .none⟩, .cell 1)]

theorem runs_read_free_variables_only_pair : ∃ h',
    AgreeOn firstOfPair.freeVars envOfPair [(⟨"p", .none⟩, .cell 1)] ∧
    ¬ SameAt envOfPair [(⟨"p", .none⟩, .cell 1)] "y" ∧
    Evaluates ⟨[], []⟩ envOfPair firstOfPair heapOfPair (.ok (.cell 0)) h' ∧
    SameRun ⟨[], []⟩ firstOfPair heapOfPair envOfPair [(⟨"p", .none⟩, .cell 1)] ∧
    firstOfPair.mentions ⟨"y", .none⟩ = false ∧
    SameRun ⟨[], []⟩ firstOfPair heapOfPair (envOfPair.bind ⟨"y", .none⟩ (.cell 0)) envOfPair ∧
    SameRun ⟨[], []⟩ firstOfPair heapOfPair (envOfPair.unbind ⟨"y", .none⟩) envOfPair := by
  obtain ⟨hagree, hmentions⟩ := runs_read_free_variables_only ⟨[], []⟩ firstOfPair heapOfPair
  have agree : AgreeOn firstOfPair.freeVars envOfPair [(⟨"p", .none⟩, .cell 1)] := by
    intro x hx
    cases List.mem_singleton.1 hx
    rfl
  obtain ⟨hbind, hunbind⟩ := hmentions envOfPair ⟨"y", .none⟩ rfl
  exact ⟨_, agree, nofun, ⟨0, rfl⟩, hagree _ _ agree, rfl, hbind _, hunbind⟩

end Reclaim
