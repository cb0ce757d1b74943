import Reclaim.Proofs.Eval.Maintains
import Reclaim.Proofs.Heap.Costs
import Reclaim.Proofs.Transparent

/-!
# Costs

Explicit memory management only moves costs.  While a body and its plain part are evaluated side by side,
the two heaps stay level: for every cell that is allocated on the left, one value is built on the right,
in a new cell or in that of a token (`evalBody_level`).  This is so wherever the two evaluations stop, also
if they fail.

So a run of a program allocates as many cells as the run of the transformed program allocates and uses
again together, and frees none of them (`run_costs`).
-/

namespace Reclaim

open Reclaim.Core Reclaim.Counting Reclaim.Heap

variable {p : Program} {f : FnDef → Body} {call₁ call₂ : Caller} {σ : Ledger} {env₁ env₂ : Env}
  {F T : Multiset Location} {h₁ h₂ : Heap} {x : Var} {e : Expr} {ls₁ ls₂ : List Location}

/-! ## Sequences -/

section

variable {α β γ δ : Type} {Q : α → Heap → β → Heap → Prop} {m₁ : Eval α} {m₂ : Eval β}
  {f₁ : α → Eval γ} {f₂ : β → Eval δ}

/-- If two computations halt together, what they leave is level; if both go on, so do level heaps. -/
theorem level_bind (m : Mirrors Q (m₁ h₁) (m₂ h₂)) (lev : Level (m₁ h₁).2 (m₂ h₂).2)
    (hf : ∀ a h₁' b h₂', Q a h₁' b h₂' → Level h₁' h₂' → Level (f₁ a h₁').2 (f₂ b h₂').2) :
    Level ((m₁ >>= f₁) h₁).2 ((m₂ >>= f₂) h₂).2 := by
  rcases hm₁ : m₁ h₁ with ⟨e₁ | a, h₁'⟩ <;> rcases hm₂ : m₂ h₂ with ⟨e₂ | b, h₂'⟩ <;>
    rw [hm₁, hm₂] at m lev
  · rw [Eval.bind_error hm₁, Eval.bind_error hm₂]
    exact lev
  · exact m.elim
  · exact m.elim
  · rw [Eval.bind_ok hm₁, Eval.bind_ok hm₂]
    exact hf _ _ _ _ m lev

/-- Two computations that maintain everything, up to the counts of cells, leave level heaps. -/
theorem level_of_maintains (hm₁ : ∀ h₂, Eval.Maintains (Level · h₂) m₁)
    (hm₂ : ∀ h₁, Eval.Maintains (Level h₁) m₂) (lev : Level h₁ h₂) :
    Level (m₁ h₁).2 (m₂ h₂).2 :=
  hm₁ _ (hm₂ h₁ lev)

end

/-! ## Expressions -/

/-- Calls with alike arguments leave level heaps. -/
def KeepsLevel (call₁ call₂ : Caller) : Prop :=
  ∀ {target : FnName} {ls₁ ls₂ : List Location} {F : Multiset Location} {h₁ h₂ : Heap},
    h₂.AccountedFor (ls₂ + F) → List.Forall₂ (Alike h₁ h₂) ls₁ ls₂ →
      Level h₁ h₂ → Level (call₁ target ls₁ h₁).2 (call₂ target ls₂ h₂).2

theorem level_allocated {o₁ o₂ : Except Halt Value} (lev : Level h₁ h₂)
    (m : Mirrors (Shaped h₁ h₂) (o₁, h₁) (o₂, h₂)) :
    Level (allocated h₁ o₁).2 (allocated h₂ o₂).2 := by
  rcases o₁ with e₁ | v₁ <;> rcases o₂ with e₂ | v₂
  · exact lev
  · exact m.elim
  · exact m.elim
  · exact lev.alloc v₁ v₂

theorem level_allocClosure {target : FnName} (lev : Level h₁ h₂)
    (hls : List.Forall₂ (Alike h₁ h₂) ls₁ ls₂) :
    Level (allocClosure p target ls₁ h₁).2 (allocClosure (p.mapBodies f) target ls₂ h₂).2 := by
  rw [allocClosure_eq, allocClosure_eq, closureOf_mapBodies]
  exact level_allocated lev (closureOf_mirrors hls)

theorem level_forward (env₁ env₂ : Env) (x : Var) (xs : List Var) (lev : Level h₁ h₂) :
    Level (forward env₁ x xs h₁).2 (forward env₂ x xs h₂).2 :=
  level_of_maintains (fun _ => maintains_forward (fun _ ls lev => lev.inc_left ls) env₁ x xs)
    (fun _ => maintains_forward (fun _ ls lev => lev.right (inc_balances lev.balances ls)) env₂ x xs)
    lev

/-- A record that is built in the cell of a token is level with one in a new cell. -/
theorem level_reuse {w : Var} {c : Construction} (hp : DistinctFields p)
    (bk : Backed False σ env₂ F T h₂) (agr : Agrees σ env₁ h₁ env₂ h₂)
    (adm : σ.Admits (.reuse w c)) (lev : Level h₁ h₂) :
    Level (evalExpr p call₁ env₁ (.new c) h₁).2
      (evalExpr (p.mapBodies f) call₂ env₂ (.reuse w c) h₂).2 := by
  have hw : env₂.Bound w.text :=
    bk.token (Multiset.mem_of_le adm.spent (Multiset.mem_singleton_self _))
  have hspare : ∀ i, env₂.loc w.text = .cell i → h₂.Spare i := by
    intro i hi
    refine (bk.vacant_spent adm).spare ?_
    simp [Expr.spent, hi]
  have hfields : Mirrors (Shaped h₁ h₂) (buildRecord p env₁ c h₁)
      (buildRecord (p.mapBodies f) env₂ c h₂) := by
    rw [buildRecord_eq (agr.bound adm), buildRecord_eq (bk.bound_consumed adm)]
    exact recordOf_mirrors hp (by simp) (agr.consumed adm)
  rw [evalExpr, evalExpr, Eval.bind_ok (read_eq hw h₂)]
  refine level_bind hfields ?_ ?_
  · exact level_of_maintains (fun _ => maintains_buildRecord p env₁ c)
      (fun _ => maintains_buildRecord _ env₂ c) lev
  · rintro v₁ _ v₂ _ ⟨rfl, rfl, -⟩ -
    rw [Eval.onHeap_snd]
    exact lev.reuse hspare v₁ v₂

theorem evalExpr_level (hp : DistinctFields p) (hlevel : KeepsLevel call₁ call₂)
    (bk : Backed False σ env₂ F T h₂) (agr : Agrees σ env₁ h₁ env₂ h₂) (adm : σ.Admits e)
    (he : ∀ y, e ≠ .reset y) (lev : Level h₁ h₂) :
    Level (evalExpr p call₁ env₁ e.plain h₁).2 (evalExpr (p.mapBodies f) call₂ env₂ e h₂).2 := by
  have acc := bk.accounted_consumed adm
  have hbound₁ := agr.bound adm
  have hbound₂ := bk.bound_consumed adm
  have hargs := agr.consumed adm
  cases e with
  | call target xs =>
      simp only [Expr.plain]
      rw [evalExpr, evalExpr, Eval.bind_ok (readAll_eq xs hbound₁ h₁),
        Eval.bind_ok (readAll_eq xs hbound₂ h₂)]
      exact hlevel acc hargs lev
  | close target xs =>
      simp only [Expr.plain]
      rw [evalExpr, evalExpr, Eval.bind_ok (readAll_eq xs hbound₁ h₁),
        Eval.bind_ok (readAll_eq xs hbound₂ h₂)]
      exact level_allocClosure lev hargs
  | apply x xs =>
      have hx := adm.inspected x (.head _)
      obtain ⟨hx₁, a⟩ := agr hx
      simp only [Expr.plain]
      rw [evalExpr, evalExpr]
      have hforward := forward_mirrors hx₁ (bk.bound hx) hbound₁ hbound₂ a hargs
      have hright := bk.forward hx hbound₂ (bk.reachable_consumed adm) acc bk.vacant
      refine level_bind (hforward.and hright) (level_forward env₁ env₂ x xs lev) ?_
      rintro ⟨target, args₁⟩ h₁' ⟨_, args₂⟩ h₂' ⟨⟨rfl, -, hargs'⟩, acc', -⟩ lev'
      exact hlevel acc' hargs' lev'
  | extend x xs =>
      have hx := adm.inspected x (.head _)
      obtain ⟨hx₁, a⟩ := agr hx
      simp only [Expr.plain]
      rw [evalExpr, evalExpr]
      have hforward := forward_mirrors hx₁ (bk.bound hx) hbound₁ hbound₂ a hargs
      refine level_bind hforward (level_forward env₁ env₂ x xs lev) ?_
      rintro ⟨target, args₁⟩ h₁' ⟨_, args₂⟩ h₂' ⟨rfl, -, hargs'⟩ lev'
      exact level_allocClosure lev' hargs'
  | new c =>
      simp only [Expr.plain]
      rw [evalExpr, evalExpr, buildRecord_alloc hbound₁, buildRecord_alloc hbound₂]
      exact level_allocated lev (recordOf_mirrors hp (by simp) hargs)
  | reuse w c => exact level_reuse hp bk agr adm lev
  | proj field record =>
      exact level_of_maintains (fun _ => maintains_proj p call₁ env₁ field record)
        (fun _ => maintains_proj _ call₂ env₂ field record) lev
  | reset y => exact absurd rfl (he y)

/-! ## Bodies -/

theorem evalArm_level {tag : Tag} {arms : List Arm} (lev : Level h₁ h₂)
    (harms : ∀ arm ∈ arms, Level (evalBody p call₁ env₁ arm.2.plain h₁).2
      (evalBody (p.mapBodies f) call₂ env₂ arm.2 h₂).2) :
    Level (evalArm p call₁ env₁ x tag (plainArms arms) h₁).2
      (evalArm (p.mapBodies f) call₂ env₂ x tag arms h₂).2 := by
  rw [evalArm_eq, evalArm_eq, findArm_plainArms]
  cases hb : findArm arms tag with
  | none => exact lev
  | some b =>
      obtain ⟨arm, hmem, rfl⟩ := mem_of_findArm hb
      exact harms arm hmem

/-- Wherever a balanced body and its plain part stop, the heaps are level. -/
theorem evalBody_level {body : Body} (hp : DistinctFields p) (hcons : Conserves False call₂)
    (hcall : Simulates call₁ call₂) (hlevel : KeepsLevel call₁ call₂) (bal : Balanced σ body)
    (bk : Backed False σ env₂ F T h₂) (agr : Agrees σ env₁ h₁ env₂ h₂) (lev : Level h₁ h₂) :
    Level (evalBody p call₁ env₁ body.plain h₁).2
      (evalBody (p.mapBodies f) call₂ env₂ body h₂).2 := by
  induction bal generalizing env₁ env₂ h₁ h₂ with
  | @ret σ x hheld =>
      rw [Body.plain, evalBody, evalBody]
      exact level_of_maintains (fun _ => maintains_read env₁ x) (fun _ => maintains_read env₂ x) lev
  | @bind σ x e body adm n _ ih =>
      by_cases he : ∃ y, e = .reset y
      · obtain ⟨y, rfl⟩ := he
        have hy : σ.Supported y.text := Backed.supported_consumed adm (.head _)
        obtain ⟨m, h₂', heq, step⟩ := reset_eq (p.mapBodies f) call₂ bk adm (agr hy).2.ne_invalid
        have lev' : Level h₁ h₂' := by
          have hreset : ∀ ⦃h⦄ l, Level h₁ h → Level h₁ (h.reset l).2 :=
            fun _ l lev => lev.right (reset_balances lev.balances l)
          exact (maintains_reset hreset (p.mapBodies f) call₂ env₂ y).after heq lev
        rw [Body.plain, evalBody, Eval.bind_ok heq]
        exact ih (step.bind n) (agr.reset bk adm step n) lev'
      · have he' : ∀ y, e ≠ .reset y := fun y hy => he ⟨y, hy⟩
        rw [plain_bind he', evalBody, evalBody]
        have hexpr : Mirrors (Builds h₁) (evalExpr p call₁ env₁ e.plain h₁)
            (evalExpr (p.mapBodies f) call₂ env₂ e h₂) :=
          evalExpr_mirrors hp hcall bk agr adm he'
        have hsteps : Meets False (Steps False σ e env₂ F T h₂)
            (evalExpr (p.mapBodies f) call₂ env₂ e h₂) := evalExpr_steps hp hcons bk adm
        refine level_bind (hexpr.and hsteps) (evalExpr_level hp hlevel bk agr adm he' lev) ?_
        rintro l₁ h₁' l₂ h₂' ⟨built, step⟩ lev'
        exact ih (step.bind n) (agr.bind bk adm step built n) lev'
  | @case σ x arms hx _ ih =>
      obtain ⟨hbound, a⟩ := agr hx
      rw [Body.plain, evalBody, evalBody]
      rcases a.closure_or_record with ⟨target, args₁, args₂, hv₁, hv₂, -⟩ |
        ⟨tag, fields₁, fields₂, hv₁, hv₂, -, -⟩
      · rw [Eval.bind_error (readRecord_closure hbound hv₁),
          Eval.bind_error (readRecord_closure (bk.bound hx) hv₂)]
        exact lev
      · rw [Eval.bind_ok (readRecord_record hbound hv₁),
          Eval.bind_ok (readRecord_record (bk.bound hx) hv₂)]
        exact evalArm_level lev fun arm harm => ih arm harm bk agr lev
  | @inc σ x body hx _ ih =>
      obtain ⟨h₂', hinc, bk', same, -⟩ := bk.take hx
      have lev' : Level h₁ h₂' := by
        have := lev.right (inc_balances lev.balances [env₂.loc x.text])
        rwa [hinc] at this
      rw [Body.plain, evalBody, Eval.bind_ok (read_eq (bk.bound hx) h₂),
        Eval.bind_ok (Eval.onHeap_ok hinc)]
      exact ih bk' (agr.take hx same) lev'
  | @dec σ x body hx _ ih =>
      obtain ⟨h₂', hdec, bk', keeps, -⟩ := bk.drop hx
      have lev' : Level h₁ h₂' := by
        have := lev.right (dec_balances lev.balances [env₂.loc x.text])
        rwa [hdec] at this
      rw [Body.plain, evalBody, Eval.bind_ok (read_eq (bk.bound (.held hx)) h₂),
        Eval.bind_ok (Eval.onHeap_ok hdec)]
      exact ih bk' (agr.drop bk hx keeps) lev'

/-! ## Calls -/

/-- Functions whose bodies balance and have given plain parts keep heaps level, to whatever depth they
are called. -/
theorem callFn_keepsLevel (hp : DistinctFields p) (hf : BalancedFns (p.mapBodies f))
    (hplain : ∀ d ∈ p.fns, (f d).plain = d.body) (depth : Nat) :
    KeepsLevel (callFn p depth) (callFn (p.mapBodies f) depth) := by
  induction depth with
  | zero => exact fun _ _ lev => lev
  | succ depth ih =>
      intro target ls₁ ls₂ F h₁ h₂ acc hls lev
      rw [callFn, callFn, Program.fn?_mapBodies]
      cases hd : p.fn? target with
      | none => exact lev
      | some d =>
          have hmem := Program.mem_of_fn? hd
          obtain ⟨hnodup, hbal⟩ := hf _ (List.mem_map_of_mem hmem)
          dsimp only [Option.map] at hnodup hbal ⊢
          rw [← hls.length_eq]
          split
          · next hlen =>
              have bk := backed_ofAlike hnodup hlen acc hls
              rw [← hplain d hmem]
              exact evalBody_level hp (callFn_conserves False (p := p.mapBodies f) hp hf depth)
                (callFn_simulates hp hf hplain depth) ih hbal bk (agrees_ofArgs hnodup hlen hls) lev
          · exact lev

/-- Wherever the two runs stop, to whatever depth calls are nested, the heaps are level. -/
theorem run_level (hp : WellFormed p) (hm : Unmanaged p) (depth : Nat) (entry : String) :
    Level (run p depth entry .empty).2 (run (insertCounts p) depth entry .empty).2 := by
  have hcalls : KeepsLevel (callFn p depth) (callFn (insertCounts p) depth) :=
    callFn_keepsLevel hp.fields (balancedFns_insertCounts hp hm)
      (fun d hd => managedBody_plain (hm d hd)) depth
  unfold run
  rw [insertCounts, Program.fn?_mapBodies]
  cases p.fn? ⟨entry, .none⟩ with
  | none => exact level_empty
  | some d =>
      dsimp only [Option.map]
      split
      · exact hcalls (F := 0) accountedFor_empty .nil level_empty
      · exact level_empty

/-! ## The main statement -/

/-- The costs of a run and of the run of the transformed program compared. -/
structure Costs (h h' : Heap) : Prop where
  /-- Every allocation of the one is an allocation or a reuse of the other. -/
  built : h.stats.allocations = h'.stats.allocations + h'.stats.reuses
  /-- The one frees nothing. -/
  noFrees : h.stats.frees = 0
  /-- It uses no cell again. -/
  noReuses : h.stats.reuses = 0
  /-- It declines no reset. -/
  noDeclined : h.stats.declined = 0
  /-- In the other, whatever was built is live or has been freed. -/
  total : h'.live + h'.stats.frees = h'.stats.allocations + h'.stats.reuses
  /-- It does not allocate more. -/
  allocations : h'.stats.allocations ≤ h.stats.allocations
  /-- It does not leave more cells live. -/
  live : h'.live ≤ h.live

theorem costs_of_level {h h' : Heap} (lev : Level h h') : Costs h h' := by
  have hbuilt : h.stats.allocations = h'.built := by rw [lev.grown]
  have htotal := lev.balances.total
  have hlive := lev.live
  constructor
  case built => exact hbuilt
  case noFrees => rw [lev.grown]
  case noReuses => rw [lev.grown]
  case noDeclined => rw [lev.grown]
  case total => exact htotal
  case allocations =>
    rw [hbuilt, Heap.built]
    omega
  case live => omega

/-- If a run of a program comes to an end, with a result or a failure, then so does the run of the
transformed program, and their costs compare. -/
theorem run_costs {source entry : String} {o : Except Fault Location} {h : Heap}
    (hload : load source = .ok p) (hm : Unmanaged p) (e : Ends p entry o h) :
    (∃ o' h', Ends (insertCounts p) entry o' h') ∧
      ∀ {o' : Except Fault Location} {h' : Heap}, Ends (insertCounts p) entry o' h' →
        Costs h h' := by
  have hp := wellFormed_of_load hload
  obtain ⟨o', h', ends', -⟩ := exists_ends hp hm e
  refine ⟨⟨o', h', ends'⟩, fun {o'' h''} ends'' => ?_⟩
  obtain ⟨n, hn⟩ := e.eventually
  obtain ⟨m, hm'⟩ := ends''.eventually
  have lev := run_level hp hm (max n m) entry
  rw [hn _ (Nat.le_max_left n m), hm' _ (Nat.le_max_right n m)] at lev
  exact costs_of_level lev

/-- The costs of taking a pair apart and building it again, in a new cell or in its own. -/
theorem run_costs_swap : ∃ p o h o' h', load swapSource = .ok p ∧ Unmanaged p ∧
    Ends p "main" o h ∧ Ends (insertCounts p) "main" o' h' ∧ Costs h h' := by
  obtain ⟨p, hload, hm, ⟨l, h, hrun⟩, ⟨l', h', hrun'⟩, -⟩ := exists_swap
  have ends : Ends p "main" (.ok l) h := ⟨2, hrun⟩
  have ends' : Ends (insertCounts p) "main" (.ok l') h' := ⟨2, hrun'⟩
  exact ⟨p, .ok l, h, .ok l', h', hload, hm, ends, ends', (run_costs hload hm ends).2 ends'⟩

end Reclaim
