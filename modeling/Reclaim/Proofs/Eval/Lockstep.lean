import Reclaim.Proofs.Counting.Plain
import Reclaim.Proofs.Eval.Conservation
import Reclaim.Proofs.Heap.Alike

/-!
# Evaluation in lockstep

A body and its plain part are evaluated side by side: on the left the plain part, on a heap that only
grows, and on the right the body itself, on a heap from which cells are taken away and in which they
are used again.  Both come to an end together, with results that are built alike or with the same halt
(`Mirrors`).

The invariant is that supported variables are alike on both sides (`Agrees`).  What happens on the
right meanwhile is known from the ledger that its heap backs: whatever supported variables reach is
kept.  Adjustments of counts and resets have nothing to go with on the left and only have to keep the
invariant (`Agrees.reset`, `Agrees.take`, `Agrees.drop`).
-/

namespace Reclaim

open Reclaim.Core Reclaim.Counting Reclaim.Heap

/-! ## Outcomes side by side -/

section

variable {α β γ δ : Type} {gap : Prop} {Q R : α → Heap → β → Heap → Prop}
  {S : γ → Heap → δ → Heap → Prop} {P : β → Heap → Prop} {o₁ : Except Halt α × Heap}
  {o₂ : Except Halt β × Heap}

/-- Two outcomes are related results, or they are the same halt. -/
def Mirrors (R : α → Heap → β → Heap → Prop) : Except Halt α × Heap → Except Halt β × Heap → Prop
  | (.ok a, h₁), (.ok b, h₂) => R a h₁ b h₂
  | (.error e₁, _), (.error e₂, _) => e₁ = e₂
  | _, _ => False

namespace Mirrors

theorem imp (m : Mirrors Q o₁ o₂) (hQ : ∀ a h₁ b h₂, Q a h₁ b h₂ → R a h₁ b h₂) :
    Mirrors R o₁ o₂ := by
  obtain ⟨e₁ | a, h₁⟩ := o₁ <;> obtain ⟨e₂ | b, h₂⟩ := o₂
  · exact m
  · exact m
  · exact m
  · exact hQ _ _ _ _ m

/-- What is known of the right side alone can be used as well. -/
theorem and (m : Mirrors Q o₁ o₂) (ho : Meets gap P o₂) :
    Mirrors (fun a h₁ b h₂ => Q a h₁ b h₂ ∧ P b h₂) o₁ o₂ := by
  obtain ⟨e₁ | a, h₁⟩ := o₁ <;> obtain ⟨e₂ | b, h₂⟩ := o₂
  · exact m
  · exact m
  · exact m
  · exact ⟨m, ho⟩

theorem bind {m₁ : Eval α} {m₂ : Eval β} {f₁ : α → Eval γ} {f₂ : β → Eval δ} {h₁ h₂ : Heap}
    (m : Mirrors Q (m₁ h₁) (m₂ h₂))
    (hf : ∀ a h₁' b h₂', Q a h₁' b h₂' → Mirrors S (f₁ a h₁') (f₂ b h₂')) :
    Mirrors S ((m₁ >>= f₁) h₁) ((m₂ >>= f₂) h₂) := by
  rcases hm₁ : m₁ h₁ with ⟨e₁ | a, h₁'⟩ <;> rcases hm₂ : m₂ h₂ with ⟨e₂ | b, h₂'⟩ <;>
    rw [hm₁, hm₂] at m
  · rw [Eval.bind_error hm₁, Eval.bind_error hm₂]
    exact m
  · exact m.elim
  · exact m.elim
  · rw [Eval.bind_ok hm₁, Eval.bind_ok hm₂]
    exact hf _ _ _ _ m

end Mirrors

end

variable {p : Program} {f : FnDef → Body} {call₁ call₂ : Caller} {σ : Ledger} {env₁ env₂ : Env}
  {F T : Multiset Location} {h₁ h₁' h₂ h₂' : Heap} {x : Var} {e : Expr} {t : String}
  {l₁ l₂ : Location} {ls₁ ls₂ : List Location} {o₁ o₂ : Except Halt Location × Heap}

/-- The left side ends with what was there and a result that is built like that on the right. -/
def Builds (h₁ : Heap) (l₁ : Location) (h₁' : Heap) (l₂ : Location) (h₂' : Heap) : Prop :=
  h₁.Grows h₁' ∧ Alike h₁' h₂' l₁ l₂

theorem Mirrors.after (m : Mirrors (Builds h₁') o₁ o₂) (g : h₁.Grows h₁') :
    Mirrors (Builds h₁) o₁ o₂ :=
  m.imp fun _ _ _ _ built => ⟨g.trans built.1, built.2⟩

/-- Calls with alike arguments end alike. -/
def Simulates (call₁ call₂ : Caller) : Prop :=
  ∀ {target : FnName} {ls₁ ls₂ : List Location} {F : Multiset Location} {h₁ h₂ : Heap},
    h₂.AccountedFor (ls₂ + F) → List.Forall₂ (Alike h₁ h₂) ls₁ ls₂ →
      Mirrors (Builds h₁) (call₁ target ls₁ h₁) (call₂ target ls₂ h₂)

/-! ## Building values -/

/-- The outcomes of building values from alike parts. -/
abbrev Shaped (h₁ h₂ : Heap) (v₁ : Value) (h₁' : Heap) (v₂ : Value) (h₂' : Heap) : Prop :=
  h₁' = h₁ ∧ h₂' = h₂ ∧ Similar h₁ h₂ v₁ v₂

theorem recordOf_mirrors {c : Construction} (hp : DistinctFields p)
    (hlen : c.fields.length = ls₁.length) (hls : List.Forall₂ (Alike h₁ h₂) ls₁ ls₂) :
    Mirrors (Shaped h₁ h₂) (recordOf p c ls₁, h₁) (recordOf p c ls₂, h₂) := by
  rcases recordOf_cases p c with ⟨e, he⟩ | ⟨d, hd, hlen', hok⟩
  · rw [he, he]
    rfl
  · have hlen₁ := hlen'.trans hlen
    have hlen₂ := hlen₁.trans hls.length_eq
    have he₁ := entries_of_fields (hp d hd) hlen₁
    have he₂ := entries_of_fields (hp d hd) hlen₂
    rw [hok, hok]
    refine ⟨rfl, rfl, ?_, ?_⟩
    · rw [Value.shape, Value.shape, OrderedMap.keys, OrderedMap.keys, he₁, he₂,
        List.map_fst_zip hlen₁.le, List.map_fst_zip hlen₂.le]
    · rw [Value.children, Value.children, OrderedMap.values, OrderedMap.values, he₁, he₂,
        List.map_snd_zip hlen₁.ge, List.map_snd_zip hlen₂.ge]
      exact hls

theorem closureOf_mirrors {target : FnName} (hls : List.Forall₂ (Alike h₁ h₂) ls₁ ls₂) :
    Mirrors (Shaped h₁ h₂) (closureOf p target ls₁, h₁) (closureOf p target ls₂, h₂) := by
  unfold closureOf
  cases p.fn? target with
  | none => rfl
  | some d =>
      dsimp only
      rw [hls.length_eq]
      split
      · exact ⟨rfl, rfl, by rw [Value.shape, Value.shape, hls.length_eq], hls⟩
      · rfl

/-- Only the number of parameters matters to closures. -/
theorem closureOf_mapBodies (p : Program) (f : FnDef → Body) (target : FnName)
    (ls : List Location) : closureOf (p.mapBodies f) target ls = closureOf p target ls := by
  unfold closureOf
  rw [Program.fn?_mapBodies]
  cases p.fn? target <;> rfl

theorem alloc_builds {v₁ v₂ : Value} (s : Similar h₁ h₂ v₁ v₂) (g : h₂.Grows h₂')
    (hv₂ : h₂'.value? l₂ = some v₂) : Builds h₁ (h₁.alloc v₁).1 (h₁.alloc v₁).2 l₂ h₂' := by
  have parts := s.parts.imp fun _ _ a => a.grow (alloc_grows h₁ v₁) g
  exact ⟨alloc_grows h₁ v₁, Similar.alike ⟨s.shape, parts⟩ (value?_alloc_self h₁ v₁) hv₂⟩

theorem allocated_mirrors {o₁ o₂ : Except Halt Value}
    (m : Mirrors (Shaped h₁ h₂) (o₁, h₁) (o₂, h₂)) :
    Mirrors (Builds h₁) (allocated h₁ o₁) (allocated h₂ o₂) := by
  rcases o₁ with e₁ | v₁ <;> rcases o₂ with e₂ | v₂
  · exact m
  · exact m
  · exact m
  · exact alloc_builds m.2.2 (alloc_grows h₂ v₂) (value?_alloc_self h₂ v₂)

theorem allocClosure_mirrors {target : FnName} (hls : List.Forall₂ (Alike h₁ h₂) ls₁ ls₂) :
    Mirrors (Builds h₁) (allocClosure p target ls₁ h₁)
      (allocClosure (p.mapBodies f) target ls₂ h₂) := by
  rw [allocClosure_eq, allocClosure_eq, closureOf_mapBodies]
  exact allocated_mirrors (closureOf_mirrors hls)

/-! ## Expressions -/

/-- Supported variables are bound on the left as well, to locations that are alike. -/
def Agrees (σ : Ledger) (env₁ : Env) (h₁ : Heap) (env₂ : Env) (h₂ : Heap) : Prop :=
  ∀ {t : String}, σ.Supported t → env₁.Bound t ∧ Alike h₁ h₂ (env₁.loc t) (env₂.loc t)

/-- Closures that are alike hand on alike arguments. -/
theorem forward_mirrors {xs : List Var} (hx₁ : env₁.Bound x.text) (hx₂ : env₂.Bound x.text)
    (hxs₁ : ∀ y ∈ xs, env₁.Bound y.text) (hxs₂ : ∀ y ∈ xs, env₂.Bound y.text)
    (a : Alike h₁ h₂ (env₁.loc x.text) (env₂.loc x.text))
    (hargs : List.Forall₂ (Alike h₁ h₂) (xs.map fun y => env₁.loc y.text)
      (xs.map fun y => env₂.loc y.text)) :
    Mirrors (fun r₁ h₁' r₂ h₂' => r₁.1 = r₂.1 ∧ h₁.Grows h₁' ∧
        List.Forall₂ (Alike h₁' h₂') r₁.2 r₂.2)
      (forward env₁ x xs h₁) (forward env₂ x xs h₂) := by
  rcases a.closure_or_record with ⟨target, args₁, args₂, hv₁, hv₂, hcaptured⟩ |
    ⟨tag, fields₁, fields₂, hv₁, hv₂, -, -⟩
  · obtain ⟨live₁, live₂⟩ := Alike.live_all hcaptured
    obtain ⟨h₁', hinc₁, same₁, -⟩ := inc_live fun l hl _ => live₁ l hl
    obtain ⟨h₂', hinc₂, same₂, -⟩ := inc_live fun l hl _ => live₂ l hl
    rw [forward_closure hx₁ hv₁ hxs₁ hinc₁, forward_closure hx₂ hv₂ hxs₂ hinc₂]
    refine ⟨rfl, same₁.grows, ?_⟩
    exact (List.rel_append hcaptured hargs).imp fun _ _ a => a.grow same₁.grows same₂.grows
  · rw [forward_record hx₁ hv₁, forward_record hx₂ hv₂]
    rfl

theorem Agrees.bound (agr : Agrees σ env₁ h₁ env₂ h₂) (adm : σ.Admits e) :
    ∀ x ∈ e.consumed, env₁.Bound x.text :=
  fun _ hx => (agr (Backed.supported_consumed adm hx)).1

/-- The references that an expression hands on are alike. -/
theorem Agrees.consumed (agr : Agrees σ env₁ h₁ env₂ h₂) (adm : σ.Admits e) :
    List.Forall₂ (Alike h₁ h₂) (e.consumed.map fun x => env₁.loc x.text)
      (e.consumed.map fun x => env₂.loc x.text) := by
  rw [List.forall₂_map_left_iff, List.forall₂_map_right_iff, List.forall₂_same]
  exact fun x hx => (agr (Backed.supported_consumed adm hx)).2

theorem proj_mirrors {field : Field} {record : Var} (bk : Backed False σ env₂ F T h₂)
    (agr : Agrees σ env₁ h₁ env₂ h₂) (hr : σ.Supported record.text) :
    Mirrors (Builds h₁) (evalExpr p call₁ env₁ (.proj field record) h₁)
      (evalExpr (p.mapBodies f) call₂ env₂ (.proj field record) h₂) := by
  obtain ⟨hbound, a⟩ := agr hr
  rcases a.closure_or_record with ⟨target, args₁, args₂, hv₁, hv₂, -⟩ |
    ⟨tag, fields₁, fields₂, hv₁, hv₂, hkeys, hvalues⟩
  · rw [evalExpr, evalExpr, Eval.bind_error (readRecord_closure hbound hv₁),
      Eval.bind_error (readRecord_closure (bk.bound hr) hv₂)]
    rfl
  · rw [proj_record hbound hv₁, proj_record (bk.bound hr) hv₂]
    have hrel := OrderedMap.get?_rel hkeys hvalues field
    cases hl₁ : fields₁.get? field <;> cases hl₂ : fields₂.get? field <;> rw [hl₁, hl₂] at hrel
    · rfl
    · cases hrel
    · cases hrel
    · cases hrel with
      | some a => exact ⟨Grows.refl h₁, a⟩

/-- A record that is built in the cell of a token is alike to one in a new cell. -/
theorem reuse_mirrors {w : Var} {c : Construction} (hp : DistinctFields p)
    (bk : Backed False σ env₂ F T h₂) (agr : Agrees σ env₁ h₁ env₂ h₂)
    (adm : σ.Admits (.reuse w c)) :
    Mirrors (Builds h₁) (evalExpr p call₁ env₁ (.new c) h₁)
      (evalExpr (p.mapBodies f) call₂ env₂ (.reuse w c) h₂) := by
  have hw : env₂.Bound w.text :=
    bk.token (Multiset.mem_of_le adm.spent (Multiset.mem_singleton_self _))
  have hbound₂ := bk.bound_consumed adm
  have hlen : c.fields.length = (c.fields.map fun x => env₁.loc x.text).length := by simp
  have hfields : Mirrors (Shaped h₁ h₂) (buildRecord p env₁ c h₁)
      (buildRecord (p.mapBodies f) env₂ c h₂) := by
    rw [buildRecord_eq (agr.bound adm), buildRecord_eq hbound₂]
    exact recordOf_mirrors hp hlen (agr.consumed adm)
  rw [evalExpr, evalExpr, Eval.bind_ok (read_eq hw h₂)]
  refine (hfields.and (buildRecord_meets hp hbound₂ : Meets False _ _)).bind ?_
  rintro v₁ _ v₂ _ ⟨⟨rfl, rfl, similar⟩, -, hchildren⟩
  obtain ⟨m, h', hreuse, -, grows, hm⟩ := reuse_leaves (v := v₂)
    (by rw [hchildren]; exact bk.accounted_consumed adm) (bk.vacant_spent adm)
    (by rw [hchildren]; exact bk.clear_consumed adm)
  rw [Eval.onHeap, hreuse]
  exact alloc_builds similar grows hm

theorem evalExpr_mirrors (hp : DistinctFields p) (hcall : Simulates call₁ call₂)
    (bk : Backed False σ env₂ F T h₂) (agr : Agrees σ env₁ h₁ env₂ h₂) (adm : σ.Admits e)
    (he : ∀ y, e ≠ .reset y) :
    Mirrors (Builds h₁) (evalExpr p call₁ env₁ e.plain h₁)
      (evalExpr (p.mapBodies f) call₂ env₂ e h₂) := by
  have acc := bk.accounted_consumed adm
  have hbound₁ := agr.bound adm
  have hbound₂ := bk.bound_consumed adm
  have hargs := agr.consumed adm
  cases e with
  | call target xs =>
      simp only [Expr.plain]
      rw [evalExpr, evalExpr, Eval.bind_ok (readAll_eq xs hbound₁ h₁),
        Eval.bind_ok (readAll_eq xs hbound₂ h₂)]
      exact hcall acc hargs
  | close target xs =>
      simp only [Expr.plain]
      rw [evalExpr, evalExpr, Eval.bind_ok (readAll_eq xs hbound₁ h₁),
        Eval.bind_ok (readAll_eq xs hbound₂ h₂)]
      exact allocClosure_mirrors hargs
  | apply x xs =>
      have hx := adm.inspected x (.head _)
      obtain ⟨hx₁, a⟩ := agr hx
      simp only [Expr.plain]
      rw [evalExpr, evalExpr]
      have hforward := forward_mirrors hx₁ (bk.bound hx) hbound₁ hbound₂ a hargs
      have hright := bk.forward hx hbound₂ (bk.reachable_consumed adm) acc bk.vacant
      refine (hforward.and hright).bind ?_
      rintro ⟨target, args₁⟩ h₁' ⟨_, args₂⟩ h₂' ⟨⟨rfl, grows, hargs'⟩, acc', -⟩
      exact (hcall acc' hargs').after grows
  | extend x xs =>
      have hx := adm.inspected x (.head _)
      obtain ⟨hx₁, a⟩ := agr hx
      simp only [Expr.plain]
      rw [evalExpr, evalExpr]
      refine (forward_mirrors hx₁ (bk.bound hx) hbound₁ hbound₂ a hargs).bind ?_
      rintro ⟨target, args₁⟩ h₁' ⟨_, args₂⟩ h₂' ⟨rfl, grows, hargs'⟩
      exact (allocClosure_mirrors hargs').after grows
  | new c =>
      simp only [Expr.plain]
      rw [evalExpr, evalExpr, buildRecord_alloc hbound₁, buildRecord_alloc hbound₂]
      exact allocated_mirrors (recordOf_mirrors hp (by simp) hargs)
  | reuse w c => exact reuse_mirrors hp bk agr adm
  | proj field record => exact proj_mirrors bk agr (adm.inspected record (.head _))
  | reset y => exact absurd rfl (he y)

/-! ## What changes on the right -/

namespace Agrees

/-- What the remaining references support stays alike while an expression is evaluated. -/
theorem kept (agr : Agrees σ env₁ h₁ env₂ h₂) (bk : Backed False σ env₂ F T h₂)
    (adm : σ.Admits e) (step : Steps False σ e env₂ F T h₂ l₂ h₂') (g : h₁.Grows h₁')
    (s : (σ.spend e).Supported t) :
    env₁.Bound t ∧ Alike h₁' h₂' (env₁.loc t) (env₂.loc t) := by
  obtain ⟨hbound, a⟩ := agr s.of_spend
  exact ⟨hbound, a.frame g step.keeps (((bk.spend adm).reachable s).add F)⟩

/-- A variable is bound on both sides. -/
theorem bind (agr : Agrees σ env₁ h₁ env₂ h₂) (bk : Backed False σ env₂ F T h₂)
    (adm : σ.Admits e) (step : Steps False σ e env₂ F T h₂ l₂ h₂')
    (built : Builds h₁ l₁ h₁' l₂ h₂') (n : σ.New x.text) :
    Agrees (σ.bind x e) (env₁.bind x l₁) h₁' (env₂.bind x l₂) h₂' := by
  intro t s
  rcases s.of_gain_or n.spend with rfl | ⟨ht, s'⟩
  · rw [Env.loc_bind_self, Env.loc_bind_self]
    exact ⟨Env.bound_bind_self, built.2⟩
  · obtain ⟨hbound, a⟩ := agr.kept bk adm step built.1 s'
    rw [Env.loc_bind_of_ne ht, Env.loc_bind_of_ne ht]
    exact ⟨hbound.bind, a⟩

/-- A token is bound on the right alone. -/
theorem reset {y : Var} (agr : Agrees σ env₁ h₁ env₂ h₂) (bk : Backed False σ env₂ F T h₂)
    (adm : σ.Admits (.reset y)) (step : Steps False σ (.reset y) env₂ F T h₂ l₂ h₂')
    (n : σ.New x.text) : Agrees (σ.bind x (.reset y)) env₁ h₁ (env₂.bind x l₂) h₂' := by
  intro t s
  have ht : t ≠ x.text := fun e => n.spend.not_supported_token (e ▸ s)
  rw [Env.loc_bind_of_ne ht]
  exact agr.kept bk adm step (Grows.refl h₁) (s.of_gain n.spend ht)

theorem take (agr : Agrees σ env₁ h₁ env₂ h₂) (hx : σ.Supported x.text)
    (same : h₂.Recounts h₂') : Agrees (σ.take x.text) env₁ h₁ env₂ h₂' := by
  intro t s
  obtain ⟨hbound, a⟩ := agr (s.of_take hx)
  exact ⟨hbound, a.grow (Grows.refl h₁) same.grows⟩

theorem drop (agr : Agrees σ env₁ h₁ env₂ h₂) (bk : Backed False σ env₂ F T h₂)
    (hx : x.text ∈ σ.held)
    (keeps : h₂.Keeps ((σ.drop x.text).held.map env₂.loc + F) h₂') :
    Agrees (σ.drop x.text) env₁ h₁ env₂ h₂' := by
  intro t s
  obtain ⟨hbound, a⟩ := agr s.of_drop
  exact ⟨hbound, a.frame (Grows.refl h₁) keeps (((bk.release hx).reachable s).add F)⟩

end Agrees

/-! ## Bodies -/

theorem evalArm_mirrors {tag : Tag} {arms : List Arm}
    (harms : ∀ arm ∈ arms, Mirrors (Builds h₁) (evalBody p call₁ env₁ arm.2.plain h₁)
      (evalBody (p.mapBodies f) call₂ env₂ arm.2 h₂)) :
    Mirrors (Builds h₁) (evalArm p call₁ env₁ x tag (plainArms arms) h₁)
      (evalArm (p.mapBodies f) call₂ env₂ x tag arms h₂) := by
  rw [evalArm_eq, evalArm_eq, findArm_plainArms]
  cases hb : findArm arms tag with
  | none => rfl
  | some b =>
      obtain ⟨arm, hmem, rfl⟩ := mem_of_findArm hb
      exact harms arm hmem

/-- A balanced body and its plain part come to an end together. -/
theorem evalBody_mirrors {body : Body} (hp : DistinctFields p)
    (hcons : Conserves False call₂) (hcall : Simulates call₁ call₂) (bal : Balanced σ body)
    (bk : Backed False σ env₂ F T h₂) (agr : Agrees σ env₁ h₁ env₂ h₂) :
    Mirrors (Builds h₁) (evalBody p call₁ env₁ body.plain h₁)
      (evalBody (p.mapBodies f) call₂ env₂ body h₂) := by
  induction bal generalizing env₁ env₂ h₁ h₂ with
  | @ret σ x hheld =>
      have hx : σ.Supported x.text := .held (hheld ▸ Multiset.mem_singleton_self _)
      obtain ⟨hbound, a⟩ := agr hx
      rw [Body.plain, evalBody, evalBody, read_eq hbound, read_eq (bk.bound hx)]
      exact ⟨Grows.refl h₁, a⟩
  | @bind σ x e body adm n _ ih =>
      by_cases he : ∃ y, e = .reset y
      · -- The plain body has no such binding: only the right side takes a step.
        obtain ⟨y, rfl⟩ := he
        have hy : σ.Supported y.text := Backed.supported_consumed adm (.head _)
        obtain ⟨m, h₂', heq, step⟩ := reset_eq (p.mapBodies f) call₂ bk adm (agr hy).2.ne_invalid
        rw [Body.plain, evalBody, Eval.bind_ok heq]
        exact ih (step.bind n) (agr.reset bk adm step n)
      · have he' : ∀ y, e ≠ .reset y := fun y hy => he ⟨y, hy⟩
        rw [plain_bind he', evalBody, evalBody]
        have hexpr : Mirrors (Builds h₁) (evalExpr p call₁ env₁ e.plain h₁)
            (evalExpr (p.mapBodies f) call₂ env₂ e h₂) :=
          evalExpr_mirrors hp hcall bk agr adm he'
        have hsteps : Meets False (Steps False σ e env₂ F T h₂)
            (evalExpr (p.mapBodies f) call₂ env₂ e h₂) := evalExpr_steps hp hcons bk adm
        refine (hexpr.and hsteps).bind ?_
        rintro l₁ h₁' l₂ h₂' ⟨built, step⟩
        exact (ih (step.bind n) (agr.bind bk adm step built n)).after built.1
  | @case σ x arms hx _ ih =>
      obtain ⟨hbound, a⟩ := agr hx
      rw [Body.plain, evalBody, evalBody]
      rcases a.closure_or_record with ⟨target, args₁, args₂, hv₁, hv₂, -⟩ |
        ⟨tag, fields₁, fields₂, hv₁, hv₂, -, -⟩
      · rw [Eval.bind_error (readRecord_closure hbound hv₁),
          Eval.bind_error (readRecord_closure (bk.bound hx) hv₂)]
        rfl
      · rw [Eval.bind_ok (readRecord_record hbound hv₁),
          Eval.bind_ok (readRecord_record (bk.bound hx) hv₂)]
        exact evalArm_mirrors fun arm harm => ih arm harm bk agr
  | @inc σ x body hx _ ih =>
      obtain ⟨h₂', hinc, bk', same, -⟩ := bk.take hx
      rw [Body.plain, evalBody, Eval.bind_ok (read_eq (bk.bound hx) h₂),
        Eval.bind_ok (Eval.onHeap_ok hinc)]
      exact ih bk' (agr.take hx same)
  | @dec σ x body hx _ ih =>
      obtain ⟨h₂', hdec, bk', keeps, -⟩ := bk.drop hx
      rw [Body.plain, evalBody, Eval.bind_ok (read_eq (bk.bound (.held hx)) h₂),
        Eval.bind_ok (Eval.onHeap_ok hdec)]
      exact ih bk' (agr.drop bk hx keeps)

/-! ## Calls -/

/-- At the start of a call the parameters are bound to alike arguments. -/
theorem agrees_ofArgs {params : List Var} (hp : (params.map (·.text)).Nodup)
    (hlen : params.length = ls₁.length) (hls : List.Forall₂ (Alike h₁ h₂) ls₁ ls₂) :
    Agrees (.ofParams params) (.ofArgs params ls₁) h₁ (.ofArgs params ls₂) h₂ := by
  have hlen₂ := hlen.trans hls.length_eq
  rw [← Env.loc_ofArgs hp hlen, ← Env.loc_ofArgs hp hlen₂, List.forall₂_map_left_iff,
    List.forall₂_map_right_iff, List.forall₂_same] at hls
  intro t s
  cases s with
  | held ht =>
      obtain ⟨x, hx, rfl⟩ := List.mem_map.1 (Multiset.mem_coe.1 ht)
      exact ⟨Env.bound_ofArgs hp hlen hx, hls x hx⟩
  | read hr _ => cases hr

/-- The heap on the right backs what the parameters hold. -/
theorem backed_ofAlike {params : List Var} (hp : (params.map (·.text)).Nodup)
    (hlen : params.length = ls₁.length) (acc : h₂.AccountedFor (ls₂ + F))
    (hls : List.Forall₂ (Alike h₁ h₂) ls₁ ls₂) :
    Backed False (.ofParams params) (.ofArgs params ls₂) F 0 h₂ := by
  have hclear : h₂.Clear False ls₂ := by
    intro r
    obtain ⟨l₁, a⟩ := Alike.of_reachable hls r
    exact a.ne_invalid rfl
  have hvacant : h₂.Vacant 0 := ⟨fun hi => absurd hi (Multiset.notMem_zero _), by simp⟩
  exact backed_ofArgs hp (hlen.trans hls.length_eq) acc hvacant hclear

/-- Functions whose bodies balance and have given plain parts are called in lockstep, to whatever
depth. -/
theorem callFn_simulates (hp : DistinctFields p) (hf : BalancedFns (p.mapBodies f))
    (hplain : ∀ d ∈ p.fns, (f d).plain = d.body) (depth : Nat) :
    Simulates (callFn p depth) (callFn (p.mapBodies f) depth) := by
  induction depth with
  | zero => exact fun _ _ => rfl
  | succ depth ih =>
      -- The calls of a body are one level further down, so they are in lockstep already.
      intro target ls₁ ls₂ F h₁ h₂ acc hls
      rw [callFn, callFn, Program.fn?_mapBodies]
      cases hd : p.fn? target with
      | none => rfl
      | some d =>
          have hmem := Program.mem_of_fn? hd
          obtain ⟨hnodup, hbal⟩ := hf _ (List.mem_map_of_mem hmem)
          dsimp only [Option.map] at hnodup hbal ⊢
          rw [← hls.length_eq]
          split
          · next hlen =>
              have bk := backed_ofAlike hnodup hlen acc hls
              rw [← hplain d hmem]
              exact evalBody_mirrors hp (callFn_conserves False (p := p.mapBodies f) hp hf depth) ih
                hbal bk (agrees_ofArgs hnodup hlen hls)
          · rfl

end Reclaim
