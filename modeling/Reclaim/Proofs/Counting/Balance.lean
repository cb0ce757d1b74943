import Reclaim.Proofs.Counting.Tracks

/-!
# Explicit counts balance

The walk that makes counts explicit gives every scoped body the adjustments that it needs: if each
variable that the body uses is backed by an owner, the result is balanced (`balanced_withCounts`).
-/

namespace Reclaim.Counting

open Reclaim.Core Holdings

variable {N : String → Prop} {Γ : Context} {h : Holdings} {σ : Ledger} {x : Var} {e : Expr}
  {b : Body} {t : String}

/-- What is backed before a binding is backed after it. -/
theorem backs_bind (hnew : ¬ h.Knows x.text) (hb : h.Backs t) : (h.bind x e).Backs t := by
  unfold Holdings.bind
  induction hb with
  | owned ht =>
      refine .owned ?_
      cases e.holding with
      | owned => exact OrderedSet.mem_texts_insert.2 (.inl ht)
      | borrowed | token => exact ht
  | read hl _ ih =>
      refine .read ?_ ih
      cases e.holding with
      | owned | token => exact hl
      | borrowed record =>
          rw [OrderedMap.links_insert fun hx => hnew (.inr hx)]
          exact List.mem_append_left _ hl

/-- A variable that is bound to no token is backed, if the record is from which it was read. -/
theorem backs_bound (hnew : ¬ h.Knows x.text) (hk : e.holding ≠ .token)
    (hrec : ∀ record, e.holding = .borrowed record → h.Backs record.text) :
    (h.bind x e).Backs x.text := by
  cases hh : e.holding with
  | owned =>
      refine .owned ?_
      rw [Holdings.bind, hh]
      exact OrderedSet.mem_texts_insert.2 (.inr rfl)
  | borrowed record =>
      refine .read ?_ (backs_bind hnew (hrec record hh))
      rw [Holdings.bind, hh, OrderedMap.links_insert fun hx => hnew (.inr hx)]
      exact List.mem_append_right _ (.head _)
  | token => exact absurd hh hk

theorem withCountsIn_eq (h : Holdings) (arms : List Arm) :
    withCountsIn h arms = arms.map fun arm => (arm.1, withCounts h arm.2) := by
  induction arms with
  | nil => rfl
  | cons arm rest ih =>
      obtain ⟨tag, b⟩ := arm
      rw [withCountsIn, ih, List.map_cons]

theorem withCounts_case (h : Holdings) (x : Var) (arms : List Arm) :
    withCounts h (.case x arms) = adjusting (h.dropDead (Body.case x arms).freeVars).1
      (.case x (arms.map fun arm =>
        (arm.1, withCounts (h.dropDead (Body.case x arms).freeVars).2 arm.2))) := by
  rw [← withCountsIn_eq, withCounts]

/-- At a return one reference is left, or is taken for a borrower. -/
theorem balanced_ret (tr : Tracks Γ 0 h σ) (hb : h.Backs x.text)
    (howned : ∀ y ∈ h.owned.texts, y = x.text) :
    Balanced σ (adjusting (if h.borrowed.contains x then [.inc x] else []) (.ret x)) := by
  have htexts : h.owned.texts = [] ∨ h.owned.texts = [x.text] := by
    have hnodup := h.owned.nodup_texts
    rcases hl : h.owned.texts with - | ⟨y, - | ⟨z, rest⟩⟩
    · exact .inl rfl
    · exact .inr (by rw [howned y (by simp [hl])])
    · rw [hl] at hnodup
      have hyz : y = z := (howned y (by simp [hl])).trans (howned z (by simp [hl])).symm
      simp [hyz] at hnodup
  have hheld := tr.held
  rw [zero_add] at hheld
  by_cases hc : h.borrowed.contains x
  · -- A borrower has no reference to return, and no owner is left that could hold one.
    have hnone : h.owned.texts = [] := htexts.resolve_right fun hx =>
      tr.apart x.text (by simp [hx]) (OrderedMap.contains_iff.1 hc)
    rw [if_pos hc]
    refine .inc (tr.supported_of_backs hb) (.ret ?_)
    rw [Ledger.take, hheld, hnone]
    rfl
  · have hone : h.owned.texts = [x.text] := htexts.resolve_left fun hx => by
      rcases hb.knows with ho | hkey
      · simp [hx] at ho
      · exact hc (OrderedMap.contains_iff.2 hkey)
    rw [if_neg hc]
    refine .ret ?_
    rw [hheld, hone]
    rfl

/-- In front of a step the dead owners are dropped and then the references that the step hands on
are taken.  The holdings afterwards back what is live before and after the step. -/
theorem tracks_step (uses : List Var) (tr : Tracks Γ 0 h σ) (before after : VarSet)
    (huses : ∀ x ∈ uses, x.text ∈ before.texts ∧ h.Backs x.text) :
    ∃ σ₁ xs, Adjusts σ (h.dropDead before).1 σ₁ ∧
      Adjusts σ₁ ((h.dropDead before).2.handOver uses after).1 (σ₁.takeAll xs) ∧
      Tracks Γ 0 (h.dropDead before).2 σ₁ ∧
      Tracks Γ (spellings uses) ((h.dropDead before).2.handOver uses after).2 (σ₁.takeAll xs) ∧
      (∀ y ∈ before.texts, h.Backs y → (h.dropDead before).2.Backs y) ∧
      ∀ y ∈ after.texts, (h.dropDead before).2.Backs y →
        ((h.dropDead before).2.handOver uses after).2.Backs y := by
  obtain ⟨σ₁, hadj, tr₁, hback, -⟩ := tr.dropDead before
  obtain ⟨xs, hadj', tr', hback'⟩ := tr₁.handOver (fun x hx =>
    hback _ (huses x hx).1 (huses x hx).2) after
  exact ⟨σ₁, xs, hadj, hadj', tr₁, tr', hback, hback'⟩

/-- In front of a binding the references that the expression hands on are taken, and behind it the
new variable is backed. -/
theorem balanced_bind (hadm : Γ.Admits e) (hfree : Γ.Free x.text) (tr : Tracks Γ 0 h σ)
    (hback : ∀ y ∈ (Body.bind x e b).freeVars.texts, y ∈ Γ.vars → h.Backs y)
    (rest : ∀ {h : Holdings} {σ : Ledger}, Tracks (Γ.bind x e) 0 h σ →
      (∀ y ∈ b.freeVars.texts, y ∈ (Γ.bind x e).vars → h.Backs y) → Balanced σ (withCounts h b)) :
    Balanced σ (withCounts h (.bind x e b)) := by
  have huse {y : String} (hy : y ∈ e.freeVars.texts) : y ∈ (Body.bind x e b).freeVars.texts :=
    Body.mem_freeVars_bind.2 (.inl hy)
  have hcons : ∀ y ∈ e.consumed, y.text ∈ (Body.bind x e b).freeVars.texts := fun y hy =>
    huse (Expr.mem_freeVars.2 (.inl (List.mem_map_of_mem hy)))
  have hinsp : ∀ y ∈ e.inspected, y.text ∈ (Body.bind x e b).freeVars.texts := fun y hy =>
    huse (Expr.mem_freeVars.2 (.inr (.inl (List.mem_map_of_mem hy))))
  obtain ⟨σ₁, xs, hadj, hadj', tr₁, tr₂, hback₁, hback₂⟩ :=
    tracks_step _ tr (Body.bind x e b).freeVars b.freeVars fun y hy =>
      ⟨hcons y hy, hback _ (hcons y hy) (hadm.consumed y hy)⟩
  have hinsp₁ (y : Var) (hy : y ∈ e.inspected) :
      (h.dropDead (Body.bind x e b).freeVars).2.Backs y.text :=
    hback₁ _ (hinsp y hy) (hback _ (hinsp y hy) (hadm.inspected y hy))
  have hadmits := tr₂.admits hadm fun y hy => (tr₁.supported_of_backs (hinsp₁ y hy)).takeAll _
  have hnew : x.text ∉ spellings e.consumed := by
    intro hx
    obtain ⟨y, hy, heq⟩ := List.mem_map.1 (Multiset.mem_coe.1 hx)
    exact hfree.var (heq ▸ hadm.consumed y hy)
  have hunknown := fun hk => hfree.var (tr₂.bound hk)
  -- The record of a projection is backed, since a projection hands nothing on.
  have hrec (record : Var) (hh : e.holding = .borrowed record) : record.text ∈ Γ.vars ∧
      ((h.dropDead (Body.bind x e b).freeVars).2.handOver e.consumed b.freeVars).2.Backs
        record.text := by
    obtain ⟨hr, hnone⟩ := Expr.inspected_of_borrowed hh
    rw [hnone]
    exact ⟨hadm.inspected _ hr, hinsp₁ _ hr⟩
  have tr₃ := tr₂.spend.bind (x := x) (hfree.spend e) fun record hh => (hrec record hh).1
  rw [withCounts]
  refine hadj.balanced (hadj'.balanced (.bind hadmits (tr₂.new hfree hnew) (rest tr₃ ?_)))
  intro y hy hv
  by_cases hyx : y = x.text
  · subst hyx
    exact backs_bound hunknown (hfree.holding_of_mem hv) fun record hh => (hrec record hh).2
  · have hlive : y ∈ (Body.bind x e b).freeVars.texts := Body.mem_freeVars_bind.2 (.inr ⟨hy, hyx⟩)
    exact backs_bind hunknown (hback₂ y hy (hback₁ y hlive (hback y hlive
      (Context.mem_vars_of_bind hv hyx))))

/-- The walk balances a scoped body if each variable that the body uses is backed. -/
theorem balanced_withCounts (s : Scoped N Γ b) (tr : Tracks Γ 0 h σ)
    (hback : ∀ y ∈ b.freeVars.texts, y ∈ Γ.vars → h.Backs y) : Balanced σ (withCounts h b) := by
  induction s generalizing h σ with
  | @ret Γ x hx =>
      obtain ⟨σ₁, hadj, tr₁, hback₁, howned⟩ := tr.dropDead (Body.ret x).freeVars
      have hlive := Body.mem_freeVars_ret (x := x) (t := x.text)
      rw [withCounts]
      refine hadj.balanced (balanced_ret tr₁ ?_ fun y hy => Body.mem_freeVars_ret.1 (howned y hy))
      exact hback₁ _ (hlive.2 rfl) (hback _ (hlive.2 rfl) hx)
  | bind hadm hfree _ _ ih => exact balanced_bind hadm hfree tr hback ih
  | @case Γ x arms hx _ ih =>
      have hlive {y : String} : y ∈ (Body.case x arms).freeVars.texts ↔ _ := Body.mem_freeVars_case
      obtain ⟨σ₁, hadj, tr₁, hback₁, -⟩ := tr.dropDead (Body.case x arms).freeVars
      have hback' (y : String) (hy : y ∈ (Body.case x arms).freeVars.texts) (hv : y ∈ Γ.vars) :=
        hback₁ y hy (hback y hy hv)
      rw [withCounts_case]
      refine hadj.balanced (.case (tr₁.supported_of_backs (hback' _ (hlive.2 (.inl rfl)) hx)) ?_)
      refine List.forall_mem_map.2 fun arm harm => ?_
      exact ih arm harm tr₁ fun y hy hv => hback' y (hlive.2 (.inr ⟨arm, harm, hy⟩)) hv
  | @dec Γ x b hx _ ih =>
      have hlive {y : String} : y ∈ (Body.dec x b).freeVars.texts ↔ _ := Body.mem_freeVars_dec
      obtain ⟨σ₁, xs, hadj, hadj', tr₁, tr₂, hback₁, hback₂⟩ :=
        tracks_step [x] tr (Body.dec x b).freeVars b.freeVars fun y hy => by
          obtain rfl := List.mem_singleton.1 hy
          exact ⟨hlive.2 (.inl rfl), hback _ (hlive.2 (.inl rfl)) hx⟩
      have given : Tracks Γ (x.text ::ₘ 0) _ (σ₁.takeAll xs) := tr₂
      obtain ⟨hheld, tr₃⟩ := given.drop
      rw [withCounts]
      refine hadj.balanced (hadj'.balanced (.dec hheld (ih tr₃ fun y hy hv => ?_)))
      have hy' := hlive.2 (.inr hy)
      exact hback₂ y hy (hback₁ y hy' (hback y hy' hv))

end Reclaim.Counting
