import Reclaim.Proofs.Counting.Lifetimes
import Reclaim.Proofs.Counting.Owners

/-!
# Every matched record is given up once

In an arm of a case on an owner, every path gives up the reference of the owner once
(`withDrops_released`): inserting drops puts a drop where the owner dies, unless the reference is handed
on there.

The rounds of the insertion visit an arm once for each case around it.  The first visit for a variable
covers the arm (`releases_dropDead`), every later one for the same variable finds nothing to do
(`dropDead_of_releases`), and visits for other variables do not disturb it (`Inserts.releases`).  At
each point the variables matched so far are covered or not named any more, and memory management does
not touch the others (`Tended`).
-/

namespace Reclaim.Counting

open Reclaim.Core

variable {r : Reserved} {E : Entered} {c c' : Counter} {o o' : Body × Counter} {v : String} {x w : Var}
  {tag : Tag} {e : Expr} {b b' : Body} {arms : List Arm} {owners : VarSet} {N : String → Prop}
  {S : List String}

/-! ## Visits for other variables -/

/-- No token is called like a variable. -/
def Reserved.Avoids (r : Reserved) (v : String) : Prop :=
  ∀ n, r.permits n = true → (candidate n).text ≠ v

theorem avoids_of_mem (hv : v ∈ r.vars.texts) : r.Avoids v := fun _ hn heq =>
  Reserved.permits_iff.1 hn (List.mem_append_left _ (heq ▸ hv))

/-- A reuse names what the construction names, and its token. -/
theorem names_reuse {k : Construction} (h : (PathStep.bind x (.reuse w k)).Names v) :
    w.text = v ∨ (PathStep.bind x (.new k)).Names v := by
  rcases h with h | h
  · rcases OrderedSet.mem_texts_union.1 h with h | h
    · exact .inl (OrderedSet.mem_texts_singleton.1 h).symm
    · exact .inr (.inl h)
  · exact .inr (.inr h)

theorem insertable_absent (hv : r.Avoids v) {Owner : Var → Prop} {lo hi : Nat} :
    Insertable r (fun _ => False) Owner lo hi fun s => ¬ s.Names v where
  adjust h := h.elim
  drop _ hs h := hs (h.imp_right nofun)
  reset _ hs _ _ hn h := by
    rcases h with h | ⟨x, hx, hxv⟩
    · exact hs (.inl (List.mem_singleton.2 (OrderedSet.mem_texts_singleton.1 h)))
    · cases hx
      exact hv _ hn hxv
  reuse hs _ _ hn h := (names_reuse h).elim (hv _ hn) hs

theorem insertable_untouched (hv : r.Avoids v) {lo hi : Nat} :
    Insertable r (fun _ => False) (fun x => x.text ≠ v) lo hi fun s => ¬ s.Manages v where
  adjust h := h.elim
  drop hx _ h := hx h
  reset hx _ _ _ hn h := h.elim (hv _ hn) hx
  reuse _ _ _ hn h := hv _ hn h

theorem absent_reuseFirst (hw : w.text ≠ v) (h : b.Absent v) : (reuseFirst w tag b).Absent v :=
  everywhere_reuseFirst h fun _ _ hs h => (names_reuse h).elim hw hs

theorem releases_reuseFirst (hw : w.text ≠ v) (h : b.Releases v) :
    (reuseFirst w tag b).Releases v := by
  have live {b : Body} (hb : b.Live v) : (reuseFirst w tag b).Live v := by
    rwa [Body.Live, reuseFirst_plain]
  induction h with
  | ret hx => exact .ret hx
  | @last x e b he hconsumes hb =>
      rcases reuseFirst_bind w tag x e b with h | ⟨k, rfl, -, h⟩
      · exact h ▸ .last he hconsumes (absent_reuseFirst hw hb)
      · exact h ▸ .last (by simp) hconsumes hb
  | @bind x e b hx hreset hlive hconsumes hb ih =>
      have hlive' (he : ∀ y, e ≠ .reset y) : (reuseFirst w tag (.bind x e b)).Live v := live (hlive he)
      rcases reuseFirst_bind w tag x e b with h | ⟨k, rfl, -, h⟩
      · exact h ▸ .bind hx hreset (fun he => h ▸ hlive' he) (fun hc => live (hconsumes hc)) ih
      · exact h ▸ .bind hx (by simp) (fun _ => h ▸ hlive' (by simp)) hconsumes hb
  | case hlive _ ih =>
      have hlive' := live hlive
      rw [reuseFirst_case] at hlive' ⊢
      exact .case hlive' (List.forall_mem_map.2 ih)
  | inc _ ih => exact .inc ih
  | dec hx _ ih => exact .dec hx ih
  | drop hx hb => exact .drop hx (absent_reuseFirst hw hb)
  | recycle hx hb => exact .recycle hx (absent_reuseFirst hw hb)

/-- A visit for another variable leaves what a body does for this one. -/
theorem Inserts.releases (h : Inserts r (fun _ => False) (fun x => x.text ≠ v) E b c b' c')
    (hv : r.Avoids v) (hb : b.Releases v) : b'.Releases v := by
  have absent {E b c b' c'} (h : Inserts r (fun _ => False) (fun x => x.text ≠ v) E b c b' c')
      (hb : b.Absent v) : b'.Absent v :=
    h.everywhere (insertable_absent hv) (Nat.le_refl _) (Nat.le_refl _)
      (fun e _ he h => he (h.elim (fun h => (List.mem_singleton.1 h).symm) nofun)) hb
  have live {E b c b' c'} (h : Inserts r (fun _ => False) (fun x => x.text ≠ v) E b c b' c')
      (hb : b.Live v) : b'.Live v := by
    rwa [Body.Live, h.plain]
  induction h with
  | adjust hop => exact hop.elim
  | drop hx _ => exact .dec hx hb
  | recycle hx _ _ _ hperm =>
      refine .bind (hv _ hperm) (fun y heq => ?_) (fun he => absurd rfl (he _)) (fun hc => ?_)
        (releases_reuseFirst (hv _ hperm) hb)
      · cases heq
        exact hx
      · exact absurd (List.mem_singleton.1 hc).symm hx
  | bind h ih =>
      cases hb with
      | last he hconsumes hb => exact .last he hconsumes (absent h hb)
      | bind hx hreset hlive hconsumes hb =>
          exact .bind hx hreset (fun he => live (.bind h) (hlive he)) (fun hc => live h (hconsumes hc))
            (ih hb)
      | recycle hx hb => exact .recycle hx (absent h hb)
  | arm h ih =>
      cases hb with
      | case hlive hb =>
          exact .case (live (.arm h) hlive) (forall_mem_arms hb (fun _ hb => hb) fun hb => ih hb)
  | inc _ ih =>
      cases hb with
      | inc hb => exact .inc (ih hb)
  | dec h ih =>
      cases hb with
      | dec hx hb => exact .dec hx (ih hb)
      | drop hx hb => exact .drop hx (absent h hb)

theorem Inserted.releases (h : Inserted r (fun _ => False) (fun x => x.text ≠ v) E o o')
    (hv : r.Avoids v) (hb : o.1.Releases v) : o'.1.Releases v :=
  h.induction (I := fun b _ => b.Releases v) (fun h hb => h.releases hv hb) hb

/-! ## The walk to the end of a life -/

theorem mentions_iff : b.mentions x = true ↔ x.text ∈ b.freeVars.texts := OrderedSet.contains_iff

theorem not_mentions_iff : b.mentions x = false ↔ x.text ∉ b.freeVars.texts := by
  rw [← Bool.not_eq_true, mentions_iff]

theorem dropDead_of_dead (h : x.text ∉ b.freeVars.texts) :
    dropDead r x tag b c = dropBefore r x tag b c := by
  have hwhole := not_mentions_iff.2 h
  cases b <;> simp [dropDead, hwhole]

theorem dropDead_ret (h : w.text = x.text) : dropDead r x tag (.ret w) c = (.ret w, c) := by
  rw [dropDead, if_pos (mentions_iff.2 (Body.mem_freeVars_ret.2 h.symm))]
  rfl

theorem dropDead_bind (hwhole : x.text ∈ (Body.bind w e b).freeVars.texts)
    (hrest : x.text ∈ b.freeVars.texts) : dropDead r x tag (.bind w e b) c =
      (.bind w e (dropDead r x tag b c).1, (dropDead r x tag b c).2) := by
  simp only [dropDead, mentions_iff.2 hwhole, mentions_iff.2 hrest, Bool.not_true,
    Bool.false_eq_true, if_false, if_true]
  rfl

theorem dropDead_bind_handed (hrest : x.text ∉ b.freeVars.texts)
    (hc : (PathStep.bind w e).Consumes x.text) : dropDead r x tag (.bind w e b) c =
      (.bind w e b, c) := by
  have hwhole : x.text ∈ (Body.bind w e b).freeVars.texts :=
    Body.mem_freeVars_bind.2 (.inl (Expr.mem_freeVars.2 (.inl hc)))
  have hany : e.consumed.any (· == x) = true := any_beq_iff.2 hc
  simp only [dropDead, mentions_iff.2 hwhole, not_mentions_iff.2 hrest, hany, Bool.not_true,
    Bool.false_eq_true, if_false, if_true]
  rfl

theorem dropDead_bind_kept (hwhole : x.text ∈ (Body.bind w e b).freeVars.texts)
    (hrest : x.text ∉ b.freeVars.texts) (hc : ¬ (PathStep.bind w e).Consumes x.text) :
    dropDead r x tag (.bind w e b) c =
      (.bind w e (dropBefore r x tag b c).1, (dropBefore r x tag b c).2) := by
  have hany : ¬ e.consumed.any (· == x) = true := fun h => hc (any_beq_iff.1 h)
  simp only [dropDead, mentions_iff.2 hwhole, not_mentions_iff.2 hrest, hany, Bool.not_true,
    Bool.false_eq_true, if_false]
  rfl

theorem dropDead_case (hwhole : x.text ∈ (Body.case w arms).freeVars.texts) :
    dropDead r x tag (.case w arms) c = (.case w (mapArms (fun _ => dropDead r x tag) arms c).1,
      (mapArms (fun _ => dropDead r x tag) arms c).2) := by
  simp only [dropDead, mentions_iff.2 hwhole, Bool.not_true, Bool.false_eq_true, if_false,
    dropDeadIn_eq]
  rfl

theorem dropDead_inc (hrest : x.text ∈ b.freeVars.texts) : dropDead r x tag (.inc w b) c =
    (.inc w (dropDead r x tag b c).1, (dropDead r x tag b c).2) := by
  have hwhole : x.text ∈ (Body.inc w b).freeVars.texts := Body.mem_freeVars_inc.2 (.inr hrest)
  simp only [dropDead, mentions_iff.2 hwhole, mentions_iff.2 hrest, Bool.not_true,
    Bool.false_eq_true, if_false, if_true]
  rfl

theorem dropDead_inc_last (hwhole : x.text ∈ (Body.inc w b).freeVars.texts)
    (hrest : x.text ∉ b.freeVars.texts) : dropDead r x tag (.inc w b) c =
      (.inc w (dropBefore r x tag b c).1, (dropBefore r x tag b c).2) := by
  simp only [dropDead, mentions_iff.2 hwhole, not_mentions_iff.2 hrest, Bool.not_true,
    Bool.false_eq_true, if_false]
  rfl

theorem dropDead_dec (hrest : x.text ∈ b.freeVars.texts) : dropDead r x tag (.dec w b) c =
    (.dec w (dropDead r x tag b c).1, (dropDead r x tag b c).2) := by
  have hwhole : x.text ∈ (Body.dec w b).freeVars.texts := Body.mem_freeVars_dec.2 (.inr hrest)
  simp only [dropDead, mentions_iff.2 hwhole, mentions_iff.2 hrest, Bool.not_true,
    Bool.false_eq_true, if_false, if_true]
  rfl

theorem dropDead_dec_last (hx : w.text = x.text) (hrest : x.text ∉ b.freeVars.texts) :
    dropDead r x tag (.dec w b) c = (.dec w b, c) := by
  have hwhole : x.text ∈ (Body.dec w b).freeVars.texts := Body.mem_freeVars_dec.2 (.inl hx.symm)
  simp only [dropDead, mentions_iff.2 hwhole, not_mentions_iff.2 hrest, Bool.not_true,
    Bool.false_eq_true, if_false]
  rfl

/-- A body that gives the reference of a variable up already gets no drop of it. -/
theorem dropDead_of_releases (h : b.Releases x.text) : dropDead r x tag b c = (b, c) := by
  -- The variable is free in a body that releases it, so that the walk goes on, and it is not free
  -- behind the step that gives the reference up.
  generalize hv : x.text = v at h
  induction h generalizing c with
  | ret hy => exact dropDead_ret (hy.trans hv.symm)
  | last _ hconsumes hb =>
      subst hv
      exact dropDead_bind_handed hb.not_free hconsumes
  | bind hy hreset hlive hconsumes hb ih =>
      subst hv
      rw [dropDead_bind (Body.Releases.bind hy hreset hlive hconsumes hb).free hb.free, ih]
  | case hlive hb ih =>
      subst hv
      rw [dropDead_case (Body.Releases.case hlive hb).free,
        mapArms_eq_self fun arm harm _ => ih arm harm]
  | inc hb ih =>
      subst hv
      rw [dropDead_inc hb.free, ih]
  | dec _ hb ih =>
      subst hv
      rw [dropDead_dec hb.free, ih]
  | drop hy hb =>
      subst hv
      exact dropDead_dec_last hy hb.not_free
  | recycle hy hb =>
      subst hv
      exact dropDead_bind_handed hb.not_free (List.mem_singleton.2 hy.symm)

/-! ## The first visit for a variable -/

theorem dropBefore_plain (r : Reserved) (x : Var) (tag : Tag) (b : Body) (c : Counter) :
    (dropBefore r x tag b c).1.plain = b.plain := by
  have drops : Inserted r (fun _ => False) (fun _ => True) [(x, tag)] (b, c) (dropBefore r x tag b c) :=
    inserted_dropBefore trivial (.head [])
  exact drops.plain

theorem dropDead_plain (r : Reserved) (x : Var) (tag : Tag) (b : Body) (c : Counter) :
    (dropDead r x tag b c).1.plain = b.plain := by
  have drops : Inserted r (fun _ => False) (fun _ => True) [(x, tag)] (b, c) (dropDead r x tag b c) :=
    inserted_dropDead trivial (.head [])
  exact drops.plain

theorem releases_dropBefore (hv : r.Avoids x.text) (hb : b.Unbound x.text)
    (hdead : x.text ∉ b.freeVars.texts) : (dropBefore r x tag b c).1.Releases x.text := by
  have habsent := hb.absent hdead
  by_cases hbuilds : builds tag b = true
  · obtain ⟨n, -, hperm, hfresh⟩ := r.fresh_spec c
    rw [dropBefore_of_builds hbuilds hfresh]
    exact .recycle rfl (absent_reuseFirst (hv n hperm) habsent)
  · rw [dropBefore, if_neg hbuilds]
    exact .drop rfl habsent

/-- A variable that is not bound again, and whose memory was not managed before, is given up once. -/
theorem releases_dropDead (hv : r.Avoids x.text) (hu : b.Untouched x.text) (hb : b.Unbound x.text) :
    (dropDead r x tag b c).1.Releases x.text := by
  have dead {b : Body} {c} (hb : b.Unbound x.text) (h : x.text ∉ b.freeVars.texts) :
      (dropDead r x tag b c).1.Releases x.text := by
    rw [dropDead_of_dead h]
    exact releases_dropBefore hv hb h
  induction b generalizing c with
  | ret y =>
      by_cases h : x.text ∈ (Body.ret y).freeVars.texts
      · have hy := (Body.mem_freeVars_ret.1 h).symm
        rw [dropDead_ret hy]
        exact .ret hy
      · exact dead hb h
  | bind y e b ih =>
      by_cases h : x.text ∈ (Body.bind y e b).freeVars.texts
      · -- The variable is free in the plain part too.
        have hlive := hu.live_iff.2 h
        obtain ⟨hs, hu⟩ := Body.everywhere_bind.1 hu
        obtain ⟨hy, hb⟩ := Body.everywhere_bind.1 hb
        have hreset (z) (heq : e = .reset z) : z.text ≠ x.text := by
          subst heq
          exact (not_or.1 hs).2
        have keep {b'} (hplain : b'.plain = b.plain)
            (hconsumes : (PathStep.bind y e).Consumes x.text → b'.Live x.text)
            (hb' : b'.Releases x.text) : (Body.bind y e b').Releases x.text := by
          refine .bind (hy y rfl) hreset (fun _ => ?_) hconsumes hb'
          rwa [Body.Live, plain_bind_congr hplain]
        by_cases hrest : x.text ∈ b.freeVars.texts
        · rw [dropDead_bind h hrest]
          refine keep (dropDead_plain ..) (fun _ => ?_) (ih hu hb)
          rw [Body.Live, dropDead_plain]
          exact (Body.Untouched.live_iff hu).2 hrest
        · by_cases hc : (PathStep.bind y e).Consumes x.text
          · rw [dropDead_bind_handed hrest hc]
            refine .last (fun z heq => ?_) hc (Body.Unbound.absent hb hrest)
            subst heq
            exact hreset z rfl (List.mem_singleton.1 hc).symm
          · rw [dropDead_bind_kept h hrest hc]
            exact keep (dropBefore_plain ..) (fun h => absurd h hc) (releases_dropBefore hv hb hrest)
      · exact dead hb h
  | case y arms ih =>
      by_cases h : x.text ∈ (Body.case y arms).freeVars.texts
      · have hlive := hu.live_iff.2 h
        have hplain := dropDead_plain r x tag (.case y arms) c
        obtain ⟨-, hu⟩ := Body.everywhere_case.1 hu
        obtain ⟨-, hb⟩ := Body.everywhere_case.1 hb
        rw [dropDead_case h] at hplain ⊢
        refine .case (by rwa [Body.Live, hplain]) fun arm harm => ?_
        obtain ⟨given, hgiven, c', rfl⟩ := mem_mapArms harm
        exact ih given hgiven (hu given hgiven) (hb given hgiven)
      · exact dead hb h
  | inc y b ih =>
      by_cases h : x.text ∈ (Body.inc y b).freeVars.texts
      · obtain ⟨-, hu⟩ := Body.everywhere_inc.1 hu
        obtain ⟨-, hb⟩ := Body.everywhere_inc.1 hb
        by_cases hrest : x.text ∈ b.freeVars.texts
        · rw [dropDead_inc hrest]
          exact .inc (ih hu hb)
        · rw [dropDead_inc_last h hrest]
          exact .inc (releases_dropBefore hv hb hrest)
      · exact dead hb h
  | dec y b ih =>
      by_cases h : x.text ∈ (Body.dec y b).freeVars.texts
      · obtain ⟨hs, hu⟩ := Body.everywhere_dec.1 hu
        obtain ⟨-, hb⟩ := Body.everywhere_dec.1 hb
        have hrest := (Body.mem_freeVars_dec.1 h).resolve_left fun h => hs h.symm
        rw [dropDead_dec hrest]
        exact .dec hs (ih hu hb)
      · exact dead hb h

/-! ## Rounds -/

/-- What a round makes of an arm. -/
def visitArm (r : Reserved) (owners : VarSet) (rounds : Nat) (x : Var) (tag : Tag) (b : Body) :
    StateM Counter Body := do
  let b ← if owners.contains x then dropDead r x tag b else pure b
  insertDrops r owners rounds b

theorem insertDrops_case (rounds : Nat) : insertDrops r owners (rounds + 1) (.case x arms) c =
    (.case x (mapArms (visitArm r owners rounds x) arms c).1,
      (mapArms (visitArm r owners rounds x) arms c).2) := rfl

theorem visitArm_run (rounds : Nat) : visitArm r owners rounds x tag b c =
    if owners.contains x then
      insertDrops r owners rounds (dropDead r x tag b c).1 (dropDead r x tag b c).2
    else insertDrops r owners rounds b c := by
  unfold visitArm
  split <;> rfl

theorem insertDrops_plain (rounds : Nat) :
    (insertDrops r owners rounds b c).1.plain = b.plain := by
  have drops : Inserted r (fun _ => False) (fun _ => True) [] (b, c)
      (insertDrops r owners rounds b c) :=
    inserted_insertDrops (fun _ _ => trivial) rounds
  exact drops.plain

/-- A variable that is not named is not dropped. -/
theorem absent_insertDrops (hv : r.Avoids v) (hb : b.Absent v) (rounds : Nat) :
    (insertDrops r owners rounds b c).1.Absent v := by
  have drops : Inserted r (fun _ => False) (fun _ => True) [] (b, c)
      (insertDrops r owners rounds b c) :=
    inserted_insertDrops (fun _ _ => trivial) rounds
  exact drops.everywhere (insertable_absent hv) nofun hb

/-- A variable that is given up once is given up once after more rounds. -/
theorem releases_insertDrops (hv : r.Avoids v) (hb : b.Releases v) (rounds : Nat) :
    (insertDrops r owners rounds b c).1.Releases v := by
  induction rounds generalizing b c with
  | zero => exact hb
  | succ rounds ihr =>
      have live {b : Body} {c} (hb : b.Live v) : (insertDrops r owners (rounds + 1) b c).1.Live v := by
        rwa [Body.Live, insertDrops_plain]
      induction hb generalizing c with
      | ret hx => exact .ret hx
      | last he hconsumes hb => exact .last he hconsumes (absent_insertDrops hv hb (rounds + 1))
      | bind hx hreset hlive hconsumes _ ih =>
          exact .bind hx hreset (fun he => live (hlive he)) (fun hc => live (hconsumes hc)) ih
      | @case x arms hlive hb _ =>
          have hlive' := live (c := c) hlive
          rw [insertDrops_case] at hlive' ⊢
          refine .case hlive' fun arm harm => ?_
          obtain ⟨given, hgiven, c', rfl⟩ := mem_mapArms harm
          rw [visitArm_run]
          split
          · refine ihr ?_
            by_cases hx : x.text = v
            · subst hx
              rw [dropDead_of_releases (hb given hgiven)]
              exact hb given hgiven
            · have drops : Inserted r (fun _ => False) (fun x => x.text ≠ v) [(x, given.1)]
                  (given.2, c') (dropDead r x given.1 given.2 c') := inserted_dropDead hx (.head [])
              exact drops.releases hv (hb given hgiven)
          · exact ihr (hb given hgiven)
      | inc _ ih => exact .inc ih
      | dec hx _ ih => exact .dec hx ih
      | drop hx hb => exact .drop hx (absent_insertDrops hv hb (rounds + 1))
      | recycle hx hb => exact .recycle hx (absent_insertDrops hv hb (rounds + 1))

/-- Every case on an owner has covered arms. -/
inductive Treated (owners : VarSet) : Body → Prop where
  | ret {x : Var} : Treated owners (.ret x)
  | bind {x : Var} {e : Expr} {b : Body} : Treated owners b → Treated owners (.bind x e b)
  | case {x : Var} {arms : List Arm} :
      (x.text ∈ owners.texts → ∀ arm ∈ arms, arm.2.Releases x.text) →
      (∀ arm ∈ arms, Treated owners arm.2) → Treated owners (.case x arms)
  | inc {x : Var} {b : Body} : Treated owners b → Treated owners (.inc x b)
  | dec {x : Var} {b : Body} : Treated owners b → Treated owners (.dec x b)

/-- At a point in the arms of cases on the variables `M` the owners among them are covered or not named
any more, and memory management does not touch the other owners. -/
structure Tended (owners : VarSet) (M : List String) (b : Body) : Prop where
  /-- The owners that were matched. -/
  matched {v : String} : v ∈ owners.texts → v ∈ M → b.Releases v ∨ b.Absent v
  /-- The other owners. -/
  unmatched {v : String} : v ∈ owners.texts → v ∉ M → b.Untouched v

variable {M : List String}

namespace Tended

theorem bind (h : Tended owners M (.bind x e b)) : Tended owners M b where
  matched hv hM := (h.matched hv hM).elim Body.Releases.of_bind fun hb =>
    .inr (Body.everywhere_bind.1 hb).2
  unmatched hv hM := (Body.everywhere_bind.1 (h.unmatched hv hM)).2

theorem inc (h : Tended owners M (.inc x b)) : Tended owners M b where
  matched hv hM := (h.matched hv hM).elim Body.Releases.of_inc fun hb =>
    .inr (Body.everywhere_inc.1 hb).2
  unmatched hv hM := (Body.everywhere_inc.1 (h.unmatched hv hM)).2

theorem dec (h : Tended owners M (.dec x b)) : Tended owners M b where
  matched hv hM := (h.matched hv hM).elim Body.Releases.of_dec fun hb =>
    .inr (Body.everywhere_dec.1 hb).2
  unmatched hv hM := (Body.everywhere_dec.1 (h.unmatched hv hM)).2

theorem arm (h : Tended owners M (.case x arms)) {arm : Arm} (harm : arm ∈ arms) :
    Tended owners M arm.2 where
  matched hv hM := (h.matched hv hM).imp (fun hb => hb.of_case arm harm) fun hb =>
    (Body.everywhere_case.1 hb).2 arm harm
  unmatched hv hM := (Body.everywhere_case.1 (h.unmatched hv hM)).2 arm harm

/-- In front of a case on an owner that was matched before, the arms are covered. -/
theorem releases (h : Tended owners M (.case x arms)) (hx : x.text ∈ owners.texts)
    (hM : x.text ∈ M) : ∀ arm ∈ arms, arm.2.Releases x.text :=
  ((h.matched hx hM).resolve_right fun hb =>
    (Body.everywhere_case.1 hb).1 default (.inl (.head _))).of_case

/-- The first visit for a variable adds it to the matched ones. -/
theorem dropDead (hv : ∀ v ∈ owners.texts, r.Avoids v) (h : Tended owners M b)
    (hx : x.text ∈ owners.texts) (hM : x.text ∉ M) (hb : b.Unbound x.text) :
    Tended owners (x.text :: M) (Counting.dropDead r x tag b c).1 := by
  have other {v : String} (hne : x.text ≠ v) : Inserted r (fun _ => False) (fun x => x.text ≠ v)
      [(x, tag)] (b, c) (Counting.dropDead r x tag b c) := inserted_dropDead hne (.head [])
  refine ⟨fun {v} hown hmem => ?_, fun {v} hown hmem => ?_⟩
  · by_cases hne : x.text = v
    · subst hne
      exact .inl (releases_dropDead (hv _ hx) (h.unmatched hx hM) hb)
    · refine (h.matched hown ((List.mem_cons.1 hmem).resolve_left (Ne.symm hne))).imp
        ((other hne).releases (hv v hown)) fun hb => ?_
      refine (other hne).everywhere (insertable_absent (hv v hown)) ?_ hb
      intro e _ he hnames
      exact he (hnames.elim (fun h => (List.mem_singleton.1 h).symm) nofun)
  · rw [List.mem_cons, not_or] at hmem
    exact (other (Ne.symm hmem.1)).everywhere (insertable_untouched (hv v hown))
      (fun _ _ _ => id) (h.unmatched hown hmem.2)

end Tended

theorem caseDepth_le_of_mem {arm : Arm} (harm : arm ∈ arms) :
    caseDepth arm.2 ≤ caseDepthIn arms := by
  induction arms with
  | nil => cases harm
  | cons first rest ih =>
      obtain ⟨tag, b⟩ := first
      rw [caseDepthIn]
      rcases List.mem_cons.1 harm with rfl | harm
      · exact Nat.le_max_left _ _
      · exact Nat.le_trans (ih harm) (Nat.le_max_right _ _)

theorem caseDepth_plain_bind (x : Var) (e : Expr) (b : Body) :
    caseDepth (Body.bind x e b).plain = caseDepth b.plain := by
  cases e <;> rfl

theorem treated_of_flat (h : caseDepth b.plain = 0) : Treated owners b := by
  induction b with
  | ret x => exact .ret
  | bind x e b ih => exact .bind (ih (caseDepth_plain_bind x e b ▸ h))
  | case x arms ih => cases h
  | inc x b ih => exact .inc (ih h)
  | dec x b ih => exact .dec (ih h)

/-- A visit treats an arm, and covers it if the case is on an owner.  The rounds that follow treat
every body that is tended. -/
theorem treated_visitArm (hv : ∀ v ∈ owners.texts, r.Avoids v) {rounds : Nat}
    (later : ∀ {M : List String} {b : Body} {c : Counter}, Bound N S b.plain → Tended owners M b →
      caseDepth b.plain ≤ rounds → Treated owners (insertDrops r owners rounds b c).1)
    (hx : x.text ∈ S) (h : Tended owners M (.case x arms)) {arm : Arm} (harm : arm ∈ arms)
    (hbound : Bound N S arm.2.plain) (hdepth : caseDepth arm.2.plain ≤ rounds) :
    Treated owners (visitArm r owners rounds x arm.1 arm.2 c).1 ∧ (x.text ∈ owners.texts →
      (visitArm r owners rounds x arm.1 arm.2 c).1.Releases x.text) := by
  rw [visitArm_run]
  split
  · next hown =>
      have hown := OrderedSet.contains_iff.1 hown
      by_cases hM : x.text ∈ M
      · have hreleases := h.releases hown hM arm harm
        rw [dropDead_of_releases hreleases]
        exact ⟨later hbound (h.arm harm) hdepth, fun _ =>
          releases_insertDrops (hv _ hown) hreleases rounds⟩
      · have hu := (h.arm harm).unmatched hown hM
        have hunbound := hu.unbound hbound hx
        have htended : Tended owners (x.text :: M) (dropDead r x arm.1 arm.2 c).1 :=
          (h.arm harm).dropDead hv hown hM hunbound
        rw [← dropDead_plain r x arm.1 arm.2 c] at hbound hdepth
        exact ⟨later hbound htended hdepth, fun _ =>
          releases_insertDrops (hv _ hown) (releases_dropDead (hv _ hown) hu hunbound) rounds⟩
  · next hown =>
      exact ⟨later hbound (h.arm harm) hdepth, fun h => absurd (OrderedSet.contains_iff.2 h) hown⟩

/-- As many rounds as there are nested cases treat all of them. -/
theorem treated_insertDrops (hv : ∀ v ∈ owners.texts, r.Avoids v) {rounds : Nat}
    (hbound : Bound N S b.plain) (h : Tended owners M b) (hdepth : caseDepth b.plain ≤ rounds) :
    Treated owners (insertDrops r owners rounds b c).1 := by
  induction rounds generalizing b c S M with
  | zero => exact treated_of_flat (Nat.le_zero.1 hdepth)
  | succ rounds ihr =>
      induction b generalizing c S with
      | ret x => exact .ret
      | bind x e b ih =>
          rw [caseDepth_plain_bind] at hdepth
          by_cases he : ∃ y, e = .reset y
          · obtain ⟨y, rfl⟩ := he
            exact .bind (ih hbound h.bind hdepth)
          · rw [plain_bind fun y heq => he ⟨y, heq⟩] at hbound
            exact .bind (ih (bound_bind.1 hbound).2.2.2 h.bind hdepth)
      | case x arms _ =>
          rw [Body.plain] at hbound hdepth
          obtain ⟨hx, hbound⟩ := bound_case.1 hbound
          have visit {arm} (harm : arm ∈ arms) (c) := treated_visitArm (c := c) hv ihr hx h harm
            (hbound _ (mem_plainArms harm)) (Nat.le_of_succ_le_succ
              (Nat.le_trans (Nat.succ_le_succ (caseDepth_le_of_mem (mem_plainArms harm))) hdepth))
          rw [insertDrops_case]
          refine .case (fun hown arm harm => ?_) fun arm harm => ?_
          · obtain ⟨given, hgiven, c', rfl⟩ := mem_mapArms harm
            exact (visit hgiven c').2 hown
          · obtain ⟨given, hgiven, c', rfl⟩ := mem_mapArms harm
            exact (visit hgiven c').1
      | inc x b ih => exact .inc (ih hbound h.inc hdepth)
      | dec x b ih => exact .dec (ih hbound h.dec hdepth)

/-- Where all cases on owners are covered, the one to which a trail leads is. -/
theorem Treated.trail {t : List Waypoint} (h : Treated owners b)
    (ht : b.Trail t (some (.case x arms))) (hx : x.text ∈ owners.texts) :
    ∀ arm ∈ arms, arm.2.Releases x.text := by
  generalize hend : some (Body.case x arms) = o at ht
  induction ht with
  | here =>
      cases hend
      cases h with
      | case harms _ => exact harms hx
  | ret => cases hend
  | bind _ ih =>
      cases h with
      | bind h => exact ih h hend
  | case harm _ ih =>
      cases h with
      | case _ h => exact ih (h _ harm) hend
  | inc _ ih =>
      cases h with
      | inc h => exact ih h hend
  | dec _ ih =>
      cases h with
      | dec h => exact ih h hend

/-! ## Main statement -/

variable {p : Program} {d : FnDef} {t path : List Waypoint} {arm : Arm}

theorem withDrops_treated (p : Program)
    (hbound : Bound N S d.body) (hm : d.body.isManaged = false) :
    Treated d.owners (withDrops p d) := by
  have hplain := Body.plain_of_unmanaged hm
  refine treated_insertDrops (M := []) (fun v hv => avoids_of_mem (d.owners_subset hbound hv))
    (hplain.symm ▸ hbound) ⟨nofun, fun _ _ => ?_⟩ (Nat.le_of_eq (congrArg caseDepth hplain))
  refine (Body.everywhere_of_unmanaged hm).mono fun s hs => ?_
  cases s with
  | bind x e =>
      cases e with
      | reset | reuse => cases hs
      | _ => exact id
  | enter | ret => exact id
  | inc | dec => exact hs.elim

/-- In a function that does not manage memory itself each case on an owner is covered when drops have
been inserted: on each path from the start of an arm to a return the reference of the owner is given up
once.  What is left of the path in the plain part is a path of the same arm in the function. -/
theorem withDrops_released (hvalid : p.validate = .ok ()) (hd : d ∈ p.fns)
    (hm : d.body.isManaged = false) (ht : (withDrops p d).Trail t (some (.case x arms)))
    (hx : d.owners.contains x = true) (harm : arm ∈ arms) (hpath : arm.2.Trail path none) :
    (∃ arms', d.body.Trail (plainTrail t) (some (.case x arms')) ∧ (arm.1, arm.2.plain) ∈ arms') ∧
      arm.2.plain.Trail (plainTrail path) none ∧ Released x.text path := by
  obtain ⟨-, hbound, -⟩ := checkFn_eq_ok.1 (checkFn_of_mem hvalid hd)
  refine ⟨⟨plainArms arms, withDrops_plain hm ▸ ht.plain, ?_⟩, hpath.plain, ?_⟩
  · exact mem_plainArms harm
  · have hcovered := (withDrops_treated p hbound hm).trail ht (OrderedSet.contains_iff.1 hx)
    exact (hcovered arm harm).released hpath

/-- A function that hands its first parameter on and returns it in one of two arms. -/
def splitSource : String :=
  "(deftype A x)
  (deftype B)
  (defn g (v) (ret v))
  (defn f (v w)
    (case v
      A (let (y (g v)) (case w A (ret v) B (let (r (new A y)) (ret r))))
      B (ret w)))"

set_option maxRecDepth 2000 in
/-- In the other arm the parameter is dropped, although the last step that names it there hands a
reference on: it was still alive before that arm was entered. -/
theorem exists_split : ∃ p d x arms arm path, load splitSource = .ok p ∧ d ∈ p.fns ∧
    d.body.isManaged = false ∧ (withDrops p d).Trail [] (some (.case x arms)) ∧
    d.owners.contains x = true ∧ arm ∈ arms ∧ arm.2.Trail path none ∧
    LastConsumes x.text ((plainTrail path).map (·.step)) ∧ ∃ q ∈ path, q.step.Drops x.text := by
  obtain ⟨p, hload, hcheck⟩ : ∃ p, load splitSource = .ok p ∧ (p.fns.any fun d =>
      !d.body.isManaged && (withDrops p d).paths.any fun steps =>
        (steps.head?.bind PathStep.scrutinee?).any fun x => d.owners.contains x &&
          (decide (LastConsumes x.text (steps.tail.filterMap PathStep.plain?)) &&
            steps.tail.any fun s => decide (s.Drops x.text))) = true :=
    exists_load rfl (by decide +kernel)
  simp only [List.any_eq_true, Bool.and_eq_true, Bool.not_eq_true', Option.any_eq_true] at hcheck
  obtain ⟨d, hd, hm, steps, hsteps, x, hx, hown, hlast, s, hs, hdrop⟩ := hcheck
  obtain ⟨t, ht, rfl⟩ := Body.mem_paths_iff.1 hsteps
  cases hbody : withDrops p d with
  | case y arms =>
      rw [hbody] at ht
      cases ht with
      | @case _ _ arm path _ harm hpath =>
          cases hx
          obtain ⟨q, hq, rfl⟩ := List.mem_map.1 hs
          rw [List.map_cons, List.tail_cons, ← map_step_plainTrail] at hlast
          exact ⟨p, d, x, arms, arm, path, hload, hd, hm, hbody ▸ .here, hown, harm, hpath,
            of_decide_eq_true hlast, q, hq, of_decide_eq_true hdrop⟩
  | _ =>
      rw [hbody] at ht
      cases ht
      cases hx

/-- The arm in which the parameter is dropped is covered. -/
theorem withDrops_released_split : ∃ p d x arms arm path, load splitSource = .ok p ∧ d ∈ p.fns ∧
    d.body.isManaged = false ∧ (withDrops p d).Trail [] (some (.case x arms)) ∧
    d.owners.contains x = true ∧ arm ∈ arms ∧ arm.2.Trail path none ∧
    (∃ arms', d.body.Trail (plainTrail []) (some (.case x arms')) ∧ (arm.1, arm.2.plain) ∈ arms') ∧
      arm.2.plain.Trail (plainTrail path) none ∧ Released x.text path := by
  obtain ⟨p, d, x, arms, arm, path, hload, hd, hm, ht, hx, harm, hpath, -⟩ := exists_split
  exact ⟨p, d, x, arms, arm, path, hload, hd, hm, ht, hx, harm, hpath,
    withDrops_released (wellFormed_of_load hload).valid hd hm ht hx harm hpath⟩

/-- That the last step on the way which names a variable hands its reference on does not mean that the
variable is not dropped. -/
theorem exists_drop_after_consumption : ∃ p d x arms arm path, load splitSource = .ok p ∧ d ∈ p.fns ∧
    d.body.isManaged = false ∧ (withDrops p d).Trail [] (some (.case x arms)) ∧
    d.owners.contains x = true ∧ arm ∈ arms ∧ arm.2.Trail path none ∧
    ¬ (LastConsumes x.text ((plainTrail path).map (·.step)) → ∀ q ∈ path, ¬ q.step.Drops x.text) := by
  obtain ⟨p, d, x, arms, arm, path, hload, hd, hm, ht, hx, harm, hpath, hlast, q, hq, hdrop⟩ :=
    exists_split
  exact ⟨p, d, x, arms, arm, path, hload, hd, hm, ht, hx, harm, hpath, fun h => h hlast q hq hdrop⟩

end Reclaim.Counting
