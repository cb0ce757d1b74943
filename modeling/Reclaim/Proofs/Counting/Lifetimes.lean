import Reclaim.Proofs.Counting.Plain

/-!
# Where a reference ends

Along a trail through a body with explicit memory management lies a trail through its plain part
(`Body.Trail.plain`).  A variable lives on the plain trail as long as it is free in what is left of the
plain part (`lifetime`), and its reference is handed on if the step at the end of its life consumes it
(`HandedOn`).

`Body.Releases v b` follows the constructors of a body and says that on each path the reference of `v`
is given up once: by the step at the end of its life, or by a drop right behind it.  What this means for
a path that returns is said by `Released`, and `Body.Releases.released` is the main statement.

A variable that memory management does not touch (`Body.Untouched`) is free in a body if it is free in
the plain part, so that looking for where it dies finds the end of its life.
-/

namespace Reclaim.Core

/-! ## Steps and variables -/

namespace PathStep

/-- A step reads or binds a variable. -/
def Names (v : String) (s : PathStep) : Prop :=
  v ∈ s.mentioned ∨ ∃ x ∈ s.binder?, x.text = v

/-- A step hands on a reference of a variable. -/
def Consumes (v : String) (s : PathStep) : Prop := v ∈ s.consumed.map (·.text)

/-- A step gives up the reference of a variable because it is dead. -/
def Drops (v : String) (s : PathStep) : Prop := ∃ x ∈ s.dropped?, x.text = v

instance (v : String) : DecidablePred (Names v) := fun s =>
  inferInstanceAs (Decidable (v ∈ s.mentioned ∨ ∃ x ∈ s.binder?, x.text = v))

instance (v : String) : DecidablePred (Consumes v) := fun s =>
  inferInstanceAs (Decidable (v ∈ s.consumed.map (·.text)))

instance (v : String) : DecidablePred (Drops v) := fun s =>
  inferInstanceAs (Decidable (∃ x ∈ s.dropped?, x.text = v))

/-- The variable by which a step takes an arm. -/
def scrutinee? : PathStep → Option Var
  | .enter x _ => some x
  | .bind .. | .inc _ | .dec _ | .ret _ => none

/-- A step without its memory management, if anything is left of it. -/
def plain? : PathStep → Option PathStep
  | .bind _ (.reset _) | .inc _ | .dec _ => none
  | .bind x e => some (.bind x e.plain)
  | .enter x tag => some (.enter x tag)
  | .ret x => some (.ret x)

variable {v : String} {s : PathStep}

theorem Consumes.names (h : s.Consumes v) : s.Names v := by
  cases s with
  | bind x e => exact .inl (Expr.mem_freeVars.2 (.inl h))
  | dec x | ret x => exact .inl h
  | enter | inc => cases h

theorem Drops.consumes (h : s.Drops v) : s.Consumes v := by
  obtain ⟨x, hs, rfl⟩ := h
  cases s with
  | bind y e =>
      cases e with
      | reset z =>
          cases hs
          exact List.mem_singleton.2 rfl
      | _ => cases hs
  | dec y =>
      cases hs
      exact List.mem_singleton.2 rfl
  | _ => cases hs

theorem not_drops_bind {x : Var} {e : Expr} (he : ∀ y, e = .reset y → y.text ≠ v) :
    ¬ (PathStep.bind x e).Drops v := by
  rintro ⟨y, hs, hy⟩
  cases e with
  | reset z =>
      cases hs
      exact he y rfl hy
  | _ => cases hs

theorem not_drops_dec {x : Var} (hx : x.text ≠ v) : ¬ (PathStep.dec x).Drops v := by
  rintro ⟨y, hs, hy⟩
  cases hs
  exact hx hy

end PathStep

/-- Nothing in a body reads or binds a variable. -/
def Body.Absent (v : String) (b : Body) : Prop := b.Everywhere fun s => ¬ s.Names v

/-- A variable is free in what a body does apart from memory management. -/
def Body.Live (v : String) (b : Body) : Prop := v ∈ b.plain.freeVars.texts

/-! ## Plain trails -/

/-- A stop on the way through the plain part, if one is made there. -/
def Waypoint.plain? (q : Waypoint) : Option Waypoint := q.step.plain?.map fun s => ⟨q.body.plain, s⟩

/-- What is left of a trail in the plain part. -/
def plainTrail (t : List Waypoint) : List Waypoint := t.filterMap Waypoint.plain?

variable {v : String} {x : Var} {e : Expr} {b : Body} {t path : List Waypoint} {q q' : Waypoint}
  {o : Option Body}

theorem plainTrail_cons_none (h : q.plain? = none) : plainTrail (q :: t) = plainTrail t :=
  List.filterMap_cons_none h

theorem plainTrail_cons_some (h : q.plain? = some q') :
    plainTrail (q :: t) = q' :: plainTrail t :=
  List.filterMap_cons_some h

theorem plain?_bind (he : ∀ y, e ≠ .reset y) : (⟨.bind x e b, .bind x e⟩ : Waypoint).plain? =
    some ⟨.bind x e.plain b.plain, .bind x e.plain⟩ := by
  rw [← plain_bind he]
  cases e with
  | reset y => exact absurd rfl (he y)
  | _ => rfl

theorem map_step_plainTrail (t : List Waypoint) :
    (plainTrail t).map (·.step) = (t.map (·.step)).filterMap PathStep.plain? := by
  rw [plainTrail, List.map_filterMap, List.filterMap_map]
  refine List.filterMap_congr fun q _ => ?_
  rw [Waypoint.plain?, Option.map_map]
  exact Option.map_id'

/-- Along a trail lies one through the plain part. -/
theorem Body.Trail.plain (h : b.Trail t o) : b.plain.Trail (plainTrail t) (o.map Body.plain) := by
  induction h with
  | here => exact .here
  | ret => exact .ret
  | @bind x e b t o _ ih =>
      by_cases he : ∃ y, e = .reset y
      · obtain ⟨y, rfl⟩ := he
        exact ih
      · have he' (y) (heq : e = .reset y) : False := he ⟨y, heq⟩
        rw [plainTrail_cons_some (plain?_bind he'), plain_bind he']
        exact .bind ih
  | @case x arms arm t o harm _ ih =>
      have hend := Body.Trail.case (x := x) (mem_plainArms harm) ih
      exact hend
  | inc _ ih => exact ih
  | dec _ ih => exact ih

/-! ## Lifetimes -/

/-- The beginning of a trail on which a variable is free in what is left. -/
def lifetime (v : String) (t : List Waypoint) : List Waypoint :=
  t.takeWhile fun q => decide (v ∈ q.body.freeVars.texts)

/-- At the end of the life of a variable its reference is handed on. -/
def HandedOn (v : String) (t : List Waypoint) : Prop :=
  ∃ q ∈ (lifetime v t).getLast?, q.step.Consumes v

theorem lifetime_of_dead (ht : b.Trail t o) (hb : v ∉ b.freeVars.texts) : lifetime v t = [] := by
  cases t with
  | nil => rfl
  | cons q t =>
      refine List.takeWhile_cons_of_neg ?_
      rw [ht.mentioned.1]
      simpa using hb

theorem lifetime_cons (hq : v ∈ q.body.freeVars.texts) : lifetime v (q :: t) = q :: lifetime v t :=
  List.takeWhile_cons_of_pos (decide_eq_true hq)

/-- A variable that is free in a body lives for a while on each trail that returns. -/
theorem lifetime_ne_nil (ht : b.Trail t none) (hb : v ∈ b.freeVars.texts) : lifetime v t ≠ [] := by
  cases t with
  | nil => cases ht
  | cons q t =>
      rw [lifetime_cons (ht.mentioned.1 ▸ hb)]
      exact List.cons_ne_nil _ _

theorem handedOn_cons (hq : v ∈ q.body.freeVars.texts) (hlast : lifetime v t = [] → ¬ q.step.Consumes v) :
    HandedOn v (q :: t) ↔ HandedOn v t := by
  rw [HandedOn, HandedOn, lifetime_cons hq]
  cases hl : lifetime v t with
  | nil => simpa using hlast hl
  | cons q' rest => rw [List.getLast?_cons_cons]

/-! ## Releases -/

/-- The last step that names a variable hands its reference on. -/
def LastConsumes (v : String) (steps : List PathStep) : Prop :=
  ∃ before s after, steps = before ++ s :: after ∧ s.Consumes v ∧ ∀ s' ∈ after, ¬ s'.Names v

theorem lastConsumes_iff {steps : List PathStep} : LastConsumes v steps ↔
    ∃ s ∈ (steps.filter fun s => decide (s.Names v)).getLast?, s.Consumes v := by
  constructor
  · rintro ⟨before, s, after, rfl, hs, hafter⟩
    have hnone : after.filter (fun s => decide (s.Names v)) = [] :=
      List.filter_eq_nil_iff.2 fun s' h => by simpa using hafter s' h
    refine ⟨s, ?_, hs⟩
    simp [hnone, hs.names]
  · rintro ⟨s, hlast, hs⟩
    obtain ⟨init, hinit⟩ := List.getLast?_eq_some_iff.1 hlast
    obtain ⟨before, rest, rfl, -, hrest⟩ := List.filter_eq_append_iff.1 hinit
    obtain ⟨between, after, rfl, -, -, hnone⟩ := List.filter_eq_cons_iff.1 hrest
    refine ⟨before ++ between, s, after, (List.append_assoc ..).symm, hs, fun s' h => ?_⟩
    simpa using List.filter_eq_nil_iff.1 hnone s' h

instance (v : String) (steps : List PathStep) : Decidable (LastConsumes v steps) :=
  decidable_of_iff _ lastConsumes_iff.symm

/-- On a path the reference of a variable is given up once: it is handed on at the end of the life of
the variable, or dropped right behind it. -/
structure Released (v : String) (path : List Waypoint) : Prop where
  /-- The last step that names the variable hands its reference on. -/
  last : LastConsumes v (path.map (·.step))
  /-- A reference that is handed on is not dropped. -/
  handed : HandedOn v (plainTrail path) → ∀ q ∈ path, ¬ q.step.Drops v
  /-- Otherwise there is one drop, at the first point where the variable is not free in what is left
  of the plain part. -/
  dropped : ¬ HandedOn v (plainTrail path) → ∃ before q after, path = before ++ q :: after ∧
    q.step.Drops v ∧ plainTrail before = lifetime v (plainTrail path) ∧
    ∀ q' ∈ before ++ after, ¬ q'.step.Drops v

/-- On each path through a body the reference of a variable is given up once.  A step that is not part
of memory management is only made while the variable lives. -/
inductive Body.Releases (v : String) : Body → Prop where
  | ret {x : Var} : x.text = v → Releases v (.ret x)
  | last {x : Var} {e : Expr} {b : Body} : (∀ y, e ≠ .reset y) → (PathStep.bind x e).Consumes v →
      b.Absent v → Releases v (.bind x e b)
  | bind {x : Var} {e : Expr} {b : Body} : x.text ≠ v → (∀ y, e = .reset y → y.text ≠ v) →
      ((∀ y, e ≠ .reset y) → (Body.bind x e b).Live v) →
      ((PathStep.bind x e).Consumes v → b.Live v) → Releases v b → Releases v (.bind x e b)
  | case {x : Var} {arms : List Arm} :
      (Body.case x arms).Live v → (∀ arm ∈ arms, Releases v arm.2) → Releases v (.case x arms)
  | inc {x : Var} {b : Body} : Releases v b → Releases v (.inc x b)
  | dec {x : Var} {b : Body} : x.text ≠ v → Releases v b → Releases v (.dec x b)
  | drop {x : Var} {b : Body} : x.text = v → b.Absent v → Releases v (.dec x b)
  | recycle {w x : Var} {b : Body} : x.text = v → b.Absent v → Releases v (.bind w (.reset x) b)

namespace Released

/-- A step of memory management that drops another variable. -/
theorem cons_none (h : Released v path) (hq : q.plain? = none) (hdrop : ¬ q.step.Drops v) :
    Released v (q :: path) where
  last := by
    obtain ⟨before, s, after, heq, hs, hafter⟩ := h.last
    exact ⟨q.step :: before, s, after, by rw [List.map_cons, heq, List.cons_append], hs, hafter⟩
  handed hhanded := by
    rw [plainTrail_cons_none hq] at hhanded
    exact List.forall_mem_cons.2 ⟨hdrop, h.handed hhanded⟩
  dropped hnot := by
    rw [plainTrail_cons_none hq] at hnot ⊢
    obtain ⟨before, s, after, rfl, hs, hlife, hothers⟩ := h.dropped hnot
    exact ⟨q :: before, s, after, rfl, hs, (plainTrail_cons_none hq).trans hlife,
      List.forall_mem_cons.2 ⟨hdrop, hothers⟩⟩

/-- A step while the variable lives, and not the one at the end of its life that hands it on. -/
theorem cons_some (h : Released v path) (hq : q.plain? = some q')
    (hlive : v ∈ q'.body.freeVars.texts) (hdrop : ¬ q.step.Drops v)
    (hlast : lifetime v (plainTrail path) = [] → ¬ q'.step.Consumes v) : Released v (q :: path) where
  last := by
    obtain ⟨before, s, after, heq, hs, hafter⟩ := h.last
    exact ⟨q.step :: before, s, after, by rw [List.map_cons, heq, List.cons_append], hs, hafter⟩
  handed hhanded := by
    rw [plainTrail_cons_some hq, handedOn_cons hlive hlast] at hhanded
    exact List.forall_mem_cons.2 ⟨hdrop, h.handed hhanded⟩
  dropped hnot := by
    rw [plainTrail_cons_some hq, handedOn_cons hlive hlast] at hnot
    obtain ⟨before, s, after, rfl, hs, hlife, hothers⟩ := h.dropped hnot
    refine ⟨q :: before, s, after, rfl, hs, ?_, List.forall_mem_cons.2 ⟨hdrop, hothers⟩⟩
    rw [plainTrail_cons_some hq, plainTrail_cons_some hq, lifetime_cons hlive, hlife]

/-- The step that hands the reference on, after which the variable is not named. -/
theorem of_last (hq : q.plain? = some q') (hlive : v ∈ q'.body.freeVars.texts)
    (hconsumes : q.step.Consumes v) (hplain : q'.step.Consumes v) (hdrop : ¬ q.step.Drops v)
    (hpath : ∀ s ∈ path, ¬ s.step.Names v) (hdead : lifetime v (plainTrail path) = []) :
    Released v (q :: path) where
  last := ⟨[], q.step, path.map (·.step), rfl, hconsumes, List.forall_mem_map.2 hpath⟩
  handed _ := List.forall_mem_cons.2 ⟨hdrop, fun s hs h => hpath s hs h.consumes.names⟩
  dropped hnot := by
    refine absurd ⟨q', ?_, hplain⟩ hnot
    rw [plainTrail_cons_some hq, lifetime_cons hlive, hdead]
    rfl

/-- A drop, after which the variable is not named. -/
theorem of_drop (hq : q.plain? = none) (hdrop : q.step.Drops v)
    (hpath : ∀ s ∈ path, ¬ s.step.Names v) (hdead : lifetime v (plainTrail path) = []) :
    Released v (q :: path) where
  last := ⟨[], q.step, path.map (·.step), rfl, hdrop.consumes, List.forall_mem_map.2 hpath⟩
  handed hhanded := by
    obtain ⟨s, hs, -⟩ := hhanded
    rw [plainTrail_cons_none hq, hdead] at hs
    cases hs
  dropped _ := by
    refine ⟨[], q, path, rfl, hdrop, ?_, fun s hs h => hpath s hs h.consumes.names⟩
    rw [plainTrail_cons_none hq, hdead]
    rfl

end Released

namespace Body

/-- A variable that is not named is not free in the plain part. -/
theorem Absent.not_live (h : b.Absent v) : ¬ b.Live v := by
  unfold Absent at h
  unfold Live
  induction h with
  | ret hs => exact fun hv => hs (.inl (List.mem_singleton.2 (mem_freeVars_ret.1 hv)))
  | @bind x e b hs _ ih =>
      by_cases he : ∃ y, e = .reset y
      · obtain ⟨y, rfl⟩ := he
        exact ih
      · rw [plain_bind fun y heq => he ⟨y, heq⟩, mem_freeVars_bind]
        rintro (hv | ⟨hv, -⟩)
        · refine hs (.inl ?_)
          cases e with
          | reuse u k =>
              exact OrderedSet.mem_texts_union.2 (.inr hv)
          | _ => exact hv
        · exact ih hv
  | case hs _ ih =>
      rw [plain, plainArms_eq, mem_freeVars_case]
      rintro (rfl | ⟨arm, harm, hv⟩)
      · exact hs default (.inl (.head _))
      · obtain ⟨arm', harm', rfl⟩ := List.mem_map.1 harm
        exact ih arm' harm' hv
  | inc _ _ ih => exact ih
  | dec _ _ ih => exact ih

/-- On a trail through a body that does not name a variable, no step does, and it does not live. -/
theorem Absent.trail (h : b.Absent v) (ht : b.Trail t o) :
    (∀ q ∈ t, ¬ q.step.Names v) ∧ lifetime v (plainTrail t) = [] :=
  ⟨(Everywhere.trail h ht).1, lifetime_of_dead ht.plain h.not_live⟩

/-- Where each path gives the reference up once, a path that returns does. -/
theorem Releases.released (h : b.Releases v) (ht : b.Trail path none) : Released v path := by
  induction h generalizing path with
  | @ret x hx =>
      cases ht with
      | ret =>
          have hv : v ∈ (Body.ret x).freeVars.texts := mem_freeVars_ret.2 hx.symm
          exact .of_last rfl hv (List.mem_singleton.2 hx.symm) (List.mem_singleton.2 hx.symm) nofun
            nofun rfl
  | @last x e b he hconsumes hb =>
      cases ht with
      | bind ht =>
          obtain ⟨hpath, hdead⟩ := hb.trail ht
          have hplain : (PathStep.bind x e.plain).Consumes v := by cases e <;> exact hconsumes
          exact .of_last (plain?_bind he) (mem_freeVars_bind.2 (.inl (Expr.mem_freeVars.2 (.inl hplain))))
            hconsumes hplain (PathStep.not_drops_bind fun y heq => absurd heq (he y)) hpath hdead
  | @bind x e b hx hreset hlive hconsumes _ ih =>
      cases ht with
      | bind ht =>
          have hdrop := PathStep.not_drops_bind (x := x) hreset
          by_cases he : ∃ y, e = .reset y
          · obtain ⟨y, rfl⟩ := he
            exact (ih ht).cons_none rfl hdrop
          · have he' (y) (heq : e = .reset y) : False := he ⟨y, heq⟩
            have hplain : (PathStep.bind x e.plain).Consumes v → (PathStep.bind x e).Consumes v := by
              cases e <;> exact id
            exact (ih ht).cons_some (plain?_bind he') (plain_bind he' ▸ hlive he') hdrop fun hnil hc =>
              lifetime_ne_nil ht.plain (hconsumes (hplain hc)) hnil
  | case hlive _ ih =>
      cases ht with
      | case harm ht => exact (ih _ harm ht).cons_some rfl hlive nofun fun _ => nofun
  | inc _ ih =>
      cases ht with
      | inc ht => exact (ih ht).cons_none rfl nofun
  | dec hx _ ih =>
      cases ht with
      | dec ht => exact (ih ht).cons_none rfl (PathStep.not_drops_dec hx)
  | drop hx hb =>
      cases ht with
      | dec ht =>
          obtain ⟨hpath, hdead⟩ := hb.trail ht
          exact .of_drop rfl ⟨_, rfl, hx⟩ hpath hdead
  | recycle hx hb =>
      cases ht with
      | bind ht =>
          obtain ⟨hpath, hdead⟩ := hb.trail ht
          exact .of_drop rfl ⟨_, rfl, hx⟩ hpath hdead

end Body

variable {arms : List Arm} {N : String → Prop} {S : List String}

/-! ## Variables that memory management does not touch -/

/-- A step manages the memory of a variable, or binds or takes a token of that name. -/
def PathStep.Manages (v : String) : PathStep → Prop
  | .bind w (.reset y) => w.text = v ∨ y.text = v
  | .bind _ (.reuse u _) => u.text = v
  | .inc y | .dec y => y.text = v
  | _ => False

namespace Body

/-- No step of a body manages the memory of a variable. -/
def Untouched (v : String) (b : Body) : Prop := b.Everywhere fun s => ¬ s.Manages v

/-- A body does not bind a variable. -/
def Unbound (v : String) (b : Body) : Prop := b.Everywhere fun s => ∀ x ∈ s.binder?, x.text ≠ v

/-- A variable that memory management does not touch is free in a body if it is in its plain part. -/
theorem Untouched.live_iff (h : b.Untouched v) : b.Live v ↔ v ∈ b.freeVars.texts := by
  unfold Untouched at h
  unfold Live
  induction h with
  | ret _ => exact Iff.rfl
  | @bind x e b hs _ ih =>
      by_cases he : ∃ y, e = .reset y
      · obtain ⟨y, rfl⟩ := he
        obtain ⟨hx, hy⟩ := not_or.1 hs
        rw [plain, ih, mem_freeVars_bind, Expr.freeVars, OrderedSet.mem_texts_singleton]
        exact ⟨fun hv => .inr ⟨hv, fun h => hx h.symm⟩, fun hv => (hv.resolve_left fun h => hy h.symm).1⟩
      · rw [plain_bind fun y heq => he ⟨y, heq⟩, mem_freeVars_bind, mem_freeVars_bind, ih]
        refine or_congr_left ?_
        cases e with
        | reuse u k =>
            rw [Expr.plain, Expr.freeVars, Expr.freeVars, OrderedSet.mem_texts_union,
              OrderedSet.mem_texts_singleton]
            exact ⟨.inr, fun hv => hv.resolve_left fun h => hs h.symm⟩
        | _ => exact Iff.rfl
  | case _ _ ih =>
      rw [plain, plainArms_eq, mem_freeVars_case, mem_freeVars_case]
      refine or_congr_right ⟨?_, ?_⟩
      · rintro ⟨arm, harm, hv⟩
        obtain ⟨arm', harm', rfl⟩ := List.mem_map.1 harm
        exact ⟨arm', harm', (ih arm' harm').1 hv⟩
      · rintro ⟨arm, harm, hv⟩
        exact ⟨_, List.mem_map.2 ⟨arm, harm, rfl⟩, (ih arm harm).2 hv⟩
  | inc hs _ ih =>
      rw [plain, ih, mem_freeVars_inc]
      exact ⟨.inr, fun hv => hv.resolve_left fun h => hs h.symm⟩
  | dec hs _ ih =>
      rw [plain, ih, mem_freeVars_dec]
      exact ⟨.inr, fun hv => hv.resolve_left fun h => hs h.symm⟩

/-- A variable that is in scope is not bound again. -/
theorem Untouched.unbound (h : b.Untouched v) (hb : Bound N S b.plain) (hv : v ∈ S) : b.Unbound v := by
  unfold Untouched at h
  unfold Unbound
  have binds_none {s : PathStep} (hs : s.binder? = none) : ∀ x ∈ s.binder?, x.text ≠ v := by simp [hs]
  induction h generalizing S with
  | ret _ => exact .ret (binds_none rfl)
  | @bind x e b hs _ ih =>
      by_cases he : ∃ y, e = .reset y
      · obtain ⟨y, rfl⟩ := he
        refine .bind (fun z hz hzv => hs (.inl ?_)) (ih hb hv)
        cases hz
        exact hzv
      · rw [plain_bind fun y heq => he ⟨y, heq⟩] at hb
        obtain ⟨-, hx, -, hb⟩ := bound_bind.1 hb
        refine .bind (fun z hz hzv => hx ?_) (ih hb (.tail _ hv))
        cases hz
        exact hzv ▸ hv
  | case _ _ ih =>
      rw [plain] at hb
      exact .case (fun _ => binds_none rfl) fun arm harm =>
        ih arm harm ((bound_case.1 hb).2 _ (mem_plainArms harm)) hv
  | inc _ _ ih => exact .inc (binds_none rfl) (ih hb hv)
  | dec _ _ ih => exact .dec (binds_none rfl) (ih hb hv)

/-- A variable that a body neither reads nor binds is not named in it. -/
theorem Unbound.absent (h : b.Unbound v) (hv : v ∉ b.freeVars.texts) : b.Absent v := by
  unfold Unbound at h
  unfold Absent
  have named {s : PathStep} (hs : ∀ x ∈ s.binder?, x.text ≠ v) (hread : v ∉ s.mentioned) :
      ¬ s.Names v := fun h => h.elim hread fun ⟨x, hx, hxv⟩ => hs x hx hxv
  induction h with
  | ret hs => exact .ret (named hs fun h => hv (mem_freeVars_ret.2 (List.mem_singleton.1 h)))
  | bind hs _ ih =>
      rw [mem_freeVars_bind, not_or] at hv
      exact .bind (named hs hv.1) (ih fun h => hv.2 ⟨h, fun heq => hs _ rfl heq.symm⟩)
  | case hs _ ih =>
      rw [mem_freeVars_case, not_or] at hv
      exact .case (fun tag => named (hs tag) fun h => hv.1 (List.mem_singleton.1 h)) fun arm harm =>
        ih arm harm fun h => hv.2 ⟨arm, harm, h⟩
  | inc hs _ ih =>
      rw [mem_freeVars_inc, not_or] at hv
      exact .inc (named hs fun h => hv.1 (List.mem_singleton.1 h)) (ih hv.2)
  | dec hs _ ih =>
      rw [mem_freeVars_dec, not_or] at hv
      exact .dec (named hs fun h => hv.1 (List.mem_singleton.1 h)) (ih hv.2)

theorem Absent.not_free (h : b.Absent v) : v ∉ b.freeVars.texts := by
  unfold Absent at h
  induction h with
  | ret hs => exact fun hv => hs (.inl (List.mem_singleton.2 (mem_freeVars_ret.1 hv)))
  | bind hs _ ih => exact fun hv => (mem_freeVars_bind.1 hv).elim (fun h => hs (.inl h)) fun h => ih h.1
  | case hs _ ih =>
      intro hv
      rcases mem_freeVars_case.1 hv with rfl | ⟨arm, harm, hv⟩
      · exact hs default (.inl (.head _))
      · exact ih arm harm hv
  | inc hs _ ih =>
      exact fun hv => (mem_freeVars_inc.1 hv).elim (fun h => hs (.inl (List.mem_singleton.2 h))) ih
  | dec hs _ ih =>
      exact fun hv => (mem_freeVars_dec.1 hv).elim (fun h => hs (.inl (List.mem_singleton.2 h))) ih

/-! ## What is left of a body that gives a reference up -/

namespace Releases

/-- A reference that is given up is read on the way. -/
theorem free (h : b.Releases v) : v ∈ b.freeVars.texts := by
  induction h with
  | ret hx => exact mem_freeVars_ret.2 hx.symm
  | last _ hc _ => exact mem_freeVars_bind.2 (.inl (Expr.mem_freeVars.2 (.inl hc)))
  | bind hx _ _ _ _ ih => exact mem_freeVars_bind.2 (.inr ⟨ih, fun h => hx h.symm⟩)
  | case hlive _ ih =>
      rw [Live, plain, plainArms_eq, mem_freeVars_case] at hlive
      refine mem_freeVars_case.2 (hlive.imp_right fun hsome => ?_)
      obtain ⟨arm, harm, -⟩ := hsome
      obtain ⟨arm', harm', -⟩ := List.mem_map.1 harm
      exact ⟨arm', harm', ih arm' harm'⟩
  | inc _ ih => exact mem_freeVars_inc.2 (.inr ih)
  | dec _ _ ih => exact mem_freeVars_dec.2 (.inr ih)
  | drop hx _ => exact mem_freeVars_dec.2 (.inl hx.symm)
  | recycle hx _ =>
      exact mem_freeVars_bind.2 (.inl (OrderedSet.mem_texts_singleton.2 hx.symm))

theorem of_bind (h : (Body.bind x e b).Releases v) : b.Releases v ∨ b.Absent v := by
  cases h with
  | last _ _ hb | recycle _ hb => exact .inr hb
  | bind _ _ _ _ hb => exact .inl hb

theorem of_inc (h : (Body.inc x b).Releases v) : b.Releases v ∨ b.Absent v := by
  cases h with
  | inc hb => exact .inl hb

theorem of_dec (h : (Body.dec x b).Releases v) : b.Releases v ∨ b.Absent v := by
  cases h with
  | dec _ hb => exact .inl hb
  | drop _ hb => exact .inr hb

theorem of_case (h : (Body.case x arms).Releases v) : ∀ arm ∈ arms, arm.2.Releases v := by
  cases h with
  | case _ harms => exact harms

end Releases

end Body

end Reclaim.Core
