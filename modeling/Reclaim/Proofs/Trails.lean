import Reclaim.Proofs.Paths
import Reclaim.Proofs.Validity

/-!
# Trails through bodies

A trail leads into a body and keeps at each step what was left to do there (`Body.Trail`).  It ends in
front of what remains, or behind a return.  Where a path only says which steps are made, a trail can
speak about the variables that are still needed on the way.

`Body.Everywhere P b` says that all steps that can be made in `b` have the property `P`.  At the end of
a trail through a body whose variables are bound, what is in scope was bound on the trail or was in
scope before (`Bound.trail`).
-/

namespace Reclaim.Core

/-- A stop on a trail. -/
structure Waypoint where
  /-- What is left of the body. -/
  body : Body
  /-- The step that is made. -/
  step : PathStep
deriving Repr, Inhabited

namespace Body

/-- A trail leads from the start of a body to what is left at its end.  After a return nothing is. -/
inductive Trail : Body → List Waypoint → Option Body → Prop where
  | here {b : Body} : Trail b [] (some b)
  | ret {x : Var} : Trail (.ret x) [⟨.ret x, .ret x⟩] none
  | bind {x : Var} {e : Expr} {b : Body} {t : List Waypoint} {o : Option Body} :
      Trail b t o → Trail (.bind x e b) (⟨.bind x e b, .bind x e⟩ :: t) o
  | case {x : Var} {arms : List Arm} {arm : Arm} {t : List Waypoint} {o : Option Body} :
      arm ∈ arms → Trail arm.2 t o →
      Trail (.case x arms) (⟨.case x arms, .enter x arm.1⟩ :: t) o
  | inc {x : Var} {b : Body} {t : List Waypoint} {o : Option Body} :
      Trail b t o → Trail (.inc x b) (⟨.inc x b, .inc x⟩ :: t) o
  | dec {x : Var} {b : Body} {t : List Waypoint} {o : Option Body} :
      Trail b t o → Trail (.dec x b) (⟨.dec x b, .dec x⟩ :: t) o

/-- A trail cannot be prolonged: it returns, or stops in front of a case without arms. -/
def Finishes (b : Body) (t : List Waypoint) : Prop :=
  Trail b t none ∨ ∃ x, Trail b t (some (.case x []))

/-- Every step that can be made in a body has a property, whatever tag a case finds. -/
inductive Everywhere (P : PathStep → Prop) : Body → Prop where
  | ret {x : Var} : P (.ret x) → Everywhere P (.ret x)
  | bind {x : Var} {e : Expr} {b : Body} :
      P (.bind x e) → Everywhere P b → Everywhere P (.bind x e b)
  | case {x : Var} {arms : List Arm} :
      (∀ tag, P (.enter x tag)) → (∀ arm ∈ arms, Everywhere P arm.2) → Everywhere P (.case x arms)
  | inc {x : Var} {b : Body} : P (.inc x) → Everywhere P b → Everywhere P (.inc x b)
  | dec {x : Var} {b : Body} : P (.dec x) → Everywhere P b → Everywhere P (.dec x b)

end Body

variable {b b' : Body} {t t' : List Waypoint} {q : Waypoint} {o : Option Body} {P Q : PathStep → Prop}
  {N : String → Prop} {S : List String} {u : String}

namespace Body.Trail

theorem append (h : b.Trail t (some b')) (h' : b'.Trail t' o) : b.Trail (t ++ t') o := by
  generalize hend : some b' = o' at h
  induction h with
  | here =>
      cases hend
      exact h'
  | ret => cases hend
  | bind _ ih => exact .bind (ih hend)
  | case harm _ ih => exact .case harm (ih hend)
  | inc _ ih => exact .inc (ih hend)
  | dec _ ih => exact .dec (ih hend)

/-- A trail that makes a step goes through what is left in front of it and behind it. -/
theorem split (h : b.Trail (t ++ q :: t') o) :
    b.Trail t (some q.body) ∧ q.body.Trail (q :: t') o := by
  induction t generalizing b with
  | nil =>
      cases h with
      | ret => exact ⟨.here, .ret⟩
      | bind h => exact ⟨.here, .bind h⟩
      | case harm h => exact ⟨.here, .case harm h⟩
      | inc h => exact ⟨.here, .inc h⟩
      | dec h => exact ⟨.here, .dec h⟩
  | cons first rest ih =>
      generalize hl : first :: rest ++ q :: t' = l at h
      cases h with
      | here => cases hl
      | ret => exact absurd (List.cons.inj hl).2 (List.append_ne_nil_of_right_ne_nil _ (List.cons_ne_nil _ _))
      | bind h =>
          obtain ⟨rfl, rfl⟩ := List.cons.inj hl
          exact ⟨.bind (ih h).1, (ih h).2⟩
      | case harm h =>
          obtain ⟨rfl, rfl⟩ := List.cons.inj hl
          exact ⟨.case harm (ih h).1, (ih h).2⟩
      | inc h =>
          obtain ⟨rfl, rfl⟩ := List.cons.inj hl
          exact ⟨.inc (ih h).1, (ih h).2⟩
      | dec h =>
          obtain ⟨rfl, rfl⟩ := List.cons.inj hl
          exact ⟨.dec (ih h).1, (ih h).2⟩

theorem finishes (h : b.Trail t (some b')) (h' : b'.Finishes t') : b.Finishes (t ++ t') :=
  h'.imp h.append fun ⟨x, h'⟩ => ⟨x, h.append h'⟩

end Body.Trail

/-- There is always a trail that cannot be prolonged. -/
theorem Body.exists_finishes (b : Body) : ∃ t, b.Finishes t := by
  induction b with
  | ret x => exact ⟨_, .inl .ret⟩
  | bind x e b ih =>
      obtain ⟨t, h⟩ := ih
      exact ⟨_, h.imp .bind fun ⟨y, h⟩ => ⟨y, .bind h⟩⟩
  | case x arms ih =>
      cases arms with
      | nil => exact ⟨_, .inr ⟨x, .here⟩⟩
      | cons arm rest =>
          obtain ⟨t, h⟩ := ih arm (.head _)
          exact ⟨_, h.imp (.case (.head _)) fun ⟨y, h⟩ => ⟨y, .case (.head _) h⟩⟩
  | inc x b ih =>
      obtain ⟨t, h⟩ := ih
      exact ⟨_, h.imp .inc fun ⟨y, h⟩ => ⟨y, .inc h⟩⟩
  | dec x b ih =>
      obtain ⟨t, h⟩ := ih
      exact ⟨_, h.imp .dec fun ⟨y, h⟩ => ⟨y, .dec h⟩⟩

/-- The paths through a body are the steps of the trails that return. -/
theorem Body.mem_paths_iff {steps : List PathStep} :
    steps ∈ b.paths ↔ ∃ t, b.Trail t none ∧ t.map (·.step) = steps := by
  induction b generalizing steps with
  | ret x =>
      rw [Body.paths, List.mem_singleton]
      constructor
      · rintro rfl
        exact ⟨_, .ret, rfl⟩
      · rintro ⟨t, h, rfl⟩
        cases h
        rfl
  | bind x e b ih =>
      rw [Body.paths, List.mem_map]
      constructor
      · rintro ⟨rest, hrest, rfl⟩
        obtain ⟨t, h, rfl⟩ := ih.1 hrest
        exact ⟨_, .bind h, rfl⟩
      · rintro ⟨t, h, rfl⟩
        cases h with
        | bind h => exact ⟨_, ih.2 ⟨_, h, rfl⟩, rfl⟩
  | case x arms ih =>
      rw [Body.paths, mem_pathsIn]
      constructor
      · rintro ⟨arm, harm, rest, hrest, rfl⟩
        obtain ⟨t, h, rfl⟩ := (ih arm harm).1 hrest
        exact ⟨_, .case harm h, rfl⟩
      · rintro ⟨t, h, rfl⟩
        cases h with
        | case harm h => exact ⟨_, harm, _, (ih _ harm).2 ⟨_, h, rfl⟩, rfl⟩
  | inc x b ih =>
      rw [Body.paths, List.mem_map]
      constructor
      · rintro ⟨rest, hrest, rfl⟩
        obtain ⟨t, h, rfl⟩ := ih.1 hrest
        exact ⟨_, .inc h, rfl⟩
      · rintro ⟨t, h, rfl⟩
        cases h with
        | inc h => exact ⟨_, ih.2 ⟨_, h, rfl⟩, rfl⟩
  | dec x b ih =>
      rw [Body.paths, List.mem_map]
      constructor
      · rintro ⟨rest, hrest, rfl⟩
        obtain ⟨t, h, rfl⟩ := ih.1 hrest
        exact ⟨_, .dec h, rfl⟩
      · rintro ⟨t, h, rfl⟩
        cases h with
        | dec h => exact ⟨_, ih.2 ⟨_, h, rfl⟩, rfl⟩

theorem mem_bindingsArms {arms : List Arm} {site : BindingSite} :
    site ∈ bindingsArms arms ↔ ∃ arm ∈ arms, site ∈ arm.2.bindings := by
  induction arms with
  | nil => simp [bindingsArms]
  | cons arm rest ih =>
      obtain ⟨tag, b⟩ := arm
      simp [bindingsArms, ih]

/-- The bindings of a body are those to which a trail leads. -/
theorem Body.mem_bindings_iff {site : BindingSite} : site ∈ b.bindings ↔
    ∃ t, b.Trail t (some (.bind site.binder site.expr site.rest)) := by
  induction b with
  | ret x =>
      refine ⟨nofun, ?_⟩
      rintro ⟨t, h⟩
      cases h
  | bind x e b ih =>
      rw [bindings, List.mem_cons, ih]
      constructor
      · rintro (rfl | ⟨t, h⟩)
        · exact ⟨[], .here⟩
        · exact ⟨_, .bind h⟩
      · rintro ⟨t, h⟩
        cases h with
        | here => exact .inl rfl
        | bind h => exact .inr ⟨_, h⟩
  | case x arms ih =>
      rw [bindings, mem_bindingsArms]
      constructor
      · rintro ⟨arm, harm, hsite⟩
        obtain ⟨t, h⟩ := (ih arm harm).1 hsite
        exact ⟨_, .case harm h⟩
      · rintro ⟨t, h⟩
        cases h with
        | case harm h => exact ⟨_, harm, (ih _ harm).2 ⟨_, h⟩⟩
  | inc x b ih =>
      rw [bindings, ih]
      refine ⟨fun ⟨t, h⟩ => ⟨_, .inc h⟩, ?_⟩
      rintro ⟨t, h⟩
      cases h with
      | inc h => exact ⟨_, h⟩
  | dec x b ih =>
      rw [bindings, ih]
      refine ⟨fun ⟨t, h⟩ => ⟨_, .dec h⟩, ?_⟩
      rintro ⟨t, h⟩
      cases h with
      | dec h => exact ⟨_, h⟩

/-! ## Properties of all steps -/

namespace Body

variable {x : Var} {e : Expr} {arms : List Arm}

theorem everywhere_bind : (Body.bind x e b).Everywhere P ↔ P (.bind x e) ∧ b.Everywhere P :=
  ⟨fun (.bind hp h) => ⟨hp, h⟩, fun ⟨hp, h⟩ => .bind hp h⟩

theorem everywhere_case : (Body.case x arms).Everywhere P ↔
    (∀ tag, P (.enter x tag)) ∧ ∀ arm ∈ arms, arm.2.Everywhere P :=
  ⟨fun (.case hp h) => ⟨hp, h⟩, fun ⟨hp, h⟩ => .case hp h⟩

theorem everywhere_inc : (Body.inc x b).Everywhere P ↔ P (.inc x) ∧ b.Everywhere P :=
  ⟨fun (.inc hp h) => ⟨hp, h⟩, fun ⟨hp, h⟩ => .inc hp h⟩

theorem everywhere_dec : (Body.dec x b).Everywhere P ↔ P (.dec x) ∧ b.Everywhere P :=
  ⟨fun (.dec hp h) => ⟨hp, h⟩, fun ⟨hp, h⟩ => .dec hp h⟩

end Body

namespace Body.Everywhere

theorem mono (h : b.Everywhere P) (hP : ∀ s, P s → Q s) : b.Everywhere Q := by
  induction h with
  | ret hp => exact .ret (hP _ hp)
  | bind hp _ ih => exact .bind (hP _ hp) ih
  | case hp _ ih => exact .case (fun tag => hP _ (hp tag)) ih
  | inc hp _ ih => exact .inc (hP _ hp) ih
  | dec hp _ ih => exact .dec (hP _ hp) ih

theorem and (h : b.Everywhere P) (h' : b.Everywhere Q) : b.Everywhere fun s => P s ∧ Q s := by
  induction h with
  | ret hp =>
      cases h' with
      | ret hq => exact .ret ⟨hp, hq⟩
  | bind hp _ ih =>
      obtain ⟨hq, h'⟩ := everywhere_bind.1 h'
      exact .bind ⟨hp, hq⟩ (ih h')
  | case hp _ ih =>
      obtain ⟨hq, h'⟩ := everywhere_case.1 h'
      exact .case (fun tag => ⟨hp tag, hq tag⟩) fun arm harm => ih arm harm (h' arm harm)
  | inc hp _ ih =>
      obtain ⟨hq, h'⟩ := everywhere_inc.1 h'
      exact .inc ⟨hp, hq⟩ (ih h')
  | dec hp _ ih =>
      obtain ⟨hq, h'⟩ := everywhere_dec.1 h'
      exact .dec ⟨hp, hq⟩ (ih h')

/-- What holds of all steps of a body holds of the steps of a trail, and of all steps behind it. -/
theorem trail (h : b.Everywhere P) (ht : b.Trail t o) :
    (∀ q ∈ t, P q.step) ∧ ∀ b', o = some b' → b'.Everywhere P := by
  induction ht with
  | here => exact ⟨nofun, fun _ heq => Option.some.inj heq ▸ h⟩
  | ret =>
      cases h with
      | ret hp => exact ⟨List.forall_mem_singleton.2 hp, nofun⟩
  | bind _ ih =>
      obtain ⟨hp, h⟩ := everywhere_bind.1 h
      exact ⟨List.forall_mem_cons.2 ⟨hp, (ih h).1⟩, (ih h).2⟩
  | case harm _ ih =>
      obtain ⟨hp, h⟩ := everywhere_case.1 h
      exact ⟨List.forall_mem_cons.2 ⟨hp _, (ih (h _ harm)).1⟩, (ih (h _ harm)).2⟩
  | inc _ ih =>
      obtain ⟨hp, h⟩ := everywhere_inc.1 h
      exact ⟨List.forall_mem_cons.2 ⟨hp, (ih h).1⟩, (ih h).2⟩
  | dec _ ih =>
      obtain ⟨hp, h⟩ := everywhere_dec.1 h
      exact ⟨List.forall_mem_cons.2 ⟨hp, (ih h).1⟩, (ih h).2⟩

end Body.Everywhere

/-- A step of a body that does not manage memory. -/
def PathStep.IsPlain : PathStep → Prop
  | .bind _ e => e.isManaged = false
  | .enter .. | .ret _ => True
  | .inc _ | .dec _ => False

theorem Body.everywhere_of_unmanaged (hm : b.isManaged = false) : b.Everywhere PathStep.IsPlain := by
  induction b with
  | ret x => exact .ret trivial
  | bind x e b ih =>
      rw [isManaged, Bool.or_eq_false_iff] at hm
      exact .bind hm.1 (ih hm.2)
  | case x arms ih =>
      rw [isManaged, armsManaged_eq_false_iff] at hm
      exact .case (fun _ => trivial) fun arm harm => ih arm harm (hm arm harm)
  | inc x b ih => cases hm
  | dec x b ih => cases hm

/-- The variable whose record a step drops. -/
def PathStep.dropped? : PathStep → Option Var
  | .bind _ (.reset x) | .dec x => some x
  | _ => none

theorem PathStep.mentioned_of_dropped? {s : PathStep} {v : Var} (h : s.dropped? = some v) :
    v.text ∈ s.mentioned := by
  cases s with
  | bind x e =>
      cases e with
      | reset y => exact OrderedSet.mem_texts_singleton.2 (congrArg _ (Option.some.inj h).symm)
      | _ => cases h
  | dec x => exact List.mem_singleton.2 (congrArg _ (Option.some.inj h).symm)
  | _ => cases h

/-! ## Scopes -/

/-- The variable that a step binds. -/
def PathStep.binder? : PathStep → Option Var
  | .bind x _ => some x
  | .enter .. | .inc _ | .dec _ | .ret _ => none

/-- The spellings of the variables that are bound on a trail, the last one first. -/
def boundOn : List Waypoint → List String
  | [] => []
  | q :: t => boundOn t ++ q.step.binder?.toList.map (·.text)

theorem mem_boundOn : u ∈ boundOn t ↔ ∃ q ∈ t, ∃ x e, q.step = .bind x e ∧ x.text = u := by
  induction t with
  | nil => simp [boundOn]
  | cons q t ih =>
      obtain ⟨body, step⟩ := q
      rw [boundOn, List.mem_append, ih, List.exists_mem_cons_iff, or_comm]
      cases step <;> simp [PathStep.binder?, eq_comm]

/-- The spellings of the variables that a body reads in its first step. -/
def Body.reads : Body → List String
  | .bind _ e _ => e.freeVars.texts
  | .ret x | .case x _ | .inc x _ | .dec x _ => [x.text]

/-- A step that binds a variable is made in front of the binding. -/
theorem Body.Trail.exists_binding {x : Var} {e : Expr} (h : b.Trail t o) (hq : q ∈ t)
    (hstep : q.step = .bind x e) :
    ∃ before rest, q.body = .bind x e rest ∧ b.Trail before (some (.bind x e rest)) := by
  obtain ⟨before, after, rfl⟩ := List.append_of_mem hq
  obtain ⟨hbefore, hafter⟩ := h.split
  obtain ⟨body, step⟩ := q
  cases hstep
  cases hafter with
  | bind _ => exact ⟨before, _, rfl, hbefore⟩

/-- What a step reads is what the body reads in front of which it is made. -/
theorem Body.Trail.mentioned (h : b.Trail (q :: t) o) : q.body = b ∧ q.step.mentioned = b.reads := by
  cases h <;> exact ⟨rfl, rfl⟩

namespace Bound

theorem reads (h : Bound N S b) : ∀ u ∈ b.reads, u ∈ S := by
  cases h with
  | bind hreads _ _ _ => exact hreads
  | ret hx | case hx _ | inc hx _ | dec hx _ => exact List.forall_mem_singleton.2 hx

/-- What is in scope behind a trail was bound on it or was in scope before. -/
theorem trail (h : Bound N S b) (ht : b.Trail t (some b')) : Bound N (boundOn t ++ S) b' := by
  generalize hend : some b' = o at ht
  induction ht generalizing S with
  | here => exact Option.some.inj hend ▸ h
  | ret => cases hend
  | @bind x e b t o _ ih =>
      have := ih (bound_bind.1 h).2.2.2 hend
      rwa [boundOn, List.append_assoc]
  | case harm _ ih =>
      have := ih ((bound_case.1 h).2 _ harm) hend
      rwa [boundOn, List.append_assoc]
  | inc _ ih =>
      have := ih (bound_inc.1 h).2 hend
      rwa [boundOn, List.append_assoc]
  | dec _ ih =>
      have := ih (bound_dec.1 h).2 hend
      rwa [boundOn, List.append_assoc]

/-- What is bound on a trail was not in scope before. -/
theorem binder_new (h : Bound N S b) (ht : b.Trail t o) (hq : q ∈ t) {x : Var} {e : Expr}
    (hstep : q.step = .bind x e) : x.text ∉ S := by
  obtain ⟨before, rest, -, hbefore⟩ := ht.exists_binding hq hstep
  exact fun hx => (bound_bind.1 (h.trail hbefore)).2.1 (List.mem_append_right _ hx)

/-- A binder has one of the names that binders may have. -/
theorem binder (h : Bound N S b) {site : BindingSite} (hsite : site ∈ b.bindings) :
    N site.binder.text := by
  obtain ⟨t, ht⟩ := Body.mem_bindings_iff.1 hsite
  exact (bound_bind.1 (h.trail ht)).2.2.1

/-- What a step on a trail reads was bound on the way there or was in scope before. -/
theorem mentioned (h : Bound N S b) (ht : b.Trail (t ++ q :: t') o) (hu : u ∈ q.step.mentioned) :
    u ∈ boundOn t ∨ u ∈ S := by
  obtain ⟨before, after⟩ := ht.split
  exact List.mem_append.1 ((h.trail before).reads u (after.mentioned.2 ▸ hu))

/-- The names that steps read and bind. -/
theorem everywhere (h : Bound N S b) (hS : ∀ u ∈ S, N u) : b.Everywhere fun s =>
    (∀ u ∈ s.mentioned, N u) ∧ ∀ x ∈ s.binder?, N x.text := by
  induction h with
  | ret hx => exact .ret ⟨List.forall_mem_singleton.2 (hS _ hx), nofun⟩
  | bind hreads _ hn _ ih =>
      refine .bind ⟨fun u hu => hS u (hreads u hu), fun x hx => ?_⟩
        (ih (List.forall_mem_cons.2 ⟨hn, hS⟩))
      exact Option.some.inj hx ▸ hn
  | case hx _ ih =>
      exact .case (fun _ => ⟨List.forall_mem_singleton.2 (hS _ hx), nofun⟩) fun arm harm =>
        ih arm harm hS
  | inc hx _ ih => exact .inc ⟨List.forall_mem_singleton.2 (hS _ hx), nofun⟩ (ih hS)
  | dec hx _ ih => exact .dec ⟨List.forall_mem_singleton.2 (hS _ hx), nofun⟩ (ih hS)

end Bound

end Reclaim.Core
