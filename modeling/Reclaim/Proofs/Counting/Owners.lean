import Reclaim.Proofs.Counting.Validity
import Reclaim.Proofs.Loading

/-!
# Which records are dropped

A matched record is dropped if its variable is spelled like an owner of the function.  The owners are a
set of names for all arms (`FnDef.mem_owners`), and arms may bind one name in different ways.  So where
a variable is dropped it holds a reference of its own, or else it is bound to a field there and the
function binds the same name to a reference of its own in another place (`dropped_spec`).  The latter
happens (`exists_dropped_field`).
-/

namespace Reclaim.Core

variable {b : Body} {d : FnDef} {u : String}

/-! ## Owners -/

theorem mem_ownersArms {arms : List Arm} {vars : VarSet}
    (harms : ∀ arm ∈ arms, ∀ {vars : VarSet}, u ∈ (arm.2.owners vars).texts ↔ u ∈ vars.texts ∨
      ∃ site ∈ arm.2.bindings, site.binder.text = u ∧ site.expr.isOwned = true) :
    u ∈ (ownersArms vars arms).texts ↔ u ∈ vars.texts ∨
      ∃ site ∈ bindingsArms arms, site.binder.text = u ∧ site.expr.isOwned = true := by
  induction arms generalizing vars with
  | nil => simp [ownersArms, bindingsArms]
  | cons arm rest ih =>
      obtain ⟨tag, b⟩ := arm
      rw [ownersArms, ih fun arm harm => harms arm (.tail _ harm), harms (tag, b) (.head _)]
      simp [bindingsArms, or_and_right, exists_or, or_assoc]

/-- The owners of a body are the variables that it binds to references of their own. -/
theorem Body.mem_owners {vars : VarSet} : u ∈ (b.owners vars).texts ↔ u ∈ vars.texts ∨
    ∃ site ∈ b.bindings, site.binder.text = u ∧ site.expr.isOwned = true := by
  induction b generalizing vars with
  | ret x => simp [owners, bindings]
  | bind x e b ih =>
      rw [owners, ih]
      split
      · next he =>
          rw [OrderedSet.mem_texts_insert, or_assoc]
          simp [he, bindings, @eq_comm _ u]
      · next he => simp [he, bindings]
  | case x arms ih => exact mem_ownersArms fun arm harm _ => ih arm harm
  | inc x b ih | dec x b ih => exact ih

theorem FnDef.mem_owners : u ∈ d.owners.texts ↔ u ∈ d.params.map (·.text) ∨
    ∃ site ∈ d.body.bindings, site.binder.text = u ∧ site.expr.isOwned = true := by
  rw [owners, Body.mem_owners, OrderedSet.mem_texts_ofList]

/-- Owners are among the variables of a function. -/
theorem FnDef.owners_subset {N : String → Prop} {S : List String} (h : Bound N S d.body)
    (hu : u ∈ d.owners.texts) : u ∈ d.allVars.texts := by
  rcases mem_owners.1 hu with hu | ⟨site, hsite, rfl, -⟩
  · exact Body.mem_allVars_of_mem (OrderedSet.mem_texts_ofList.2 hu)
  · exact (h.of_allVars (N := (· ∈ d.allVars.texts)) fun _ ht => ht).binder hsite

/-! ## Bindings on the way -/

/-- What a step binds a variable to. -/
def PathStep.boundTo? (v : Var) : PathStep → Option Expr
  | .bind x e => if x == v then some e else none
  | _ => none

/-- What the last binding of a variable on the way binds it to. -/
def boundTo? (v : Var) : List PathStep → Option Expr
  | [] => none
  | s :: rest => (boundTo? v rest).or (s.boundTo? v)

/-- After some steps a variable holds a reference of its own: it was bound to one by the last binding
under its name, or it is a parameter. -/
def OwnsAfter (params : List Var) (steps : List PathStep) (v : Var) : Prop :=
  match boundTo? v steps with
  | some e => e.isOwned = true
  | none => v.text ∈ params.map (·.text)

variable {v : Var} {e : Expr} {t : List Waypoint}

theorem PathStep.boundTo?_eq_some {s : PathStep} :
    s.boundTo? v = some e ↔ ∃ x, s = .bind x e ∧ x.text = v.text := by
  cases s with
  | bind x e' =>
      rw [boundTo?, Option.ite_none_right_eq_some, Name.beq_iff]
      constructor
      · rintro ⟨hx, heq⟩
        exact ⟨x, Option.some.inj heq ▸ rfl, hx⟩
      · rintro ⟨y, heq, hy⟩
        cases heq
        exact ⟨hy, rfl⟩
  | _ => simp [boundTo?]

theorem mem_of_boundTo? (h : boundTo? v (t.map (·.step)) = some e) :
    ∃ q ∈ t, ∃ x, q.step = .bind x e ∧ x.text = v.text := by
  induction t with
  | nil => cases h
  | cons q t ih =>
      rw [List.map_cons, boundTo?, Option.or_eq_some_iff] at h
      rcases h with h | ⟨-, h⟩
      · obtain ⟨q', hq', found⟩ := ih h
        exact ⟨q', .tail _ hq', found⟩
      · exact ⟨q, .head _, PathStep.boundTo?_eq_some.1 h⟩

theorem not_mem_of_boundTo? (h : boundTo? v (t.map (·.step)) = none) : v.text ∉ boundOn t := by
  rw [mem_boundOn]
  rintro ⟨q, hq, x, e, hstep, hx⟩
  induction t with
  | nil => cases hq
  | cons first t ih =>
      rw [List.map_cons, boundTo?, Option.or_eq_none_iff] at h
      rcases List.mem_cons.1 hq with rfl | hq
      · rw [PathStep.boundTo?_eq_some.2 ⟨x, hstep, hx⟩] at h
        cases h.2
      · exact ih h.1 hq

end Reclaim.Core

namespace Reclaim.Counting

open Reclaim.Core

variable {p : Program} {d : FnDef} {source : String} {before after : List Waypoint} {q : Waypoint}
  {o : Option Body} {v : Var}

/-! ## Dropped variables -/

/-- A drop is of an owner, and a token is not called like a variable of the function. -/
structure DropsOwner (d : FnDef) (s : PathStep) : Prop where
  /-- What is dropped is spelled like an owner. -/
  owner (v : Var) : s.dropped? = some v → v.text ∈ d.owners.texts
  /-- What is bound to a token is new. -/
  token (x y : Var) : s = .bind x (.reset y) → x.text ∉ d.allVars.texts

theorem insertable_dropsOwner {lo hi : Nat} : Insertable (reservedOf p d) (fun _ => False)
    (fun x => d.owners.contains x = true) lo hi (DropsOwner d) where
  adjust h := h.elim
  drop hx _ := ⟨fun _ h => Option.some.inj h ▸ OrderedSet.contains_iff.1 hx, nofun⟩
  reset hx _ _ _ hperm := by
    refine ⟨fun _ h => Option.some.inj h ▸ OrderedSet.contains_iff.1 hx, fun x y h hmem => ?_⟩
    cases h
    exact Reserved.permits_iff.1 hperm (List.mem_append_left _ hmem)
  reuse _ _ _ _ := ⟨nofun, nofun⟩

theorem withDrops_dropsOwner (p : Program) (hm : d.body.isManaged = false) :
    (withDrops p d).Everywhere (DropsOwner d) := by
  obtain ⟨c, drops⟩ := inserted_withDrops p d
  refine drops.everywhere insertable_dropsOwner nofun ?_
  refine (Body.everywhere_of_unmanaged hm).mono fun s hs => ?_
  cases s with
  | bind x e =>
      cases e with
      | reset => cases hs
      | _ => exact ⟨nofun, nofun⟩
  | enter | ret => exact ⟨nofun, nofun⟩
  | inc | dec => exact hs.elim

/-- In a function of a loaded program a record is dropped through a variable that holds a reference of
its own.  The only other way is that the variable is bound to a field there, and that the function
binds the same name to a reference of its own in another place. -/
theorem dropped_spec (hload : load source = .ok p) (hd : d ∈ p.fns) (hm : d.body.isManaged = false)
    (ht : (withDrops p d).Trail (before ++ q :: after) o) (hq : q.step.dropped? = some v) :
    OwnsAfter d.params (before.map (·.step)) v ∨
      (∃ field record, boundTo? v (before.map (·.step)) = some (.proj field record)) ∧
        ∃ site ∈ d.body.bindings, site.binder.text = v.text ∧ site.expr.isOwned = true := by
  obtain ⟨-, hbound, -⟩ := checkFn_eq_ok.1 (checkFn_of_mem (wellFormed_of_load hload).valid hd)
  obtain ⟨c, hbound'⟩ := bound_withDrops p hbound
  have steps := ((withDrops_dropsOwner p hm).trail ht).1
  have howner := (steps q (by simp)).owner v hq
  cases hto : boundTo? v (before.map (·.step)) with
  | none =>
      -- The variable is in scope and was not bound on the way.
      left
      have hscope := (hbound'.mentioned ht (PathStep.mentioned_of_dropped? hq)).resolve_left
        (not_mem_of_boundTo? hto)
      simpa [OwnsAfter, hto] using hscope
  | some e =>
      obtain ⟨q', hq', x, hstep, hx⟩ := mem_of_boundTo? hto
      have hnew := (steps q' (List.mem_append_left _ hq')).token x
      cases e with
      | proj field record =>
          refine .inr ⟨⟨field, record, rfl⟩, (FnDef.mem_owners.1 howner).resolve_left fun hparam => ?_⟩
          exact hbound'.binder_new ht (List.mem_append_left _ hq') hstep (by simpa [hx] using hparam)
      | reset y => exact absurd (hx ▸ d.owners_subset hbound howner) (hnew y hstep)
      | _ =>
          left
          simp [OwnsAfter, hto, Expr.isOwned, Expr.holding]

/-- A function whose arms bind one name, the first to a record and the second to a field. -/
def sharedNameSource : String :=
  "(deftype A)
  (deftype B x)
  (defn f (z)
    (case z
      A (let (q (new A)) (ret q))
      B (let (q (proj x z)) (case q A (ret z) B (ret z)))))"

set_option maxRecDepth 2000 in
/-- In an arm of the inner case the field is dropped. -/
theorem exists_shared_name : ∃ p d before q after v, load sharedNameSource = .ok p ∧ d ∈ p.fns ∧
    d.body.isManaged = false ∧ (withDrops p d).Trail (before ++ q :: after) none ∧
    q.step.dropped? = some v ∧
    ∃ e, boundTo? v (before.map (·.step)) = some e ∧ e.isOwned = false := by
  obtain ⟨p, hload, hcheck⟩ : ∃ p, load sharedNameSource = .ok p ∧ (p.fns.any fun d =>
      !d.body.isManaged && (withDrops p d).paths.any fun steps =>
        (steps.drop 3).head?.any fun s => s.dropped?.any fun v =>
          (boundTo? v (steps.take 3)).any fun e => !e.isOwned) = true :=
    exists_load rfl (by decide +kernel)
  simp only [List.any_eq_true, Bool.and_eq_true, Bool.not_eq_true', Option.any_eq_true] at hcheck
  obtain ⟨d, hd, hm, steps, hsteps, s, hs, v, hv, e, he, howned⟩ := hcheck
  obtain ⟨t, ht, rfl⟩ := Body.mem_paths_iff.1 hsteps
  rw [← List.map_drop, List.head?_map, Option.map_eq_some_iff] at hs
  obtain ⟨q, hq, rfl⟩ := hs
  obtain ⟨after, hdrop⟩ : ∃ after, t.drop 3 = q :: after := ⟨_, List.eq_cons_of_mem_head? hq⟩
  rw [← List.take_append_drop 3 t, hdrop] at ht
  exact ⟨p, d, t.take 3, q, after, v, hload, hd, hm, ht, hv, e, List.map_take ▸ he, howned⟩

/-- The field that is dropped is called like the record of the other arm. -/
theorem dropped_spec_shared_name : ∃ p d before q after v, load sharedNameSource = .ok p ∧ d ∈ p.fns ∧
    d.body.isManaged = false ∧ (withDrops p d).Trail (before ++ q :: after) none ∧
    q.step.dropped? = some v ∧
    (OwnsAfter d.params (before.map (·.step)) v ∨
      (∃ field record, boundTo? v (before.map (·.step)) = some (.proj field record)) ∧
        ∃ site ∈ d.body.bindings, site.binder.text = v.text ∧ site.expr.isOwned = true) := by
  obtain ⟨p, d, before, q, after, v, hload, hd, hm, ht, hq, -⟩ := exists_shared_name
  exact ⟨p, d, before, q, after, v, hload, hd, hm, ht, hq, dropped_spec hload hd hm ht hq⟩

/-- Not every variable that is dropped holds a reference of its own. -/
theorem exists_dropped_field : ∃ p d before q after v, load sharedNameSource = .ok p ∧ d ∈ p.fns ∧
    d.body.isManaged = false ∧ (withDrops p d).Trail (before ++ q :: after) none ∧
    q.step.dropped? = some v ∧ ¬ OwnsAfter d.params (before.map (·.step)) v := by
  obtain ⟨p, d, before, q, after, v, hload, hd, hm, ht, hq, e, he, howned⟩ := exists_shared_name
  exact ⟨p, d, before, q, after, v, hload, hd, hm, ht, hq, by simp [OwnsAfter, he, howned]⟩

end Reclaim.Counting
