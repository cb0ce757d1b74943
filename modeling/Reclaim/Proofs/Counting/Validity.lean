import Reclaim.Proofs.Counting.Plain
import Reclaim.Proofs.Counting.Provenance
import Reclaim.Proofs.Validity

/-!
# Explicit memory management keeps programs valid

Making the memory management of a valid program explicit gives a valid program, whatever its names
are (`insertCounts_spec`), and only inserts (`insertCounts_only_inserts`).  The variables of a
transformed body are bound: tokens are new, and an adjustment only names what has a holding and is
therefore in scope.  And a transformed body fits the program, because that depends on nothing but its
plain part.

Doing it again changes nothing (`insertCounts_idempotent`).  Everything that is inserted makes a body
managed, so a transformed body that is not managed is its own plain part, and that is the body it
came from (`managedBody_eq_self`).
-/

namespace Reclaim.Core

variable {p : Program} {b : Body}

/-- Whether a body fits a program does not depend on its memory management. -/
theorem Body.fits_plain : b.plain.Fits p ↔ b.Fits p := by
  induction b with
  | ret x => exact Iff.rfl
  | bind x e b ih =>
      rw [fits_bind, ← ih]
      cases e with
      | reset y => exact (and_iff_right trivial).symm
      | _ => exact fits_bind
  | case x arms ih =>
      rw [plain, plainArms_eq, fits_case, fits_case, List.forall_mem_map, List.forall_mem_map]
      exact and_congr_right fun _ => forall₂_congr ih
  | inc x b ih => rw [plain, fits_inc, ih]
  | dec x b ih => rw [plain, fits_dec, ih]

end Reclaim.Core

namespace Reclaim.Counting

open Reclaim.Core

variable {N : String → Prop} {S S' : List String} {b : Body} {x w : Var} {e : Expr} {h : Holdings}
  {p : Program} {d : FnDef} {r : Reserved}

/-! ## Tokens -/

/-- A token in scope can be taken by the first construction of a body. -/
theorem bound_reuseFirst (h : Bound N S b) (hw : w.text ∈ S) (tag : Tag) :
    Bound N S (reuseFirst w tag b) := by
  induction h with
  | ret hx => exact .ret hx
  | @bind S x e b hreads hx hn hb ih =>
      rcases reuseFirst_bind w tag x e b with h | ⟨k, rfl, -, h⟩
      · exact h ▸ .bind hreads hx hn (ih (.tail _ hw))
      · refine h ▸ .bind (fun t hmem => ?_) hx hn hb
        rw [Expr.freeVars, OrderedSet.mem_texts_union, OrderedSet.mem_texts_singleton] at hmem
        exact hmem.elim (· ▸ hw) (hreads t)
  | case hx _ ih =>
      rw [reuseFirst_case]
      exact .case hx (List.forall_mem_map.2 fun arm harm => ih arm harm hw)
  | inc hx _ ih => exact .inc hx (ih hw)
  | dec hx _ ih => exact .dec hx (ih hw)

/-- That variables are bound passes to the parts of a body and back, and survives drops. -/
theorem bound_compositional :
    Compositional r (fun S x => x.text ∈ S) fun N (S : List String) b =>
      (∀ t ∈ S, N t) ∧ Bound N S b where
  mono h hN := ⟨fun t ht => hN t (h.1 t ht), h.2.mono hN⟩
  bind h := by
    obtain ⟨within, h⟩ := h
    obtain ⟨hreads, hx, hn, h⟩ := bound_bind.1 h
    exact ⟨_ :: _, fun _ hy => .tail _ hy, ⟨List.forall_mem_cons.2 ⟨hn, within⟩, h⟩,
      fun hN h' => ⟨fun t ht => hN t (within t ht), .bind hreads hx (hN _ hn) h'.2⟩⟩
  case h := by
    obtain ⟨within, h⟩ := h
    obtain ⟨hx, h⟩ := bound_case.1 h
    exact ⟨hx, fun arm harm => ⟨within, h arm harm⟩,
      fun hN _ h' => ⟨fun t ht => hN t (within t ht), .case hx fun arm harm => (h' arm harm).2⟩⟩
  inc h := by
    obtain ⟨hx, hb⟩ := bound_inc.1 h.2
    exact ⟨⟨h.1, hb⟩, fun _ h' => ⟨h'.1, .inc hx h'.2⟩⟩
  dec h := by
    obtain ⟨hx, hb⟩ := bound_dec.1 h.2
    exact ⟨⟨h.1, hb⟩, fun _ h' => ⟨h'.1, .dec hx h'.2⟩⟩
  drop hx h := ⟨h.1, .dec hx h.2⟩
  recycle {N M S x w tag b} hx _ hold hnow hN h := by
    obtain ⟨within, h⟩ := h
    have hreads : ∀ t ∈ (Expr.reset x).freeVars.texts, t ∈ S := by
      intro t ht
      rw [Expr.freeVars, OrderedSet.mem_texts_singleton] at ht
      exact ht ▸ hx
    have hnew : ∀ t ∈ w.text :: S, t ∉ S → ¬ N t := by
      intro t ht hS
      exact (List.mem_cons.1 ht).resolve_right hS ▸ hold
    refine ⟨fun t ht => hN t (within t ht), .bind hreads (fun hw => hold (within _ hw)) hnow ?_⟩
    exact (bound_reuseFirst (h.widen (List.subset_cons_self _ _) hnew) (.head _) tag).mono hN

/-! ## Adjustments -/

theorem bound_adjusting {ops : List Adjustment} (hops : ∀ op ∈ ops, op.var.text ∈ S)
    (hb : Bound N S b) : Bound N S (adjusting ops b) := by
  induction ops with
  | nil => exact hb
  | cons op rest ih =>
      obtain ⟨hop, hrest⟩ := List.forall_mem_cons.1 hops
      cases op with
      | inc x => exact .inc hop (ih hrest)
      | dec x => exact .dec hop (ih hrest)

/-- The walk that makes counts explicit only names variables in scope. -/
theorem bound_withCounts (hb : Bound N S b) (hk : ∀ x, h.Holds x → x.text ∈ S) :
    Bound N S (withCounts h b) := by
  induction hb generalizing h with
  | @ret S x hx =>
      have drops := within_dropDead (V := (·.text ∈ S)) (Body.ret x).freeVars hk
      rw [Counting.withCounts]
      dsimp only
      refine bound_adjusting drops.ops (bound_adjusting (fun op hop => ?_) (.ret hx))
      split at hop
      · obtain rfl := List.mem_singleton.1 hop
        exact hx
      · cases hop
  | @bind S x e b hreads hx hn _ ih =>
      have hconsumed : ∀ y ∈ e.consumed, y.text ∈ S := fun y hy =>
        hreads _ (Expr.mem_freeVars.2 (.inl (List.mem_map_of_mem hy)))
      have drops := within_dropDead (V := (·.text ∈ S)) (Body.bind x e b).freeVars hk
      have uses := within_handOver b.freeVars drops.holds hconsumed
      rw [Counting.withCounts]
      have known : ∀ y, Holdings.Holds (Holdings.bind _ x e) y → y.text ∈ x.text :: S := fun y hy =>
        (holds_bind hy).elim (fun hy => .tail _ (uses.holds y hy)) fun hy => hy.1 ▸ .head _
      exact bound_adjusting drops.ops (bound_adjusting uses.ops (.bind hreads hx hn (ih known)))
  | @case S x arms hx _ ih =>
      have drops := within_dropDead (V := (·.text ∈ S)) (Body.case x arms).freeVars hk
      rw [withCounts_case]
      refine bound_adjusting drops.ops (.case hx (List.forall_mem_map.2 fun arm harm => ?_))
      exact ih arm harm drops.holds
  | @inc S x b hx _ ih =>
      have drops := within_dropDead (V := (·.text ∈ S)) (Body.inc x b).freeVars hk
      rw [Counting.withCounts]
      exact bound_adjusting drops.ops (.inc hx (ih drops.holds))
  | @dec S x b hx _ ih =>
      have drops := within_dropDead (V := (·.text ∈ S)) (Body.dec x b).freeVars hk
      have uses := within_handOver b.freeVars drops.holds (List.forall_mem_singleton.2 hx)
      rw [Counting.withCounts]
      exact bound_adjusting drops.ops (bound_adjusting uses.ops (.dec hx (ih uses.holds)))

/-! ## Programs -/

/-- The variables of a body with drops are bound, and each binder is a variable of the function or a
token. -/
theorem bound_withDrops (p : Program)
    (h : Bound (fun _ => True) (d.params.reverse.map (·.text)) d.body) :
    ∃ c, Bound ((reservedOf p d).InUse c) (d.params.reverse.map (·.text)) (withDrops p d) := by
  have hparams : ∀ t ∈ d.params.reverse.map (·.text), (reservedOf p d).InUse {} t := by
    intro t ht
    refine .inl (Body.mem_allVars_of_mem (OrderedSet.mem_texts_ofList.2 ?_))
    simpa using ht
  have hbody : Bound ((reservedOf p d).InUse {}) (d.params.reverse.map (·.text)) d.body :=
    h.of_allVars fun t ht => .inl ht
  exact ⟨_, (bound_compositional.insertDrops_preserved d.owners (caseDepth d.body)
    ⟨hparams, hbody⟩).body.2⟩

/-- The variables of a transformed body are bound, and each binder is a variable of the function or a
token. -/
theorem bound_managedBody (h : Bound (fun _ => True) (d.params.reverse.map (·.text)) d.body)
    (hN : ∀ c t, (reservedOf p d).InUse c t → N t) :
    Bound N (d.params.reverse.map (·.text)) (managedBody p d) := by
  rw [managedBody]
  split
  · exact h.of_allVars fun t ht => hN {} t (.inl ht)
  · obtain ⟨c, drops⟩ := bound_withDrops p h
    refine (bound_withCounts drops fun x hx => ?_).mono (hN c)
    exact List.mem_map_of_mem (List.mem_reverse.2 (holds_ofParams hx))

/-- A transformed body respects the definitions that the body respects. -/
theorem fits_managedBody (h : d.body.Fits p) : (managedBody p d).Fits p := by
  by_cases hm : d.body.isManaged = true
  · rwa [managedBody, if_pos hm]
  · rw [Bool.not_eq_true] at hm
    exact Body.fits_plain.1 (managedBody_plain hm ▸ h)

theorem validate_insertCounts (h : p.validate = .ok ()) : (insertCounts p).validate = .ok () := by
  refine validate_eq_ok.2 (List.forall_mem_map.2 fun d hd => ?_)
  obtain ⟨hparams, hbound, hfits⟩ := checkFn_eq_ok.1 (checkFn_of_mem h hd)
  have hbound' := bound_managedBody (p := p) hbound fun _ _ _ => trivial
  exact checkFn_eq_ok.2 ⟨hparams, hbound', (fits_managedBody hfits).mapBodies _⟩

/-- A function and what its memory management makes of it. -/
structure Manages (d d' : FnDef) : Prop where
  /-- The name stays. -/
  name : d'.name = d.name
  /-- The parameters stay. -/
  params : d'.params = d.params
  /-- A function that manages memory itself is left as it is. -/
  managed : d.body.isManaged = true → d'.body = d.body

/-- Making the memory management of a valid program explicit succeeds: in the result every variable is
bound where it is used and once on a path, and every expression fits the program.  The types and the
functions, in their order, stay. -/
theorem insertCounts_spec (h : p.validate = .ok ()) :
    insertCounts? p = .ok (insertCounts p) ∧
      (∀ d ∈ (insertCounts p).fns, Bound (fun _ => True) (d.params.reverse.map (·.text)) d.body ∧
        d.body.Fits (insertCounts p)) ∧
      (insertCounts p).types = p.types ∧
      List.Forall₂ Manages p.fns (insertCounts p).fns := by
  have hvalid := validate_insertCounts h
  refine ⟨?_, fun d hd => ?_, rfl, ?_⟩
  · rw [insertCounts?, hvalid]
    rfl
  · exact (checkFn_eq_ok.1 (checkFn_of_mem hvalid hd)).2
  · refine List.forall₂_map_right_iff.2 (List.forall₂_same.2 fun d _ => ⟨rfl, rfl, fun hm => ?_⟩)
    exact if_pos hm

/-- A function that takes a box apart and makes another one.  It is called like the first candidate
for a token, and so is its parameter like the second one. -/
def boxProgram : Program where
  types := [⟨⟨"Box", .none⟩, [⟨"v", .none⟩]⟩]
  fns := [⟨⟨"_r0", .none⟩, [⟨"_r1", .none⟩],
    .case ⟨"_r1", .none⟩ [(⟨"Box", .none⟩,
      .bind ⟨"y", .none⟩ (.proj ⟨"v", .none⟩ ⟨"_r1", .none⟩)
        (.bind ⟨"z", .none⟩ (.new ⟨⟨"Box", .none⟩, [⟨"y", .none⟩]⟩) (.ret ⟨"z", .none⟩)))]⟩]

/-- The token of the function is a third name. -/
theorem insertCounts_spec_box : insertCounts? boxProgram = .ok (insertCounts boxProgram) ∧
    (∀ d ∈ (insertCounts boxProgram).fns,
      Bound (fun _ => True) (d.params.reverse.map (·.text)) d.body ∧
        d.body.Fits (insertCounts boxProgram)) ∧
    (insertCounts boxProgram).types = boxProgram.types ∧
    List.Forall₂ Manages boxProgram.fns (insertCounts boxProgram).fns :=
  insertCounts_spec rfl

/-- Making the memory management of a valid program explicit succeeds and only inserts: the body of a
function that does not manage memory itself is got back, down to the places of names, by leaving out
all adjustments of counts and all resets and building new records instead of reusing cells. -/
theorem insertCounts_only_inserts (h : p.validate = .ok ()) : ∃ q, insertCounts? p = .ok q ∧
    List.Forall₂ (fun d d' => d.body.isManaged = false → d'.body.plain = d.body) p.fns q.fns := by
  refine ⟨insertCounts p, ?_, ?_⟩
  · rw [insertCounts?, validate_insertCounts h]
    rfl
  · exact List.forall₂_map_right_iff.2 (List.forall₂_same.2 fun d _ => managedBody_plain)

/-- Without its reset and its reuse the function that makes another box is as it was. -/
theorem insertCounts_only_inserts_box : ∃ q, insertCounts? boxProgram = .ok q ∧
    List.Forall₂ (fun d d' => d.body.isManaged = false → d'.body.plain = d.body)
      boxProgram.fns q.fns :=
  insertCounts_only_inserts rfl

/-! ## Twice -/

/-- If nothing in a transformed body manages memory, then nothing was inserted. -/
theorem managedBody_eq_self (h : (managedBody p d).isManaged = false) : managedBody p d = d.body := by
  by_cases hm : d.body.isManaged = true
  · exact if_pos hm
  · rw [Bool.not_eq_true] at hm
    rw [← Body.plain_of_unmanaged h, managedBody_plain hm]

/-- Of a program only the names of its functions matter, which tokens have to avoid. -/
theorem managedBody_congr {q : Program} (hnames : q.fns.map (·.name) = p.fns.map (·.name)) :
    managedBody q d = managedBody p d := by
  simp only [managedBody, withDrops, hnames]

theorem names_insertCounts (p : Program) :
    (insertCounts p).fns.map (·.name) = p.fns.map (·.name) := by
  rw [insertCounts, Program.mapBodies, List.map_map]
  rfl

/-- A function with its memory management made explicit is left as it is: it manages memory now, or
nothing was inserted, and then nothing will be. -/
theorem managedBody_managedBody (p : Program) (d : FnDef) :
    managedBody (insertCounts p) { d with body := managedBody p d } = managedBody p d := by
  by_cases hm : (managedBody p d).isManaged = true
  · exact if_pos hm
  · rw [Bool.not_eq_true] at hm
    rw [managedBody_congr (names_insertCounts p), managedBody_eq_self hm]
    exact managedBody_eq_self hm

theorem insertCounts_insertCounts (p : Program) : insertCounts (insertCounts p) = insertCounts p := by
  conv_lhs => rw [insertCounts, Program.mapBodies]
  conv_rhs => rw [insertCounts, Program.mapBodies]
  refine congrArg (Program.mk p.types) ?_
  rw [insertCounts, Program.mapBodies, List.map_map]
  refine List.map_congr_left fun d _ => ?_
  exact congrArg (FnDef.mk d.name d.params) (managedBody_managedBody p d)

theorem insertCounts?_eq_ok (h : p.validate = .ok ()) : insertCounts? p = .ok (insertCounts p) := by
  rw [insertCounts?, validate_insertCounts h]
  rfl

/-- Making the memory management of a valid program explicit succeeds, and doing it again succeeds
with the same program: the same types and the same functions with the same parameters and bodies, down
to the places of names.  A function is changed only if it manages memory afterwards. -/
theorem insertCounts_idempotent (h : p.validate = .ok ()) : ∃ q, insertCounts? p = .ok q ∧
    insertCounts? q = .ok q ∧
    List.Forall₂ (fun d d' => d'.body.isManaged = true ∨ d' = d) p.fns q.fns := by
  refine ⟨insertCounts p, insertCounts?_eq_ok h, ?_, ?_⟩
  · rw [insertCounts?_eq_ok (validate_insertCounts h), insertCounts_insertCounts]
  · refine List.forall₂_map_right_iff.2 (List.forall₂_same.2 fun d _ => ?_)
    by_cases hm : (managedBody p d).isManaged = true
    · exact .inl hm
    · rw [Bool.not_eq_true] at hm
      exact .inr (congrArg (FnDef.mk d.name d.params) (managedBody_eq_self hm))

/-- The function that makes another box, next to one that hands its parameter back. -/
def boxAndBackProgram : Program where
  types := boxProgram.types
  fns := boxProgram.fns ++ [⟨⟨"back", .none⟩, [⟨"x", .none⟩], .ret ⟨"x", .none⟩⟩]

/-- The first function manages memory after the first round, and the second one is never changed. -/
theorem insertCounts_idempotent_box : ∃ q, insertCounts? boxAndBackProgram = .ok q ∧
    insertCounts? q = .ok q ∧
    List.Forall₂ (fun d d' => d'.body.isManaged = true ∨ d' = d) boxAndBackProgram.fns q.fns :=
  insertCounts_idempotent rfl

end Reclaim.Counting
