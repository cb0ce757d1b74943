import Reclaim.Core.Printer
import Reclaim.Proofs.Validity

/-!
# Programs without spans

`bare` forgets where the names of a program stand.  Nothing that a program means depends on it: the
printed text is the same (`print_bare`), and so is the verdict of the check (`validate_bare`).
-/

namespace Reclaim.Core

/-- A name that stands nowhere. -/
def Name.bare {kind : NameKind} (x : Name kind) : Name kind := ⟨x.text, .none⟩

/-- A tag with its fields, without spans. -/
def Construction.bare (c : Construction) : Construction := ⟨c.tag.bare, c.fields.map Name.bare⟩

/-- An expression without spans. -/
def Expr.bare : Expr → Expr
  | .call f xs => .call f.bare (xs.map Name.bare)
  | .close f xs => .close f.bare (xs.map Name.bare)
  | .apply f xs => .apply f.bare (xs.map Name.bare)
  | .extend f xs => .extend f.bare (xs.map Name.bare)
  | .new c => .new c.bare
  | .proj field record => .proj field.bare record.bare
  | .reset x => .reset x.bare
  | .reuse token c => .reuse token.bare c.bare

mutual

/-- A body without spans. -/
def Body.bare : Body → Body
  | .ret x => .ret x.bare
  | .bind x e b => .bind x.bare e.bare b.bare
  | .case x arms => .case x.bare (bareArms arms)
  | .inc x b => .inc x.bare b.bare
  | .dec x b => .dec x.bare b.bare
termination_by structural b => b

/-- Arms without spans. -/
def bareArms : List Arm → List Arm
  | [] => []
  | (tag, b) :: rest => (tag.bare, b.bare) :: bareArms rest
termination_by structural arms => arms

end

/-- A constructor without spans. -/
def TypeDef.bare (d : TypeDef) : TypeDef := ⟨d.tag.bare, d.fields.map Name.bare⟩

/-- A function without spans. -/
def FnDef.bare (d : FnDef) : FnDef := ⟨d.name.bare, d.params.map Name.bare, d.body.bare⟩

/-- A program without spans. -/
def Program.bare (p : Program) : Program := ⟨p.types.map TypeDef.bare, p.fns.map FnDef.bare⟩

variable {kind : NameKind} {p q : Program} {fn : FnName} {e : Expr} {b : Body} {N : String → Prop}
  {S : List String} {arms : List Arm}

@[simp] theorem Name.text_bare (x : Name kind) : x.bare.text = x.text := rfl

@[simp] theorem texts_bare (xs : List (Name kind)) :
    (xs.map Name.bare).map (·.text) = xs.map (·.text) := by
  rw [List.map_map]
  rfl

theorem bareArms_eq (arms : List Arm) :
    bareArms arms = arms.map fun arm => (arm.1.bare, arm.2.bare) := by
  induction arms with
  | nil => rfl
  | cons arm rest ih =>
      obtain ⟨tag, b⟩ := arm
      rw [bareArms, ih, List.map_cons]

/-! ## The printed text -/

theorem trailing_bare (xs : List (Name kind)) : trailing (xs.map Name.bare) = trailing xs := by
  rw [trailing, trailing, List.map_map]
  rfl

theorem Construction.text_bare (c : Construction) : c.bare.text = c.text :=
  congrArg (c.tag.text ++ ·) (trailing_bare c.fields)

theorem Expr.text_bare (e : Expr) : e.bare.text = e.text := by
  cases e <;> simp [bare, text, trailing_bare, Construction.text_bare]

/-- Arms are laid out with a new line between any two. -/
theorem layoutArms_eq (arms : List Arm) : layoutArms arms = List.intercalate [.newline]
    (arms.map fun arm => [.write arm.1.text, .indent] ++ arm.2.layoutIn false ++ [.dedent]) := by
  induction arms with
  | nil => rfl
  | cons arm rest ih =>
      obtain ⟨tag, b⟩ := arm
      cases rest with
      | nil => simp [layoutArms, List.intercalate]
      | cons next others =>
          rw [layoutArms, ih]
          · simp [List.intercalate]
          · simp

theorem layoutArms_bare (h : ∀ arm ∈ arms, ∀ isOpen, arm.2.bare.layoutIn isOpen =
    arm.2.layoutIn isOpen) : layoutArms (bareArms arms) = layoutArms arms := by
  rw [layoutArms_eq, layoutArms_eq, bareArms_eq, List.map_map]
  congr 1
  refine List.map_congr_left fun arm harm => ?_
  rw [Function.comp_apply, h arm harm, Name.text_bare]

theorem Body.layoutIn_bare (b : Body) (isOpen : Bool) : b.bare.layoutIn isOpen = b.layoutIn isOpen := by
  induction b generalizing isOpen with
  | ret x => rfl
  | bind x e b ih => simp [bare, layoutIn, ih, Expr.text_bare]
  | case x arms ih => simp [bare, layoutIn, layoutArms_bare ih]
  | inc x b ih | dec x b ih => simp [bare, layoutIn, ih]

theorem TypeDef.layout_bare (d : TypeDef) : d.bare.layout = d.layout := by
  simp [layout, bare, trailing_bare]

theorem FnDef.layout_bare (d : FnDef) : d.bare.layout = d.layout := by
  simp [layout, bare, Body.layout, Body.layoutIn_bare, Function.comp_def]

/-- Printing does not look at spans. -/
theorem Program.print_bare (p : Program) : p.bare.print = p.print := by
  simp [print, layout, bare, List.flatMap_map, TypeDef.layout_bare, FnDef.layout_bare]

/-! ## The check -/

theorem Expr.texts_freeVars_bare (e : Expr) {t : String} :
    t ∈ e.bare.freeVars.texts ↔ t ∈ e.freeVars.texts := by
  cases e <;> simp [bare, freeVars, Construction.bare, OrderedSet.mem_texts_union,
    OrderedSet.mem_texts_singleton, OrderedSet.mem_texts_ofList, Function.comp_def]

theorem bound_bare : Bound N S b.bare ↔ Bound N S b := by
  induction b generalizing S with
  | ret x => rw [Body.bare, bound_ret, bound_ret, Name.text_bare]
  | bind x e b ih =>
      simp only [Body.bare, bound_bind, e.texts_freeVars_bare, Name.text_bare, ih]
  | case x arms ih =>
      rw [Body.bare, bareArms_eq, bound_case, bound_case, List.forall_mem_map, Name.text_bare]
      exact and_congr_right fun _ => forall₂_congr fun arm harm => ih arm harm
  | inc x b ih => rw [Body.bare, bound_inc, bound_inc, Name.text_bare, ih]
  | dec x b ih => rw [Body.bare, bound_dec, bound_dec, Name.text_bare, ih]

theorem Program.fn?_bare (p : Program) (name : FnName) :
    p.bare.fn? name.bare = (p.fn? name).map FnDef.bare := by
  rw [fn?, fn?, List.findRev?_eq_find?_reverse, List.findRev?_eq_find?_reverse, bare,
    ← List.map_reverse, List.find?_map]
  rfl

theorem Program.type?_bare (p : Program) (tag : Tag) :
    p.bare.type? tag.bare = (p.type? tag).map TypeDef.bare := by
  rw [type?, type?, List.findRev?_eq_find?_reverse, List.findRev?_eq_find?_reverse, bare,
    ← List.map_reverse, List.find?_map]
  rfl

theorem Program.declaresField_bare (p : Program) (field : Field) :
    p.bare.declaresField field.bare = p.declaresField field := by
  simp only [declaresField, bare, TypeDef.bare, List.any_map, Function.comp_def]
  rfl

theorem Construction.fits_bare (c : Construction) : c.bare.Fits p.bare ↔ c.Fits p := by
  have : p.bare.type? c.bare.tag = (p.type? c.tag).map TypeDef.bare := p.type?_bare c.tag
  rw [Fits, Fits, this]
  cases p.type? c.tag <;> simp [bare, TypeDef.bare]

theorem Expr.fits_bare (e : Expr) : e.bare.Fits p.bare ↔ e.Fits p := by
  cases e with
  | call f xs | close f xs =>
      simp only [bare, Fits, p.fn?_bare]
      cases p.fn? f <;> simp [FnDef.bare]
  | new c | reuse token c => exact c.fits_bare
  | proj field record =>
      simp only [bare, Fits, p.declaresField_bare]
  | apply | extend | reset => exact Iff.rfl

theorem Body.fits_bare : b.bare.Fits p.bare ↔ b.Fits p := by
  induction b with
  | ret x => exact ⟨fun _ => .ret, fun _ => .ret⟩
  | bind x e b ih => rw [bare, fits_bind, fits_bind, e.fits_bare, ih]
  | case x arms ih =>
      have htag (tag : Tag) : (∃ d, p.bare.type? tag.bare = some d) ↔ ∃ d, p.type? tag = some d := by
        rw [p.type?_bare]
        cases p.type? tag <;> simp
      rw [bare, bareArms_eq, fits_case, fits_case, List.forall_mem_map, List.forall_mem_map]
      exact and_congr (forall₂_congr fun arm _ => htag arm.1) (forall₂_congr ih)
  | inc x b ih => rw [bare, fits_inc, fits_inc, ih]
  | dec x b ih => rw [bare, fits_dec, fits_dec, ih]

theorem checkFn_bare (d : FnDef) : checkFn p.bare d.bare = .ok () ↔ checkFn p d = .ok () := by
  rw [checkFn_eq_ok, checkFn_eq_ok, checkParams_eq_ok, checkParams_eq_ok]
  simp only [FnDef.bare, texts_bare, ← List.map_reverse, bound_bare, Body.fits_bare,
    List.forall_mem_map, Name.text_bare]

/-- The check does not look at spans. -/
theorem Program.validate_bare (p : Program) : p.bare.validate = .ok () ↔ p.validate = .ok () := by
  rw [validate_eq_ok, validate_eq_ok, bare]
  simp only [List.forall_mem_map]
  exact forall₂_congr fun d _ => checkFn_bare d

end Reclaim.Core
