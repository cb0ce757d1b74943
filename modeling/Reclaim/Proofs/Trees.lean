import Reclaim.Core.Printer
import Reclaim.Core.Resolution
import Reclaim.Proofs.Bare
import Reclaim.Proofs.Surface.Printing

/-!
# Programs as syntax trees

`Program.tree` is the syntax tree in which a program is written: types first, then functions, and
bindings that follow one another share one `let`.  The printer of programs writes each definition
just as the printer of syntax trees would (`layout_item`), so a printed program reads as the shapes of
its tree (`lex_print`).
-/

namespace Reclaim.Core

open Reclaim.Layout (Step spaced)
open Reclaim.Surface (Ident Tree Shape Spells Named)

variable {kind : NameKind}

/-! ## Trees -/

/-- A name as an identifier. -/
def identOf (x : Name kind) : Ident := ⟨x.span, x.text⟩

@[simp] theorem val_identOf (x : Name kind) : (identOf x).val = x.text := rfl

@[simp] theorem nameOf_identOf (x : Name kind) : nameOf (identOf x) = x := rfl

theorem names_idents (xs : List (Name kind)) : (xs.map identOf).map nameOf = xs := by
  rw [List.map_map]
  exact List.map_id xs

/-- An expression as it is written. -/
def Expr.tree : Expr → Surface.Expr
  | .call f xs => .app (identOf f) (xs.map identOf)
  | .close f xs => .pap (identOf f) (xs.map identOf)
  | .apply f xs => .app (identOf f) (xs.map identOf)
  | .extend f xs => .pap (identOf f) (xs.map identOf)
  | .new c => .new (identOf c.tag) (c.fields.map identOf)
  | .proj field record => .proj (identOf field) (identOf record)
  | .reset x => .reset (identOf x)
  | .reuse token c => .reuse (identOf token) (identOf c.tag) (c.fields.map identOf)

/-- A binding as it is written. -/
def bindingOf (x : Var) (e : Expr) : Surface.Binding := ⟨identOf x, ⟨.none, e.tree⟩⟩

/-- A body behind the bindings of a `let`, if there are some. -/
def behind : List Surface.Binding → Surface.Body → Surface.Body
  | [], b => b
  | bindings, b => .lets bindings ⟨.none, b⟩

mutual

/-- A body as it is written behind the bindings of an open `let`. -/
def Body.treeIn (bindings : List Surface.Binding) : Body → Surface.Body
  | .ret x => behind bindings (.ret (identOf x))
  | .bind x e b => b.treeIn (bindings ++ [bindingOf x e])
  | .case x arms => behind bindings (.case (identOf x) (treeArms arms))
  | .inc x b => behind bindings (.inc (identOf x) ⟨.none, b.treeIn []⟩)
  | .dec x b => behind bindings (.dec (identOf x) ⟨.none, b.treeIn []⟩)
termination_by structural b => b

/-- Arms as they are written. -/
def treeArms : List Arm → List Surface.Arm
  | [] => []
  | (tag, b) :: rest => (identOf tag, ⟨.none, b.treeIn []⟩) :: treeArms rest
termination_by structural arms => arms

end

/-- A constructor as it is written. -/
def TypeDef.item (d : TypeDef) : Surface.Item := .type (identOf d.tag) (d.fields.map identOf)

/-- A function as it is written. -/
def FnDef.item (d : FnDef) : Surface.Item :=
  .fn (identOf d.name) (d.params.map identOf) ⟨.none, d.body.treeIn []⟩

/-- A program as it is written. -/
def Program.tree (p : Program) : Tree :=
  p.types.map (fun d => ⟨.none, d.item⟩) ++ p.fns.map fun d => ⟨.none, d.item⟩

theorem treeArms_eq (arms : List Arm) :
    treeArms arms = arms.map fun arm => (identOf arm.1, ⟨.none, arm.2.treeIn []⟩) := by
  induction arms with
  | nil => rfl
  | cons arm rest ih =>
      obtain ⟨tag, b⟩ := arm
      rw [treeArms, ih, List.map_cons]

/-! ## Printing -/

theorem trailing_identOf (xs : List (Name kind)) :
    Surface.trailing (xs.map identOf) = trailing xs := by
  rw [Surface.trailing, trailing, List.map_map]
  rfl

theorem Expr.text_tree (e : Expr) : e.tree.text = e.text := by
  cases e <;>
    simp [tree, Surface.Expr.text, text, Construction.text, trailing_identOf, String.append_assoc]

/-- The steps that open a `let` with some bindings. -/
def openLet : List Surface.Binding → List Step
  | [] => []
  | bindings => [.write "(let ("] ++ spaced (bindings.map fun b => [.write b.text])

theorem layout_behind (bindings : List Surface.Binding) (b : Surface.Body) :
    (behind bindings b).layout = openLet bindings ++ insideLet (!bindings.isEmpty) b.layout := by
  cases bindings with
  | nil => rfl
  | cons first rest => simp [behind, openLet, insideLet, Surface.Body.layout]

theorem intercalate_snoc {α : Type} (sep last : List α) {parts : List (List α)} (h : parts ≠ []) :
    List.intercalate sep (parts ++ [last]) = List.intercalate sep parts ++ (sep ++ last) := by
  induction parts with
  | nil => exact absurd rfl h
  | cons part rest ih =>
      cases rest with
      | nil => simp [List.intercalate]
      | cons next others =>
          have := ih (List.cons_ne_nil _ _)
          simp only [List.intercalate, List.cons_append, List.intersperse_cons_cons, List.flatten_cons,
            List.append_assoc] at this ⊢
          rw [this]

theorem openLet_snoc (bindings : List Surface.Binding) (b : Surface.Binding) :
    openLet (bindings ++ [b]) = openLet bindings ++
      [.write (if !bindings.isEmpty then " " else "(let ("), .write b.text] := by
  cases bindings with
  | nil => rfl
  | cons first rest =>
      have hne : (first :: rest).map (fun b => [Step.write b.text]) ≠ [] := List.cons_ne_nil _ _
      simpa [openLet, spaced] using intercalate_snoc [Step.write " "] [Step.write b.text] hne

/-- A body is printed like its tree. -/
theorem layout_treeIn (b : Body) (bindings : List Surface.Binding) :
    (b.treeIn bindings).layout = openLet bindings ++ b.layoutIn (!bindings.isEmpty) := by
  induction b generalizing bindings with
  | ret x => exact layout_behind bindings _
  | bind x e b ih =>
      have hopen : (!(bindings ++ [bindingOf x e]).isEmpty) = true := by simp
      rw [Body.treeIn, ih, openLet_snoc, hopen, Body.layoutIn, List.append_assoc]
      simp [bindingOf, Surface.Binding.text, Expr.text_tree, identOf]
  | case x arms ih =>
      have harms : Surface.layoutArms (treeArms arms) = layoutArms arms := by
        rw [Surface.layoutArms_eq, layoutArms_eq, treeArms_eq, List.map_map]
        congr 1
        refine List.map_congr_left fun arm harm => ?_
        rw [Function.comp_apply, ih arm harm]
        rfl
      rw [Body.treeIn, layout_behind, Body.layoutIn, Surface.Body.layout, harms]
      rfl
  | inc x b ih =>
      rw [Body.treeIn, layout_behind, Body.layoutIn, Surface.Body.layout, ih]
      rfl
  | dec x b ih =>
      rw [Body.treeIn, layout_behind, Body.layoutIn, Surface.Body.layout, ih]
      rfl

theorem TypeDef.layout_item (d : TypeDef) : d.item.layout = d.layout := by
  simp [item, Surface.Item.layout, layout, trailing_identOf, identOf]

/-- A function is printed like its item. -/
theorem FnDef.layout_item (d : FnDef) : d.item.layout = d.layout := by
  simp [item, Surface.Item.layout, layout, layout_treeIn, openLet, Body.layout, identOf,
    Function.comp_def]

theorem Program.shapes_tree (p : Program) : p.tree.shapes =
    p.types.flatMap (fun d => d.item.shapes) ++ p.fns.flatMap fun d => d.item.shapes := by
  simp [tree, Surface.Tree.shapes, List.flatMap_map]

/-- A printed program reads as the shapes of its tree, if its names are words. -/
theorem lex_print {p : Program} (h : Named p.tree.shapes) :
    (Surface.lex p.print).stop = .finished ∧
      (Surface.lex p.print).tokens.map Surface.Token.shape = p.tree.shapes := by
  rw [p.shapes_tree, Surface.named_append, Surface.named_flatMap, Surface.named_flatMap] at h
  rw [p.shapes_tree, Program.print]
  refine Surface.lex_of_spells (.append (.flatMap fun d hd => ?_) (.flatMap fun d hd => ?_))
  · have := (Surface.spells_item (h.1 d hd)).append .newline
    rwa [d.layout_item, List.append_nil] at this
  · have := (Spells.newline.append (Surface.spells_item (h.2 d hd))).append .newline
    rwa [d.layout_item, List.append_nil, List.nil_append] at this

end Reclaim.Core
