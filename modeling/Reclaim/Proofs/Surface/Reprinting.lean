import Reclaim.Proofs.Surface.Printing
import Reclaim.Proofs.Surface.Reading

/-!
# Printed trees parse back

The printer does not look at spans (`Tree.print_bare`), and the text that it makes of a tree whose names
are words is read into the shapes of the tree (`Tree.lex_print`).  So the text parses to the tree, up to
spans, and printing the outcome gives the text once more (`parse_print`).  The names of a tree that came
out of a text are words (`named_of_parse`), so this holds of every tree that a text parses to.
-/

namespace Reclaim.Surface

open Layout (Step)

variable {source : String} {tree : Tree} {arms : List Arm}

/-! ## The printer does not look at spans -/

@[simp] theorem val_bareIdent (x : Ident) : (bareIdent x).val = x.val := rfl

@[simp] theorem trailing_bare (xs : List Ident) : trailing (xs.map bareIdent) = trailing xs := by
  rw [trailing, trailing, List.map_map]
  rfl

theorem Expr.text_bare (e : Expr) : e.bare.text = e.text := by
  cases e <;> simp [bare, text]

theorem Binding.text_bare (b : Binding) : b.bare.text = b.text :=
  congrArg (b.binder.val ++ " " ++ ·) b.expr.val.text_bare

theorem layoutArms_bare (h : ∀ arm ∈ arms, arm.2.val.bare.layout = arm.2.val.layout) :
    layoutArms (bareArms arms) = layoutArms arms := by
  rw [layoutArms_eq, layoutArms_eq, bareArms_eq, List.map_map]
  congr 1
  refine List.map_congr_left fun arm harm => ?_
  rw [Function.comp_apply, h arm harm, val_bareIdent]

theorem Body.layout_bare (b : Body) : b.bare.layout = b.layout := by
  induction b with
  | ret x => rfl
  | lets bindings s b ih =>
      have htexts : (bindings.map Binding.bare).map (fun x => [Step.write x.text]) =
          bindings.map fun x => [Step.write x.text] := by
        rw [List.map_map]
        refine List.map_congr_left fun x _ => ?_
        rw [Function.comp_apply, x.text_bare]
      rw [bare, layout, layout, htexts, ih]
  | case x arms ih => rw [bare, layout, layout, layoutArms_bare ih, val_bareIdent]
  | inc x s b ih | dec x s b ih => rw [bare, layout, layout, ih, val_bareIdent]

theorem Item.layout_bare (item : Item) : item.bare.layout = item.layout := by
  cases item with
  | type tag fields => simp [bare, layout]
  | fn name params body => simp [bare, layout, Body.layout_bare, Function.comp_def]

theorem Tree.print_bare (tree : Tree) : tree.bare.print = tree.print := by
  have hlayout : tree.bare.layout = tree.layout := by
    rw [layout, layout, bare, List.flatMap_map]
    simp only [Item.layout_bare]
  rw [print, print, hlayout]

/-! ## The printed text is read back -/

/-- The text of a tree is read to its end, into the shapes of the tree. -/
theorem Tree.lex_print (h : Named tree.shapes) : (lex tree.print).stop = .finished ∧
    (lex tree.print).tokens.map Token.shape = tree.shapes := by
  refine lex_of_spells (.flatMap fun item hitem => ?_)
  have hspells := ((spells_item (named_flatMap.1 h item hitem)).append .newline).append .newline
  rwa [List.append_nil, List.append_nil, List.append_assoc] at hspells

/-- What stands for a name in a text that parses is a word. -/
theorem named_of_parse (h : parse source = .ok tree) : Named tree.shapes := by
  intro x hx
  obtain ⟨-, hshapes⟩ := shapes_of_parse h
  rw [← hshapes] at hx
  obtain ⟨t, ht, heq⟩ := List.mem_map.1 hx
  obtain ⟨hkind, rfl⟩ := Token.ident_of_shape heq
  exact proper_of_mem_lex ht hkind

/-- The printed tree parses, to the same tree up to spans, and the outcome is printed as the same text
again. -/
def Reparses (tree : Tree) : Prop :=
  ∃ tree', parse tree.print = .ok tree' ∧ tree'.bare = tree.bare ∧ tree'.print = tree.print

theorem reparses_of_named (h : Named tree.shapes) : Reparses tree := by
  obtain ⟨hstop, hshapes⟩ := tree.lex_print h
  obtain ⟨tree', hparse, hbare⟩ := parse_of_shapes hstop hshapes
  refine ⟨tree', hparse, hbare, ?_⟩
  calc
    tree'.print = tree'.bare.print := tree'.print_bare.symm
    _ = tree.bare.print := by rw [hbare]
    _ = tree.print := tree.print_bare

/-- A tree all of whose names are words is read back from its text, in particular one that was read
from some text. -/
theorem parse_print : (∀ tree : Tree, Named tree.shapes → Reparses tree) ∧
    ∀ (source : String) (tree : Tree), parse source = .ok tree → Reparses tree := by
  refine ⟨fun tree h => reparses_of_named h, fun source tree h => ?_⟩
  exact reparses_of_named (named_of_parse h)

/-- A tree in which every list is empty somewhere. -/
def sparse : Tree :=
  [⟨.none, .type ⟨.none, "Unit"⟩ []⟩,
   ⟨.none, .fn ⟨.none, "é-1"⟩ []
     ⟨.none, .lets [⟨⟨.none, "x'"⟩, ⟨.none, .new ⟨.none, "Unit"⟩ []⟩⟩]
       ⟨.none, .lets [] ⟨.none, .case ⟨.none, "x'"⟩ []⟩⟩⟩⟩]

/-- It is printed and read back, and so is what this text parses to. -/
theorem parse_print_sparse : Named sparse.shapes ∧ Reparses sparse ∧
    ∃ tree, parse sparse.print = .ok tree ∧ Reparses tree := by
  have hnamed : Named sparse.shapes := by
    obtain ⟨htype, hfn, hvar⟩ : Proper "Unit" ∧ Proper "é-1" ∧ Proper "x'" := by decide +kernel
    simp [sparse, Tree.shapes, Item.shapes, Body.shapes, Binding.shapes, Expr.opened, namesOf,
      shapesArms, htype, hfn, hvar]
  obtain ⟨tree, hparse, hbare⟩ := parse_print.1 sparse hnamed
  exact ⟨hnamed, ⟨tree, hparse, hbare⟩, tree, hparse, parse_print.2 _ tree hparse⟩

example : sparse.print = "(deftype Unit)\n\n(defn é-1 ()\n    (let (x' (new Unit))\n"
    ++ "        (let ()\n            (case x'\n                ))))\n\n" := by
  decide +kernel

end Reclaim.Surface
