import Reclaim.Proofs.Reloading

/-!
# Two printers

Programs and syntax trees have a printer each.  The one for programs joins bindings that follow one
another as it goes, and the one for trees finds them in one list.  Where they open, break and close lines
is compared through `Program.tree`, whose items are laid out step by step like the definitions
(`TypeDef.layout_item`, `FnDef.layout_item`).

So the text of a definition is read as one item, which is the item of the definition up to spans, and the
printer of trees makes the same text of it (`printers_agree`).
-/

namespace Reclaim

open Reclaim.Core Reclaim.Surface Reclaim.Counting
open Layout (Step)

variable {source : String} {p : Program} {steps : List Step}

/-- The text that steps leave is read as one item, and the printer of trees writes the item as the same
text. -/
def ReadsBack (steps : List Step) : Prop :=
  ∃ item, parse (Layout.print steps) = .ok [item] ∧
    Layout.print item.val.layout = Layout.print steps

/-- The printer of trees writes the item of each definition as the printer of programs writes the
definition. -/
structure PrintersAgree (p : Program) : Prop where
  /-- This holds of constructors. -/
  types : ∀ d ∈ p.types, ReadsBack d.layout
  /-- And it holds of functions. -/
  fns : ∀ d ∈ p.fns, ReadsBack d.layout

/-- An item whose names are words is read back on its own. -/
theorem readsBack_of_named {item : Item} (hnamed : Named item.shapes)
    (hlayout : item.layout = steps) : ReadsBack steps := by
  obtain ⟨hstop, hshapes⟩ := lex_of_spells (hlayout ▸ spells_item hnamed)
  have htree : Tree.shapes [⟨.none, item⟩] = item.shapes := by simp [Tree.shapes]
  obtain ⟨tree, hparse, hbare⟩ := parse_of_shapes hstop (hshapes.trans htree.symm)
  obtain ⟨item', rfl, hitem⟩ := List.map_eq_singleton_iff.1 hbare
  have hitem : item'.val.bare = item.bare := congrArg Spanned.val hitem
  refine ⟨item', hparse, congrArg Layout.print ?_⟩
  calc
    item'.val.layout = item'.val.bare.layout := item'.val.layout_bare.symm
    _ = item.bare.layout := by rw [hitem]
    _ = item.layout := item.layout_bare
    _ = steps := hlayout

theorem printersAgree_of_expressible (hp : Expressible p) : PrintersAgree p := by
  have hnamed := named_tree hp
  rw [p.shapes_tree, named_append, named_flatMap, named_flatMap] at hnamed
  exact ⟨fun d hd => readsBack_of_named (hnamed.1 d hd) d.layout_item,
    fun d hd => readsBack_of_named (hnamed.2 d hd) d.layout_item⟩

/-- On the definitions of a loaded program the printers agree, and they do once its memory management
has been made explicit. -/
theorem printers_agree (h : load source = .ok p) :
    PrintersAgree p ∧ ∃ q, insertCounts? p = .ok q ∧ PrintersAgree q := by
  have hp := expressible_of_load h
  exact ⟨printersAgree_of_expressible hp, insertCounts p, insertCounts?_eq_ok hp.valid,
    printersAgree_of_expressible (expressible_insertCounts hp)⟩

/-- A function with bindings behind bindings, arms behind arms, and a case without arms. -/
def nestedSource : String :=
  "(deftype Nil) (deftype Cons head tail)
  (defn push (x xs) (case xs
    Nil (let (y (new Cons x xs)) (case y Cons (case x) Nil (ret y)))
    Cons (let (h (proj head xs)) (let (t (proj tail xs) r (new Cons h t)) (ret r)))))"

set_option maxRecDepth 2000 in
/-- The printers agree on the two constructors and on the function, before and after the cell of the
list is used again. -/
theorem printers_agree_nested : ∃ p, load nestedSource = .ok p ∧
    (p.types.length = 2 ∧ p.fns.length = 1) ∧ PrintersAgree p ∧
    ∃ q, insertCounts? p = .ok q ∧ PrintersAgree q := by
  obtain ⟨p, hload, hcheck⟩ : ∃ p, load nestedSource = .ok p ∧
      (p.types.length == 2 && p.fns.length == 1) = true :=
    exists_load rfl (by decide +kernel)
  rw [Bool.and_eq_true, beq_iff_eq, beq_iff_eq] at hcheck
  exact ⟨p, hload, hcheck, printers_agree hload⟩

end Reclaim
