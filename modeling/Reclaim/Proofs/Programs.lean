import Reclaim.Core.Program
import Reclaim.Proofs.Names

/-!
# Looking up definitions

What is looked up in a program is one of its definitions, and it is found under its own spelling.  If
no two definitions share a name, looking up does not depend on their order (`findRev?_eq_some`).  Giving
every function another body changes what is looked up in the same way.
-/

namespace Reclaim.Core

/-! ## Lookup by spelling -/

section

variable {α : Type} {kind : NameKind} {key : α → Name kind} {as : List α} {x : Name kind} {a : α}

/-- What is found is in the list, and is spelled like the name that is looked up. -/
theorem mem_of_findRev? (h : (as.findRev? fun a => key a == x) = some a) :
    a ∈ as ∧ (key a).text = x.text := by
  rw [List.findRev?_eq_find?_reverse] at h
  refine ⟨List.mem_reverse.1 (List.mem_of_find?_eq_some h), ?_⟩
  simpa [Name.beq_iff] using List.find?_some h

theorem exists_findRev?_iff :
    (∃ a, (as.findRev? fun a => key a == x) = some a) ↔ x.text ∈ as.map fun a => (key a).text := by
  constructor
  · rintro ⟨a, ha⟩
    exact List.mem_map.2 ⟨a, mem_of_findRev? ha⟩
  · intro hx
    rw [← Option.isSome_iff_exists, List.findRev?_eq_find?_reverse, List.find?_isSome]
    simpa [Name.beq_iff] using hx

/-- If all are spelled differently, the one that is found is the one with that spelling. -/
theorem findRev?_eq_some (hnodup : (as.map fun a => (key a).text).Nodup) :
    (as.findRev? fun a => key a == x) = some a ↔ a ∈ as ∧ (key a).text = x.text := by
  refine ⟨mem_of_findRev?, fun ⟨hmem, htext⟩ => ?_⟩
  obtain ⟨b, hb⟩ := exists_findRev?_iff.2 (List.mem_map.2 ⟨a, hmem, htext⟩)
  obtain ⟨hmem', htext'⟩ := mem_of_findRev? hb
  rw [hb, List.inj_on_of_nodup_map hnodup hmem' hmem (htext'.trans htext.symm)]

/-- Only the spelling matters to what is found under a name. -/
theorem findRev?_eq_of_text {y : Name kind} (h : x.text = y.text) :
    (as.findRev? fun a => key a == x) = as.findRev? fun a => key a == y := by
  obtain ⟨text, _⟩ := x
  obtain rfl : text = y.text := h
  rfl

end

/-! ## Definitions of a program -/

namespace Program

variable {p : Program} {name : FnName} {tag : Tag}

theorem text_of_fn? {d : FnDef} (h : p.fn? name = some d) : d ∈ p.fns ∧ d.name.text = name.text :=
  mem_of_findRev? h

theorem text_of_type? {d : TypeDef} (h : p.type? tag = some d) :
    d ∈ p.types ∧ d.tag.text = tag.text :=
  mem_of_findRev? h

theorem mem_of_fn? {d : FnDef} (h : p.fn? name = some d) : d ∈ p.fns := (text_of_fn? h).1

theorem mem_of_type? {d : TypeDef} (h : p.type? tag = some d) : d ∈ p.types := (text_of_type? h).1

theorem exists_fn?_iff : (∃ d, p.fn? name = some d) ↔ name.text ∈ p.fns.map (·.name.text) :=
  exists_findRev?_iff

theorem exists_type?_iff : (∃ d, p.type? tag = some d) ↔ tag.text ∈ p.types.map (·.tag.text) :=
  exists_findRev?_iff

theorem fn?_eq_some {d : FnDef} (hnames : (p.fns.map (·.name.text)).Nodup) :
    p.fn? name = some d ↔ d ∈ p.fns ∧ d.name.text = name.text :=
  findRev?_eq_some hnames

theorem type?_eq_some {d : TypeDef} (htags : (p.types.map (·.tag.text)).Nodup) :
    p.type? tag = some d ↔ d ∈ p.types ∧ d.tag.text = tag.text :=
  findRev?_eq_some htags

theorem declaresField_iff {field : Field} : p.declaresField field = true ↔
    ∃ d ∈ p.types, field.text ∈ d.fields.map (·.text) := by
  simp only [declaresField, List.any_eq_true (l := p.types), any_beq_iff]

theorem fn?_mapBodies (p : Program) (f : FnDef → Body) (name : FnName) :
    (p.mapBodies f).fn? name = (p.fn? name).map fun d => { d with body := f d } := by
  rw [fn?, fn?, List.findRev?_eq_find?_reverse, List.findRev?_eq_find?_reverse, mapBodies,
    ← List.map_reverse, List.find?_map]
  rfl

end Program

end Reclaim.Core
