import Mathlib.Data.List.Nodup
import Reclaim.Loading
import Reclaim.Proofs.Checks

/-!
# What loading guarantees

Loading succeeds exactly if each of its stages does (`load_eq_ok`), and the first stage that fails refuses
a text (`load_eq_error`).  So a program that comes out of a text has passed the check, and the fields of
each of its constructors are spelled differently, since resolution refuses a constructor that repeats a
field (`typesOf_eq_ok`).
-/

namespace Reclaim

open Reclaim.Core Reclaim.Surface

/-- A program as it comes out of a text. -/
structure WellFormed (p : Program) : Prop where
  /-- It has passed the check. -/
  valid : p.validate = .ok ()
  /-- No constructor repeats a field. -/
  fields : ∀ d ∈ p.types, (d.fields.map (·.text)).Nodup

theorem mapError_eq_ok {ε δ α : Type} {f : ε → δ} {x : Except ε α} {a : α} :
    x.mapError f = .ok a ↔ x = .ok a := by
  cases x with
  | error e => simp [Except.mapError]
  | ok b => simp [Except.mapError]

/-- No identifier is found again exactly if all are spelled differently. -/
theorem repeated?_eq_none {seen xs : List Ident} : repeated? seen xs = none ↔
    (xs.map (·.val)).Nodup ∧ ∀ x ∈ xs, x.val ∉ seen.map (·.val) := by
  induction xs generalizing seen with
  | nil => simp [repeated?]
  | cons x rest ih =>
      have hfind : seen.find? (fun y => y.val == x.val) = none ↔ x.val ∉ seen.map (·.val) := by
        simp [List.find?_eq_none]
      rw [repeated?, List.forall_mem_cons, ← hfind, List.map_cons, List.nodup_cons]
      cases seen.find? fun y => y.val == x.val with
      | some y => simp
      | none =>
          simp only [ih, List.map_cons, List.mem_cons, not_or, forall_and, true_and, List.mem_map,
            not_exists, not_and]
          tauto

theorem repeated?_nil_eq_none {xs : List Ident} :
    repeated? [] xs = none ↔ (xs.map (·.val)).Nodup := by
  simp [repeated?_eq_none]

/-- The constructors that a tree declares, each with its fields. -/
def declarationsOf (tree : Tree) : List (Ident × List Ident) :=
  tree.filterMap fun item => match item.val with
    | .type tag fields => some (tag, fields)
    | .fn .. => none

theorem mem_declarationsOf {tree : Tree} {tag : Ident} {fields : List Ident} :
    (tag, fields) ∈ declarationsOf tree ↔ ∃ s, ⟨s, .type tag fields⟩ ∈ tree := by
  rw [declarationsOf, List.mem_filterMap]
  constructor
  · rintro ⟨⟨s, item⟩, hmem, hitem⟩
    cases item with
    | fn name params body => cases hitem
    | type tag fields =>
        cases hitem
        exact ⟨s, hmem⟩
  · rintro ⟨s, hmem⟩
    exact ⟨_, hmem, rfl⟩

/-- The constructor of a declaration. -/
def constructorOf (item : Ident × List Ident) : TypeDef := ⟨nameOf item.1, item.2.map nameOf⟩

/-- A declaration is taken if its tag is new and its fields are different. -/
theorem typesOf_type_eq_ok {rest : Tree} {s : Span} {tag : Ident} {fields : List Ident}
    {earlier types : List TypeDef} : typesOf earlier (⟨s, .type tag fields⟩ :: rest) = .ok types ↔
      (tag.val ∉ earlier.map (·.tag.text) ∧ (fields.map (·.val)).Nodup) ∧
        typesOf (earlier ++ [constructorOf (tag, fields)]) rest = .ok types := by
  have hfind : (earlier.find? fun d => d.tag.text == tag.val) = none ↔
      tag.val ∉ earlier.map (·.tag.text) := by
    simp [List.find?_eq_none]
  rw [typesOf, ← hfind, ← repeated?_nil_eq_none]
  cases earlier.find? fun d => d.tag.text == tag.val with
  | some d => simp
  | none =>
      cases repeated? [] fields with
      | some found => simp
      | none => simp [constructorOf]

/-- The types of a tree are its declarations, if these have new and different tags and each of them
has different fields. -/
theorem typesOf_eq_ok {tree : Tree} {earlier types : List TypeDef} :
    typesOf earlier tree = .ok types ↔ ((declarationsOf tree).map (·.1.val)).Nodup ∧
      (∀ item ∈ declarationsOf tree,
        item.1.val ∉ earlier.map (·.tag.text) ∧ (item.2.map (·.val)).Nodup) ∧
      types = earlier ++ (declarationsOf tree).map constructorOf := by
  induction tree generalizing earlier with
  | nil => simp [typesOf, declarationsOf, eq_comm]
  | cons item rest ih =>
      obtain ⟨s, item⟩ := item
      cases item with
      | fn name params body => exact ih
      | type tag fields =>
          have hdecl : declarationsOf (⟨s, .type tag fields⟩ :: rest) =
              (tag, fields) :: declarationsOf rest := rfl
          have htag : (constructorOf (tag, fields)).tag.text = tag.val := rfl
          rw [typesOf_type_eq_ok, ih, hdecl, List.map_cons, List.nodup_cons, List.forall_mem_cons,
            List.map_cons]
          simp only [List.map_append, List.map_cons, List.map_nil, List.mem_append,
            List.mem_singleton, not_or, List.append_assoc, List.singleton_append, htag]
          constructor
          · rintro ⟨hnew, hnodup, hrest, rfl⟩
            refine ⟨⟨fun hmem => ?_, hnodup⟩, ⟨hnew, fun item hitem => ?_⟩, rfl⟩
            · obtain ⟨item, hitem, heq⟩ := List.mem_map.1 hmem
              exact (hrest item hitem).1.2 heq
            · exact ⟨(hrest item hitem).1.1, (hrest item hitem).2⟩
          · rintro ⟨⟨hother, hnodup⟩, ⟨hnew, hrest⟩, rfl⟩
            refine ⟨hnew, hnodup, fun item hitem => ⟨⟨(hrest item hitem).1, fun heq => ?_⟩,
              (hrest item hitem).2⟩, rfl⟩
            exact hother (List.mem_map.2 ⟨item, hitem, heq⟩)

theorem nodup_fields_of_typesOf {tree : Tree} {types : List TypeDef}
    (h : typesOf [] tree = .ok types) : ∀ d ∈ types, (d.fields.map (·.text)).Nodup := by
  obtain ⟨-, hitems, rfl⟩ := typesOf_eq_ok.1 h
  refine List.forall_mem_map.2 fun item hitem => ?_
  rw [constructorOf, List.map_map]
  exact (hitems item hitem).2

theorem globalsOf_eq_ok {tree : Tree} {g : Globals} : globalsOf tree = .ok g ↔
    typesOf [] tree = .ok g.types ∧ ((fnNamesOf tree).map (·.val)).Nodup ∧ g.fns = fnNamesOf tree := by
  rw [← repeated?_nil_eq_none, globalsOf, bind_eq_ok]
  cases repeated? [] (fnNamesOf tree) with
  | some found => simp [throw, throwThe, MonadExceptOf.throw]
  | none =>
      simp only [pure_eq_ok, true_and]
      constructor
      · rintro ⟨types, htypes, rfl⟩
        exact ⟨htypes, rfl⟩
      · rintro ⟨htypes, hfns⟩
        exact ⟨g.types, htypes, by rw [← hfns]⟩

theorem resolve_eq_ok {tree : Tree} {p : Program} : resolve tree = .ok p ↔
    ∃ g, globalsOf tree = .ok g ∧ g.types = p.types ∧ resolveFns g tree = .ok p.fns := by
  simp only [resolve, bind_eq_ok, pure_eq_ok]
  constructor
  · rintro ⟨g, hg, fns, hfns, rfl⟩
    exact ⟨g, hg, rfl, hfns⟩
  · rintro ⟨g, hg, htypes, hfns⟩
    exact ⟨g, hg, p.fns, hfns, by rw [htypes]⟩

/-- A text is a program if each stage succeeds. -/
theorem load_eq_ok {source : String} {p : Program} : load source = .ok p ↔
    ∃ tree, parse source = .ok tree ∧ resolve tree = .ok p ∧ p.validate = .ok () := by
  simp only [load, loadUnchecked, bind_eq_ok, pure_eq_ok, mapError_eq_ok]
  constructor
  · rintro ⟨q, ⟨tree, hparse, hresolve⟩, _, hvalid, rfl⟩
    exact ⟨tree, hparse, hresolve, hvalid⟩
  · rintro ⟨tree, hparse, hresolve, hvalid⟩
    exact ⟨p, ⟨tree, hparse, hresolve⟩, (), hvalid, rfl⟩

/-- A text is loaded if its characters are, and a test on the program can be evaluated on them.  The
text itself would have to be decoded first. -/
theorem exists_load {source : String} {cs : List Char} {P : Program → Bool}
    (hs : source = .ofList cs)
    (hP : ((State.run (lexFrom 0 cs).stop {} (lexFrom 0 cs).tokens).toOption.any fun tree =>
      (resolve tree).toOption.any fun p => p.validate.isOk && P p) = true) :
    ∃ p, load source = .ok p ∧ P p = true := by
  obtain ⟨tree, hparse, hP⟩ := any_toOption.1 hP
  obtain ⟨p, hresolve, hP⟩ := any_toOption.1 hP
  rw [Bool.and_eq_true] at hP
  have hlex : lex source = lexFrom 0 cs := by rw [hs, lex, String.toList_ofList]
  refine ⟨p, load_eq_ok.2 ⟨tree, ?_, hresolve, ?_⟩, hP.2⟩
  · rw [parse, hlex, hparse]
  · cases hvalid : p.validate with
    | error e =>
        rw [hvalid] at hP
        cases hP.1
    | ok _ => rfl

/-- A text is refused by the first stage that fails. -/
theorem load_eq_error {source : String} {e : LoadError} : load source = .error e ↔
    (∃ s, parse source = .error s ∧ e = .malformed s) ∨
    (∃ tree s, parse source = .ok tree ∧ resolve tree = .error s ∧ e = .unresolved s) ∨
    ∃ tree p s, parse source = .ok tree ∧ resolve tree = .ok p ∧ p.validate = .error s ∧
      e = .invalid s := by
  rw [load, loadUnchecked]
  cases parse source with
  | error s => simp [Except.mapError, bind, Except.bind, eq_comm]
  | ok tree =>
      cases hresolve : resolve tree with
      | error s => simp [hresolve, Except.mapError, bind, Except.bind, eq_comm]
      | ok p =>
          cases hvalid : p.validate with
          | error s => simp [hresolve, hvalid, Except.mapError, bind, Except.bind, eq_comm]
          | ok _ =>
              simp [hresolve, hvalid, Except.mapError, bind, Except.bind, pure, Except.pure, eq_comm]

/-- A loaded program is well formed. -/
theorem wellFormed_of_load {source : String} {p : Program} (h : load source = .ok p) :
    WellFormed p := by
  obtain ⟨tree, -, hresolve, hvalid⟩ := load_eq_ok.1 h
  obtain ⟨g, hg, htypes, -⟩ := resolve_eq_ok.1 hresolve
  exact ⟨hvalid, htypes ▸ nodup_fields_of_typesOf (globalsOf_eq_ok.1 hg).1⟩

end Reclaim
