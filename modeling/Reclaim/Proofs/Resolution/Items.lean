import Reclaim.Proofs.Loading

/-!
# Resolution, item by item

A tree declares constructors and defines functions.  Resolution succeeds exactly if the constructors have
different tags, each with different fields, the functions have different names, and each function
resolves by itself (`resolve_iff`).  So what one item resolves to depends on the other items only through
the names that are known.
-/

namespace Reclaim.Core

open Reclaim.Surface (Ident Tree)

variable {g : Globals} {scope : Scope} {tree : Tree} {p : Program}

/-! ## Functions -/

/-- The functions that a tree defines, each with its parameters and its body. -/
def functionsOf (tree : Tree) : List (Ident × List Ident × Surface.Body) :=
  tree.filterMap fun item => match item.val with
    | .fn name params body => some (name, params, body.val)
    | .type .. => none

theorem fnNamesOf_eq (tree : Tree) : fnNamesOf tree = (functionsOf tree).map (·.1) := by
  rw [fnNamesOf, functionsOf, List.map_filterMap]
  congr 1
  funext item
  cases item.val <;> rfl

theorem mem_functionsOf {name : Ident} {params : List Ident} {b : Surface.Body}
    (hmem : (name, params, b) ∈ functionsOf tree) :
    ∃ s s', ⟨s, .fn name params ⟨s', b⟩⟩ ∈ tree := by
  obtain ⟨⟨s, item⟩, hin, hitem⟩ := List.mem_filterMap.1 hmem
  cases item with
  | fn name params body =>
      cases hitem
      exact ⟨s, body.span, hin⟩
  | type tag fields => cases hitem

/-- A function resolves by itself. -/
def Resolves (g : Globals) (item : Ident × List Ident × Surface.Body) (d : FnDef) : Prop :=
  resolveFn g item.1 item.2.1 item.2.2 = .ok d

theorem resolves_iff {item : Ident × List Ident × Surface.Body} {d : FnDef} :
    Resolves g item d ↔ (item.2.1.map (·.val)).Nodup ∧
      ∃ b, resolveBody g (item.2.1.map nameOf).reverse item.2.2 = .ok b ∧
        d = ⟨nameOf item.1, item.2.1.map nameOf, b⟩ := by
  rw [Resolves, ← repeated?_nil_eq_none, resolveFn]
  cases repeated? [] item.2.1 with
  | some found => simp
  | none => simp only [bind_eq_ok, pure_eq_ok, true_and]

theorem resolveFns_eq_ok {fns : List FnDef} :
    resolveFns g tree = .ok fns ↔ List.Forall₂ (Resolves g) (functionsOf tree) fns := by
  induction tree generalizing fns with
  | nil =>
      rw [resolveFns, pure_eq_ok]
      exact List.forall₂_nil_left_iff.symm
  | cons item rest ih =>
      obtain ⟨s, item⟩ := item
      cases item with
      | type tag fields => exact ih
      | fn name params body =>
          have hfns : functionsOf (⟨s, .fn name params body⟩ :: rest) =
              (name, params, body.val) :: functionsOf rest := rfl
          rw [resolveFns, hfns, List.forall₂_cons_left_iff]
          simp only [bind_eq_ok, pure_eq_ok, ih]
          constructor
          · rintro ⟨d, hd, ds, hds, rfl⟩
            exact ⟨d, ds, hd, hds, rfl⟩
          · rintro ⟨d, ds, hd, hds, rfl⟩
            exact ⟨d, hd, ds, hds, rfl⟩

theorem exists_resolves {items : List (Ident × List Ident × Surface.Body)} {fns : List FnDef}
    {d : FnDef} (h : List.Forall₂ (Resolves g) items fns) (hd : d ∈ fns) :
    ∃ item ∈ items, Resolves g item d := by
  induction h with
  | nil => cases hd
  | cons hfirst _ ih =>
      rcases List.mem_cons.1 hd with rfl | hd
      · exact ⟨_, .head _, hfirst⟩
      · obtain ⟨item, hitem, hd⟩ := ih hd
        exact ⟨item, .tail _ hitem, hd⟩

/-- The functions of a tree keep their names. -/
theorem names_of_resolves {items : List (Ident × List Ident × Surface.Body)} {fns : List FnDef}
    (h : List.Forall₂ (Resolves g) items fns) :
    fns.map (·.name.text) = items.map (·.1.val) := by
  induction h with
  | nil => rfl
  | cons hd _ ih =>
      obtain ⟨-, b, -, rfl⟩ := resolves_iff.1 hd
      rw [List.map_cons, List.map_cons, ih]
      rfl

/-! ## Trees -/

/-- The names that are known in a tree. -/
def knownIn (tree : Tree) : Globals := ⟨(declarationsOf tree).map constructorOf, fnNamesOf tree⟩

/-- What is defined has different names. -/
structure Distinct (tree : Tree) : Prop where
  /-- No tag is declared twice. -/
  tags : ((declarationsOf tree).map (·.1.val)).Nodup
  /-- No constructor repeats a field. -/
  fields : ∀ item ∈ declarationsOf tree, (item.2.map (·.val)).Nodup
  /-- No function is defined twice. -/
  fns : ((functionsOf tree).map (·.1.val)).Nodup

theorem globalsOf_iff : globalsOf tree = .ok g ↔ Distinct tree ∧ g = knownIn tree := by
  rw [globalsOf_eq_ok, typesOf_eq_ok, fnNamesOf_eq, List.map_map]
  constructor
  · rintro ⟨⟨htags, hitems, htypes⟩, hfns, hnames⟩
    refine ⟨⟨htags, fun item hitem => (hitems item hitem).2, hfns⟩, ?_⟩
    obtain ⟨types, fns⟩ := g
    obtain rfl : types = _ := htypes
    obtain rfl : fns = _ := hnames
    rw [knownIn, fnNamesOf_eq]
    rfl
  · rintro ⟨hdistinct, rfl⟩
    refine ⟨⟨hdistinct.tags, fun item hitem => ⟨?_, hdistinct.fields item hitem⟩, rfl⟩,
      hdistinct.fns, fnNamesOf_eq tree⟩
    exact List.not_mem_nil

theorem resolve_iff : resolve tree = .ok p ↔ Distinct tree ∧ p.types = (knownIn tree).types ∧
    List.Forall₂ (Resolves (knownIn tree)) (functionsOf tree) p.fns := by
  rw [resolve_eq_ok]
  constructor
  · rintro ⟨g, hg, htypes, hfns⟩
    obtain ⟨hdistinct, rfl⟩ := globalsOf_iff.1 hg
    exact ⟨hdistinct, htypes.symm, resolveFns_eq_ok.1 hfns⟩
  · rintro ⟨hdistinct, htypes, hfns⟩
    exact ⟨_, globalsOf_iff.2 ⟨hdistinct, rfl⟩, htypes.symm, resolveFns_eq_ok.2 hfns⟩

end Reclaim.Core
