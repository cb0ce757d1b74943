import Reclaim.Proofs.Definitions
import Reclaim.Proofs.Resolution.Items
import Reclaim.Proofs.Surface.Shapes

/-!
# Definitions in any order

Whether what a tree defines has different names does not depend on the order of its items, and neither
do the names that are known (`knownIn_same`).  A body resolves in the same way if the same names are
known (`resolveBody_congr`), so each function resolves as before, and a tree in another order stands for
a program with the same definitions in another order (`resolve_perm`).  Such programs find the same under
every name, so they are valid together and run alike (`resolve_in_any_order`).
-/

namespace Reclaim.Core

open Reclaim.Surface (Ident Tree)

variable {g g' : Globals} {scope : Scope} {T T' : Tree} {p q : Program}

/-! ## Known names -/

/-- The same names are known. -/
structure Globals.Same (g g' : Globals) : Prop where
  /-- The tags. -/
  tag : ∀ x, g.tag x = g'.tag x
  /-- The fields. -/
  field : ∀ x, g.field x = g'.field x
  /-- The functions. -/
  fn : ∀ x, g.fn x = g'.fn x

section

variable (hperm : T.Perm T')

include hperm

theorem knownIn_same : (knownIn T).Same (knownIn T') := by
  have htypes : (knownIn T).types.Perm (knownIn T').types := (hperm.filterMap _).map _
  have hfns : (knownIn T).fns.Perm (knownIn T').fns := hperm.filterMap _
  refine ⟨fun x => ?_, fun x => ?_, fun x => ?_⟩
  · rw [Globals.tag, Globals.tag, htypes.any_eq]
  · rw [Globals.field, Globals.field, htypes.any_eq]
  · rw [Globals.fn, Globals.fn, hfns.any_eq]

theorem Distinct.perm (hT : Distinct T) : Distinct T' where
  tags := ((hperm.filterMap _).map _).nodup_iff.1 hT.tags
  fields := fun item hitem => hT.fields item ((hperm.filterMap _).mem_iff.2 hitem)
  fns := ((hperm.filterMap _).map _).nodup_iff.1 hT.fns

end

/-! ## Bodies -/

section

variable (same : g.Same g')

include same

theorem resolveExpr_congr (e : Surface.Expr) : resolveExpr g scope e = resolveExpr g' scope e := by
  cases e with
  | new tag fields => simp only [resolveExpr, resolveConstruction, same.tag]
  | proj field record => simp only [resolveExpr, same.field]
  | pap target args | app target args => simp only [resolveExpr, same.fn]
  | reset x => rfl
  | reuse token tag fields => simp only [resolveExpr, resolveConstruction, same.tag]

theorem resolveBindings_congr (bindings : List Surface.Binding) :
    resolveBindings g scope bindings = resolveBindings g' scope bindings := by
  induction bindings generalizing scope with
  | nil => rfl
  | cons x rest ih => simp only [resolveBindings, resolveExpr_congr same, ih]

theorem resolveArms_congr {arms : List Surface.Arm} (earlier : List Tag)
    (hb : ∀ arm ∈ arms, resolveBody g scope arm.2.val = resolveBody g' scope arm.2.val) :
    resolveArms g scope earlier arms = resolveArms g' scope earlier arms := by
  induction arms generalizing earlier with
  | nil => rfl
  | cons arm rest ih =>
      obtain ⟨hfirst, hrest⟩ := List.forall_mem_cons.1 hb
      obtain ⟨x, s, T⟩ := arm
      dsimp only at hfirst
      simp only [resolveArms, same.tag, hfirst, ih _ hrest]

/-- A body resolves in the same way if the same names are known. -/
theorem resolveBody_congr (T : Surface.Body) : resolveBody g scope T = resolveBody g' scope T := by
  induction T generalizing scope with
  | ret x => rfl
  | lets bindings s T ih => simp only [resolveBody, resolveBindings_congr same, ih]
  | case x arms ih =>
      simp only [resolveBody, resolveArms_congr same [] fun arm harm => ih arm harm]
  | inc x s T ih | dec x s T ih => simp only [resolveBody, ih]

theorem resolves_congr {item : Ident × List Ident × Surface.Body} {d : FnDef} :
    Resolves g item d ↔ Resolves g' item d := by
  simp only [resolves_iff, resolveBody_congr same]

end

/-! ## Trees -/

/-- In another order, the items of a tree stand for the same definitions in another order. -/
theorem resolve_perm (hperm : T.Perm T') (h : resolve T = .ok p) :
    ∃ q, resolve T' = .ok q ∧ p.types.Perm q.types ∧ p.fns.Perm q.fns := by
  obtain ⟨hdistinct, htypes, hfns⟩ := resolve_iff.1 h
  have hitems : (functionsOf T').Perm (functionsOf T) := hperm.symm.filterMap _
  obtain ⟨fns, hfns', hfnsPerm⟩ := List.perm_comp_forall₂ hitems hfns
  refine ⟨⟨(knownIn T').types, fns⟩, resolve_iff.2 ⟨hdistinct.perm hperm, rfl, ?_⟩, ?_,
    hfnsPerm.symm⟩
  · exact hfns'.imp fun _ _ hd => (resolves_congr (knownIn_same hperm)).1 hd
  · rw [htypes]
    exact (hperm.filterMap _).map _

/-- What has been resolved defines no name twice. -/
theorem nodup_of_resolve (h : resolve T = .ok p) :
    (p.types.map (·.tag.text)).Nodup ∧ (p.fns.map (·.name.text)).Nodup := by
  obtain ⟨hdistinct, htypes, hfns⟩ := resolve_iff.1 h
  constructor
  · rw [htypes, knownIn, List.map_map]
    exact hdistinct.tags
  · rw [names_of_resolves hfns]
    exact hdistinct.fns

/-- Trees with the same items resolve to programs that find the same. -/
theorem same_of_resolve (hperm : T.Perm T') (hp : resolve T = .ok p) (hq : resolve T' = .ok q) :
    p.Same q ∧ p.fns.Perm q.fns := by
  obtain ⟨q', hq', htypes, hfns⟩ := resolve_perm hperm hp
  obtain rfl : q' = q := Except.ok.inj (hq'.symm.trans hq)
  obtain ⟨htags, hnames⟩ := nodup_of_resolve hp
  exact ⟨Program.same_of_perm htags hnames htypes hfns, hfns⟩

theorem valid_perm (hperm : T.Perm T') (h : ∃ p, resolve T = .ok p ∧ p.validate = .ok ()) :
    ∃ q, resolve T' = .ok q ∧ q.validate = .ok () := by
  obtain ⟨p, hp, hvalid⟩ := h
  obtain ⟨q, hq, -, -⟩ := resolve_perm hperm hp
  obtain ⟨same, hfns⟩ := same_of_resolve hperm hp hq
  exact ⟨q, hq, (same.validate hfns).1 hvalid⟩

/-- Definitions may come in any order.  Two trees with the same items both stand for a valid program or
both do not.  The programs find the same functions, constructors and fields, and a run of one has the
outcome of a run of the other, result or failure, with the same heap. -/
theorem resolve_in_any_order (hperm : T.Perm T') :
    ((∃ p, resolve T = .ok p ∧ p.validate = .ok ()) ↔
      ∃ q, resolve T' = .ok q ∧ q.validate = .ok ()) ∧
    ∀ p q, resolve T = .ok p → resolve T' = .ok q →
      (∀ name, p.fn? name = q.fn? name) ∧ (∀ tag, p.type? tag = q.type? tag) ∧
      (∀ field, p.declaresField field = q.declaresField field) ∧
      ∀ depth entry, run p depth entry .empty = run q depth entry .empty := by
  refine ⟨⟨valid_perm hperm, valid_perm hperm.symm⟩, fun p q hp hq => ?_⟩
  obtain ⟨same, -⟩ := same_of_resolve hperm hp hq
  refine ⟨same.fn?, same.type?, same.declaresField, fun depth entry => ?_⟩
  rw [same.run]

/-- A function that calls a later one, which builds a record of a type that is declared last. -/
def callerFirst : Tree := [
  ⟨.none, .fn ⟨.none, "main"⟩ [] ⟨.none, .lets [
    ⟨⟨.none, "n"⟩, .none, .new ⟨.none, "Nil"⟩ []⟩,
    ⟨⟨.none, "b"⟩, .none, .app ⟨.none, "wrap"⟩ [⟨.none, "n"⟩]⟩] ⟨.none, .ret ⟨.none, "b"⟩⟩⟩⟩,
  ⟨.none, .fn ⟨.none, "wrap"⟩ [⟨.none, "x"⟩] ⟨.none, .lets [
    ⟨⟨.none, "b"⟩, .none, .new ⟨.none, "Box"⟩ [⟨.none, "x"⟩]⟩] ⟨.none, .ret ⟨.none, "b"⟩⟩⟩⟩,
  ⟨.none, .type ⟨.none, "Nil"⟩ []⟩,
  ⟨.none, .type ⟨.none, "Box"⟩ [⟨.none, "v"⟩]⟩]

/-- It resolves from back to front as well, to a program that lists the functions the other way round and
runs in the same way. -/
theorem resolve_in_any_order_reversed : ∃ p q r h', callerFirst.Perm callerFirst.reverse ∧
    resolve callerFirst = .ok p ∧ p.validate = .ok () ∧
    resolve callerFirst.reverse = .ok q ∧ q.validate = .ok () ∧
    p.fns.map (·.name.text) = ["main", "wrap"] ∧ q.fns.map (·.name.text) = ["wrap", "main"] ∧
    (∀ name, p.fn? name = q.fn? name) ∧ run p 2 "main" .empty = (.ok r, h') ∧
    run q 2 "main" .empty = (.ok r, h') := by
  have hperm : callerFirst.Perm callerFirst.reverse := (List.reverse_perm callerFirst).symm
  have hp : resolve callerFirst = .ok _ := rfl
  have hq : resolve callerFirst.reverse = .ok _ := rfl
  obtain ⟨hvalid, hsame⟩ := resolve_in_any_order hperm
  obtain ⟨hfn, -, -, hrun⟩ := hsame _ _ hp hq
  obtain ⟨q', hq', hvalid'⟩ := hvalid.1 ⟨_, hp, rfl⟩
  obtain rfl : _ = q' := Except.ok.inj (hq.symm.trans hq')
  exact ⟨_, _, _, _, hperm, hp, rfl, hq, hvalid', rfl, rfl, hfn, rfl, (hrun 2 "main").symm⟩

end Reclaim.Core
