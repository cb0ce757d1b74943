import Reclaim.Core.Resolution
import Reclaim.Proofs.Bare
import Reclaim.Proofs.Surface.Shapes

/-!
# Resolution does not look at spans

Resolution compares names by their spelling and hands their spans through.  So it treats a tree
without spans just like the tree, and the program that comes out is the program without spans
(`resolve_bare`).
-/

namespace Reclaim.Core

open Reclaim.Surface (Ident Tree bareIdent)

variable {ε α β γ δ : Type} {kind : NameKind} {g : Globals} {scope : Scope}

/-- Two computations that both fail, or both succeed with results that `f` relates. -/
inductive Agree (f : α → β) : Except ε α → Except ε β → Prop where
  | ok {a : α} {b : β} : f a = b → Agree f (.ok a) (.ok b)
  | error {e e' : ε} : Agree f (.error e) (.error e')

theorem Agree.bind {f : α → β} {h : γ → δ} {x : Except ε α} {y : Except ε β}
    {k : α → Except ε γ} {k' : β → Except ε δ} (hx : Agree f x y)
    (hk : ∀ a, Agree h (k a) (k' (f a))) : Agree h (x >>= k) (y >>= k') := by
  cases hx with
  | ok hab => exact hab ▸ hk _
  | error => exact .error

/-- The last step of a computation. -/
theorem Agree.map {f : α → β} {h : γ → δ} {x : Except ε α} {y : Except ε β} {k : α → γ}
    {k' : β → δ} (hx : Agree f x y) (hk : ∀ a, h (k a) = k' (f a)) :
    Agree h (x >>= fun a => pure (k a)) (y >>= fun b => pure (k' b)) :=
  hx.bind fun a => .ok (hk a)

/-- A result comes with a result of the other computation. -/
theorem Agree.exists_ok {f : α → β} {x : Except ε α} {b : β} (h : Agree f x (.ok b)) :
    ∃ a, x = .ok a ∧ f a = b := by
  cases h with
  | ok hab => exact ⟨_, rfl, hab⟩

theorem Agree.ok_right {f : α → β} {a : α} {y : Except ε β} (h : Agree f (.ok a) y) :
    y = .ok (f a) := by
  cases h with
  | ok hab => rw [hab]

/-! ## Names -/

theorem repeated?_bare (seen xs : List Ident) :
    repeated? (seen.map bareIdent) (xs.map bareIdent) =
      (repeated? seen xs).map fun e => (bareIdent e.1, bareIdent e.2) := by
  induction xs generalizing seen with
  | nil => rfl
  | cons x rest ih =>
      have hfind : (seen.map bareIdent).find? (fun y => y.val == (bareIdent x).val) =
          (seen.find? fun y => y.val == x.val).map bareIdent := by
        rw [List.find?_map]
        rfl
      rw [List.map_cons, repeated?, hfind, repeated?]
      cases seen.find? fun y => y.val == x.val with
      | none => exact ih (x :: seen)
      | some y => rfl

/-- Tables without spans. -/
def Globals.bare (g : Globals) : Globals := ⟨g.types.map TypeDef.bare, g.fns.map bareIdent⟩

/-- A scope without spans. -/
def bareScope (scope : Scope) : Scope := scope.map Name.bare

theorem names_bare (xs : List Ident) :
    (xs.map (@nameOf kind)).map Name.bare = (xs.map bareIdent).map nameOf := by
  rw [List.map_map, List.map_map]
  rfl

theorem Globals.tag_bare (g : Globals) (x : Ident) :
    Agree Name.bare (g.tag x) (g.bare.tag (bareIdent x)) := by
  have hany : (g.bare.types.any fun d => d.tag.text == (bareIdent x).val) =
      g.types.any fun d => d.tag.text == x.val := by
    rw [bare, List.any_map]
    rfl
  rw [tag, tag, hany]
  split
  · exact .ok rfl
  · exact .error

theorem Globals.field_bare (g : Globals) (x : Ident) :
    Agree Name.bare (g.field x) (g.bare.field (bareIdent x)) := by
  have hany : (g.bare.types.any fun d => d.fields.any fun f => f.text == (bareIdent x).val) =
      g.types.any fun d => d.fields.any fun f => f.text == x.val := by
    simp only [bare, TypeDef.bare, List.any_map, Function.comp_def]
    rfl
  rw [field, field, hany]
  split
  · exact .ok rfl
  · exact .error

theorem Globals.fn_bare (g : Globals) (x : Ident) :
    Agree Name.bare (g.fn x) (g.bare.fn (bareIdent x)) := by
  have hany : (g.bare.fns.any fun f => f.val == (bareIdent x).val) =
      g.fns.any fun f => f.val == x.val := by
    rw [bare, List.any_map]
    rfl
  rw [fn, fn, hany]
  split
  · exact .ok rfl
  · exact .error

theorem binder?_bare (scope : Scope) (x : Ident) :
    (bareScope scope).binder? (bareIdent x) = (scope.binder? x).map Name.bare := by
  rw [Scope.binder?, bareScope, List.find?_map]
  rfl

theorem lookup_bare (scope : Scope) (x : Ident) :
    Agree Name.bare (scope.lookup x) ((bareScope scope).lookup (bareIdent x)) := by
  rw [Scope.lookup, Scope.lookup, binder?_bare]
  cases scope.binder? x with
  | none => exact .error
  | some y => exact .ok rfl

theorem lookupAll_bare (scope : Scope) (xs : List Ident) : Agree (List.map Name.bare)
    (scope.lookupAll xs) ((bareScope scope).lookupAll (xs.map bareIdent)) := by
  induction xs with
  | nil => exact .ok rfl
  | cons x rest ih =>
      rw [List.map_cons, Scope.lookupAll, Scope.lookupAll, List.mapM_cons, List.mapM_cons]
      exact (lookup_bare scope x).bind fun y => ih.map fun _ => rfl

theorem bind_bare (scope : Scope) (x : Ident) :
    Agree bareScope (scope.bind x) ((bareScope scope).bind (bareIdent x)) := by
  rw [Scope.bind, Scope.bind, binder?_bare]
  cases scope.binder? x with
  | none => exact .ok rfl
  | some y => exact .error

/-! ## Bodies -/

theorem resolveConstruction_bare (g : Globals) (scope : Scope) (tag : Ident) (fields : List Ident) :
    Agree Construction.bare (resolveConstruction g scope tag fields)
      (resolveConstruction g.bare (bareScope scope) (bareIdent tag) (fields.map bareIdent)) :=
  (g.tag_bare tag).bind fun _ => (lookupAll_bare scope fields).map fun _ => rfl

theorem resolveExpr_bare (g : Globals) (scope : Scope) (e : Surface.Expr) :
    Agree Expr.bare (resolveExpr g scope e) (resolveExpr g.bare (bareScope scope) e.bare) := by
  cases e with
  | new tag fields => exact (resolveConstruction_bare g scope tag fields).map fun _ => rfl
  | proj field record =>
      exact (g.field_bare field).bind fun _ => (lookup_bare scope record).map fun _ => rfl
  | pap target args =>
      rw [Surface.Expr.bare, resolveExpr, resolveExpr, binder?_bare]
      cases scope.binder? target with
      | some y => exact (lookupAll_bare scope args).map fun _ => rfl
      | none => exact (g.fn_bare target).bind fun _ => (lookupAll_bare scope args).map fun _ => rfl
  | app target args =>
      rw [Surface.Expr.bare, resolveExpr, resolveExpr, binder?_bare]
      cases scope.binder? target with
      | some y => exact (lookupAll_bare scope args).map fun _ => rfl
      | none => exact (g.fn_bare target).bind fun _ => (lookupAll_bare scope args).map fun _ => rfl
  | reset x => exact (lookup_bare scope x).map fun _ => rfl
  | reuse token tag fields =>
      exact (lookup_bare scope token).bind fun _ =>
        (resolveConstruction_bare g scope tag fields).map fun _ => rfl

/-- Bindings and the scope after them, without spans. -/
def bareBindings (out : List (Var × Expr) × Scope) : List (Var × Expr) × Scope :=
  (out.1.map fun x => (x.1.bare, x.2.bare), bareScope out.2)

theorem resolveBindings_bare (g : Globals) (scope : Scope) (bindings : List Surface.Binding) :
    Agree bareBindings (resolveBindings g scope bindings)
      (resolveBindings g.bare (bareScope scope) (bindings.map Surface.Binding.bare)) := by
  induction bindings generalizing scope with
  | nil => exact .ok rfl
  | cons b rest ih =>
      exact (resolveExpr_bare g scope b.expr.val).bind fun _ =>
        (bind_bare scope b.binder).bind fun inner => (ih inner).map fun _ => rfl

theorem bindAll_bare (bound : List (Var × Expr)) (b : Body) :
    (bindAll bound b).bare = bindAll (bound.map fun x => (x.1.bare, x.2.bare)) b.bare := by
  induction bound with
  | nil => rfl
  | cons x rest ih => exact congrArg (Body.bind x.1.bare x.2.bare) ih

theorem resolveArms_bare (earlier : List Tag) {arms : List Surface.Arm}
    (h : ∀ arm ∈ arms, Agree Body.bare (resolveBody g scope arm.2.val)
      (resolveBody g.bare (bareScope scope) arm.2.val.bare)) :
    Agree bareArms (resolveArms g scope earlier arms)
      (resolveArms g.bare (bareScope scope) (earlier.map Name.bare) (Surface.bareArms arms)) := by
  induction arms generalizing earlier with
  | nil => exact .ok rfl
  | cons arm rest ih =>
      obtain ⟨x, s, b⟩ := arm
      obtain ⟨hb, hrest⟩ := List.forall_mem_cons.1 h
      refine (g.tag_bare x).bind fun tag => ?_
      have hfind : (earlier.map Name.bare).find? (· == tag.bare) =
          (earlier.find? (· == tag)).map Name.bare := by
        rw [List.find?_map]
        rfl
      rw [hfind]
      cases earlier.find? (· == tag) with
      | some first => exact .error
      | none => exact hb.bind fun _ => (ih (tag :: earlier) hrest).map fun _ => rfl

theorem resolveBody_bare (g : Globals) (scope : Scope) (b : Surface.Body) :
    Agree Body.bare (resolveBody g scope b) (resolveBody g.bare (bareScope scope) b.bare) := by
  induction b generalizing scope with
  | ret x => exact (lookup_bare scope x).map fun _ => rfl
  | lets bindings s b ih =>
      exact (resolveBindings_bare g scope bindings).bind fun out =>
        (ih out.2).map fun _ => bindAll_bare _ _
  | case x arms ih =>
      exact (lookup_bare scope x).bind fun _ =>
        (resolveArms_bare [] fun arm harm => ih arm harm scope).map fun _ => rfl
  | inc x s b ih => exact (lookup_bare scope x).bind fun _ => (ih scope).map fun _ => rfl
  | dec x s b ih => exact (lookup_bare scope x).bind fun _ => (ih scope).map fun _ => rfl

/-! ## Programs -/

theorem typesOf_bare (earlier : List TypeDef) (tree : Tree) : Agree (List.map TypeDef.bare)
    (typesOf earlier tree) (typesOf (earlier.map TypeDef.bare) tree.bare) := by
  induction tree generalizing earlier with
  | nil => exact .ok rfl
  | cons item rest ih =>
      obtain ⟨s, item⟩ := item
      cases item with
      | fn name params body => exact ih earlier
      | type tag fields =>
          have hfind : (earlier.map TypeDef.bare).find? (fun d => d.tag.text == tag.val) =
              (earlier.find? fun d => d.tag.text == tag.val).map TypeDef.bare := by
            rw [List.find?_map]
            rfl
          have hrep := repeated?_bare [] fields
          rw [List.map_nil] at hrep
          simp only [Tree.bare, List.map_cons, Surface.Item.bare, typesOf]
          rw [show (bareIdent tag).val = tag.val from rfl, hfind, hrep]
          cases earlier.find? fun d => d.tag.text == tag.val with
          | some d => exact .error
          | none => cases repeated? [] fields with
            | some found => exact .error
            | none =>
                have := ih (earlier ++ [⟨nameOf tag, fields.map nameOf⟩])
                rwa [List.map_append, List.map_singleton, TypeDef.bare, names_bare] at this

theorem fnNamesOf_bare (tree : Tree) : fnNamesOf tree.bare = (fnNamesOf tree).map bareIdent := by
  rw [fnNamesOf, fnNamesOf, Tree.bare, List.filterMap_map, List.map_filterMap]
  refine List.filterMap_congr fun item _ => ?_
  obtain ⟨s, item⟩ := item
  cases item <;> rfl

theorem globalsOf_bare (tree : Tree) :
    Agree Globals.bare (globalsOf tree) (globalsOf tree.bare) := by
  refine (typesOf_bare [] tree).bind fun types => ?_
  have hrep := repeated?_bare [] (fnNamesOf tree)
  rw [List.map_nil] at hrep
  rw [fnNamesOf_bare, hrep]
  cases repeated? [] (fnNamesOf tree) with
  | some found => exact .error
  | none => exact .ok rfl

theorem resolveFn_bare (g : Globals) (name : Ident) (params : List Ident) (b : Surface.Body) :
    Agree FnDef.bare (resolveFn g name params b)
      (resolveFn g.bare (bareIdent name) (params.map bareIdent) b.bare) := by
  have hrep := repeated?_bare [] params
  rw [List.map_nil] at hrep
  rw [resolveFn, resolveFn, hrep]
  cases repeated? [] params with
  | some found => exact .error
  | none =>
      have hscope : bareScope (params.map nameOf).reverse =
          ((params.map bareIdent).map nameOf).reverse := by
        rw [bareScope, List.map_reverse, names_bare]
      have hb := resolveBody_bare g (params.map nameOf).reverse b
      rw [hscope] at hb
      refine hb.map fun _ => ?_
      rw [FnDef.bare, names_bare]
      rfl

theorem resolveFns_bare (g : Globals) (tree : Tree) : Agree (List.map FnDef.bare)
    (resolveFns g tree) (resolveFns g.bare tree.bare) := by
  induction tree with
  | nil => exact .ok rfl
  | cons item rest ih =>
      obtain ⟨s, item⟩ := item
      cases item with
      | type tag fields => exact ih
      | fn name params body =>
          exact (resolveFn_bare g name params body.val).bind fun _ => ih.map fun _ => rfl

/-- Resolution does not look at spans. -/
theorem resolve_bare (tree : Tree) : Agree Program.bare (resolve tree) (resolve tree.bare) :=
  (globalsOf_bare tree).bind fun g => (resolveFns_bare g tree).map fun _ => rfl

end Reclaim.Core
