import Reclaim.Proofs.Resolution.Readable
import Reclaim.Proofs.Trees

/-!
# Reading a program back

The tree of a program that can be expressed has names that are words (`named_tree`), and it resolves
to the program itself (`resolve_tree`).  While a body is read, the bindings of an open `let` have
already been resolved, and the scope behind them is the one in which the body stands.
-/

namespace Reclaim.Core

open Reclaim.Surface (Ident Tree Item Proper Named)

variable {kind : NameKind} {p : Program} {scope : Scope} {S : List String} {c : Construction}
  {e : Expr} {b : Body} {bindings : List Surface.Binding}

/-! ## Definitions -/

namespace Expressible

theorem proper_tag (hp : Expressible p) {tag : Tag} {d : TypeDef} (h : p.type? tag = some d) :
    Proper tag.text :=
  have ⟨hd, htext⟩ := p.text_of_type? h
  htext ▸ (hp.types d hd).tag

theorem proper_fn (hp : Expressible p) {f : FnName} {d : FnDef} (h : p.fn? f = some d) :
    Proper f.text :=
  have ⟨hd, htext⟩ := p.text_of_fn? h
  htext ▸ (hp.fns d hd).name

theorem proper_field (hp : Expressible p) {field : Field} (h : p.declaresField field = true) :
    Proper field.text := by
  obtain ⟨d, hd, hfield⟩ := Program.declaresField_iff.1 h
  obtain ⟨f, hf, htext⟩ := List.mem_map.1 hfield
  exact htext ▸ (hp.types d hd).fields f hf

end Expressible

/-! ## Names -/

theorem named_idents {xs : List (Name kind)} :
    Named (Surface.namesOf (xs.map identOf)) ↔ ∀ x ∈ xs, Proper x.text := by
  rw [Surface.named_namesOf, List.forall_mem_map]
  rfl

theorem forall_texts_ofList {N : String → Prop} {xs : List Var} :
    (∀ t ∈ (OrderedSet.ofList xs).texts, N t) ↔ ∀ x ∈ xs, N x.text := by
  simp only [OrderedSet.mem_texts_ofList, List.forall_mem_map]

theorem forall_texts_singleton {N : String → Prop} {x : Var} :
    (∀ t ∈ (OrderedSet.singleton x).texts, N t) ↔ N x.text := by
  simp only [OrderedSet.mem_texts_singleton, forall_eq]

theorem forall_texts_head {N : String → Prop} {x : Var} {xs : List Var} :
    (∀ t ∈ ((OrderedSet.singleton x).union (.ofList xs)).texts, N t) ↔
      N x.text ∧ ∀ y ∈ xs, N y.text := by
  simp only [OrderedSet.mem_texts_union, or_imp, forall_and, forall_texts_singleton,
    forall_texts_ofList]

theorem named_expr (hp : Expressible p) (hvars : ∀ t ∈ e.freeVars.texts, Proper t)
    (hfits : e.Fits p) : Named e.tree.opened := by
  cases e with
  | call f xs | close f xs =>
      obtain ⟨d, hd, -⟩ := hfits
      rw [Expr.freeVars, forall_texts_ofList] at hvars
      simpa [Expr.tree, Surface.Expr.opened, named_idents] using ⟨hp.proper_fn hd, hvars⟩
  | apply f xs | extend f xs =>
      rw [Expr.freeVars, forall_texts_head] at hvars
      simpa [Expr.tree, Surface.Expr.opened, named_idents] using hvars
  | new c =>
      obtain ⟨d, hd, -⟩ := hfits
      rw [Expr.freeVars, forall_texts_ofList] at hvars
      simpa [Expr.tree, Surface.Expr.opened, named_idents] using ⟨hp.proper_tag hd, hvars⟩
  | proj field record =>
      rw [Expr.freeVars, forall_texts_singleton] at hvars
      simpa [Expr.tree, Surface.Expr.opened] using ⟨hp.proper_field hfits, hvars⟩
  | reset x =>
      rw [Expr.freeVars, forall_texts_singleton] at hvars
      simpa [Expr.tree, Surface.Expr.opened] using hvars
  | reuse token c =>
      obtain ⟨d, hd, -⟩ := hfits
      rw [Expr.freeVars, forall_texts_head] at hvars
      simpa [Expr.tree, Surface.Expr.opened, named_idents] using
        ⟨hvars.1, hp.proper_tag hd, hvars.2⟩

theorem named_behind {b : Surface.Body} (hbindings : ∀ x ∈ bindings, Named x.shapes)
    (hb : Named b.shapes) : Named (behind bindings b).shapes := by
  cases bindings with
  | nil => exact hb
  | cons x rest =>
      simp only [behind, Surface.Body.shapes, Surface.named_append, Surface.named_flatMap,
        Surface.named_mark, Surface.named_nil, and_true, true_and]
      exact ⟨hbindings, hb⟩

theorem named_body (hp : Expressible p) (hb : Bound Proper S b) (hfits : b.Fits p)
    (hS : ∀ t ∈ S, Proper t) (hbindings : ∀ x ∈ bindings, Named x.shapes) :
    Named (b.treeIn bindings).shapes := by
  induction b generalizing S bindings with
  | ret x =>
      have hx := hS _ (bound_ret.1 hb)
      exact named_behind hbindings (by simpa [Surface.Body.shapes] using hx)
  | bind x e b ih =>
      obtain ⟨hreads, -, hx, hb⟩ := bound_bind.1 hb
      obtain ⟨he, hfits⟩ := Body.fits_bind.1 hfits
      refine ih hb hfits (List.forall_mem_cons.2 ⟨hx, hS⟩)
        (List.forall_mem_append.2 ⟨hbindings, List.forall_mem_singleton.2 ?_⟩)
      have := named_expr hp (fun t ht => hS t (hreads t ht)) he
      simpa [bindingOf, Surface.Binding.shapes] using ⟨hx, this⟩
  | case x arms ih =>
      obtain ⟨hx, hb⟩ := bound_case.1 hb
      obtain ⟨htags, hfits⟩ := Body.fits_case.1 hfits
      refine named_behind hbindings ?_
      simp only [Surface.Body.shapes, Surface.shapesArms_eq, treeArms_eq, Surface.named_append,
        Surface.named_mark, Surface.named_name, Surface.named_nil, Surface.named_flatMap,
        List.forall_mem_map, and_true]
      refine ⟨hS _ hx, fun arm harm => ?_⟩
      obtain ⟨d, hd⟩ := htags arm harm
      have hrest := ih arm harm (hb arm harm) (hfits arm harm) hS (List.forall_mem_nil _)
      exact ⟨hp.proper_tag hd, hrest⟩
  | inc x b ih =>
      obtain ⟨hx, hb⟩ := bound_inc.1 hb
      have hrest : Named (b.treeIn []).shapes :=
        ih hb (Body.fits_inc.1 hfits) hS (List.forall_mem_nil _)
      exact named_behind hbindings (by simpa [Surface.Body.shapes] using ⟨hS _ hx, hrest⟩)
  | dec x b ih =>
      obtain ⟨hx, hb⟩ := bound_dec.1 hb
      have hrest : Named (b.treeIn []).shapes :=
        ih hb (Body.fits_dec.1 hfits) hS (List.forall_mem_nil _)
      exact named_behind hbindings (by simpa [Surface.Body.shapes] using ⟨hS _ hx, hrest⟩)

/-- The names in the tree of a program are words. -/
theorem named_tree (hp : Expressible p) : Named p.tree.shapes := by
  rw [p.shapes_tree, Surface.named_append, Surface.named_flatMap, Surface.named_flatMap]
  constructor
  · intro d hd
    have hd := hp.types d hd
    simpa [TypeDef.item, Item.shapes, named_idents] using ⟨hd.tag, hd.fields⟩
  · intro d hd
    obtain ⟨-, -, hfits⟩ := checkFn_eq_ok.1 (checkFn_of_mem hp.valid hd)
    have hd := hp.fns d hd
    have hparams : ∀ t ∈ d.params.reverse.map (·.text), Proper t := by simpa using hd.params
    have hbody : Named (d.body.treeIn []).shapes := named_body hp hd.bound hfits hparams (List.forall_mem_nil _)
    simpa [FnDef.item, Item.shapes, named_idents] using ⟨hd.name, hd.params, hbody⟩

/-! ## Expressions -/

/-- The tables of a program. -/
def Program.globals (p : Program) : Globals := ⟨p.types, p.fns.map fun d => identOf d.name⟩

theorem lookup_identOf {x : Var} (hx : x.text ∈ scope.map (·.text)) :
    scope.lookup (identOf x) = .ok x := lookup_eq_ok.2 ⟨hx, rfl⟩

theorem lookupAll_identOf {xs : List Var} (hxs : ∀ x ∈ xs, x.text ∈ scope.map (·.text)) :
    scope.lookupAll (xs.map identOf) = .ok xs :=
  lookupAll_eq_ok.2 ⟨List.forall_mem_map.2 hxs, (names_idents xs).symm⟩

theorem fn_identOf {f : FnName} {d : FnDef} (h : p.fn? f = some d) :
    p.globals.fn (identOf f) = .ok f := by
  obtain ⟨hd, htext⟩ := p.text_of_fn? h
  refine fn_eq_ok.2 ⟨?_, rfl⟩
  simpa [Program.globals] using ⟨d, hd, htext⟩

theorem tag_identOf {tag : Tag} {d : TypeDef} (h : p.type? tag = some d) :
    p.globals.tag (identOf tag) = .ok tag := by
  obtain ⟨hd, htext⟩ := p.text_of_type? h
  exact tag_eq_ok.2 ⟨List.mem_map.2 ⟨d, hd, htext⟩, rfl⟩

theorem field_identOf {field : Field} (h : p.declaresField field = true) :
    p.globals.field (identOf field) = .ok field :=
  field_eq_ok.2 ⟨Program.declaresField_iff.1 h, rfl⟩

theorem construction_identOf (hfields : ∀ x ∈ c.fields, x.text ∈ scope.map (·.text))
    (hfits : c.Fits p) :
    resolveConstruction p.globals scope (identOf c.tag) (c.fields.map identOf) = .ok c := by
  obtain ⟨d, hd, -⟩ := hfits
  rw [resolveConstruction, tag_identOf hd, lookupAll_identOf hfields]
  rfl

/-- The tree of an expression resolves to the expression. -/
theorem resolveExpr_tree (hvars : ∀ t ∈ e.freeVars.texts, t ∈ scope.map (·.text))
    (htargets : ∀ f ∈ e.targets, f.text ∉ scope.map (·.text)) (hfits : e.Fits p) :
    resolveExpr p.globals scope e.tree = .ok e := by
  cases e with
  | call f xs | close f xs =>
      obtain ⟨d, hd, -⟩ := hfits
      rw [Expr.freeVars, forall_texts_ofList] at hvars
      have hf : scope.binder? (identOf f) = none :=
        binder?_eq_none.2 (htargets f (.head _))
      rw [Expr.tree, resolveExpr, hf]
      simp only [fn_identOf hd, lookupAll_identOf hvars]
      rfl
  | apply f xs | extend f xs =>
      rw [Expr.freeVars, forall_texts_head] at hvars
      obtain ⟨y, hy⟩ := (binder?_eq_some (x := identOf f)).2 hvars.1
      rw [Expr.tree, resolveExpr, hy]
      simp only [lookupAll_identOf hvars.2]
      rfl
  | new c =>
      rw [Expr.freeVars, forall_texts_ofList] at hvars
      rw [Expr.tree, resolveExpr, construction_identOf hvars hfits]
      rfl
  | proj field record =>
      rw [Expr.freeVars, forall_texts_singleton] at hvars
      rw [Expr.tree, resolveExpr, field_identOf hfits, lookup_identOf hvars]
      rfl
  | reset x =>
      rw [Expr.freeVars, forall_texts_singleton] at hvars
      rw [Expr.tree, resolveExpr, lookup_identOf hvars]
      rfl
  | reuse token c =>
      rw [Expr.freeVars, forall_texts_head] at hvars
      rw [Expr.tree, resolveExpr, lookup_identOf hvars.1, construction_identOf hvars.2 hfits]
      rfl

/-! ## Bodies -/

theorem resolveBindings_nil (g : Globals) (scope : Scope) :
    resolveBindings g scope [] = .ok ([], scope) := rfl

/-- A binding after resolved ones is resolved in the scope behind them. -/
theorem resolveBindings_snoc {g : Globals} {out : List (Var × Expr) × Scope} {x : Var}
    (h : resolveBindings g scope bindings = .ok out) (he : resolveExpr g out.2 e.tree = .ok e)
    (hx : x.text ∉ out.2.map (·.text)) :
    resolveBindings g scope (bindings ++ [bindingOf x e]) =
      .ok (out.1 ++ [(x, e)], x :: out.2) := by
  induction bindings generalizing scope out with
  | nil =>
      cases h
      have hbind : scope.bind (identOf x) = .ok (x :: scope) := bind_scope_eq_ok.2 ⟨hx, rfl⟩
      exact bind_eq_ok.2 ⟨e, he, bind_eq_ok.2 ⟨x :: scope, hbind, rfl⟩⟩
  | cons y rest ih =>
      simp only [resolveBindings, bind_eq_ok, pure_eq_ok] at h
      obtain ⟨e', he', inner, hinner, last, hlast, rfl⟩ := h
      exact bind_eq_ok.2
        ⟨e', he', bind_eq_ok.2 ⟨inner, hinner, bind_eq_ok.2 ⟨_, ih hlast he hx, rfl⟩⟩⟩

/-- A body behind bindings is resolved in the scope behind them. -/
theorem resolveBody_behind {g : Globals} {out : List (Var × Expr) × Scope} {T : Surface.Body}
    (h : resolveBindings g scope bindings = .ok out) (hT : resolveBody g out.2 T = .ok b) :
    resolveBody g scope (behind bindings T) = .ok (bindAll out.1 b) := by
  cases bindings with
  | nil =>
      cases h
      exact hT
  | cons x rest =>
      change resolveBody g scope (.lets (x :: rest) ⟨.none, T⟩) = _
      exact bind_eq_ok.2 ⟨out, h, bind_eq_ok.2 ⟨b, hT, rfl⟩⟩

theorem bindAll_snoc (bound : List (Var × Expr)) (x : Var) (e : Expr) (b : Body) :
    bindAll (bound ++ [(x, e)]) b = bindAll bound (.bind x e b) := by
  simp [bindAll]

/-- Arms with different tags, each of which resolves. -/
theorem resolveArms_tree {earlier : List Tag} {arms : List Arm}
    (hnodup : (arms.map (·.1.text)).Nodup)
    (hearlier : ∀ arm ∈ arms, arm.1.text ∉ earlier.map (·.text))
    (htags : ∀ arm ∈ arms, ∃ d, p.type? arm.1 = some d)
    (hbodies : ∀ arm ∈ arms, resolveBody p.globals scope (arm.2.treeIn []) = .ok arm.2) :
    resolveArms p.globals scope earlier (treeArms arms) = .ok arms := by
  induction arms generalizing earlier with
  | nil => rfl
  | cons arm rest ih =>
      obtain ⟨tag, b⟩ := arm
      rw [List.map_cons, List.nodup_cons] at hnodup
      obtain ⟨hnew, hothers⟩ := List.forall_mem_cons.1 hearlier
      obtain ⟨⟨d, hd⟩, htags⟩ := List.forall_mem_cons.1 htags
      obtain ⟨hb, hbodies⟩ := List.forall_mem_cons.1 hbodies
      have hfind : earlier.find? (· == tag) = none := by
        simpa [List.find?_eq_none, Name.beq_iff] using hnew
      have hrest : ∀ arm ∈ rest, arm.1.text ∉ (tag :: earlier).map (·.text) := by
        intro arm harm hmem
        rcases List.mem_cons.1 hmem with heq | hmem
        · exact hnodup.1 (List.mem_map.2 ⟨arm, harm, heq⟩)
        · exact hothers arm harm hmem
      refine bind_eq_ok.2 ⟨tag, tag_identOf hd, ?_⟩
      rw [hfind]
      exact bind_eq_ok.2 ⟨b, hb, bind_eq_ok.2 ⟨rest, ih hnodup.2 hrest htags hbodies, rfl⟩⟩

/-- A body resolves to itself behind the resolved bindings of an open `let`. -/
theorem resolveBody_treeIn {out : List (Var × Expr) × Scope}
    (h : resolveBindings p.globals scope bindings = .ok out)
    (hbound : Bound Proper (out.2.map (·.text)) b) (hfits : b.Fits p)
    (hread : Readable (p.fns.map (·.name.text)) (out.2.map (·.text)) b) :
    resolveBody p.globals scope (b.treeIn bindings) = .ok (bindAll out.1 b) := by
  induction b generalizing scope bindings out with
  | ret x =>
      exact resolveBody_behind h (bind_eq_ok.2 ⟨x, lookup_identOf (bound_ret.1 hbound), rfl⟩)
  | bind x e b ih =>
      obtain ⟨hreads, hx, -, hbound⟩ := bound_bind.1 hbound
      obtain ⟨he, hfits⟩ := Body.fits_bind.1 hfits
      obtain ⟨htargets, hread⟩ := readable_bind.1 hread
      have hexpr : resolveExpr p.globals out.2 e.tree = .ok e :=
        resolveExpr_tree hreads (fun f hf => (htargets f hf).2) he
      rw [Body.treeIn, ih (resolveBindings_snoc h hexpr hx) hbound hfits hread, bindAll_snoc]
  | case x arms ih =>
      obtain ⟨hx, hbound⟩ := bound_case.1 hbound
      obtain ⟨htags, hfits⟩ := Body.fits_case.1 hfits
      obtain ⟨hnodup, hread⟩ := readable_case.1 hread
      have hbodies : ∀ arm ∈ arms, resolveBody p.globals out.2 (arm.2.treeIn []) = .ok arm.2 :=
        fun arm harm => ih arm harm (resolveBindings_nil _ _) (hbound arm harm) (hfits arm harm)
          (hread arm harm)
      have harms : resolveArms p.globals out.2 [] (treeArms arms) = .ok arms :=
        resolveArms_tree hnodup (fun _ _ => List.not_mem_nil) htags hbodies
      exact resolveBody_behind h
        (bind_eq_ok.2 ⟨x, lookup_identOf hx, bind_eq_ok.2 ⟨arms, harms, rfl⟩⟩)
  | inc x b ih =>
      obtain ⟨hx, hbound⟩ := bound_inc.1 hbound
      have hrest : resolveBody p.globals out.2 (b.treeIn []) = .ok b :=
        ih (resolveBindings_nil _ _) hbound (Body.fits_inc.1 hfits) (readable_inc.1 hread)
      exact resolveBody_behind h
        (bind_eq_ok.2 ⟨x, lookup_identOf hx, bind_eq_ok.2 ⟨b, hrest, rfl⟩⟩)
  | dec x b ih =>
      obtain ⟨hx, hbound⟩ := bound_dec.1 hbound
      have hrest : resolveBody p.globals out.2 (b.treeIn []) = .ok b :=
        ih (resolveBindings_nil _ _) hbound (Body.fits_dec.1 hfits) (readable_dec.1 hread)
      exact resolveBody_behind h
        (bind_eq_ok.2 ⟨x, lookup_identOf hx, bind_eq_ok.2 ⟨b, hrest, rfl⟩⟩)

/-! ## Programs -/

theorem repeated?_idents {xs : List (Name kind)} (h : (xs.map (·.text)).Nodup) :
    repeated? [] (xs.map identOf) = none :=
  repeated?_nil_eq_none.2 (by rwa [List.map_map])

/-- The types of a tree that starts with constructors. -/
theorem typesOf_tree {types earlier : List TypeDef} {ds : List FnDef}
    (htags : ((earlier ++ types).map (·.tag.text)).Nodup)
    (hfields : ∀ d ∈ types, (d.fields.map (·.text)).Nodup) :
    typesOf earlier (types.map (fun d => ⟨.none, d.item⟩) ++ ds.map fun d => ⟨.none, d.item⟩) =
      .ok (earlier ++ types) := by
  induction types generalizing earlier with
  | nil =>
      rw [List.append_nil]
      induction ds with
      | nil => rfl
      | cons d rest ih => exact ih
  | cons d others ih =>
      obtain ⟨hd, hothers⟩ := List.forall_mem_cons.1 hfields
      rw [List.append_cons] at htags ⊢
      have hfind : earlier.find? (fun d' => d'.tag.text == (identOf d.tag).val) = none := by
        rw [List.append_assoc, List.map_append, List.nodup_append] at htags
        have hnew (d') (hd' : d' ∈ earlier) : d'.tag.text ≠ d.tag.text :=
          htags.2.2 _ (List.mem_map.2 ⟨d', hd', rfl⟩) _ (.head _)
        simpa [List.find?_eq_none] using hnew
      have hdef : (⟨nameOf (identOf d.tag), (d.fields.map identOf).map nameOf⟩ : TypeDef) = d := by
        rw [names_idents, nameOf_identOf]
      rw [List.map_cons, List.cons_append, TypeDef.item, typesOf, hfind]
      dsimp only
      rw [repeated?_idents hd, hdef]
      exact ih htags hothers

theorem fnNamesOf_tree (p : Program) : fnNamesOf p.tree = p.fns.map fun d => identOf d.name := by
  simp [fnNamesOf, Program.tree, List.filterMap_map, TypeDef.item, FnDef.item]

theorem globalsOf_tree (hp : Expressible p) : globalsOf p.tree = .ok p.globals := by
  have htypes : typesOf [] p.tree = .ok p.types := typesOf_tree hp.tags hp.fields
  rw [globalsOf_eq_ok, fnNamesOf_tree]
  refine ⟨htypes, ?_, rfl⟩
  rw [List.map_map]
  exact hp.names

theorem resolveFn_item (hp : Expressible p) {d : FnDef} (hd : d ∈ p.fns) :
    resolveFn p.globals (identOf d.name) (d.params.map identOf) (d.body.treeIn []) = .ok d := by
  obtain ⟨hparams, -, hfits⟩ := checkFn_eq_ok.1 (checkFn_of_mem hp.valid hd)
  have hbody : resolveBody p.globals d.params.reverse (d.body.treeIn []) = .ok d.body :=
    resolveBody_treeIn (resolveBindings_nil _ _) (hp.fns d hd).bound hfits (hp.fns d hd).readable
  rw [resolveFn, repeated?_idents (checkParams_eq_ok.1 hparams).1]
  refine bind_eq_ok.2 ⟨d.body, ?_, ?_⟩
  · rw [names_idents]
    exact hbody
  · rw [names_idents]
    rfl

/-- The functions of a tree that starts with constructors. -/
theorem resolveFns_tree (hp : Expressible p) {types : List TypeDef} {ds : List FnDef}
    (hds : ∀ d ∈ ds, d ∈ p.fns) : resolveFns p.globals
      (types.map (fun d => ⟨.none, d.item⟩) ++ ds.map fun d => ⟨.none, d.item⟩) = .ok ds := by
  induction types with
  | nil =>
      induction ds with
      | nil => rfl
      | cons d rest ih =>
          obtain ⟨hd, hrest⟩ := List.forall_mem_cons.1 hds
          exact bind_eq_ok.2 ⟨d, resolveFn_item hp hd, bind_eq_ok.2 ⟨rest, ih hrest, rfl⟩⟩
  | cons d rest ih => exact ih

/-- The tree of a program that can be expressed resolves to the program. -/
theorem resolve_tree (hp : Expressible p) : resolve p.tree = .ok p :=
  resolve_eq_ok.2 ⟨p.globals, globalsOf_tree hp, rfl, resolveFns_tree hp fun _ hd => hd⟩

end Reclaim.Core
