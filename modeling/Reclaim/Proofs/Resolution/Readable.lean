import Reclaim.Proofs.Resolution.Items
import Reclaim.Proofs.Surface.Reprinting
import Reclaim.Proofs.Validity

/-!
# Programs that a text can express

Not every program can be written down.  The syntax has one form for calls and applications, and one for
closures and their extensions, so a function cannot be named where a variable of the same spelling is
in scope (`Readable`).  Nor can a name be spelled like a keyword, a type or function be defined twice,
or a case have two arms for a tag.  What is loaded from a text meets all of this
(`expressible_of_load`).
-/

namespace Reclaim.Core

open Reclaim.Surface (Ident Tree Item Proper Named)

variable {kind : NameKind} {g : Globals} {scope : Scope} {F S S' : List String} {b : Body}

/-- The functions that an expression names. -/
def Expr.targets : Expr → List FnName
  | .call f _ | .close f _ => [f]
  | .apply .. | .extend .. | .new _ | .proj .. | .reset _ | .reuse .. => []

/-- A body names functions in `F`, and none that a variable in scope hides.  Its cases have arms for
different tags. -/
inductive Readable (F : List String) : List String → Body → Prop where
  | ret {S : List String} {x : Var} : Readable F S (.ret x)
  | bind {S : List String} {x : Var} {e : Expr} {b : Body} :
      (∀ f ∈ e.targets, f.text ∈ F ∧ f.text ∉ S) → Readable F (x.text :: S) b →
      Readable F S (.bind x e b)
  | case {S : List String} {x : Var} {arms : List Arm} : (arms.map (·.1.text)).Nodup →
      (∀ arm ∈ arms, Readable F S arm.2) → Readable F S (.case x arms)
  | inc {S : List String} {x : Var} {b : Body} : Readable F S b → Readable F S (.inc x b)
  | dec {S : List String} {x : Var} {b : Body} : Readable F S b → Readable F S (.dec x b)

theorem readable_bind {x : Var} {e : Expr} : Readable F S (.bind x e b) ↔
    (∀ f ∈ e.targets, f.text ∈ F ∧ f.text ∉ S) ∧ Readable F (x.text :: S) b :=
  ⟨fun (.bind htargets h) => ⟨htargets, h⟩, fun ⟨htargets, h⟩ => .bind htargets h⟩

theorem readable_case {x : Var} {arms : List Arm} : Readable F S (.case x arms) ↔
    (arms.map (·.1.text)).Nodup ∧ ∀ arm ∈ arms, Readable F S arm.2 :=
  ⟨fun (.case hnodup h) => ⟨hnodup, h⟩, fun ⟨hnodup, h⟩ => .case hnodup h⟩

theorem readable_inc {x : Var} : Readable F S (.inc x b) ↔ Readable F S b :=
  ⟨fun (.inc h) => h, .inc⟩

theorem readable_dec {x : Var} : Readable F S (.dec x b) ↔ Readable F S b :=
  ⟨fun (.dec h) => h, .dec⟩

/-- More variables may be in scope, if they hide no function. -/
theorem Readable.widen (h : Readable F S b) (hnew : ∀ t ∈ F, t ∉ S → t ∉ S') :
    Readable F S' b := by
  induction h generalizing S' with
  | ret => exact .ret
  | bind htargets _ ih =>
      refine .bind (fun f hf => ⟨(htargets f hf).1, ?_⟩) (ih fun t ht hS => ?_)
      · exact hnew _ (htargets f hf).1 (htargets f hf).2
      · rw [List.mem_cons, not_or] at hS ⊢
        exact ⟨hS.1, hnew t ht hS.2⟩
  | case hnodup _ ih => exact .case hnodup fun arm harm => ih arm harm hnew
  | inc _ ih => exact .inc (ih hnew)
  | dec _ ih => exact .dec (ih hnew)

/-- The names of a constructor are words. -/
structure TypeDef.Proper (d : TypeDef) : Prop where
  /-- Its tag. -/
  tag : Surface.Proper d.tag.text
  /-- Its fields. -/
  fields : ∀ f ∈ d.fields, Surface.Proper f.text

/-- A function can be read back: its names are words, and functions are named in its body where no
variable hides them. -/
structure FnDef.Proper (F : List String) (d : FnDef) : Prop where
  /-- Its name is a word. -/
  name : Surface.Proper d.name.text
  /-- Its parameters are words. -/
  params : ∀ x ∈ d.params, Surface.Proper x.text
  /-- The variables of its body are words. -/
  bound : Bound Surface.Proper (d.params.reverse.map (·.text)) d.body
  /-- Its body names functions that are not hidden. -/
  readable : Readable F (d.params.reverse.map (·.text)) d.body

/-- A program that a text can express. -/
structure Expressible (p : Program) : Prop extends WellFormed p where
  /-- No tag is defined twice. -/
  tags : (p.types.map (·.tag.text)).Nodup
  /-- No function is defined twice. -/
  names : (p.fns.map (·.name.text)).Nodup
  /-- The constructors can be written. -/
  types : ∀ d ∈ p.types, d.Proper
  /-- The functions can be written. -/
  fns : ∀ d ∈ p.fns, d.Proper (p.fns.map (·.name.text))

/-! ## Single names -/

theorem guarded_eq_ok {ε α : Type} {ok : Bool} {x y : α} {e : ε} :
    (if ok then Except.ok x else .error e) = .ok y ↔ ok = true ∧ y = x := by
  cases ok <;> simp [eq_comm]

theorem tag_eq_ok {x : Ident} {tag : Tag} :
    g.tag x = .ok tag ↔ x.val ∈ g.types.map (·.tag.text) ∧ tag = nameOf x := by
  rw [Globals.tag, guarded_eq_ok]
  simp

theorem field_eq_ok {x : Ident} {field : Field} : g.field x = .ok field ↔
    (∃ d ∈ g.types, x.val ∈ d.fields.map (·.text)) ∧ field = nameOf x := by
  rw [Globals.field, guarded_eq_ok]
  simp

theorem fn_eq_ok {x : Ident} {f : FnName} :
    g.fn x = .ok f ↔ x.val ∈ g.fns.map (·.val) ∧ f = nameOf x := by
  rw [Globals.fn, guarded_eq_ok]
  simp

theorem binder?_eq_none {x : Ident} :
    scope.binder? x = none ↔ x.val ∉ scope.map (·.text) := by
  simp [Scope.binder?, List.find?_eq_none]

theorem binder?_eq_some {x : Ident} :
    (∃ y, scope.binder? x = some y) ↔ x.val ∈ scope.map (·.text) := by
  rw [← not_iff_not, ← binder?_eq_none]
  simp [Option.eq_none_iff_forall_ne_some]

theorem lookup_eq_ok {x : Ident} {y : Var} :
    scope.lookup x = .ok y ↔ x.val ∈ scope.map (·.text) ∧ y = nameOf x := by
  rw [Scope.lookup, ← binder?_eq_some]
  cases scope.binder? x <;> simp [eq_comm]

theorem lookupAll_eq_ok {xs : List Ident} {ys : List Var} : scope.lookupAll xs = .ok ys ↔
    (∀ x ∈ xs, x.val ∈ scope.map (·.text)) ∧ ys = xs.map nameOf := by
  rw [Scope.lookupAll, mapM_eq_ok]
  simp only [lookup_eq_ok, List.forall₂_and_left]
  refine and_congr_right fun _ => ?_
  rw [eq_comm, ← List.forall₂_eq_eq_eq, List.forall₂_map_left_iff]
  simp only [eq_comm]

theorem bind_scope_eq_ok {x : Ident} {inner : Scope} : scope.bind x = .ok inner ↔
    x.val ∉ scope.map (·.text) ∧ inner = nameOf x :: scope := by
  rw [Scope.bind, ← binder?_eq_none]
  cases scope.binder? x <;> simp [eq_comm]

theorem resolveConstruction_eq_ok {tag : Ident} {fields : List Ident} {c : Construction} :
    resolveConstruction g scope tag fields = .ok c ↔ tag.val ∈ g.types.map (·.tag.text) ∧
      (∀ x ∈ fields, x.val ∈ scope.map (·.text)) ∧ c = ⟨nameOf tag, fields.map nameOf⟩ := by
  simp only [resolveConstruction, bind_eq_ok, pure_eq_ok, tag_eq_ok, lookupAll_eq_ok]
  constructor
  · rintro ⟨_, ⟨htag, rfl⟩, _, ⟨hfields, rfl⟩, rfl⟩
    exact ⟨htag, hfields, rfl⟩
  · rintro ⟨htag, hfields, rfl⟩
    exact ⟨_, ⟨htag, rfl⟩, _, ⟨hfields, rfl⟩, rfl⟩

/-! ## Bodies -/

theorem texts_names {xs : List Ident} : (xs.map (@nameOf kind)).map (·.text) = xs.map (·.val) := by
  rw [List.map_map]
  rfl

theorem mem_texts_names {xs : List Ident} (hxs : ∀ x ∈ xs, x.val ∈ S) {t : String}
    (ht : t ∈ (OrderedSet.ofList (xs.map (@nameOf kind))).texts) : t ∈ S := by
  rw [OrderedSet.mem_texts_ofList, texts_names] at ht
  exact List.forall_mem_map.2 hxs t ht

theorem mem_texts_head {f : Ident} {xs : List Ident} (hf : f.val ∈ S) (hxs : ∀ x ∈ xs, x.val ∈ S)
    {t : String}
    (ht : t ∈ ((OrderedSet.singleton (nameOf f)).union (.ofList (xs.map (@nameOf kind)))).texts) :
    t ∈ S := by
  rw [OrderedSet.mem_texts_union, OrderedSet.mem_texts_singleton] at ht
  exact ht.elim (· ▸ hf) (mem_texts_names hxs)

/-- The variables of a resolved expression are in scope, and no variable hides its function. -/
theorem readable_of_resolveExpr {e : Surface.Expr} {e' : Expr}
    (h : resolveExpr g scope e = .ok e') :
    (∀ t ∈ e'.freeVars.texts, t ∈ scope.map (·.text)) ∧
      ∀ f ∈ e'.targets, f.text ∈ g.fns.map (·.val) ∧ f.text ∉ scope.map (·.text) := by
  cases e with
  | new tag fields =>
      simp only [resolveExpr, bind_eq_ok, pure_eq_ok, resolveConstruction_eq_ok] at h
      obtain ⟨_, ⟨-, hfields, rfl⟩, rfl⟩ := h
      exact ⟨fun t => mem_texts_names hfields, nofun⟩
  | proj field record =>
      simp only [resolveExpr, bind_eq_ok, pure_eq_ok, lookup_eq_ok] at h
      obtain ⟨_, -, _, ⟨hrecord, rfl⟩, rfl⟩ := h
      exact ⟨fun t ht => OrderedSet.mem_texts_singleton.1 ht ▸ hrecord, nofun⟩
  | pap target args | app target args =>
      rw [resolveExpr] at h
      cases hb : scope.binder? target with
      | some y =>
          simp only [hb, bind_eq_ok, pure_eq_ok, lookupAll_eq_ok] at h
          obtain ⟨_, ⟨hargs, rfl⟩, rfl⟩ := h
          exact ⟨fun t => mem_texts_head (binder?_eq_some.1 ⟨y, hb⟩) hargs, nofun⟩
      | none =>
          simp only [hb, bind_eq_ok, pure_eq_ok, fn_eq_ok, lookupAll_eq_ok] at h
          obtain ⟨_, ⟨htarget, rfl⟩, _, ⟨hargs, rfl⟩, rfl⟩ := h
          exact ⟨fun t => mem_texts_names hargs,
            List.forall_mem_singleton.2 ⟨htarget, binder?_eq_none.1 hb⟩⟩
  | reset x =>
      simp only [resolveExpr, bind_eq_ok, pure_eq_ok, lookup_eq_ok] at h
      obtain ⟨_, ⟨hx, rfl⟩, rfl⟩ := h
      exact ⟨fun t ht => OrderedSet.mem_texts_singleton.1 ht ▸ hx, nofun⟩
  | reuse token tag fields =>
      simp only [resolveExpr, bind_eq_ok, pure_eq_ok, lookup_eq_ok, resolveConstruction_eq_ok] at h
      obtain ⟨_, ⟨htoken, rfl⟩, _, ⟨-, hfields, rfl⟩, rfl⟩ := h
      exact ⟨fun t => mem_texts_head htoken hfields, nofun⟩

theorem resolveBody_lets_nil {s : Span} {T : Surface.Body} :
    resolveBody g scope (.lets [] ⟨s, T⟩) = resolveBody g scope T := by
  change resolveBody g scope T >>= pure = _
  cases resolveBody g scope T <;> rfl

theorem resolveBody_lets_cons {x : Surface.Binding} {rest : List Surface.Binding} {s : Span}
    {T : Surface.Body} :
    resolveBody g scope (.lets (x :: rest) ⟨s, T⟩) = .ok b ↔
      ∃ e, resolveExpr g scope x.expr.val = .ok e ∧ x.binder.val ∉ scope.map (·.text) ∧
        ∃ c, resolveBody g (nameOf x.binder :: scope) (.lets rest ⟨s, T⟩) = .ok c ∧
          b = .bind (nameOf x.binder) e c := by
  simp only [resolveBody, resolveBindings, bind_eq_ok, pure_eq_ok, bind_scope_eq_ok]
  constructor
  · rintro ⟨_, ⟨e, he, _, ⟨hnew, rfl⟩, out, hout, rfl⟩, c, hc, rfl⟩
    exact ⟨e, he, hnew, _, ⟨out, hout, c, hc, rfl⟩, rfl⟩
  · rintro ⟨e, he, hnew, _, ⟨out, hout, c, hc, rfl⟩, rfl⟩
    exact ⟨_, ⟨e, he, _, ⟨hnew, rfl⟩, out, hout, rfl⟩, c, hc, rfl⟩

theorem resolveArms_cons {earlier : List Tag} {rest : List Surface.Arm} {out : List Arm} {x : Ident}
    {s : Span} {T : Surface.Body} :
    resolveArms g scope earlier ((x, ⟨s, T⟩) :: rest) = .ok out ↔
      (x.val ∈ g.types.map (·.tag.text) ∧ x.val ∉ earlier.map (·.text)) ∧
      ∃ b, resolveBody g scope T = .ok b ∧
        ∃ others, resolveArms g scope (nameOf x :: earlier) rest = .ok others ∧
          out = (nameOf x, b) :: others := by
  have hfind : earlier.find? (· == (nameOf x : Tag)) = none ↔ x.val ∉ earlier.map (·.text) := by
    simp [List.find?_eq_none, Name.beq_iff, nameOf]
  rw [← hfind]
  simp only [resolveArms, bind_eq_ok, tag_eq_ok]
  constructor
  · rintro ⟨_, ⟨htag, rfl⟩, h⟩
    split at h
    · cases h
    · next hnew =>
        simp only [bind_eq_ok, pure_eq_ok] at h
        exact ⟨⟨htag, hnew⟩, h⟩
  · rintro ⟨⟨htag, hnew⟩, h⟩
    refine ⟨_, ⟨htag, rfl⟩, ?_⟩
    rw [hnew]
    simpa only [bind_eq_ok, pure_eq_ok] using h

/-- The arms of a case have different tags, and each has been resolved in the scope of the case. -/
theorem arms_of_resolveArms {earlier : List Tag} {arms : List Surface.Arm} {out : List Arm}
    (h : resolveArms g scope earlier arms = .ok out) :
    (out.map (·.1.text)).Nodup ∧ (∀ arm ∈ out, arm.1.text ∉ earlier.map (·.text)) ∧
      ∀ arm ∈ out, ∃ x ∈ arms, resolveBody g scope x.2.val = .ok arm.2 := by
  induction arms generalizing earlier out with
  | nil =>
      cases h
      exact ⟨.nil, nofun, nofun⟩
  | cons arm rest ih =>
      obtain ⟨x, s, b⟩ := arm
      obtain ⟨⟨-, htag⟩, b', hb, others, hothers, rfl⟩ := resolveArms_cons.1 h
      obtain ⟨hnodup, hnew, hout⟩ := ih hothers
      simp only [List.map_cons, List.mem_cons, not_or] at hnew
      refine ⟨List.nodup_cons.2 ⟨fun hmem => ?_, hnodup⟩, ?_, ?_⟩
      · obtain ⟨arm, harm, heq⟩ := List.mem_map.1 hmem
        exact (hnew arm harm).1 heq
      · exact List.forall_mem_cons.2 ⟨htag, fun arm harm => (hnew arm harm).2⟩
      · refine List.forall_mem_cons.2 ⟨⟨_, .head _, hb⟩, fun arm harm => ?_⟩
        obtain ⟨y, hy, hbody⟩ := hout arm harm
        exact ⟨y, .tail _ hy, hbody⟩

theorem proper_binder {x : Surface.Binding} (h : Named x.shapes) : Proper x.binder.val :=
  (Surface.named_name.1 h).1

/-- A resolved body can be read back. -/
theorem readable_of_resolveBody {T : Surface.Body} (h : resolveBody g scope T = .ok b)
    (hN : Named T.shapes) : Bound Proper (scope.map (·.text)) b ∧
      Readable (g.fns.map (·.val)) (scope.map (·.text)) b := by
  induction T generalizing scope b with
  | ret x =>
      simp only [resolveBody, bind_eq_ok, pure_eq_ok, lookup_eq_ok] at h
      obtain ⟨_, ⟨hx, rfl⟩, rfl⟩ := h
      exact ⟨.ret hx, .ret⟩
  | lets bindings s T ih =>
      simp only [Surface.Body.shapes, Surface.named_append, Surface.named_flatMap] at hN
      obtain ⟨⟨⟨⟨-, hbindings⟩, -⟩, hT⟩, -⟩ := hN
      induction bindings generalizing scope b with
      | nil => exact ih (resolveBody_lets_nil ▸ h) hT
      | cons x rest hrest =>
          obtain ⟨e, he, hnew, c, hc, rfl⟩ := resolveBody_lets_cons.1 h
          obtain ⟨hx, hbindings⟩ := List.forall_mem_cons.1 hbindings
          obtain ⟨hreads, htargets⟩ := readable_of_resolveExpr he
          obtain ⟨hbound, hread⟩ := hrest hc hbindings
          exact ⟨.bind hreads hnew (proper_binder hx) hbound, .bind htargets hread⟩
  | case x arms ih =>
      simp only [resolveBody, bind_eq_ok, pure_eq_ok, lookup_eq_ok] at h
      obtain ⟨_, ⟨hx, rfl⟩, out, hout, rfl⟩ := h
      simp only [Surface.Body.shapes, Surface.named_append, Surface.shapesArms_eq,
        Surface.named_flatMap, Surface.named_name] at hN
      obtain ⟨⟨-, harms⟩, -⟩ := hN
      obtain ⟨hnodup, -, hout⟩ := arms_of_resolveArms hout
      have hparts : ∀ arm ∈ out, Bound Proper (scope.map (·.text)) arm.2 ∧
          Readable (g.fns.map (·.val)) (scope.map (·.text)) arm.2 := by
        intro arm harm
        obtain ⟨y, hy, hbody⟩ := hout arm harm
        exact ih y hy hbody (harms y hy).2
      exact ⟨.case hx fun arm harm => (hparts arm harm).1,
        .case hnodup fun arm harm => (hparts arm harm).2⟩
  | inc x s T ih =>
      simp only [resolveBody, bind_eq_ok, pure_eq_ok, lookup_eq_ok] at h
      obtain ⟨_, ⟨hx, rfl⟩, b', hb, rfl⟩ := h
      simp only [Surface.Body.shapes, Surface.named_append] at hN
      obtain ⟨hbound, hread⟩ := ih hb hN.1.2
      exact ⟨.inc hx hbound, .inc hread⟩
  | dec x s T ih =>
      simp only [resolveBody, bind_eq_ok, pure_eq_ok, lookup_eq_ok] at h
      obtain ⟨_, ⟨hx, rfl⟩, b', hb, rfl⟩ := h
      simp only [Surface.Body.shapes, Surface.named_append] at hN
      obtain ⟨hbound, hread⟩ := ih hb hN.1.2
      exact ⟨.dec hx hbound, .dec hread⟩

/-! ## Programs -/

/-- The types of a tree have different tags. -/
theorem nodup_tags_of_typesOf {tree : Tree} {types : List TypeDef}
    (h : typesOf [] tree = .ok types) : (types.map (·.tag.text)).Nodup := by
  obtain ⟨htags, -, rfl⟩ := typesOf_eq_ok.1 h
  rw [List.nil_append, List.map_map]
  exact htags

/-- The names of the types of a tree are words, if the names of the tree are. -/
theorem proper_of_typesOf {tree : Tree} {types : List TypeDef} (h : typesOf [] tree = .ok types)
    (hN : ∀ item ∈ tree, Named item.val.shapes) : ∀ d ∈ types, d.Proper := by
  obtain ⟨-, -, rfl⟩ := typesOf_eq_ok.1 h
  refine List.forall_mem_map.2 fun ⟨tag, fields⟩ hdecl => ?_
  obtain ⟨s, hmem⟩ := mem_declarationsOf.1 hdecl
  have hitem := hN _ hmem
  simp only [Item.shapes, Surface.named_append, Surface.named_mark, Surface.named_name,
    Surface.named_namesOf] at hitem
  obtain ⟨⟨⟨htag, -⟩, hfields⟩, -⟩ := hitem
  exact ⟨htag, List.forall_mem_map.2 hfields⟩

/-- The functions of a tree, in their order, can be read back. -/
theorem proper_of_resolveFns {tree : Tree} {fns : List FnDef} (h : resolveFns g tree = .ok fns)
    (hN : ∀ item ∈ tree, Named item.val.shapes) :
    fns.map (·.name.text) = (fnNamesOf tree).map (·.val) ∧
      ∀ d ∈ fns, d.Proper (g.fns.map (·.val)) := by
  have hfns := resolveFns_eq_ok.1 h
  refine ⟨?_, fun d hd => ?_⟩
  · rw [names_of_resolves hfns, fnNamesOf_eq, List.map_map]
    rfl
  · obtain ⟨⟨name, params, T⟩, hitem, hd⟩ := exists_resolves hfns hd
    obtain ⟨s, s', hmem⟩ := mem_functionsOf hitem
    have hnamed := hN _ hmem
    simp only [Item.shapes, Surface.named_append, Surface.named_mark, Surface.named_name,
      Surface.named_namesOf] at hnamed
    obtain ⟨⟨⟨⟨⟨hname, -⟩, hparams⟩, -⟩, hbody⟩, -⟩ := hnamed
    obtain ⟨-, b, hb, rfl⟩ := resolves_iff.1 hd
    obtain ⟨hbound, hread⟩ := readable_of_resolveBody hb hbody
    exact ⟨hname, List.forall_mem_map.2 hparams, hbound, hread⟩

/-- A loaded program can be expressed. -/
theorem expressible_of_load {source : String} {p : Program} (h : load source = .ok p) :
    Expressible p := by
  obtain ⟨tree, hparse, hresolve, -⟩ := load_eq_ok.1 h
  obtain ⟨g, hg, htypes, hfns⟩ := resolve_eq_ok.1 hresolve
  obtain ⟨htypesOf, hnodup, hgfns⟩ := globalsOf_eq_ok.1 hg
  have hN := Surface.named_flatMap.1 (Surface.named_of_parse hparse)
  obtain ⟨hnames, hproper⟩ := proper_of_resolveFns hfns hN
  have hgnames : g.fns.map (·.val) = p.fns.map (·.name.text) := by rw [hgfns, hnames]
  rw [htypes] at htypesOf
  exact ⟨wellFormed_of_load h, nodup_tags_of_typesOf htypesOf, hnames ▸ hnodup,
    proper_of_typesOf htypesOf hN, hgnames ▸ hproper⟩

end Reclaim.Core
