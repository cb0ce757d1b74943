import Reclaim.Proofs.Occurrences
import Reclaim.Proofs.Resolution.Readable
import Reclaim.Proofs.Surface.Nodes
import Reclaim.Source.Report

/-!
# Where errors point

If a stage fails, the labels of its report are at places where names are written (`Reports`).  An error of
resolution points at names of the tree, and at names in scope, which are names of the tree as well
(`reports_resolve`).  An error of the check points at names of the program (`reports_validate`).

Both stages do one thing after the other, so what is to be shown of them goes through sequences
(`Reports.bind`) and follows their recursion.
-/

namespace Reclaim

variable {ε α β : Type} {P : Span → Prop} {diagnose : ε → Diagnostic} {d : Diagnostic} {s : Span}
  {message text : String}

/-! ## Reports -/

/-- Every label of a diagnostic is at a place with a property. -/
def Diagnostic.Points (P : Span → Prop) (d : Diagnostic) : Prop :=
  ∀ l ∈ Source.labelsOf d, P l.span

theorem points_error (hs : P s) : (Diagnostic.error message s text).Points P :=
  List.forall_mem_singleton.2 hs

theorem points_bug (hs : P s) : (Diagnostic.bug message s text).Points P :=
  List.forall_mem_singleton.2 hs

theorem Diagnostic.Points.relatedTo (h : d.Points P) (hs : P s) : (d.relatedTo s text).Points P :=
  List.forall_mem_append.2 ⟨h, List.forall_mem_singleton.2 hs⟩

/-- If a stage fails, its report points at places with a property. -/
def Reports (diagnose : ε → Diagnostic) (P : Span → Prop) (r : Except ε α) : Prop :=
  ∀ e, r = .error e → (diagnose e).Points P

theorem reports_ok {a : α} : Reports diagnose P (.ok a) := nofun

theorem reports_error {e : ε} (he : (diagnose e).Points P) :
    Reports diagnose P (.error e : Except ε α) := by
  intro e' heq
  cases heq
  exact he

/-- A test that fails is reported. -/
theorem reports_guarded {c : Prop} [Decidable c] {a : α} {e : ε} (he : (diagnose e).Points P) :
    Reports diagnose P (if c then .ok a else .error e) := by
  split
  · exact reports_ok
  · exact reports_error he

namespace Reports

theorem bind {r : Except ε α} {f : α → Except ε β} (hr : Reports diagnose P r)
    (hf : ∀ a, r = .ok a → Reports diagnose P (f a)) : Reports diagnose P (r >>= f) := by
  cases r with
  | error e => exact fun e' heq => hr e' (congrArg Except.error (Except.error.inj heq))
  | ok a => exact hf a rfl

/-- Two stages, the second of which does not depend on what the first one gives. -/
theorem andThen {r : Except ε α} {r' : Except ε β} (hr : Reports diagnose P r)
    (hr' : Reports diagnose P r') : Reports diagnose P (r >>= fun _ => r') :=
  hr.bind fun _ _ => hr'

/-- A stage with a last step that does not fail. -/
theorem map {r : Except ε α} {f : α → β} (hr : Reports diagnose P r) :
    Reports diagnose P (r >>= fun a => pure (f a)) :=
  hr.bind fun _ _ => reports_ok

theorem mapM {f : α → Except ε β} {xs : List α} (hxs : ∀ x ∈ xs, Reports diagnose P (f x)) :
    Reports diagnose P (xs.mapM f) := by
  induction xs with
  | nil => exact reports_ok
  | cons x rest ih =>
      obtain ⟨hx, hrest⟩ := List.forall_mem_cons.1 hxs
      rw [List.mapM_cons]
      exact hx.bind fun y _ => (ih hrest).map

end Reports

end Reclaim

namespace Reclaim.Core

open Reclaim.Surface (Ident Tree Node)

variable {P : Span → Prop} {g : Globals} {scope : Scope} {tree : Tree} {x y : Ident} {xs seen : List Ident}

/-! ## Resolution -/

section Names

variable (hx : P x.span)

include hx

theorem reports_tag : Reports ResolutionError.diagnostic P (g.tag x) := reports_guarded (points_error hx)

theorem reports_field : Reports ResolutionError.diagnostic P (g.field x) :=
  reports_guarded (points_error hx)

theorem reports_fn : Reports ResolutionError.diagnostic P (g.fn x) := reports_guarded (points_error hx)

theorem reports_lookup : Reports ResolutionError.diagnostic P (scope.lookup x) := by
  unfold Scope.lookup
  split
  · exact reports_ok
  · exact reports_error (points_error hx)

/-- A variable that is bound again is reported together with the place where it is bound. -/
theorem reports_bind_scope (hscope : ∀ y ∈ scope, P y.span) :
    Reports ResolutionError.diagnostic P (scope.bind x) := by
  unfold Scope.bind
  split
  · next y hy =>
      exact reports_error ((points_error hx).relatedTo (hscope y (List.mem_of_find?_eq_some hy)))
  · exact reports_ok

end Names

theorem reports_lookupAll (hxs : ∀ x ∈ xs, P x.span) :
    Reports ResolutionError.diagnostic P (scope.lookupAll xs) :=
  Reports.mapM fun x hx => reports_lookup (hxs x hx)

theorem reports_resolveConstruction (hx : P x.span) (hxs : ∀ x ∈ xs, P x.span) :
    Reports ResolutionError.diagnostic P (resolveConstruction g scope x xs) :=
  (reports_tag hx).bind fun _ _ => (reports_lookupAll hxs).map

theorem reports_resolveExpr {e : Surface.Expr} (he : ∀ x ∈ e.idents, P x.span) :
    Reports ResolutionError.diagnostic P (resolveExpr g scope e) := by
  cases e with
  | new tag xs =>
      obtain ⟨htag, hxs⟩ := List.forall_mem_cons.1 he
      exact (reports_resolveConstruction htag hxs).map
  | proj field record =>
      obtain ⟨hfield, hrecord⟩ := List.forall_mem_cons.1 he
      exact (reports_field hfield).bind fun _ _ => (reports_lookup (hrecord record (.head _))).map
  | pap f xs | app f xs =>
      obtain ⟨hf, hxs⟩ := List.forall_mem_cons.1 he
      rw [resolveExpr]
      cases scope.binder? f with
      | some y => exact (reports_lookupAll hxs).map
      | none => exact (reports_fn hf).bind fun _ _ => (reports_lookupAll hxs).map
  | reset x => exact (reports_lookup (he x (.head _))).map
  | reuse token tag xs =>
      obtain ⟨htoken, hrest⟩ := List.forall_mem_cons.1 he
      obtain ⟨htag, hxs⟩ := List.forall_mem_cons.1 hrest
      exact (reports_lookup htoken).bind fun _ _ => (reports_resolveConstruction htag hxs).map

/-- The names of a binding are at places with a property. -/
def BindsIn (P : Span → Prop) (b : Surface.Binding) : Prop :=
  P b.binder.span ∧ ∀ x ∈ b.expr.val.idents, P x.span

/-- What is in scope behind the bindings of a `let` has been in scope before, or is bound there. -/
theorem reports_resolveBindings {bs : List Surface.Binding} (hbs : ∀ b ∈ bs, BindsIn P b)
    (hscope : ∀ y ∈ scope, P y.span) :
    Reports ResolutionError.diagnostic P (resolveBindings g scope bs) ∧
      ∀ bound inner, resolveBindings g scope bs = .ok (bound, inner) → ∀ y ∈ inner, P y.span := by
  induction bs generalizing scope with
  | nil =>
      refine ⟨reports_ok, fun bound inner h => ?_⟩
      cases h
      exact hscope
  | cons b rest ih =>
      obtain ⟨⟨hbinder, hexpr⟩, hrest⟩ := List.forall_mem_cons.1 hbs
      have hinner {inner : Scope} (h : scope.bind b.binder = .ok inner) : ∀ y ∈ inner, P y.span := by
        obtain ⟨-, rfl⟩ := bind_scope_eq_ok.1 h
        exact List.forall_mem_cons.2 ⟨hbinder, hscope⟩
      rw [resolveBindings]
      refine ⟨(reports_resolveExpr hexpr).bind fun _ _ =>
        (reports_bind_scope hbinder hscope).bind fun inner h => ((ih hrest (hinner h)).1).map, ?_⟩
      intro bound last h
      obtain ⟨e, -, h⟩ := bind_eq_ok.1 h
      obtain ⟨inner, hbind, h⟩ := bind_eq_ok.1 h
      obtain ⟨⟨bound', last'⟩, hout, h⟩ := bind_eq_ok.1 h
      cases h
      exact (ih hrest (hinner hbind)).2 _ _ hout

/-- An arm for a tag that an earlier arm has is reported together with the place of that one. -/
theorem reports_resolveArms {arms : List Surface.Arm} {earlier : List Tag}
    (harms : ∀ arm ∈ arms, P arm.1.span ∧
      Reports ResolutionError.diagnostic P (resolveBody g scope arm.2.val))
    (hearlier : ∀ t ∈ earlier, P t.span) :
    Reports ResolutionError.diagnostic P (resolveArms g scope earlier arms) := by
  induction arms generalizing earlier with
  | nil => exact reports_ok
  | cons arm rest ih =>
      obtain ⟨tag, s, T⟩ := arm
      obtain ⟨⟨htag, hT⟩, hrest⟩ := List.forall_mem_cons.1 harms
      rw [resolveArms]
      refine (reports_tag htag).bind fun t ht => ?_
      obtain ⟨-, rfl⟩ := tag_eq_ok.1 ht
      split
      · next first hfirst =>
          have hmem := List.mem_of_find?_eq_some hfirst
          exact reports_error ((points_error htag).relatedTo (hearlier first hmem))
      · exact hT.bind fun b _ => (ih hrest (List.forall_mem_cons.2 ⟨htag, hearlier⟩)).map

/-- What is found again stands in the list, and what it repeats stands there or has been seen before. -/
theorem mem_of_repeated? (h : repeated? seen xs = some (x, y)) : x ∈ xs ∧ (y ∈ seen ∨ y ∈ xs) := by
  induction xs generalizing seen with
  | nil => cases h
  | cons z rest ih =>
      rw [repeated?] at h
      split at h
      · next w hw =>
          cases h
          exact ⟨.head _, .inl (List.mem_of_find?_eq_some hw)⟩
      · obtain ⟨hx, hy⟩ := ih h
        refine ⟨.tail _ hx, ?_⟩
        rcases hy with hy | hy
        · rcases List.mem_cons.1 hy with rfl | hy
          · exact .inr (.head _)
          · exact .inl hy
        · exact .inr (.tail _ hy)

theorem mem_of_repeated?_nil (h : repeated? [] xs = some (x, y)) : x ∈ xs ∧ y ∈ xs := by
  obtain ⟨hx, hy⟩ := mem_of_repeated? h
  exact ⟨hx, hy.resolve_left List.not_mem_nil⟩

section Trees

variable (hP : ∀ x, tree.Has (.name x) → P x.span)

include hP

/-- A body in a tree is resolved in a scope that is bound in the tree. -/
theorem reports_resolveBody {T : Surface.Body} (hT : ∀ n ∈ Node.ofBody T, tree.Has n)
    (hscope : ∀ y ∈ scope, P y.span) :
    Reports ResolutionError.diagnostic P (resolveBody g scope T) := by
  induction T generalizing scope with
  | ret x => exact (reports_lookup (hP x (hT _ (.head _)))).map
  | lets bindings s T ih =>
      have hbody : tree.Has (.body ⟨s, T⟩) := hT _ (List.mem_append_right _ (.head _))
      have hbindings : ∀ b ∈ bindings, BindsIn P b := by
        intro b hb
        have hpart (n : Node) (hn : n ∈ [.name b.binder, .expr b.expr]) : tree.Has n :=
          hT n (List.mem_append_left _ (List.mem_flatMap.2 ⟨b, hb, hn⟩))
        refine ⟨hP _ (hpart _ (.head _)), fun x hx => hP x ?_⟩
        exact (hpart _ (.tail _ (.head _))).child (List.mem_map_of_mem hx)
      obtain ⟨hreports, hlast⟩ := reports_resolveBindings (g := g) hbindings hscope
      refine hreports.bind fun r hr => ?_
      exact (ih (fun n hn => hbody.child hn) (hlast r.1 r.2 hr)).map
  | case x arms ih =>
      have harms : ∀ arm ∈ arms, P arm.1.span ∧
          Reports ResolutionError.diagnostic P (resolveBody g scope arm.2.val) := by
        intro arm harm
        have hpart (n : Node) (hn : n ∈ [.name arm.1, .body arm.2]) : tree.Has n :=
          hT n (.tail _ (List.mem_flatMap.2 ⟨arm, harm, hn⟩))
        refine ⟨hP _ (hpart _ (.head _)), ih arm harm (fun n hn => ?_) hscope⟩
        exact (hpart _ (.tail _ (.head _))).child hn
      refine (reports_lookup (hP x (hT _ (.head _)))).bind fun _ _ => ?_
      exact (reports_resolveArms harms (List.forall_mem_nil _)).map
  | inc x s T ih | dec x s T ih =>
      have hbody : tree.Has (.body ⟨s, T⟩) := hT _ (.tail _ (.head _))
      refine (reports_lookup (hP x (hT _ (.head _)))).bind fun _ _ => ?_
      exact (ih (fun n hn => hbody.child hn) hscope).map

/-- Types are repeated by later ones of the same tree. -/
theorem reports_typesOf {items : Tree} {earlier : List TypeDef}
    (hitems : ∀ i ∈ items, tree.Has (.item i)) (hearlier : ∀ d ∈ earlier, P d.tag.span) :
    Reports ResolutionError.diagnostic P (typesOf earlier items) := by
  induction items generalizing earlier with
  | nil => exact reports_ok
  | cons i rest ih =>
      obtain ⟨hitem, hrest⟩ := List.forall_mem_cons.1 hitems
      obtain ⟨s, item⟩ := i
      cases item with
      | fn f params b => exact ih hrest hearlier
      | type tag fields =>
          have hnames : ∀ x ∈ tag :: fields, P x.span := fun x hx =>
            hP x (hitem.child (List.mem_map_of_mem hx))
          obtain ⟨htag, hfields⟩ := List.forall_mem_cons.1 hnames
          rw [typesOf]
          split
          · next d hd =>
              have hmem := List.mem_of_find?_eq_some hd
              exact reports_error ((points_error htag).relatedTo (hearlier d hmem))
          · split
            · next field first hrepeated =>
                obtain ⟨hfield, hfirst⟩ := mem_of_repeated?_nil hrepeated
                exact reports_error ((points_error (hfields _ hfield)).relatedTo (hfields _ hfirst))
            · exact ih hrest (List.forall_mem_append.2 ⟨hearlier, List.forall_mem_singleton.2 htag⟩)

theorem reports_globalsOf : Reports ResolutionError.diagnostic P (globalsOf tree) := by
  refine (reports_typesOf hP (fun i hi => .item hi) (List.forall_mem_nil _)).bind fun types _ => ?_
  split
  · next f first hrepeated =>
      have hfns : ∀ f ∈ fnNamesOf tree, P f.span := by
        rw [fnNamesOf_eq]
        refine List.forall_mem_map.2 fun ⟨f, params, T⟩ hmem => ?_
        obtain ⟨s, s', hitem⟩ := mem_functionsOf hmem
        exact hP f ((Surface.Tree.Has.item hitem).child (.head _))
      obtain ⟨hf, hfirst⟩ := mem_of_repeated?_nil hrepeated
      exact reports_error ((points_error (hfns f hf)).relatedTo (hfns first hfirst))
  · exact reports_ok

theorem reports_resolveFn {f : Ident} {params : List Ident} {b : Surface.Spanned Surface.Body}
    {s : Span} (hitem : tree.Has (.item ⟨s, .fn f params b⟩)) :
    Reports ResolutionError.diagnostic P (resolveFn g f params b.val) := by
  have hparams : ∀ x ∈ params, P x.span := fun x hx =>
    hP x (hitem.child (List.mem_append_left _ (List.mem_map_of_mem (.tail _ hx))))
  have hbody : tree.Has (.body b) := hitem.child (List.mem_append_right _ (.head _))
  unfold resolveFn
  split
  · next param first hrepeated =>
      obtain ⟨hparam, hfirst⟩ := mem_of_repeated?_nil hrepeated
      exact reports_error ((points_error (hparams _ hparam)).relatedTo (hparams _ hfirst))
  · refine (reports_resolveBody hP (fun n hn => hbody.child hn) fun y hy => ?_).map
    obtain ⟨x, hx, rfl⟩ := List.mem_map.1 (List.mem_reverse.1 hy)
    exact hparams x hx

theorem reports_resolveFns {items : Tree} (hitems : ∀ i ∈ items, tree.Has (.item i)) :
    Reports ResolutionError.diagnostic P (resolveFns g items) := by
  induction items with
  | nil => exact reports_ok
  | cons i rest ih =>
      obtain ⟨hitem, hrest⟩ := List.forall_mem_cons.1 hitems
      obtain ⟨s, item⟩ := i
      cases item with
      | type tag fields => exact ih hrest
      | fn f params b => exact (reports_resolveFn hP hitem).bind fun _ _ => (ih hrest).map

/-- An error of resolution points at names of the tree. -/
theorem reports_resolve : Reports ResolutionError.diagnostic P (resolve tree) :=
  (reports_globalsOf hP).bind fun _ _ => (reports_resolveFns hP fun _ hi => .item hi).map

end Trees

/-! ## The check -/

section Checks

variable {p : Program} {fn target : FnName} {tag : Tag} {field : Field} {v : Var} {vs : List Var}
  {e : Expr} {b : Body} {d : FnDef} {n : Nat} {c : Construction}

theorem reports_checkVar (hv : P v.span) : Reports ValidityError.diagnostic P (checkVar fn scope v) :=
  reports_guarded (points_bug hv)

theorem reports_checkVars (hvs : ∀ v ∈ vs, P v.span) :
    Reports ValidityError.diagnostic P (checkVars fn scope vs) := by
  induction vs with
  | nil => exact reports_ok
  | cons v rest ih =>
      obtain ⟨hv, hrest⟩ := List.forall_mem_cons.1 hvs
      exact (reports_checkVar hv).andThen (ih hrest)

theorem reports_checkBinder (hv : P v.span) (hscope : ∀ y ∈ scope, P y.span) :
    Reports ValidityError.diagnostic P (checkBinder fn scope v) := by
  unfold checkBinder
  split
  · next y hy =>
      exact reports_error ((points_bug hv).relatedTo (hscope y (List.mem_of_find?_eq_some hy)))
  · exact reports_ok

theorem reports_checkParams (hvs : ∀ v ∈ vs, P v.span) (hscope : ∀ y ∈ scope, P y.span) :
    Reports ValidityError.diagnostic P (checkParams fn scope vs) := by
  induction vs generalizing scope with
  | nil => exact reports_ok
  | cons v rest ih =>
      obtain ⟨hv, hrest⟩ := List.forall_mem_cons.1 hvs
      exact (reports_checkBinder hv hscope).andThen (ih hrest (List.forall_mem_cons.2 ⟨hv, hscope⟩))

theorem reports_checkCall (htarget : P target.span) :
    Reports ValidityError.diagnostic P (p.checkCall target n) := by
  unfold Program.checkCall
  split
  · exact reports_error (points_error htarget)
  · exact reports_guarded (points_error htarget)

theorem reports_checkClosure (htarget : P target.span) :
    Reports ValidityError.diagnostic P (p.checkClosure target n) := by
  unfold Program.checkClosure
  split
  · exact reports_error (points_error htarget)
  · exact reports_guarded (points_error htarget)

theorem reports_checkField (hfield : P field.span) :
    Reports ValidityError.diagnostic P (p.checkField field) :=
  reports_guarded (points_error hfield)

theorem reports_checkTag (htag : P tag.span) : Reports ValidityError.diagnostic P (p.checkTag tag) := by
  unfold Program.checkTag
  split
  · exact reports_error (points_error htag)
  · exact reports_ok

theorem reports_checkArms {arms : List Arm} (harms : ∀ arm ∈ arms, P arm.1.span ∧
    Reports ValidityError.diagnostic P (checkBody p fn scope arm.2)) :
    Reports ValidityError.diagnostic P (checkArms p fn scope arms) := by
  induction arms with
  | nil => exact reports_ok
  | cons arm rest ih =>
      obtain ⟨tag, b⟩ := arm
      obtain ⟨⟨htag, hb⟩, hrest⟩ := List.forall_mem_cons.1 harms
      exact (reports_checkTag htag).andThen (hb.andThen (ih hrest))

section Bodies

variable (htypes : ∀ d ∈ p.types, P d.tag.span)

include htypes

/-- A record that does not fit its constructor is reported together with the place of the constructor. -/
theorem reports_checkConstruction (htag : P c.tag.span) :
    Reports ValidityError.diagnostic P (p.checkConstruction c) := by
  unfold Program.checkConstruction
  split
  · exact reports_error (points_error htag)
  · next d hd =>
      exact reports_guarded ((points_error htag).relatedTo (htypes d (Program.mem_of_type? hd)))

theorem reports_checkExpr (he : ∀ o ∈ e.names, P o.span) :
    Reports ValidityError.diagnostic P (checkExpr p fn scope e) := by
  cases e with
  | call f xs =>
      obtain ⟨hf, hxs⟩ := List.forall_mem_cons.1 he
      exact (reports_checkCall hf).andThen (reports_checkVars (forall_occurrencesOf.1 hxs))
  | close f xs =>
      obtain ⟨hf, hxs⟩ := List.forall_mem_cons.1 he
      exact (reports_checkClosure hf).andThen (reports_checkVars (forall_occurrencesOf.1 hxs))
  | apply x xs | extend x xs =>
      obtain ⟨hx, hxs⟩ := List.forall_mem_cons.1 he
      exact (reports_checkVar hx).andThen (reports_checkVars (forall_occurrencesOf.1 hxs))
  | new c =>
      obtain ⟨htag, hxs⟩ := List.forall_mem_cons.1 he
      exact (reports_checkConstruction htypes htag).andThen
        (reports_checkVars (forall_occurrencesOf.1 hxs))
  | proj f x =>
      obtain ⟨hf, hx⟩ := List.forall_mem_cons.1 he
      exact (reports_checkField hf).andThen (reports_checkVar (hx _ (.head _)))
  | reset x => exact reports_checkVar (he _ (.head _))
  | reuse w c =>
      obtain ⟨hw, hrest⟩ := List.forall_mem_cons.1 he
      obtain ⟨htag, hxs⟩ := List.forall_mem_cons.1 hrest
      exact (reports_checkVar hw).andThen
        ((reports_checkConstruction htypes htag).andThen (reports_checkVars (forall_occurrencesOf.1 hxs)))

theorem reports_checkBody (hb : ∀ o ∈ b.names, P o.span) (hscope : ∀ y ∈ scope, P y.span) :
    Reports ValidityError.diagnostic P (checkBody p fn scope b) := by
  induction b generalizing scope with
  | ret x => exact reports_checkVar (hb _ (.head _))
  | bind x e b ih =>
      obtain ⟨hx, he, hb⟩ := Body.forall_names_bind.1 hb
      rw [span_binder] at hx
      rw [checkBody]
      exact (reports_checkExpr htypes he).andThen ((reports_checkBinder hx hscope).andThen
        (ih hb (List.forall_mem_cons.2 ⟨hx, hscope⟩)))
  | case x arms ih =>
      obtain ⟨hx, harms⟩ := Body.forall_names_case.1 hb
      have hall : ∀ arm ∈ arms, P arm.1.span ∧
          Reports ValidityError.diagnostic P (checkBody p fn scope arm.2) := by
        intro arm harm
        obtain ⟨htag, hnames⟩ := harms arm harm
        exact ⟨htag, ih arm harm hnames hscope⟩
      exact (reports_checkVar hx).andThen (reports_checkArms hall)
  | inc x b ih =>
      obtain ⟨hx, hb⟩ := Body.forall_names_inc.1 hb
      exact (reports_checkVar hx).andThen (ih hb hscope)
  | dec x b ih =>
      obtain ⟨hx, hb⟩ := Body.forall_names_dec.1 hb
      exact (reports_checkVar hx).andThen (ih hb hscope)

theorem reports_checkFn (hd : ∀ o ∈ d.names, P o.span) :
    Reports ValidityError.diagnostic P (checkFn p d) := by
  obtain ⟨-, hparams, hbody⟩ := FnDef.forall_names.1 hd
  refine (reports_checkParams hparams (List.forall_mem_nil _)).andThen ?_
  refine reports_checkBody htypes hbody fun y hy => ?_
  exact hparams y (List.mem_reverse.1 hy)

end Bodies

/-- An error of the check points at names of the program. -/
theorem reports_validate (hp : ∀ o ∈ p.names, P o.span) :
    Reports ValidityError.diagnostic P p.validate := by
  obtain ⟨htypes, hfns⟩ := Program.forall_names.1 hp
  have htags : ∀ d ∈ p.types, P d.tag.span := fun d hd => (TypeDef.forall_names.1 (htypes d hd)).1
  unfold Program.validate
  generalize p.fns = ds at hfns
  induction ds with
  | nil => exact reports_ok
  | cons d rest ih =>
      obtain ⟨hd, hrest⟩ := List.forall_mem_cons.1 hfns
      exact (reports_checkFn htags hd).andThen (ih hrest)

end Checks

end Reclaim.Core
