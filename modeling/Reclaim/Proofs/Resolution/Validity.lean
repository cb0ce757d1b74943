import Reclaim.Proofs.Resolution.Readable

/-!
# What is left to check after resolution

Resolution and the check of programs each keep a scope of their own.  A body that has been resolved in
a scope is checked in the same one, so its variables are bound where they are read and bound once on a
path, and what it names is defined.  The check can then find nothing wrong but a number of arguments or
of fields (`validate_of_resolve`), and loading never reports a bug (`load_never_reports_bug`).
-/

namespace Reclaim.Core

open Reclaim.Surface (Ident Tree)

variable {g : Globals} {scope : Scope} {p : Program} {fn : FnName} {x : Ident} {xs : List Ident}
  {y : Var} {ys : List Var} {tree : Tree} {b : Body}

/-! ## Faults of arity -/

/-- The faults of a wrong number of arguments or fields. -/
def ValidityError.OfArity : ValidityError → Prop
  | .arity .. | .saturated .. | .fieldCount .. => True
  | _ => False

theorem ValidityError.OfArity.message {e : ValidityError} (he : e.OfArity) :
    e.diagnostic.message = "arity mismatch" := by
  cases e with
  | arity | saturated | fieldCount => rfl
  | _ => cases he

theorem ValidityError.OfArity.severity {e : ValidityError} (he : e.OfArity) :
    e.diagnostic.severity = .error := by
  cases e with
  | arity | saturated | fieldCount => rfl
  | _ => cases he

/-- A check finds nothing wrong but a number of arguments or fields. -/
def ArityOnly (c : Checked) : Prop := ∀ ⦃e⦄, c = .error e → e.OfArity

namespace ArityOnly

variable {c d : Checked}

theorem of_ok (hc : c = .ok ()) : ArityOnly c := by
  intro e he
  rw [hc] at he
  cases he

theorem ite {P : Prop} [Decidable P] {e : ValidityError} (he : e.OfArity) :
    ArityOnly (if P then .ok () else .error e) := by
  intro e' he'
  split at he'
  · cases he'
  · cases he'
    exact he

theorem both (hc : ArityOnly c) (hd : ArityOnly d) : ArityOnly (c >>= fun _ => d) := by
  intro e he
  cases c with
  | error e' =>
      cases he
      exact hc rfl
  | ok a => exact hd he

end ArityOnly

/-! ## Names -/

/-- What resolution knows is what a program defines. -/
structure Globals.Describes (g : Globals) (p : Program) : Prop where
  /-- The types. -/
  types : g.types = p.types
  /-- The names of functions. -/
  fns : g.fns.map (·.val) = p.fns.map (·.name.text)

section

variable (hg : g.Describes p)

include hg

theorem exists_fn?_of_fn {f : FnName} (hf : g.fn x = .ok f) : ∃ d, p.fn? f = some d := by
  obtain ⟨hx, rfl⟩ := fn_eq_ok.1 hf
  exact Program.exists_fn?_iff.2 (hg.fns ▸ hx)

theorem exists_type?_of_tag {tag : Tag} (htag : g.tag x = .ok tag) : ∃ d, p.type? tag = some d := by
  obtain ⟨hx, rfl⟩ := tag_eq_ok.1 htag
  exact Program.exists_type?_iff.2 (hg.types ▸ hx)

theorem checkCall_of_fn {f : FnName} (hf : g.fn x = .ok f) (n : Nat) :
    ArityOnly (p.checkCall f n) := by
  obtain ⟨d, hd⟩ := exists_fn?_of_fn hg hf
  rw [Program.checkCall, hd]
  exact .ite trivial

theorem checkClosure_of_fn {f : FnName} (hf : g.fn x = .ok f) (n : Nat) :
    ArityOnly (p.checkClosure f n) := by
  obtain ⟨d, hd⟩ := exists_fn?_of_fn hg hf
  rw [Program.checkClosure, hd]
  exact .ite trivial

theorem checkConstruction_of_tag {c : Construction} (htag : g.tag x = .ok c.tag) :
    ArityOnly (p.checkConstruction c) := by
  obtain ⟨d, hd⟩ := exists_type?_of_tag hg htag
  rw [Program.checkConstruction, hd]
  exact .ite trivial

theorem checkField_of_field {field : Field} (hfield : g.field x = .ok field) :
    p.checkField field = .ok () := by
  obtain ⟨hx, rfl⟩ := field_eq_ok.1 hfield
  exact checkField_eq_ok.2 (Program.declaresField_iff.2 (hg.types ▸ hx))

theorem checkTag_of_tag {tag : Tag} (htag : g.tag x = .ok tag) : p.checkTag tag = .ok () :=
  checkTag_eq_ok.2 (exists_type?_of_tag hg htag)

end

/-! ## Variables -/

theorem checkVar_of_lookup (hx : scope.lookup x = .ok y) : checkVar fn scope y = .ok () := by
  obtain ⟨hmem, rfl⟩ := lookup_eq_ok.1 hx
  exact checkVar_eq_ok.2 hmem

theorem checkVars_of_lookupAll (hxs : scope.lookupAll xs = .ok ys) :
    checkVars fn scope ys = .ok () := by
  obtain ⟨hmem, rfl⟩ := lookupAll_eq_ok.1 hxs
  exact checkVars_eq_ok.2 (List.forall_mem_map.2 hmem)

theorem checkVar_of_binder? (hx : scope.binder? x = some y) :
    checkVar fn scope (nameOf x) = .ok () :=
  checkVar_eq_ok.2 (binder?_eq_some.1 ⟨y, hx⟩)

/-! ## Bodies -/

section

variable (hg : g.Describes p)

include hg

theorem checkConstruction_of_resolve (fn : FnName) {tag : Ident} {c : Construction}
    (h : resolveConstruction g scope tag xs = .ok c) :
    ArityOnly (p.checkConstruction c) ∧ checkVars fn scope c.fields = .ok () := by
  obtain ⟨tag', htag, h⟩ := bind_eq_ok.1 h
  obtain ⟨fields, hfields, h⟩ := bind_eq_ok.1 h
  cases h
  exact ⟨checkConstruction_of_tag hg htag, checkVars_of_lookupAll hfields⟩

/-- In its scope, a resolved expression can only have the wrong number of arguments or fields. -/
theorem checkExpr_of_resolve {e : Surface.Expr} {e' : Expr} (h : resolveExpr g scope e = .ok e') :
    ArityOnly (checkExpr p fn scope e') := by
  cases e with
  | new tag fields =>
      obtain ⟨c, hc, h⟩ := bind_eq_ok.1 h
      cases h
      obtain ⟨hcount, hvars⟩ := checkConstruction_of_resolve hg fn hc
      exact hcount.both (.of_ok hvars)
  | proj field record =>
      obtain ⟨field', hfield, h⟩ := bind_eq_ok.1 h
      obtain ⟨record', hrecord, h⟩ := bind_eq_ok.1 h
      cases h
      exact .both (.of_ok (checkField_of_field hg hfield)) (.of_ok (checkVar_of_lookup hrecord))
  | pap target args =>
      rw [resolveExpr] at h
      cases hlocal : scope.binder? target with
      | some y =>
          rw [hlocal] at h
          obtain ⟨args', hargs, h⟩ := bind_eq_ok.1 h
          cases h
          exact .both (.of_ok (checkVar_of_binder? hlocal)) (.of_ok (checkVars_of_lookupAll hargs))
      | none =>
          rw [hlocal] at h
          obtain ⟨f, hf, h⟩ := bind_eq_ok.1 h
          obtain ⟨args', hargs, h⟩ := bind_eq_ok.1 h
          cases h
          exact (checkClosure_of_fn hg hf _).both (.of_ok (checkVars_of_lookupAll hargs))
  | app target args =>
      rw [resolveExpr] at h
      cases hlocal : scope.binder? target with
      | some y =>
          rw [hlocal] at h
          obtain ⟨args', hargs, h⟩ := bind_eq_ok.1 h
          cases h
          exact .both (.of_ok (checkVar_of_binder? hlocal)) (.of_ok (checkVars_of_lookupAll hargs))
      | none =>
          rw [hlocal] at h
          obtain ⟨f, hf, h⟩ := bind_eq_ok.1 h
          obtain ⟨args', hargs, h⟩ := bind_eq_ok.1 h
          cases h
          exact (checkCall_of_fn hg hf _).both (.of_ok (checkVars_of_lookupAll hargs))
  | reset x =>
      obtain ⟨y, hy, h⟩ := bind_eq_ok.1 h
      cases h
      exact .of_ok (checkVar_of_lookup hy)
  | reuse token tag fields =>
      obtain ⟨token', htoken, h⟩ := bind_eq_ok.1 h
      obtain ⟨c, hc, h⟩ := bind_eq_ok.1 h
      cases h
      obtain ⟨hcount, hvars⟩ := checkConstruction_of_resolve hg fn hc
      exact .both (.of_ok (checkVar_of_lookup htoken)) (hcount.both (.of_ok hvars))

/-- Arms are checked one after the other, each in the scope of the case. -/
theorem checkArms_of_resolve {earlier : List Tag} {arms : List Surface.Arm} {out : List Arm}
    (h : resolveArms g scope earlier arms = .ok out)
    (hb : ∀ arm ∈ arms, ∀ b, resolveBody g scope arm.2.val = .ok b →
      ArityOnly (checkBody p fn scope b)) : ArityOnly (checkArms p fn scope out) := by
  induction arms generalizing earlier out with
  | nil =>
      cases h
      exact .of_ok rfl
  | cons arm rest ih =>
      obtain ⟨hfirst, hrest⟩ := List.forall_mem_cons.1 hb
      obtain ⟨x, s, T⟩ := arm
      obtain ⟨⟨htag, -⟩, b, hbody, others, hothers, rfl⟩ := resolveArms_cons.1 h
      have htag := checkTag_of_tag hg (tag_eq_ok.2 ⟨htag, rfl⟩)
      exact .both (.of_ok htag) ((hfirst b hbody).both (ih hothers hrest))

theorem checkBody_of_resolve {T : Surface.Body} (h : resolveBody g scope T = .ok b) :
    ArityOnly (checkBody p fn scope b) := by
  induction T generalizing scope b with
  | ret x =>
      obtain ⟨y, hy, h⟩ := bind_eq_ok.1 h
      cases h
      exact .of_ok (checkVar_of_lookup hy)
  | lets bindings s T ih =>
      induction bindings generalizing scope b with
      | nil => exact ih (resolveBody_lets_nil ▸ h)
      | cons x rest hrest =>
          obtain ⟨e, he, hnew, c, hc, rfl⟩ := resolveBody_lets_cons.1 h
          have hbinder : checkBinder fn scope (nameOf x.binder) = .ok () := checkBinder_eq_ok.2 hnew
          exact (checkExpr_of_resolve hg he).both (.both (.of_ok hbinder) (hrest hc))
  | case x arms ih =>
      obtain ⟨y, hy, h⟩ := bind_eq_ok.1 h
      obtain ⟨out, hout, h⟩ := bind_eq_ok.1 h
      cases h
      have harms := checkArms_of_resolve hg hout fun arm harm b hb => ih arm harm hb
      exact .both (.of_ok (checkVar_of_lookup hy)) harms
  | inc x s T ih =>
      obtain ⟨y, hy, h⟩ := bind_eq_ok.1 h
      obtain ⟨b', hb, h⟩ := bind_eq_ok.1 h
      cases h
      exact .both (.of_ok (checkVar_of_lookup hy)) (ih hb)
  | dec x s T ih =>
      obtain ⟨y, hy, h⟩ := bind_eq_ok.1 h
      obtain ⟨b', hb, h⟩ := bind_eq_ok.1 h
      cases h
      exact .both (.of_ok (checkVar_of_lookup hy)) (ih hb)

/-! ## Programs -/

theorem checkFn_of_resolves {item : Ident × List Ident × Surface.Body} {d : FnDef}
    (h : Resolves g item d) : ArityOnly (checkFn p d) := by
  obtain ⟨hparams, b, hb, rfl⟩ := resolves_iff.1 h
  have hnodup : ((item.2.1.map (@nameOf .var)).map (·.text)).Nodup := texts_names ▸ hparams
  have hparams : checkParams (nameOf item.1) [] (item.2.1.map nameOf) = .ok () :=
    checkParams_eq_ok.2 ⟨hnodup, fun _ _ => List.not_mem_nil⟩
  exact .both (.of_ok hparams) (checkBody_of_resolve hg hb)

theorem checkFns_of_resolves {items : List (Ident × List Ident × Surface.Body)} {fns : List FnDef}
    (h : List.Forall₂ (Resolves g) items fns) : ArityOnly (checkFns p fns) := by
  induction h with
  | nil => exact .of_ok rfl
  | cons hd _ ih => exact (checkFn_of_resolves hg hd).both ih

end

theorem describes_of_resolve (h : resolve tree = .ok p) : (knownIn tree).Describes p := by
  obtain ⟨-, htypes, hfns⟩ := resolve_iff.1 h
  refine ⟨htypes.symm, ?_⟩
  rw [names_of_resolves hfns, knownIn, fnNamesOf_eq, List.map_map]
  rfl

/-- The check of a resolved program finds nothing wrong but a number of arguments or fields. -/
theorem validate_of_resolve (h : resolve tree = .ok p) : ArityOnly p.validate := by
  obtain ⟨-, -, hfns⟩ := resolve_iff.1 h
  exact checkFns_of_resolves (describes_of_resolve h) hfns

end Reclaim.Core

namespace Reclaim

open Reclaim.Core Reclaim.Surface

theorem severity_syntax (e : SyntaxError) : e.diagnostic.severity = .error := by
  cases e with
  | mismatch expected got => cases expected <;> rfl
  | unfinished expected last => cases expected <;> rfl
  | _ => rfl

theorem severity_resolution (e : ResolutionError) : e.diagnostic.severity = .error := by
  cases e <;> rfl

/-- A text that parses and resolves is valid, or it supplies a wrong number of arguments or fields.  So
whatever is wrong with a text, it is an error of the text, and never a bug. -/
theorem load_never_reports_bug (source : String) :
    (∀ tree p, parse source = .ok tree → resolve tree = .ok p → p.validate = .ok () ∨
      ∃ e, p.validate = .error e ∧ e.OfArity ∧ e.diagnostic.message = "arity mismatch") ∧
    ∀ e, load source = .error e → e.diagnostic.severity = .error := by
  constructor
  · intro tree p _ hresolve
    cases hvalid : p.validate with
    | ok => exact .inl rfl
    | error e =>
        have he := validate_of_resolve hresolve hvalid
        exact .inr ⟨e, rfl, he, he.message⟩
  · intro e he
    rcases load_eq_error.1 he with ⟨s, -, rfl⟩ | ⟨tree, s, -, -, rfl⟩ |
      ⟨tree, p, s, -, hresolve, hinvalid, rfl⟩
    · exact severity_syntax s
    · exact severity_resolution s
    · exact (validate_of_resolve hresolve hinvalid).severity

/-- A parameter hides a function, both arms of a case bind the same variable, and a call has too few
arguments. -/
def shortCallSource : String :=
  "(deftype Box v) (deftype N)
  (defn f (x y) (ret x))
  (defn g (f) (case f N (let (x (f)) (ret x)) Box (let (x (proj v f)) (ret x))))
  (defn h (n) (let (r (f n)) (ret r)))"

/-- Only the number of arguments is found to be wrong, and an error is reported. -/
theorem load_never_reports_bug_short_call : ∃ tree p e e', parse shortCallSource = .ok tree ∧
    resolve tree = .ok p ∧ p.validate = .error e ∧ e.diagnostic.message = "arity mismatch" ∧
    load shortCallSource = .error e' ∧ e'.diagnostic.severity = .error := by
  have hcheck : ((parse shortCallSource).toOption.any fun tree => (resolve tree).toOption.any fun p =>
      !p.validate.isOk) = true := by
    decide +kernel
  obtain ⟨tree, hparse, hcheck⟩ := any_toOption.1 hcheck
  obtain ⟨p, hresolve, hcheck⟩ := any_toOption.1 hcheck
  obtain ⟨hvalidate, hload⟩ := load_never_reports_bug shortCallSource
  rcases hvalidate tree p hparse hresolve with hvalid | ⟨e, hinvalid, -, hmessage⟩
  · rw [hvalid] at hcheck
    cases hcheck
  · have hfail := load_eq_error.2 (.inr (.inr ⟨tree, p, e, hparse, hresolve, hinvalid, rfl⟩))
    exact ⟨tree, p, e, _, hparse, hresolve, hinvalid, hmessage, hfail, hload _ hfail⟩

end Reclaim
