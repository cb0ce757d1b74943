import Reclaim.Proofs.Resolution.Readable
import Reclaim.Proofs.Trails

/-!
# Which trees resolve, and to what

Resolution goes through each body once, with the variables in scope at hand.  Which trees it accepts is
described here without a scope.  `Body.Reaches` leads from a body to what is left behind some steps and
lists what these bind, where an arm is entered without the arms before it.  Whatever is reached has to be
well named with respect to that list and the parameters (`Tree.Lawful`).

What a tree stands for is defined for all trees (`Tree.meaning`): each step becomes one step, in order, and
the head of an application is read as a variable exactly where a variable of that spelling is bound
(`Expr.meaning`).  A tree resolves exactly if it is lawful, and then to the program it stands for
(`resolve_exactly`).  The proof goes through one equivalence for bodies, `resolveBody_eq_ok`.
-/

namespace Reclaim.Surface

open Reclaim.Core (Globals Distinct knownIn functionsOf nameOf)

/-- The variables that an expression reads, from left to right.  The head of an application is not among
them, since it may be a function. -/
def Expr.operands : Expr → List Ident
  | .new _ xs | .pap _ xs | .app _ xs => xs
  | .proj _ record => [record]
  | .reset x => [x]
  | .reuse token _ xs => token :: xs

/-- The head of an application. -/
def Expr.head? : Expr → Option Ident
  | .pap target _ | .app target _ => some target
  | .new .. | .proj .. | .reset _ | .reuse .. => none

/-- The constructor of which an expression builds a record. -/
def Expr.tag? : Expr → Option Ident
  | .new tag _ | .reuse _ tag _ => some tag
  | .pap .. | .app .. | .proj .. | .reset _ => none

/-- The field that an expression reads. -/
def Expr.field? : Expr → Option Ident
  | .proj field _ => some field
  | .new .. | .pap .. | .app .. | .reset _ | .reuse .. => none

/-- Some steps lead from a body to what is left behind them.  They bind the listed names, the last one
first. -/
inductive Body.Reaches : Body → List Ident → Body → Prop where
  | here {T : Body} : Reaches T [] T
  | bind {x : Binding} {rest : List Binding} {T : Spanned Body} {bound : List Ident} {U : Body} :
      Reaches (.lets rest T) bound U → Reaches (.lets (x :: rest) T) (bound ++ [x.binder]) U
  | lets {T : Spanned Body} {bound : List Ident} {U : Body} :
      Reaches T.val bound U → Reaches (.lets [] T) bound U
  | arm {x : Ident} {arms : List Arm} {arm : Arm} {bound : List Ident} {U : Body} :
      arm ∈ arms → Reaches arm.2.val bound U → Reaches (.case x arms) bound U
  | inc {x : Ident} {T : Spanned Body} {bound : List Ident} {U : Body} :
      Reaches T.val bound U → Reaches (.inc x T) bound U
  | dec {x : Ident} {T : Spanned Body} {bound : List Ident} {U : Body} :
      Reaches T.val bound U → Reaches (.dec x T) bound U

/-! ## Well named trees -/

/-- An expression names what is known, where the variables of `S` are bound. -/
structure Expr.WellNamed (g : Globals) (S : List String) (e : Expr) : Prop where
  /-- The variables it reads are bound. -/
  reads : ∀ x ∈ e.operands, x.val ∈ S
  /-- The head of an application is a bound variable or a function. -/
  head : ∀ f ∈ e.head?, f.val ∈ S ∨ f.val ∈ g.fns.map (·.val)
  /-- The constructor is declared. -/
  tag : ∀ tag ∈ e.tag?, tag.val ∈ g.types.map (·.tag.text)
  /-- The field is declared by some constructor. -/
  field : ∀ f ∈ e.field?, ∃ d ∈ g.types, f.val ∈ d.fields.map (·.text)

/-- The first step of a body names what is known, where the variables of `S` are bound, and binds a new
variable.  The arms of a case are for different constructors. -/
def Body.WellNamed (g : Globals) (S : List String) : Body → Prop
  | .ret x | .inc x _ | .dec x _ => x.val ∈ S
  | .lets [] _ => True
  | .lets (x :: _) _ => x.expr.val.WellNamed g S ∧ x.binder.val ∉ S
  | .case x arms => x.val ∈ S ∧ (∀ arm ∈ arms, arm.1.val ∈ g.types.map (·.tag.text)) ∧
      (arms.map (·.1.val)).Nodup

/-- What is reached in a body is well named, where the variables of `S` are bound from the start. -/
def Body.Lawful (g : Globals) (S : List String) (T : Body) : Prop :=
  ∀ bound U, T.Reaches bound U → U.WellNamed g (bound.map (·.val) ++ S)

/-- A tree whose names are defined once and bound once on a path, and used where they are known. -/
structure Tree.Lawful (tree : Tree) : Prop extends Distinct tree where
  /-- The parameters of a function are different. -/
  params : ∀ f ∈ functionsOf tree, (f.2.1.map (·.val)).Nodup
  /-- What is reached in its body is well named, where its parameters are bound. -/
  bodies : ∀ f ∈ functionsOf tree, f.2.2.Lawful (knownIn tree) (f.2.1.map (·.val)).reverse

/-! ## What a tree stands for -/

/-- What an expression stands for, where the variables of `S` are bound. -/
def Expr.meaning (S : List String) : Expr → Core.Expr
  | .new tag xs => .new ⟨nameOf tag, xs.map nameOf⟩
  | .proj field record => .proj (nameOf field) (nameOf record)
  | .pap target xs =>
    if target.val ∈ S then .extend (nameOf target) (xs.map nameOf)
    else .close (nameOf target) (xs.map nameOf)
  | .app target xs =>
    if target.val ∈ S then .apply (nameOf target) (xs.map nameOf)
    else .call (nameOf target) (xs.map nameOf)
  | .reset x => .reset (nameOf x)
  | .reuse token tag xs => .reuse (nameOf token) ⟨nameOf tag, xs.map nameOf⟩

/-- The bindings of a `let` in front of a body, each in the scope of those before it. -/
def bindingsMeaning (b : Core.Body) (S : List String) : List Binding → Core.Body
  | [] => b
  | x :: rest =>
    .bind (nameOf x.binder) (x.expr.val.meaning S) (bindingsMeaning b (x.binder.val :: S) rest)

mutual

/-- What a body stands for, where the variables of `S` are bound. -/
def Body.meaning (S : List String) : Body → Core.Body
  | .ret x => .ret (nameOf x)
  | .lets xs ⟨_, T⟩ => bindingsMeaning (T.meaning ((xs.map (·.binder.val)).reverse ++ S)) S xs
  | .case x arms => .case (nameOf x) (armsMeaning S arms)
  | .inc x ⟨_, T⟩ => .inc (nameOf x) (T.meaning S)
  | .dec x ⟨_, T⟩ => .dec (nameOf x) (T.meaning S)
termination_by structural T => T

/-- What arms stand for. -/
def armsMeaning (S : List String) : List Arm → List Core.Arm
  | [] => []
  | (tag, ⟨_, T⟩) :: rest => (nameOf tag, T.meaning S) :: armsMeaning S rest
termination_by structural arms => arms

end

/-- What a function stands for. -/
def fnMeaning (f : Ident × List Ident × Body) : Core.FnDef :=
  ⟨nameOf f.1, f.2.1.map nameOf, f.2.2.meaning (f.2.1.map (·.val)).reverse⟩

/-- The program that a tree stands for. -/
def Tree.meaning (tree : Tree) : Core.Program :=
  ⟨(declarationsOf tree).map constructorOf, (functionsOf tree).map fnMeaning⟩

variable {g : Globals} {S : List String} {T U : Body} {t : Spanned Body} {x : Ident}
  {y : Binding} {rest : List Binding} {arms : List Arm}

theorem armsMeaning_eq :
    armsMeaning S arms = arms.map fun arm => (nameOf arm.1, arm.2.val.meaning S) := by
  induction arms with
  | nil => rfl
  | cons arm rest ih =>
      obtain ⟨tag, s, T⟩ := arm
      rw [armsMeaning, ih, List.map_cons]

theorem meaning_lets_cons : Body.meaning S (.lets (y :: rest) t) =
    .bind (nameOf y.binder) (y.expr.val.meaning S)
      (Body.meaning (y.binder.val :: S) (.lets rest t)) := by
  obtain ⟨s, T⟩ := t
  rw [Body.meaning, Body.meaning, bindingsMeaning, List.map_cons, List.reverse_cons,
    List.append_assoc, List.singleton_append]

/-- What is reached stands for what a trail leads to, and the trail binds the same names. -/
theorem Body.Reaches.exists_trail {bound : List Ident} (h : T.Reaches bound U) :
    ∃ path, (T.meaning S).Trail path (some (U.meaning (bound.map (·.val) ++ S))) ∧
      Core.boundOn path = bound.map (·.val) := by
  induction h generalizing S with
  | here => exact ⟨[], .here, rfl⟩
  | @bind x rest T bound U _ ih =>
      obtain ⟨path, htrail, hbound⟩ := ih (S := x.binder.val :: S)
      rw [meaning_lets_cons, List.map_append, List.append_assoc]
      exact ⟨_, .bind htrail, congrArg (· ++ [x.binder.val]) hbound⟩
  | lets _ ih => exact ih
  | arm harm _ ih =>
      obtain ⟨path, htrail, hbound⟩ := ih (S := S)
      rw [Body.meaning, armsMeaning_eq]
      exact ⟨_, .case (List.mem_map_of_mem harm) htrail, (List.append_nil _).trans hbound⟩
  | inc _ ih =>
      obtain ⟨path, htrail, hbound⟩ := ih (S := S)
      exact ⟨_, .inc htrail, (List.append_nil _).trans hbound⟩
  | dec _ ih =>
      obtain ⟨path, htrail, hbound⟩ := ih (S := S)
      exact ⟨_, .dec htrail, (List.append_nil _).trans hbound⟩

/-! ## Lawful bodies, step by step

A body is lawful exactly if its first step is well named and what is behind it is lawful. -/

theorem lawful_ret : Body.Lawful g S (.ret x) ↔ x.val ∈ S := by
  refine ⟨fun h => h _ _ .here, fun hx bound U hU => ?_⟩
  cases hU
  exact hx

theorem lawful_lets_nil : Body.Lawful g S (.lets [] t) ↔ t.val.Lawful g S := by
  refine ⟨fun h bound U hU => h _ _ (.lets hU), fun h bound U hU => ?_⟩
  cases hU with
  | here => trivial
  | lets hU => exact h _ _ hU

theorem lawful_lets_cons : Body.Lawful g S (.lets (y :: rest) t) ↔
    (y.expr.val.WellNamed g S ∧ y.binder.val ∉ S) ∧
      Body.Lawful g (y.binder.val :: S) (.lets rest t) := by
  constructor
  · intro h
    refine ⟨h _ _ .here, fun bound U hU => ?_⟩
    simpa using h _ _ (.bind hU)
  · rintro ⟨hfirst, hrest⟩ bound U hU
    cases hU with
    | here => exact hfirst
    | bind hU => simpa using hrest _ _ hU

theorem lawful_case : Body.Lawful g S (.case x arms) ↔
    Body.WellNamed g S (.case x arms) ∧ ∀ arm ∈ arms, arm.2.val.Lawful g S := by
  constructor
  · exact fun h => ⟨h _ _ .here, fun arm harm bound U hU => h _ _ (.arm harm hU)⟩
  · rintro ⟨hfirst, harms⟩ bound U hU
    cases hU with
    | here => exact hfirst
    | arm harm hU => exact harms _ harm _ _ hU

theorem lawful_inc : Body.Lawful g S (.inc x t) ↔ x.val ∈ S ∧ t.val.Lawful g S := by
  constructor
  · exact fun h => ⟨h _ _ .here, fun bound U hU => h _ _ (.inc hU)⟩
  · rintro ⟨hx, h⟩ bound U hU
    cases hU with
    | here => exact hx
    | inc hU => exact h _ _ hU

theorem lawful_dec : Body.Lawful g S (.dec x t) ↔ x.val ∈ S ∧ t.val.Lawful g S := by
  constructor
  · exact fun h => ⟨h _ _ .here, fun bound U hU => h _ _ (.dec hU)⟩
  · rintro ⟨hx, h⟩ bound U hU
    cases hU with
    | here => exact hx
    | dec hU => exact h _ _ hU

end Reclaim.Surface

namespace Reclaim.Core

open Reclaim.Surface (Ident Tree)

variable {g : Globals} {scope : Scope} {tree : Tree} {p : Program} {b : Body}
  {T : Surface.Body} {s : Span} {arms : List Surface.Arm}

/-! ## Resolution -/

theorem forall_mem_none {P : Ident → Prop} : ∀ x ∈ (none : Option Ident), P x :=
  fun x hx => absurd hx (Option.not_mem_none x)

theorem forall_mem_some {P : Ident → Prop} {x : Ident} (hx : P x) : ∀ y ∈ some x, P y :=
  fun _ heq => Option.some.inj heq ▸ hx

/-- The head of an application is looked up among the variables first. -/
theorem resolveExpr_eq_ok {e : Surface.Expr} {e' : Expr} : resolveExpr g scope e = .ok e' ↔
    e.WellNamed g (scope.map (·.text)) ∧ e' = e.meaning (scope.map (·.text)) := by
  cases e with
  | new tag xs =>
      simp only [resolveExpr, bind_eq_ok, pure_eq_ok, resolveConstruction_eq_ok]
      constructor
      · rintro ⟨_, ⟨htag, hxs, rfl⟩, rfl⟩
        exact ⟨⟨hxs, forall_mem_none, forall_mem_some htag, forall_mem_none⟩, rfl⟩
      · rintro ⟨⟨hxs, -, htag, -⟩, rfl⟩
        exact ⟨_, ⟨htag _ rfl, hxs, rfl⟩, rfl⟩
  | proj field record =>
      simp only [resolveExpr, bind_eq_ok, pure_eq_ok, field_eq_ok, lookup_eq_ok]
      constructor
      · rintro ⟨_, ⟨hfield, rfl⟩, _, ⟨hrecord, rfl⟩, rfl⟩
        exact ⟨⟨List.forall_mem_singleton.2 hrecord, forall_mem_none, forall_mem_none,
          forall_mem_some hfield⟩, rfl⟩
      · rintro ⟨⟨hrecord, -, -, hfield⟩, rfl⟩
        exact ⟨_, ⟨hfield _ rfl, rfl⟩, _, ⟨hrecord _ (.head _), rfl⟩, rfl⟩
  | pap target xs | app target xs =>
      rw [resolveExpr]
      cases hb : scope.binder? target with
      | some y =>
          have htarget := binder?_eq_some.1 ⟨y, hb⟩
          simp only [bind_eq_ok, pure_eq_ok, lookupAll_eq_ok, Surface.Expr.meaning, if_pos htarget]
          constructor
          · rintro ⟨_, ⟨hxs, rfl⟩, rfl⟩
            exact ⟨⟨hxs, forall_mem_some (.inl htarget), forall_mem_none, forall_mem_none⟩, rfl⟩
          · rintro ⟨⟨hxs, -, -, -⟩, rfl⟩
            exact ⟨_, ⟨hxs, rfl⟩, rfl⟩
      | none =>
          have htarget := binder?_eq_none.1 hb
          simp only [bind_eq_ok, pure_eq_ok, fn_eq_ok, lookupAll_eq_ok, Surface.Expr.meaning,
            if_neg htarget]
          constructor
          · rintro ⟨_, ⟨hfn, rfl⟩, _, ⟨hxs, rfl⟩, rfl⟩
            exact ⟨⟨hxs, forall_mem_some (.inr hfn), forall_mem_none, forall_mem_none⟩, rfl⟩
          · rintro ⟨⟨hxs, hhead, -, -⟩, rfl⟩
            exact ⟨_, ⟨(hhead _ rfl).resolve_left htarget, rfl⟩, _, ⟨hxs, rfl⟩, rfl⟩
  | reset x =>
      simp only [resolveExpr, bind_eq_ok, pure_eq_ok, lookup_eq_ok]
      constructor
      · rintro ⟨_, ⟨hx, rfl⟩, rfl⟩
        exact ⟨⟨List.forall_mem_singleton.2 hx, forall_mem_none, forall_mem_none, forall_mem_none⟩, rfl⟩
      · rintro ⟨⟨hx, -, -, -⟩, rfl⟩
        exact ⟨_, ⟨hx _ (.head _), rfl⟩, rfl⟩
  | reuse token tag xs =>
      simp only [resolveExpr, bind_eq_ok, pure_eq_ok, lookup_eq_ok, resolveConstruction_eq_ok]
      constructor
      · rintro ⟨_, ⟨htoken, rfl⟩, _, ⟨htag, hxs, rfl⟩, rfl⟩
        exact ⟨⟨List.forall_mem_cons.2 ⟨htoken, hxs⟩, forall_mem_none, forall_mem_some htag,
          forall_mem_none⟩, rfl⟩
      · rintro ⟨⟨hreads, -, htag, -⟩, rfl⟩
        obtain ⟨htoken, hxs⟩ := List.forall_mem_cons.1 hreads
        exact ⟨_, ⟨htoken, rfl⟩, _, ⟨htag _ rfl, hxs, rfl⟩, rfl⟩

/-- Arms resolve if their tags are declared, different, and other than those before. -/
theorem resolveArms_eq_ok {earlier : List Tag} {out : List Arm}
    (ih : ∀ arm ∈ arms, ∀ {b}, resolveBody g scope arm.2.val = .ok b ↔
      arm.2.val.Lawful g (scope.map (·.text)) ∧ b = arm.2.val.meaning (scope.map (·.text))) :
    resolveArms g scope earlier arms = .ok out ↔
      ((∀ arm ∈ arms, arm.1.val ∈ g.types.map (·.tag.text)) ∧ (arms.map (·.1.val)).Nodup) ∧
      (∀ arm ∈ arms, arm.1.val ∉ earlier.map (·.text)) ∧
      (∀ arm ∈ arms, arm.2.val.Lawful g (scope.map (·.text))) ∧
        out = Surface.armsMeaning (scope.map (·.text)) arms := by
  induction arms generalizing earlier out with
  | nil => simp [resolveArms, Surface.armsMeaning, pure_eq_ok]
  | cons arm rest hrest =>
      obtain ⟨x, s, T⟩ := arm
      have hx : (∀ arm ∈ rest, arm.1.val ∉ (nameOf x :: earlier).map (@Name.text .tag)) ↔
          x.val ∉ rest.map (·.1.val) ∧ ∀ arm ∈ rest, arm.1.val ∉ earlier.map (·.text) := by
        simp only [List.map_cons, List.mem_cons, not_or, imp_and, forall_and, List.mem_map,
          not_exists, not_and]
        rfl
      rw [resolveArms_cons, List.forall_mem_cons, List.forall_mem_cons, List.forall_mem_cons,
        List.map_cons, List.nodup_cons, Surface.armsMeaning]
      simp only [ih _ (.head _), hrest fun arm harm _ => ih arm (.tail _ harm), hx]
      constructor
      · rintro ⟨⟨htag, hnew⟩, _, ⟨hT, rfl⟩, _, ⟨⟨htags, hnodup⟩, ⟨hother, hnews⟩, hrest, rfl⟩, rfl⟩
        exact ⟨⟨⟨htag, htags⟩, hother, hnodup⟩, ⟨hnew, hnews⟩, ⟨hT, hrest⟩, rfl⟩
      · rintro ⟨⟨⟨htag, htags⟩, hother, hnodup⟩, ⟨hnew, hnews⟩, ⟨hT, hrest⟩, rfl⟩
        exact ⟨⟨htag, hnew⟩, _, ⟨hT, rfl⟩, _, ⟨⟨htags, hnodup⟩, ⟨hother, hnews⟩, hrest, rfl⟩, rfl⟩

/-- A body resolves exactly if it is lawful where the variables in scope are bound, and then to what it
stands for there. -/
theorem resolveBody_eq_ok : resolveBody g scope T = .ok b ↔
    T.Lawful g (scope.map (·.text)) ∧ b = T.meaning (scope.map (·.text)) := by
  induction T generalizing scope b with
  | ret x =>
      rw [Surface.lawful_ret]
      simp only [resolveBody, bind_eq_ok, pure_eq_ok, lookup_eq_ok]
      constructor
      · rintro ⟨_, ⟨hx, rfl⟩, rfl⟩
        exact ⟨hx, rfl⟩
      · rintro ⟨hx, rfl⟩
        exact ⟨_, ⟨hx, rfl⟩, rfl⟩
  | lets bindings s T ih =>
      induction bindings generalizing scope b with
      | nil =>
          rw [resolveBody_lets_nil, Surface.lawful_lets_nil, ih]
          rfl
      | cons x rest hrest =>
          rw [resolveBody_lets_cons, Surface.lawful_lets_cons, Surface.meaning_lets_cons]
          simp only [resolveExpr_eq_ok, hrest]
          constructor
          · rintro ⟨_, ⟨he, rfl⟩, hnew, _, ⟨hlawful, rfl⟩, rfl⟩
            exact ⟨⟨⟨he, hnew⟩, hlawful⟩, rfl⟩
          · rintro ⟨⟨⟨he, hnew⟩, hlawful⟩, rfl⟩
            exact ⟨_, ⟨he, rfl⟩, hnew, _, ⟨hlawful, rfl⟩, rfl⟩
  | case x arms ih =>
      rw [Surface.lawful_case]
      simp only [resolveBody, bind_eq_ok, pure_eq_ok, lookup_eq_ok,
        resolveArms_eq_ok fun arm harm _ => ih arm harm]
      constructor
      · rintro ⟨_, ⟨hx, rfl⟩, _, ⟨⟨htags, hnodup⟩, -, harms, rfl⟩, rfl⟩
        exact ⟨⟨⟨hx, htags, hnodup⟩, harms⟩, rfl⟩
      · rintro ⟨⟨⟨hx, htags, hnodup⟩, harms⟩, rfl⟩
        exact ⟨_, ⟨hx, rfl⟩, _, ⟨⟨htags, hnodup⟩, fun _ _ => List.not_mem_nil, harms, rfl⟩, rfl⟩
  | inc x s T ih =>
      rw [Surface.lawful_inc]
      simp only [resolveBody, bind_eq_ok, pure_eq_ok, lookup_eq_ok, ih]
      constructor
      · rintro ⟨_, ⟨hx, rfl⟩, _, ⟨hT, rfl⟩, rfl⟩
        exact ⟨⟨hx, hT⟩, rfl⟩
      · rintro ⟨⟨hx, hT⟩, rfl⟩
        exact ⟨_, ⟨hx, rfl⟩, _, ⟨hT, rfl⟩, rfl⟩
  | dec x s T ih =>
      rw [Surface.lawful_dec]
      simp only [resolveBody, bind_eq_ok, pure_eq_ok, lookup_eq_ok, ih]
      constructor
      · rintro ⟨_, ⟨hx, rfl⟩, _, ⟨hT, rfl⟩, rfl⟩
        exact ⟨⟨hx, hT⟩, rfl⟩
      · rintro ⟨⟨hx, hT⟩, rfl⟩
        exact ⟨_, ⟨hx, rfl⟩, _, ⟨hT, rfl⟩, rfl⟩

/-! ## Trees -/

theorem resolves_iff_lawful {f : Ident × List Ident × Surface.Body} {d : FnDef} :
    Resolves g f d ↔ ((f.2.1.map (·.val)).Nodup ∧ f.2.2.Lawful g (f.2.1.map (·.val)).reverse) ∧
      Surface.fnMeaning f = d := by
  have hscope : (f.2.1.map (@nameOf .var)).reverse.map (·.text) = (f.2.1.map (·.val)).reverse := by
    rw [List.map_reverse, texts_names]
  rw [resolves_iff]
  simp only [resolveBody_eq_ok, hscope]
  constructor
  · rintro ⟨hparams, _, ⟨hbody, rfl⟩, rfl⟩
    exact ⟨⟨hparams, hbody⟩, rfl⟩
  · rintro ⟨⟨hparams, hbody⟩, rfl⟩
    exact ⟨hparams, _, ⟨hbody, rfl⟩, rfl⟩

theorem forall₂_resolves {items : List (Ident × List Ident × Surface.Body)} {fns : List FnDef} :
    List.Forall₂ (Resolves g) items fns ↔
      (∀ f ∈ items, (f.2.1.map (·.val)).Nodup ∧ f.2.2.Lawful g (f.2.1.map (·.val)).reverse) ∧
        fns = items.map Surface.fnMeaning := by
  have hresolves : Resolves g = fun f d =>
      ((f.2.1.map (·.val)).Nodup ∧ f.2.2.Lawful g (f.2.1.map (·.val)).reverse) ∧
        Surface.fnMeaning f = d := by
    funext f d
    exact propext resolves_iff_lawful
  rw [hresolves, List.forall₂_and_left, eq_comm, ← List.forall₂_eq_eq_eq, List.forall₂_map_left_iff]

/-- A tree resolves to what it stands for, if it is lawful. -/
theorem resolve_eq_ok_iff : resolve tree = .ok p ↔ tree.Lawful ∧ p = tree.meaning := by
  rw [resolve_iff, forall₂_resolves]
  constructor
  · rintro ⟨hdistinct, htypes, hfns, hp⟩
    obtain ⟨types, fns⟩ := p
    obtain rfl : types = _ := htypes
    obtain rfl : fns = _ := hp
    exact ⟨⟨hdistinct, fun f hf => (hfns f hf).1, fun f hf => (hfns f hf).2⟩, rfl⟩
  · rintro ⟨h, rfl⟩
    exact ⟨h.toDistinct, rfl, fun f hf => ⟨h.params f hf, h.bodies f hf⟩, rfl⟩

/-- A tree resolves exactly if its tags, functions, fields of a type and parameters of a function are
different, no binder is spelled like a parameter or one before it on its path, every variable is a
parameter or bound before it on its path, all constructors and fields are declared, no case has two arms for
a constructor, and what is applied is such a variable or a function.  Then it resolves to the program that
it stands for, where a trail leads to each binding that is reached in the tree, and a head is applied as a
variable exactly if it is a parameter or bound on that trail. -/
theorem resolve_exactly : ((∃ p, resolve tree = .ok p) ↔ tree.Lawful) ∧
    ∀ p, resolve tree = .ok p → p = tree.meaning ∧
      ∀ f ∈ functionsOf tree, ∃ d ∈ p.fns, d.name = nameOf f.1 ∧ d.params = f.2.1.map nameOf ∧
        ∀ bound x rest t, f.2.2.Reaches bound (.lets (x :: rest) t) →
          ∃ path b, boundOn path = bound.map (·.val) ∧
            d.body.Trail path (some (.bind (nameOf x.binder)
              (x.expr.val.meaning (boundOn path ++ (f.2.1.map (·.val)).reverse)) b)) := by
  constructor
  · simp only [resolve_eq_ok_iff, exists_eq_right]
  · intro p hp
    obtain ⟨-, rfl⟩ := resolve_eq_ok_iff.1 hp
    refine ⟨rfl, fun f hf => ⟨_, List.mem_map_of_mem hf, rfl, rfl, fun bound x rest t h => ?_⟩⟩
    obtain ⟨path, htrail, hbound⟩ := h.exists_trail
    rw [Surface.meaning_lets_cons, ← hbound] at htrail
    exact ⟨path, _, hbound, htrail⟩

/-- In the first arm a name is a function in two bindings and a variable behind them.  In the second arm it
is a function again. -/
def shadowing : Tree := [
  ⟨.none, .type ⟨.none, "A"⟩ []⟩,
  ⟨.none, .type ⟨.none, "B"⟩ []⟩,
  ⟨.none, .fn ⟨.none, "f"⟩ [⟨.none, "x"⟩] ⟨.none, .ret ⟨.none, "x"⟩⟩⟩,
  ⟨.none, .fn ⟨.none, "g"⟩ [⟨.none, "y"⟩] ⟨.none, .case ⟨.none, "y"⟩ [
    (⟨.none, "A"⟩, ⟨.none, .lets [
      ⟨⟨.none, "a"⟩, .none, .app ⟨.none, "f"⟩ [⟨.none, "y"⟩]⟩,
      ⟨⟨.none, "f"⟩, .none, .pap ⟨.none, "f"⟩ []⟩,
      ⟨⟨.none, "b"⟩, .none, .app ⟨.none, "f"⟩ [⟨.none, "a"⟩]⟩] ⟨.none, .ret ⟨.none, "b"⟩⟩⟩),
    (⟨.none, "B"⟩, ⟨.none, .lets [
      ⟨⟨.none, "a"⟩, .none, .app ⟨.none, "f"⟩ [⟨.none, "y"⟩]⟩] ⟨.none, .ret ⟨.none, "a"⟩⟩⟩)]⟩⟩]

/-- It is lawful, and so resolves, and the two bindings in front are a call and a closure, as is the call in
the second arm. -/
theorem resolve_exactly_shadowing : ∃ p, resolve shadowing = .ok p ∧ shadowing.Lawful ∧
    p = shadowing.meaning ∧ p.fns.map (·.body) = [
      .ret ⟨"x", .none⟩,
      .case ⟨"y", .none⟩ [
        (⟨"A", .none⟩, .bind ⟨"a", .none⟩ (.call ⟨"f", .none⟩ [⟨"y", .none⟩])
          (.bind ⟨"f", .none⟩ (.close ⟨"f", .none⟩ [])
          (.bind ⟨"b", .none⟩ (.apply ⟨"f", .none⟩ [⟨"a", .none⟩]) (.ret ⟨"b", .none⟩)))),
        (⟨"B", .none⟩, .bind ⟨"a", .none⟩ (.call ⟨"f", .none⟩ [⟨"y", .none⟩]) (.ret ⟨"a", .none⟩))]] := by
  have hp : resolve shadowing = .ok _ := rfl
  obtain ⟨hlawful, hmeaning⟩ := @resolve_exactly shadowing
  exact ⟨_, hp, hlawful.1 ⟨_, hp⟩, (hmeaning _ hp).1, rfl⟩

end Reclaim.Core
