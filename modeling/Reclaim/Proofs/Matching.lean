import Reclaim.Proofs.Bodies
import Reclaim.Proofs.Programs

/-!
# Programs with names at other places

Two names *match* along a relation between places when they are spelled alike and their places are
related (`Name.Matches`).  The relation may be equality, and then only equal names match, or it may
hold always, and then places do not matter.  Expressions, bodies and programs match when their names
do.  The arms of a `case` need not be in the same order, nor do the definitions of a program: what
counts is what is found under a name (`Body.Matches`, `Program.Matches`).
-/

namespace Reclaim.Core

variable {R : Span → Span → Prop} {kind : NameKind}

/-! ## Lookups -/

section

variable {α β : Type} {S : α → β → Prop} {as : List α} {bs : List β} {f : α → Bool} {g : β → Bool}
  {a? : Option α} {b? : Option β}

/-- Related lookups find nothing on either side, or related things on both. -/
theorem rel_cases (h : Option.Rel S a? b?) :
    (a? = none ∧ b? = none) ∨ ∃ a b, a? = some a ∧ b? = some b ∧ S a b := by
  cases h with
  | none => exact .inl ⟨rfl, rfl⟩
  | some h => exact .inr ⟨_, _, rfl, rfl, h⟩

/-- Conditions that agree on related elements find related elements. -/
theorem rel_find? (hS : List.Forall₂ S as bs) (hfg : ∀ a b, S a b → f a = g b) :
    Option.Rel S (as.find? f) (bs.find? g) := by
  induction hS with
  | nil => exact .none
  | @cons a b as bs hab _ ih =>
      rw [List.find?_cons, List.find?_cons, hfg a b hab]
      cases g b with
      | true => exact .some hab
      | false => exact ih

end

/-! ## Names -/

/-- The names are spelled alike, at related places. -/
structure Name.Matches (R : Span → Span → Prop) (x y : Name kind) : Prop where
  /-- The spelling. -/
  text : x.text = y.text
  /-- The place. -/
  span : R x.span y.span

namespace Name

theorem Matches.refl (hR : ∀ s, R s s) (x : Name kind) : x.Matches R x := ⟨rfl, hR _⟩

theorem matches_all_refl (hR : ∀ s, R s s) (xs : List (Name kind)) :
    List.Forall₂ (Matches R) xs xs :=
  List.forall₂_same.2 fun x _ => .refl hR x

theorem Matches.eq {x y : Name kind} (m : x.Matches Eq y) : x = y := by
  cases x
  cases y
  obtain ⟨rfl, rfl⟩ := m
  rfl

/-- Only the spelling of a name matters to comparisons. -/
theorem Matches.beq {x x' y y' : Name kind} (mx : x.Matches R x') (my : y.Matches R y') :
    (x == y) = (x' == y') := by
  change (x.text == y.text) = (x'.text == y'.text)
  rw [mx.text, my.text]

end Name

/-! ## Expressions -/

/-- The constructions have matching tags and matching variables for fields. -/
structure Construction.Matches (R : Span → Span → Prop) (c d : Construction) : Prop where
  /-- The tag. -/
  tag : c.tag.Matches R d.tag
  /-- The fields, one by one. -/
  fields : List.Forall₂ (Name.Matches R) c.fields d.fields

theorem Construction.Matches.refl (hR : ∀ s, R s s) (c : Construction) : c.Matches R c :=
  ⟨.refl hR _, Name.matches_all_refl hR _⟩

/-- The expressions are of the same kind, with matching names. -/
inductive Expr.Matches (R : Span → Span → Prop) : Expr → Expr → Prop where
  | call {f g : FnName} {xs ys : List Var} : f.Matches R g → List.Forall₂ (Name.Matches R) xs ys →
      Expr.Matches R (.call f xs) (.call g ys)
  | close {f g : FnName} {xs ys : List Var} : f.Matches R g → List.Forall₂ (Name.Matches R) xs ys →
      Expr.Matches R (.close f xs) (.close g ys)
  | apply {x y : Var} {xs ys : List Var} : x.Matches R y → List.Forall₂ (Name.Matches R) xs ys →
      Expr.Matches R (.apply x xs) (.apply y ys)
  | extend {x y : Var} {xs ys : List Var} : x.Matches R y → List.Forall₂ (Name.Matches R) xs ys →
      Expr.Matches R (.extend x xs) (.extend y ys)
  | new {c d : Construction} : c.Matches R d → Expr.Matches R (.new c) (.new d)
  | proj {f g : Field} {x y : Var} : f.Matches R g → x.Matches R y →
      Expr.Matches R (.proj f x) (.proj g y)
  | reset {x y : Var} : x.Matches R y → Expr.Matches R (.reset x) (.reset y)
  | reuse {x y : Var} {c d : Construction} : x.Matches R y → c.Matches R d →
      Expr.Matches R (.reuse x c) (.reuse y d)

theorem Expr.Matches.refl (hR : ∀ s, R s s) (e : Expr) : e.Matches R e := by
  have name {kind : NameKind} (x : Name kind) : x.Matches R x := .refl hR x
  have names {kind : NameKind} (xs : List (Name kind)) := Name.matches_all_refl hR xs
  cases e with
  | call f xs => exact .call (name f) (names xs)
  | close f xs => exact .close (name f) (names xs)
  | apply x xs => exact .apply (name x) (names xs)
  | extend x xs => exact .extend (name x) (names xs)
  | new c => exact .new (.refl hR c)
  | proj f x => exact .proj (name f) (name x)
  | reset x => exact .reset (name x)
  | reuse x c => exact .reuse (name x) (.refl hR c)

/-! ## Bodies -/

/-- The bodies take the same steps, with matching names.  A tag has an arm in both of two `case`s or
in neither, and its arms match. -/
inductive Body.Matches (R : Span → Span → Prop) : Body → Body → Prop where
  | ret {x y : Var} : x.Matches R y → Body.Matches R (.ret x) (.ret y)
  | bind {x y : Var} {d e : Expr} {b c : Body} : x.Matches R y → d.Matches R e →
      Body.Matches R b c → Body.Matches R (.bind x d b) (.bind y e c)
  | case {x y : Var} {as bs : List Arm} : x.Matches R y →
      (∀ tag, (findArm as tag).isSome = (findArm bs tag).isSome) →
      (∀ tag b c, findArm as tag = some b → findArm bs tag = some c → Body.Matches R b c) →
      Body.Matches R (.case x as) (.case y bs)
  | inc {x y : Var} {b c : Body} : x.Matches R y → Body.Matches R b c →
      Body.Matches R (.inc x b) (.inc y c)
  | dec {x y : Var} {b c : Body} : x.Matches R y → Body.Matches R b c →
      Body.Matches R (.dec x b) (.dec y c)

/-- The arm that is found is spelled like the tag. -/
theorem text_of_findArm {arms : List Arm} {tag : Tag} {b : Body} (hb : findArm arms tag = some b) :
    ∃ arm ∈ arms, arm.1.text = tag.text ∧ arm.2 = b := by
  obtain ⟨arm, hfind, hbody⟩ := Option.map_eq_some_iff.1 hb
  exact ⟨arm, List.mem_of_find?_eq_some hfind,
    Name.beq_iff.1 (List.find?_some (p := fun arm : Arm => arm.1 == tag) hfind), hbody⟩

/-- Only the spelling of a tag matters to the arm that is found. -/
theorem findArm_eq_of_text {arms : List Arm} {t u : Tag} (h : t.text = u.text) :
    findArm arms t = findArm arms u := by
  obtain ⟨text, _⟩ := t
  obtain rfl : text = u.text := h
  rfl

theorem Body.Matches.refl (hR : ∀ s, R s s) (b : Body) : b.Matches R b := by
  induction b with
  | ret x => exact .ret (.refl hR x)
  | bind x e b ih => exact .bind (.refl hR x) (.refl hR e) ih
  | case x arms ih =>
      refine .case (.refl hR x) (fun _ => rfl) ?_
      intro tag b c hb hc
      obtain rfl := Option.some.inj (hb.symm.trans hc)
      obtain ⟨arm, harm, -, rfl⟩ := text_of_findArm hb
      exact ih arm harm
  | inc x b ih => exact .inc (.refl hR x) ih
  | dec x b ih => exact .dec (.refl hR x) ih

/-! ## Programs -/

/-- The constructors have matching tags and matching fields. -/
structure TypeDef.Matches (R : Span → Span → Prop) (d e : TypeDef) : Prop where
  /-- The tag. -/
  tag : d.tag.Matches R e.tag
  /-- The fields, one by one. -/
  fields : List.Forall₂ (Name.Matches R) d.fields e.fields

/-- The functions have matching names, parameters and bodies. -/
structure FnDef.Matches (R : Span → Span → Prop) (d e : FnDef) : Prop where
  /-- The name. -/
  name : d.name.Matches R e.name
  /-- The parameters, one by one. -/
  params : List.Forall₂ (Name.Matches R) d.params e.params
  /-- The body. -/
  body : d.body.Matches R e.body

/-- Under each name there are matching definitions in both programs, or none in either. -/
structure Program.Matches (R : Span → Span → Prop) (p q : Program) : Prop where
  /-- The constructors. -/
  types : ∀ tag, Option.Rel (TypeDef.Matches R) (p.type? tag) (q.type? tag)
  /-- The functions. -/
  fns : ∀ name, Option.Rel (FnDef.Matches R) (p.fn? name) (q.fn? name)

namespace Program

variable {p q : Program}

theorem Matches.refl (hR : ∀ s, R s s) (p : Program) : p.Matches R p where
  types tag := by
    cases p.type? tag with
    | none => exact .none
    | some d => exact .some ⟨.refl hR _, Name.matches_all_refl hR _⟩
  fns name := by
    cases p.fn? name with
    | none => exact .none
    | some d => exact .some ⟨.refl hR _, Name.matches_all_refl hR _, .refl hR _⟩

/-- Matching tags are those of matching constructors. -/
theorem Matches.type? (m : p.Matches R q) {t u : Tag} (htag : t.Matches R u) :
    Option.Rel (TypeDef.Matches R) (p.type? t) (q.type? u) := by
  have hu : q.type? u = q.type? t := findRev?_eq_of_text htag.text.symm
  rw [hu]
  exact m.types t

/-- Matching names are those of matching functions. -/
theorem Matches.fn? (m : p.Matches R q) {f g : FnName} (hname : f.Matches R g) :
    Option.Rel (FnDef.Matches R) (p.fn? f) (q.fn? g) := by
  have hg : q.fn? g = q.fn? f := findRev?_eq_of_text hname.text.symm
  rw [hg]
  exact m.fns f

end Program

end Reclaim.Core
