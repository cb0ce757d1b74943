import Reclaim.Core.Spans
import Reclaim.Proofs.Bodies

/-!
# The names of a program, one by one

Every place of a program where a name is written is an occurrence, listed in the order of
`Program.spans` (`Program.spans_eq`).  The occurrences of variables and of tokens are told apart: a
token is bound by a `reset` and taken by a `reuse`.
-/

namespace Reclaim.Core

/-- A name at one place of a program. -/
inductive Occurrence where
  /-- A variable or a parameter. -/
  | var (x : Var)
  /-- The token that a `reset` binds or a `reuse` takes. -/
  | token (x : Var)
  /-- A function. -/
  | fn (f : FnName)
  /-- The tag of a constructor. -/
  | tag (t : Tag)
  /-- A field. -/
  | field (f : Field)

namespace Occurrence

/-- How the name is spelled. -/
def text : Occurrence → String
  | var x | token x => x.text
  | fn f => f.text
  | tag t => t.text
  | field f => f.text

/-- Where it is written. -/
def span : Occurrence → Span
  | var x | token x => x.span
  | fn f => f.span
  | tag t => t.span
  | field f => f.span

end Occurrence

/-- The variables in a list. -/
def occurrencesOf (xs : List Var) : List Occurrence := xs.map .var

/-- The occurrence of a variable that is bound to an expression. -/
def Expr.binder (e : Expr) (x : Var) : Occurrence :=
  match e.holding with
  | .token => .token x
  | _ => .var x

/-- The names of an expression. -/
def Expr.names : Expr → List Occurrence
  | .call f xs | .close f xs => .fn f :: occurrencesOf xs
  | .apply x xs | .extend x xs => .var x :: occurrencesOf xs
  | .new c => .tag c.tag :: occurrencesOf c.fields
  | .proj f x => [.field f, .var x]
  | .reset x => [.var x]
  | .reuse w c => .token w :: .tag c.tag :: occurrencesOf c.fields

mutual

/-- The names of a body. -/
def Body.names : Body → List Occurrence
  | .ret x => [.var x]
  | .bind x e b => e.binder x :: (e.names ++ b.names)
  | .case x arms => .var x :: namesArms arms
  | .inc x b | .dec x b => .var x :: b.names
termination_by structural b => b

/-- The names of arms. -/
def namesArms : List Arm → List Occurrence
  | [] => []
  | (tag, b) :: rest => .tag tag :: (b.names ++ namesArms rest)
termination_by structural arms => arms

end

/-- The names of a constructor. -/
def TypeDef.names (d : TypeDef) : List Occurrence := .tag d.tag :: d.fields.map .field

/-- The names of a function. -/
def FnDef.names (d : FnDef) : List Occurrence :=
  .fn d.name :: (occurrencesOf d.params ++ d.body.names)

/-- The names of a program. -/
def Program.names (p : Program) : List Occurrence :=
  p.types.flatMap TypeDef.names ++ p.fns.flatMap FnDef.names

variable {x : Var} {e : Expr} {b : Body} {arms : List Arm} {P : Occurrence → Prop}

/-! ## What holds of all names -/

theorem namesArms_eq (arms : List Arm) :
    namesArms arms = arms.flatMap fun arm => .tag arm.1 :: arm.2.names := by
  induction arms with
  | nil => rfl
  | cons arm rest ih =>
      obtain ⟨tag, b⟩ := arm
      rw [namesArms, ih, List.flatMap_cons, List.cons_append]

theorem Expr.binder_of_ne (h : e.holding ≠ .token) (x : Var) : e.binder x = .var x := by
  unfold binder
  cases hh : e.holding with
  | token => exact absurd hh h
  | _ => rfl

theorem forall_occurrencesOf {xs : List Var} :
    (∀ o ∈ occurrencesOf xs, P o) ↔ ∀ x ∈ xs, P (.var x) := List.forall_mem_map

/-- What an expression hands on are names of variables. -/
theorem Expr.mem_names_of_consumed (hx : x ∈ e.consumed) : .var x ∈ e.names := by
  cases e with
  | call f xs | close f xs | apply f xs | extend f xs => exact .tail _ (List.mem_map_of_mem hx)
  | new c => exact .tail _ (List.mem_map_of_mem hx)
  | reuse w c => exact .tail _ (.tail _ (List.mem_map_of_mem hx))
  | reset y => exact List.mem_singleton.1 hx ▸ .head _
  | proj f y => cases hx

namespace Body

theorem forall_names_bind : (∀ o ∈ (Body.bind x e b).names, P o) ↔
    P (e.binder x) ∧ (∀ o ∈ e.names, P o) ∧ ∀ o ∈ b.names, P o := by
  rw [names, List.forall_mem_cons, List.forall_mem_append]

theorem forall_names_case : (∀ o ∈ (Body.case x arms).names, P o) ↔
    P (.var x) ∧ ∀ arm ∈ arms, P (.tag arm.1) ∧ ∀ o ∈ arm.2.names, P o := by
  rw [names, namesArms_eq, List.forall_mem_cons, List.forall_mem_flatMap]
  simp only [List.forall_mem_cons]

theorem forall_names_inc : (∀ o ∈ (Body.inc x b).names, P o) ↔ P (.var x) ∧ ∀ o ∈ b.names, P o := by
  rw [names, List.forall_mem_cons]

theorem forall_names_dec : (∀ o ∈ (Body.dec x b).names, P o) ↔ P (.var x) ∧ ∀ o ∈ b.names, P o := by
  rw [names, List.forall_mem_cons]

end Body

theorem FnDef.forall_names {d : FnDef} : (∀ o ∈ d.names, P o) ↔
    P (.fn d.name) ∧ (∀ x ∈ d.params, P (.var x)) ∧ ∀ o ∈ d.body.names, P o := by
  rw [names, List.forall_mem_cons, List.forall_mem_append, forall_occurrencesOf]

theorem TypeDef.forall_names {d : TypeDef} : (∀ o ∈ d.names, P o) ↔
    P (.tag d.tag) ∧ ∀ f ∈ d.fields, P (.field f) := by
  rw [names, List.forall_mem_cons, List.forall_mem_map]

theorem Program.forall_names {p : Program} : (∀ o ∈ p.names, P o) ↔
    (∀ d ∈ p.types, ∀ o ∈ d.names, P o) ∧ ∀ d ∈ p.fns, ∀ o ∈ d.names, P o := by
  rw [names, List.forall_mem_append, List.forall_mem_flatMap, List.forall_mem_flatMap]

/-! ## Variables -/

/-- If an occurrence is one of a variable, it is one of certain variables. -/
def OfVar (V : Var → Prop) (o : Occurrence) : Prop := ∀ x, o = .var x → V x

theorem ofVar_var {V : Var → Prop} (hx : V x) : OfVar V (.var x) := by
  intro y heq
  cases heq
  exact hx

theorem ofVar_fn {V : Var → Prop} (f : FnName) : OfVar V (.fn f) := by
  intro x heq
  cases heq

theorem ofVar_tag {V : Var → Prop} (t : Tag) : OfVar V (.tag t) := by
  intro x heq
  cases heq

theorem ofVar_field {V : Var → Prop} (f : Field) : OfVar V (.field f) := by
  intro x heq
  cases heq

theorem ofVar_token {V : Var → Prop} (w : Var) : OfVar V (.token w) := by
  intro x heq
  cases heq

/-- The variables that an expression names are those that it reads. -/
theorem Expr.ofVar_names (e : Expr) : ∀ o ∈ e.names, OfVar (·.text ∈ e.freeVars.texts) o := by
  have hlist {S : List String} {xs : List Var} (hxs : ∀ x ∈ xs, x.text ∈ S) :
      ∀ o ∈ occurrencesOf xs, OfVar (·.text ∈ S) o :=
    forall_occurrencesOf.2 fun x hx => ofVar_var (hxs x hx)
  have hreads (x : Var) (hx : x ∈ e.consumed ∨ x ∈ e.inspected) : x.text ∈ e.freeVars.texts :=
    mem_freeVars.2 ((hx.imp List.mem_map_of_mem List.mem_map_of_mem).imp_right .inl)
  cases e with
  | call f xs | close f xs =>
      exact List.forall_mem_cons.2 ⟨ofVar_fn f, hlist fun x hx => hreads x (.inl hx)⟩
  | apply y xs | extend y xs =>
      exact List.forall_mem_cons.2 ⟨ofVar_var (hreads y (.inr (.head _))),
        hlist fun x hx => hreads x (.inl hx)⟩
  | new c => exact List.forall_mem_cons.2 ⟨ofVar_tag c.tag, hlist fun x hx => hreads x (.inl hx)⟩
  | proj f y =>
      refine List.forall_mem_cons.2 ⟨ofVar_field f, List.forall_mem_singleton.2 (ofVar_var ?_)⟩
      exact hreads y (.inr (.head _))
  | reset y => exact List.forall_mem_singleton.2 (ofVar_var (hreads y (.inl (.head _))))
  | reuse w c =>
      refine List.forall_mem_cons.2 ⟨ofVar_token w, List.forall_mem_cons.2 ⟨ofVar_tag c.tag, ?_⟩⟩
      exact hlist fun x hx => hreads x (.inl hx)

theorem Expr.ofVar_binder {V : Var → Prop} (hx : V x) : OfVar V (e.binder x) := by
  unfold binder
  split
  · exact ofVar_token x
  · exact ofVar_var hx

/-- The variables that a body names are among all its variables. -/
theorem Body.ofVar_names {vars : VarSet} : ∀ o ∈ b.names, OfVar (·.text ∈ (b.allVars vars).texts) o := by
  induction b generalizing vars with
  | ret x =>
      refine List.forall_mem_singleton.2 (ofVar_var ?_)
      exact OrderedSet.mem_texts_union.2 (.inr (OrderedSet.mem_texts_singleton.2 rfl))
  | bind x e b ih =>
      rw [allVars]
      refine forall_names_bind.2 ⟨Expr.ofVar_binder ?_, fun o ho y heq => ?_, ih⟩
      · exact mem_allVars_of_mem (OrderedSet.mem_texts_insert.2 (.inr rfl))
      · refine mem_allVars_of_mem (OrderedSet.mem_texts_insert.2 (.inl (OrderedSet.mem_texts_union.2 (.inr ?_))))
        exact mem_freeVars_bind.2 (.inl (e.ofVar_names o ho y heq))
  | case x arms ih =>
      rw [allVars]
      refine forall_names_case.2 ⟨ofVar_var ?_, fun arm harm => ⟨ofVar_tag arm.1, fun o ho y heq => ?_⟩⟩
      · refine mem_allVarsArms_of_mem (fun _ _ _ => mem_allVars_of_mem) (OrderedSet.mem_texts_union.2 (.inr ?_))
        exact mem_freeVars_case.2 (.inl rfl)
      · obtain ⟨before, hbefore⟩ := allVars_of_mem harm
        exact hbefore _ (ih arm harm o ho y heq)
  | inc x b ih =>
      rw [allVars]
      refine forall_names_inc.2 ⟨ofVar_var (mem_allVars_of_mem ?_), ih⟩
      exact OrderedSet.mem_texts_union.2 (.inr (mem_freeVars_inc.2 (.inl rfl)))
  | dec x b ih =>
      rw [allVars]
      refine forall_names_dec.2 ⟨ofVar_var (mem_allVars_of_mem ?_), ih⟩
      exact OrderedSet.mem_texts_union.2 (.inr (mem_freeVars_dec.2 (.inl rfl)))

theorem FnDef.mem_allVars_of_names {d : FnDef} (hx : .var x ∈ d.names) : x.text ∈ d.allVars.texts := by
  have hall : ∀ o ∈ d.names, OfVar (·.text ∈ d.allVars.texts) o := by
    refine forall_names.2 ⟨ofVar_fn d.name, fun x hx => ofVar_var ?_, Body.ofVar_names⟩
    exact Body.mem_allVars_of_mem (OrderedSet.mem_texts_ofList.2 (List.mem_map_of_mem hx))
  exact hall _ hx x rfl

/-! ## Their places -/

theorem span_binder (e : Expr) (x : Var) : (e.binder x).span = x.span := by
  unfold Expr.binder
  split <;> rfl

theorem map_span_occurrencesOf (xs : List Var) :
    (occurrencesOf xs).map Occurrence.span = spansOf xs := List.map_map

theorem Expr.spans_eq (e : Expr) : e.spans = e.names.map Occurrence.span := by
  cases e <;> simp only [names, spans, List.map_cons, List.map_nil, map_span_occurrencesOf] <;> rfl

theorem spansArms_eq (arms : List Arm) :
    spansArms arms = arms.flatMap fun arm => arm.1.span :: arm.2.spans := by
  induction arms with
  | nil => rfl
  | cons arm rest ih =>
      obtain ⟨tag, b⟩ := arm
      rw [spansArms, ih, List.flatMap_cons, List.cons_append]

theorem Body.spans_eq (b : Body) : b.spans = b.names.map Occurrence.span := by
  induction b with
  | ret x => rfl
  | bind x e b ih =>
      rw [spans, names, List.map_cons, List.map_append, span_binder, e.spans_eq, ih]
  | case x arms ih =>
      rw [spans, names, spansArms_eq, namesArms_eq, List.map_cons, List.map_flatMap]
      refine congrArg (x.span :: ·) (List.flatMap_congr fun arm harm => ?_)
      rw [List.map_cons, ih arm harm]
      rfl
  | inc x b ih | dec x b ih =>
      rw [spans, names, List.map_cons, ih]
      rfl

/-- The places of a program are those of its names. -/
theorem Program.spans_eq (p : Program) : p.spans = p.names.map Occurrence.span := by
  have htypes (d : TypeDef) : d.spans = d.names.map Occurrence.span := by
    rw [TypeDef.spans, TypeDef.names, List.map_cons, List.map_map]
    rfl
  have hfns (d : FnDef) : d.spans = d.names.map Occurrence.span := by
    rw [FnDef.spans, FnDef.names, List.map_cons, List.map_append, map_span_occurrencesOf,
      d.body.spans_eq]
    rfl
  rw [names, List.map_append, List.map_flatMap, List.map_flatMap]
  simp only [← htypes, ← hfns]
  rfl

end Reclaim.Core
