import Reclaim.Proofs.Eval.Invariants
import Reclaim.Proofs.Validity

/-!
# Valid programs do not go wrong

At a *legal* point the variables that the body reads are bound, the body fits the program, and so
does what the cells hold (`Legal`).  A valid program enters every function at a legal point, and from
there visits only legal points (`Legal.visits`).

What is done at a legal point may meet a value of the wrong shape.  But it names no variable, function
or constructor that does not exist, and only where a closure is applied or extended can it miss the
number of parameters of a function, since how much a closure has captured is not known before it runs
(`Legal.permits`).  So nothing else goes wrong in a valid program (`calls_fail_safely`).
-/

namespace Reclaim

open Reclaim.Core Reclaim.Eval
open Relation (ReflTransGen)

variable {α β : Type} {p : Program} {P : Fault → Prop} {m : Eval α} {f : α → Eval β} {env : Env}
  {x : Var} {xs : List Var} {e : Expr} {h h' : Heap} {d : FnDef} {target : FnName}
  {args : List Location} {depth : Nat} {fault : Fault} {c c' : Point}

/-! ## Faults -/

/-- The faults of a value that is not what it is used as. -/
def Fault.OfValue : Fault → Prop
  | .unknownField .. | .notRecord _ | .notClosure _ | .missing .. | .noArm .. => True
  | _ => False

/-- The faults of a function that is given too few or too many arguments. -/
def Fault.OfArity : Fault → Prop
  | .arity .. | .saturated .. => True
  | _ => False

/-- Whether an expression hands arguments to a closure. -/
def Core.Expr.AppliesClosure : Expr → Prop
  | .apply .. | .extend .. => True
  | _ => False

/-- The faults that an expression of a valid program may raise itself. -/
def Core.Expr.Permits (e : Expr) (fault : Fault) : Prop :=
  fault.OfValue ∨ e.AppliesClosure ∧ fault.OfArity

/-- The faults that may be raised at a point of a valid program. -/
def Core.Body.Permits (b : Body) (fault : Fault) : Prop :=
  fault.OfValue ∨ ∃ x e rest, b = .bind x e rest ∧ e.AppliesClosure ∧ fault.OfArity

/-! ## Computations that raise given faults only -/

/-- On a heap, a computation raises no faults but those in `P`. -/
def Eval.RaisesOnly (P : Fault → Prop) (m : Eval α) (h : Heap) : Prop :=
  ∀ ⦃fault h'⦄, m h = (.error (.fault fault), h') → P fault

namespace Eval

theorem raisesOnly_ok {a : α} (hm : m h = (.ok a, h')) : RaisesOnly P m h := by
  intro fault h'' hfail
  rw [hm] at hfail
  cases hfail

theorem raisesOnly_pure (a : α) : RaisesOnly P (pure a : Eval α) h := raisesOnly_ok rfl

theorem raisesOnly_fail (hP : P fault) : RaisesOnly P (fail fault : Eval α) h := by
  intro fault' h' hfail
  cases hfail
  exact hP

theorem RaisesOnly.bind (hm : RaisesOnly P m h)
    (hf : ∀ a h', m h = (.ok a, h') → RaisesOnly P (f a) h') : RaisesOnly P (m >>= f) h := by
  intro fault h' hfail
  rcases of_bind_error hfail with herror | ⟨a, mid, hok, hfail⟩
  · exact hm herror
  · exact hf a mid hok hfail

/-- A heap operation fails for a missing cell only. -/
theorem raisesOnly_onHeap {span : Span} {op : Heap → HeapResult α}
    (hP : ∀ cell, P (.missing cell span)) : RaisesOnly P (onHeap span op) h := by
  intro fault h' hfail
  unfold onHeap at hfail
  split at hfail
  · cases hfail
  · cases hfail
    exact hP _

end Eval

/-! ## Reading variables -/

/-- Reading a variable raises no faults but those in `P`. -/
def MayRead (P : Fault → Prop) (env : Env) (x : Var) : Prop := env.Bound x.text ∨ P (.unbound x)

/-- Nor does looking at its value, whatever that is. -/
structure MayInspect (P : Fault → Prop) (env : Env) (x : Var) : Prop where
  /-- It can be read. -/
  read : MayRead P env x
  /-- Its location may have no cell. -/
  missing : ∀ cell, P (.missing cell x.span)
  /-- It may be a closure where a record is wanted. -/
  notRecord : P (.notRecord x)
  /-- It may be a record where a closure is wanted. -/
  notClosure : P (.notClosure x)
  /-- There may be no arm for its tag. -/
  noArm : ∀ tag, P (.noArm x tag)

theorem mayInspect_of_bound (hP : ∀ fault : Fault, fault.OfValue → P fault) (hx : env.Bound x.text) :
    MayInspect P env x where
  read := .inl hx
  missing cell := hP (.missing cell x.span) trivial
  notRecord := hP (.notRecord x) trivial
  notClosure := hP (.notClosure x) trivial
  noArm tag := hP (.noArm x tag) trivial

theorem raisesOnly_read (hx : MayRead P env x) : RaisesOnly P (env.read x) h := by
  rcases hx with hx | hx
  · exact raisesOnly_ok (read_eq hx h)
  · unfold Env.read
    split
    · exact raisesOnly_pure _
    · exact raisesOnly_fail hx

theorem raisesOnly_readAll (hxs : ∀ x ∈ xs, MayRead P env x) : RaisesOnly P (env.readAll xs) h := by
  unfold Env.readAll
  induction xs generalizing h with
  | nil => exact raisesOnly_pure _
  | cons x rest ih =>
      obtain ⟨hx, hrest⟩ := List.forall_mem_cons.1 hxs
      rw [List.mapM_cons]
      refine (raisesOnly_read hx).bind fun l h₁ _ => ?_
      exact (ih hrest).bind fun ls h₂ _ => raisesOnly_pure _

section

variable (hx : MayInspect P env x)

include hx

theorem raisesOnly_readValue : RaisesOnly P (readValue env x) h := by
  refine (raisesOnly_read hx.read).bind ?_
  intro l h' _
  exact raisesOnly_onHeap hx.missing

theorem raisesOnly_readRecord : RaisesOnly P (readRecord env x) h := by
  refine (raisesOnly_readValue hx).bind ?_
  intro v h' _
  cases v with
  | record tag fields => exact raisesOnly_pure _
  | closure target captured => exact raisesOnly_fail hx.notRecord

theorem raisesOnly_readClosure : RaisesOnly P (readClosure env x) h := by
  refine (raisesOnly_readValue hx).bind ?_
  intro v h' _
  cases v with
  | record tag fields => exact raisesOnly_fail hx.notClosure
  | closure target captured => exact raisesOnly_pure _

theorem raisesOnly_forward (hxs : ∀ y ∈ xs, MayRead P env y) : RaisesOnly P (forward env x xs) h := by
  refine (raisesOnly_readClosure hx).bind ?_
  intro r h₁ _
  refine (raisesOnly_readAll hxs).bind ?_
  intro args h₂ _
  refine (raisesOnly_onHeap hx.missing).bind ?_
  intro _ h₃ _
  exact raisesOnly_pure _

theorem raisesOnly_chooseArm {arms : List Arm} : RaisesOnly P (chooseArm env x arms) h := by
  refine (raisesOnly_readRecord hx).bind ?_
  rintro ⟨tag, fields⟩ h' _
  dsimp only
  cases findArm arms tag with
  | none => exact raisesOnly_fail (hx.noArm tag)
  | some b => exact raisesOnly_pure b

/-- The value of a field is read, or there is no such field. -/
theorem raisesOnly_proj {call : Caller} {field : Field} (hfield : ∀ tag, P (.unknownField tag field)) :
    RaisesOnly P (evalExpr p call env (.proj field x)) h := by
  rw [evalExpr]
  refine (raisesOnly_readRecord hx).bind ?_
  rintro ⟨tag, fields⟩ h' _
  dsimp only
  cases fields.get? field with
  | none => exact raisesOnly_fail (hfield tag)
  | some l => exact raisesOnly_pure l

theorem raisesOnly_reset {call : Caller} : RaisesOnly P (evalExpr p call env (.reset x)) h := by
  rw [evalExpr]
  refine (raisesOnly_read hx.read).bind ?_
  intro l h' _
  exact raisesOnly_onHeap hx.missing

theorem raisesOnly_addReference : RaisesOnly P (addReference env x) h := by
  refine (raisesOnly_read hx.read).bind ?_
  intro l h' _
  exact raisesOnly_onHeap hx.missing

theorem raisesOnly_dropReference : RaisesOnly P (dropReference env x) h := by
  refine (raisesOnly_read hx.read).bind ?_
  intro l h' _
  exact raisesOnly_onHeap hx.missing

end

/-! ## Functions, closures and records -/

/-- The function of a closure that is taken apart is one of the program. -/
theorem fn?_of_forward (fits : h.Fits p) (hx : env.Bound x.text)
    (hforward : forward env x xs h = (.ok (target, args), h')) : ∃ d, p.fn? target = some d := by
  obtain ⟨⟨name, captured⟩, h₁, hclosure, hrest⟩ := of_bind_ok hforward
  obtain ⟨ls, h₂, -, hrest⟩ := of_bind_ok hrest
  obtain ⟨_, h₃, -, htarget⟩ := of_bind_ok hrest
  obtain ⟨v, h₄, hread, hshape⟩ := of_bind_ok hclosure
  cases htarget
  cases hv : h.value? (env.loc x.text) with
  | none =>
      rw [readValue_missing hx hv] at hread
      cases hread
  | some w =>
      -- The closure has been read from a cell, and so it fits the program.
      rw [readValue_eq hx hv] at hread
      cases hread
      cases v with
      | record tag fields => cases hshape
      | closure name captured =>
          cases hshape
          obtain ⟨d, hd, -⟩ := fits hv
          exact ⟨d, hd⟩

/-- Where a function of the program is called, only the number of arguments can be wrong. -/
theorem raisesOnly_consult (hd : p.fn? target = some d)
    (hP : d.params.length = args.length ∨ ∀ fault : Fault, fault.OfArity → P fault) :
    RaisesOnly P (consult p target args) h := by
  rw [consult, hd]
  dsimp only
  split
  · exact raisesOnly_pure _
  · next hne => exact raisesOnly_fail (hP.resolve_left hne (.arity ..) trivial)

/-- So it is where a closure of the function is made. -/
theorem raisesOnly_allocClosure (hd : p.fn? target = some d)
    (hP : args.length < d.params.length ∨ ∀ fault : Fault, fault.OfArity → P fault) :
    RaisesOnly P (allocClosure p target args) h := by
  rw [allocClosure, hd]
  dsimp only
  split
  · exact raisesOnly_ok rfl
  · next hle => exact raisesOnly_fail (hP.resolve_left hle (.saturated ..) trivial)

/-- A record that fits the program is built without fail. -/
theorem raisesOnly_buildRecord {c : Construction} (hc : c.Fits p)
    (hfields : ∀ y ∈ c.fields, MayRead P env y) : RaisesOnly P (buildRecord p env c) h := by
  obtain ⟨d, hd, hlen⟩ := hc
  rw [buildRecord, hd]
  dsimp only
  rw [if_pos hlen.symm]
  refine (raisesOnly_readAll hfields).bind ?_
  intro ls h' _
  exact raisesOnly_pure _

/-! ## Expressions -/

/-- An expression that fits the program raises no faults but those that it may raise. -/
theorem raisesOnly_evalExpr (he : e.Fits p) (fits : h.Fits p)
    (hreads : ∀ t ∈ e.freeVars.texts, env.Bound t) :
    RaisesOnly e.Permits (evalExpr p (consult p) env e) h := by
  have hvalue : ∀ fault : Fault, fault.OfValue → e.Permits fault := fun _ => .inl
  have hconsumed : ∀ y ∈ e.consumed, MayRead e.Permits env y := fun y hy =>
    .inl (hreads _ (Expr.mem_freeVars.2 (.inl (List.mem_map_of_mem hy))))
  have hbound : ∀ y ∈ e.inspected, env.Bound y.text := fun y hy =>
    hreads _ (Expr.mem_freeVars.2 (.inr (.inl (List.mem_map_of_mem hy))))
  have hinspected : ∀ y ∈ e.inspected, MayInspect e.Permits env y := fun y hy =>
    mayInspect_of_bound hvalue (hbound y hy)
  have hspent : ∀ y ∈ e.spent, MayRead e.Permits env y := fun y hy =>
    .inl (hreads _ (Expr.mem_freeVars.2 (.inr (.inr (List.mem_map_of_mem hy)))))
  cases e with
  | call target xs =>
      obtain ⟨d, hd, hlen⟩ := he
      rw [evalExpr]
      refine (raisesOnly_readAll hconsumed).bind ?_
      intro args h' hargs
      exact raisesOnly_consult hd (.inl (hlen.symm.trans (length_of_readAll hargs).symm))
  | close target xs =>
      obtain ⟨d, hd, hlt⟩ := he
      rw [evalExpr]
      refine (raisesOnly_readAll hconsumed).bind ?_
      intro args h' hargs
      exact raisesOnly_allocClosure hd (.inl ((length_of_readAll hargs).trans_lt hlt))
  | apply x xs =>
      rw [evalExpr]
      refine (raisesOnly_forward (hinspected x (.head _)) hconsumed).bind ?_
      rintro ⟨target, args⟩ h' hforward
      obtain ⟨d, hd⟩ := fn?_of_forward fits (hbound x (.head _)) hforward
      exact raisesOnly_consult hd (.inr fun fault harity => .inr ⟨trivial, harity⟩)
  | extend x xs =>
      rw [evalExpr]
      refine (raisesOnly_forward (hinspected x (.head _)) hconsumed).bind ?_
      rintro ⟨target, args⟩ h' hforward
      obtain ⟨d, hd⟩ := fn?_of_forward fits (hbound x (.head _)) hforward
      exact raisesOnly_allocClosure hd (.inr fun fault harity => .inr ⟨trivial, harity⟩)
  | new c =>
      rw [evalExpr]
      refine (raisesOnly_buildRecord he hconsumed).bind ?_
      intro v h' _
      exact raisesOnly_ok rfl
  | proj field record =>
      exact raisesOnly_proj (hinspected record (.head _)) fun tag =>
        hvalue (.unknownField tag field) trivial
  | reset x =>
      have hx : env.Bound x.text := hreads _ (Expr.mem_freeVars.2 (.inl (.head _)))
      exact raisesOnly_reset (mayInspect_of_bound hvalue hx)
  | reuse token c =>
      rw [evalExpr]
      refine (raisesOnly_read (hspent token (.head _))).bind ?_
      intro l h₁ _
      refine (raisesOnly_buildRecord he hconsumed).bind ?_
      intro v h₂ _
      exact raisesOnly_onHeap fun cell => hvalue (.missing cell token.span) trivial

/-! ## Legal points -/

/-- A point where the variables that are read are bound, and the body and the heap fit the program. -/
structure Legal (p : Program) (c : Point) : Prop where
  /-- Every variable is in scope where it is read, and what is in scope is bound. -/
  scope : ∃ S, Bound (fun _ => True) S c.body ∧ ∀ t ∈ S, c.env.Bound t
  /-- The body respects the definitions of the program. -/
  body : c.body.Fits p
  /-- So do the values in cells. -/
  heap : c.heap.Fits p

/-- The functions of a valid program are entered at legal points. -/
theorem legal_entry (hp : p.validate = .ok ()) (hd : d ∈ p.fns)
    (hlen : d.params.length = args.length) (fits : h.Fits p) (depth : Nat) :
    Legal p (.entry d args depth h) := by
  obtain ⟨hparams, hscope, hbody⟩ := checkFn_eq_ok.1 (checkFn_of_mem hp hd)
  refine ⟨⟨_, hscope, ?_⟩, hbody, fits⟩
  intro t ht
  obtain ⟨x, hx, rfl⟩ := List.mem_map.1 ht
  exact Env.bound_ofArgs (nodup_of_checkParams hparams).1 hlen (List.mem_reverse.1 hx)

namespace Legal

/-- Legal points lead to legal points. -/
theorem leads (hp : p.validate = .ok ()) (legal : Legal p c) (hleads : Leads p c c') :
    Legal p c' := by
  have fits := (invariant_fits p).leads hleads legal.heap
  obtain ⟨S, hscope, henv⟩ := legal.scope
  have hbody := legal.body
  cases hleads with
  | rest he =>
      obtain ⟨-, -, -, hrest⟩ := bound_bind.1 hscope
      refine ⟨⟨_, hrest, ?_⟩, (Body.fits_bind.1 hbody).2, fits⟩
      intro t ht
      rcases List.mem_cons.1 ht with rfl | ht
      · exact Env.bound_bind_self
      · exact (henv t ht).bind
  | call _ hd hlen =>
      -- The function has been looked up in the program, whoever named it.
      exact legal_entry hp (Program.mem_of_fn? hd) hlen fits _
  | arm harm =>
      obtain ⟨arm, hmem, rfl⟩ := mem_of_chooseArm harm
      exact ⟨⟨S, (bound_case.1 hscope).2 _ hmem, henv⟩, (Body.fits_case.1 hbody).2 _ hmem, fits⟩
  | inc hinc => exact ⟨⟨S, (bound_inc.1 hscope).2, henv⟩, Body.fits_inc.1 hbody, fits⟩
  | dec hdec => exact ⟨⟨S, (bound_dec.1 hscope).2, henv⟩, Body.fits_dec.1 hbody, fits⟩

/-- Only legal points are visited from a legal point. -/
theorem visits (hp : p.validate = .ok ()) (legal : Legal p c)
    (hvisits : ReflTransGen (Leads p) c c') : Legal p c' := by
  induction hvisits with
  | refl => exact legal
  | tail _ hleads ih => exact ih.leads hp hleads

theorem raisesOnly_first (legal : Legal p c) :
    RaisesOnly c.body.Permits (c.body.first p c.env) c.heap := by
  obtain ⟨n, env, b, h⟩ := c
  obtain ⟨⟨S, hscope, henv⟩, hbody, fits⟩ := legal
  dsimp only at hscope henv hbody fits ⊢
  have hvalue : ∀ fault : Fault, fault.OfValue → b.Permits fault := fun _ => .inl
  cases b with
  | ret x =>
      refine (raisesOnly_read (.inl (henv _ (bound_ret.1 hscope)))).bind ?_
      intro l h' _
      exact raisesOnly_pure _
  | bind x e b =>
      obtain ⟨he, -⟩ := Body.fits_bind.1 hbody
      obtain ⟨hreads, -⟩ := bound_bind.1 hscope
      have honly : RaisesOnly (Body.bind x e b).Permits (evalExpr p (consult p) env e) h := by
        intro fault h' hfail
        rcases raisesOnly_evalExpr he fits (fun t ht => henv t (hreads t ht)) hfail with
          hv | ⟨happly, harity⟩
        · exact .inl hv
        · exact .inr ⟨x, e, b, rfl, happly, harity⟩
      refine honly.bind ?_
      intro l h' _
      exact raisesOnly_pure _
  | case x arms =>
      have hx := mayInspect_of_bound hvalue (henv _ (bound_case.1 hscope).1)
      refine (raisesOnly_chooseArm hx).bind ?_
      intro b h' _
      exact raisesOnly_pure _
  | inc x b =>
      have hx := mayInspect_of_bound hvalue (henv _ (bound_inc.1 hscope).1)
      exact raisesOnly_addReference hx
  | dec x b =>
      have hx := mayInspect_of_bound hvalue (henv _ (bound_dec.1 hscope).1)
      exact raisesOnly_dropReference hx

/-- What is done at a legal point raises no faults but those that may be raised there. -/
theorem permits (legal : Legal p c) (hraises : c.Raises p fault h) : c.body.Permits fault :=
  legal.raisesOnly_first hraises

end Legal

/-! ## The main statement -/

theorem Fault.OfValue.message (hv : fault.OfValue) : fault.diagnostic.message ∈
    ["unknown field", "expected a constructor value", "expected a partial application",
      "missing heap location", "non-exhaustive match"] := by
  cases fault <;> simp_all [Fault.OfValue, Fault.diagnostic, Diagnostic.error]

theorem Fault.OfArity.message (ha : fault.OfArity) :
    fault.diagnostic.message = "arity mismatch" := by
  cases fault <;> simp_all [Fault.OfArity, Fault.diagnostic, Diagnostic.error]

/-- On every heap that a valid program reaches, the evaluation of a function on the right number of
arguments names no variable, function or constructor that does not exist, and it misses the number of
parameters of a function only at a point where a closure is applied or extended. -/
theorem calls_fail_safely (hp : p.validate = .ok ()) (hr : Reached p h) (hd : d ∈ p.fns)
    (hlen : d.params.length = args.length)
    (hfail : (Point.entry d args depth h).outcome p = (.error (.fault fault), h')) :
    fault.diagnostic.message ≠ "reference to unbound variable" ∧
    fault.diagnostic.message ≠ "reference to unknown function" ∧
    fault.diagnostic.message ≠ "reference to unknown constructor" ∧
    (fault.diagnostic.message = "arity mismatch" → ∃ c x e b,
      ReflTransGen (Leads p) (.entry d args depth h) c ∧ c.body = .bind x e b ∧ e.AppliesClosure ∧
      c.Raises p fault h') := by
  obtain ⟨c, hvisits, hraises⟩ := exists_raises hfail
  have legal := (legal_entry hp hd hlen hr.fits depth).visits hp hvisits
  rcases legal.permits hraises with hv | ⟨x, e, b, hbody, happly, harity⟩
  · have hmessage := hv.message
    refine ⟨?_, ?_, ?_, ?_⟩ <;>
      · intro heq
        rw [heq] at hmessage
        simp at hmessage
  · rw [harity.message]
    exact ⟨by decide, by decide, by decide, fun _ => ⟨c, x, e, b, hvisits, hbody, happly, hraises⟩⟩

/-- A program that makes a closure that wants two arguments, and applies closures to one. -/
def hastyProgram : Program where
  types := []
  fns := [
    ⟨⟨"first", .none⟩, [⟨"x", .none⟩, ⟨"y", .none⟩], .ret ⟨"x", .none⟩⟩,
    ⟨⟨"make", .none⟩, [], .bind ⟨"c", .none⟩ (.close ⟨"first", .none⟩ []) (.ret ⟨"c", .none⟩)⟩,
    ⟨⟨"use", .none⟩, [⟨"c", .none⟩, ⟨"u", .none⟩],
      .bind ⟨"r", .none⟩ (.apply ⟨"c", .none⟩ [⟨"u", .none⟩]) (.ret ⟨"r", .none⟩)⟩]

/-- The closure is made by one call and applied by the next, which fails where it does so. -/
theorem calls_fail_safely_hasty : ∃ h d args fault h', hastyProgram.validate = .ok () ∧
    Reached hastyProgram h ∧ d ∈ hastyProgram.fns ∧ d.params.length = args.length ∧
    (Point.entry d args 1 h).outcome hastyProgram = (.error (.fault fault), h') ∧
    fault.diagnostic.message = "arity mismatch" ∧ ∃ c x e b,
      ReflTransGen (Leads hastyProgram) (.entry d args 1 h) c ∧ c.body = .bind x e b ∧
      e.AppliesClosure ∧ c.Raises hastyProgram fault h' := by
  have hp : hastyProgram.validate = .ok () := rfl
  have hr : Reached hastyProgram (callFn hastyProgram 1 ⟨"make", .none⟩ [] .empty).2 :=
    Reached.empty.callFn 1 _ _
  have hd : hastyProgram.fns[2] ∈ hastyProgram.fns := List.getElem_mem _
  have hfail : (Point.entry hastyProgram.fns[2] [.cell 0, .cell 0] 1
      (callFn hastyProgram 1 ⟨"make", .none⟩ [] .empty).2).outcome hastyProgram =
        (.error (.fault (.arity ⟨"first", .none⟩ 2 1)), _) := rfl
  have hmessage : (Fault.arity ⟨"first", .none⟩ 2 1).diagnostic.message = "arity mismatch" := rfl
  obtain ⟨-, -, -, harity⟩ := calls_fail_safely hp hr hd rfl hfail
  exact ⟨_, _, _, _, _, hp, hr, hd, rfl, hfail, hmessage, harity hmessage⟩

end Reclaim
