import Reclaim.Proofs.Eval.Maintains
import Reclaim.Proofs.Eval.Points
import Reclaim.Proofs.Heap.Accounts

/-!
# Invariants of evaluation

An invariant is a property of heaps that the operations of the heap keep, as long as the values that
are put into cells fit the definitions of the program (`Invariant`).  Evaluation builds no other
values.  So a heap that an evaluation leaves behind has the property, whether it comes to a result,
fails or is given up (`Invariant.evalBody`, `Invariant.callFn`), and so has the heap at every point on
the way (`Invariant.visits`).

A heap is *reached* if evaluations that follow one another from the empty heap on meet it or leave it
behind (`Reached`).  An invariant that holds of the empty heap holds of every heap that is reached.
-/

namespace Reclaim

open Reclaim.Core Reclaim.Eval
open Relation (ReflTransGen)

variable {p : Program} {I : Heap → Prop} {call : Caller} {env : Env} {h h' : Heap} {v : Value}
  {target : FnName} {args : List Location}

/-! ## Values that fit a program -/

/-- A closure wants more arguments than it has captured, and a record has the fields of its
constructor. -/
def Value.Fits (p : Program) : Value → Prop
  | .closure target args => ∃ d, p.fn? target = some d ∧ args.length < d.params.length
  | .record tag fields => ∃ d ls, p.type? tag = some d ∧ d.fields.length = ls.length ∧
      fields = .ofList (d.fields.zip ls)

theorem fits_of_closureOf (hv : closureOf p target args = .ok v) : v.Fits p := by
  unfold closureOf at hv
  cases hd : p.fn? target with
  | none =>
      rw [hd] at hv
      cases hv
  | some d =>
      rw [hd] at hv
      dsimp only at hv
      split at hv
      · next hlt =>
          cases hv
          exact ⟨d, hd, hlt⟩
      · cases hv

theorem length_of_readAll {xs : List Var} {ls : List Location}
    (hread : env.readAll xs h = (.ok ls, h')) : ls.length = xs.length := by
  induction xs generalizing ls h with
  | nil =>
      cases hread
      rfl
  | cons x rest ih =>
      rw [Env.readAll, List.mapM_cons] at hread
      obtain ⟨l, h₁, -, hrest⟩ := of_bind_ok hread
      obtain ⟨ls', h₂, hls, hcons⟩ := of_bind_ok hrest
      cases hcons
      rw [List.length_cons, List.length_cons, ih hls]

theorem fits_of_buildRecord {c : Construction} (hbuild : buildRecord p env c h = (.ok v, h')) :
    v.Fits p := by
  unfold buildRecord at hbuild
  cases hd : p.type? c.tag with
  | none =>
      rw [hd] at hbuild
      cases hbuild
  | some d =>
      rw [hd] at hbuild
      dsimp only at hbuild
      split at hbuild
      · next hlen =>
          obtain ⟨ls, mid, hls, hv⟩ := of_bind_ok hbuild
          cases hv
          exact ⟨d, ls, hd, hlen.trans (length_of_readAll hls).symm, rfl⟩
      · cases hbuild

/-! ## Invariants -/

theorem maintains_chooseArm (env : Env) (x : Var) (arms : List Arm) :
    Maintains I (chooseArm env x arms) := by
  refine (maintains_readRecord env x).bind fun r => ?_
  obtain ⟨tag, fields⟩ := r
  dsimp only
  cases findArm arms tag with
  | none => exact maintains_fail _
  | some b => exact maintains_pure b

/-- A property of heaps that is kept by what evaluation does to a heap. -/
structure Invariant (p : Program) (I : Heap → Prop) : Prop where
  /-- References may be added. -/
  inc : ∀ ⦃h⦄ ls, I h → I (h.inc ls).2
  /-- References may be given up. -/
  dec : ∀ ⦃h⦄ ls, I h → I (h.dec ls).2
  /-- A cell may be turned into a token. -/
  reset : ∀ ⦃h⦄ l, I h → I (h.reset l).2
  /-- A value that fits the program may be put into a new cell. -/
  alloc : ∀ ⦃h v⦄, v.Fits p → I h → I (h.alloc v).2
  /-- It may be put into the cell of a token, whatever that is. -/
  reuse : ∀ ⦃h v⦄ l, v.Fits p → I h → I (h.reuse l v).2

namespace Invariant

theorem allocClosure (inv : Invariant p I) (target : FnName) (args : List Location) :
    Maintains I (allocClosure p target args) := by
  intro h hI
  rw [allocClosure_eq]
  cases hv : closureOf p target args with
  | error e => exact hI
  | ok v => exact inv.alloc (fits_of_closureOf hv) hI

theorem evalExpr (inv : Invariant p I) (hcall : ∀ target args, Maintains I (call target args))
    (env : Env) (e : Expr) : Maintains I (evalExpr p call env e) := by
  cases e with
  | call target xs =>
      rw [Reclaim.evalExpr]
      exact (maintains_readAll env xs).bind fun args => hcall target args
  | close target xs =>
      rw [Reclaim.evalExpr]
      exact (maintains_readAll env xs).bind fun args => inv.allocClosure target args
  | apply x xs =>
      rw [Reclaim.evalExpr]
      exact (maintains_forward inv.inc env x xs).bind fun r => hcall r.1 r.2
  | extend x xs =>
      rw [Reclaim.evalExpr]
      exact (maintains_forward inv.inc env x xs).bind fun r => inv.allocClosure r.1 r.2
  | new c =>
      rw [Reclaim.evalExpr]
      refine (maintains_buildRecord p env c).bind_ok fun h v h' hbuild hI => ?_
      exact inv.alloc (fits_of_buildRecord hbuild) hI
  | proj field record => exact maintains_proj p call env field record
  | reset x => exact maintains_reset inv.reset p call env x
  | reuse token c =>
      rw [Reclaim.evalExpr]
      refine (maintains_read env token).bind fun l => ?_
      refine (maintains_buildRecord p env c).bind_ok fun h v h' hbuild hI => ?_
      rw [onHeap_snd]
      exact inv.reuse l (fits_of_buildRecord hbuild) hI

theorem addReference (inv : Invariant p I) (env : Env) (x : Var) :
    Maintains I (addReference env x) :=
  (maintains_read env x).bind fun l => maintains_onHeap fun _ hI => inv.inc [l] hI

theorem dropReference (inv : Invariant p I) (env : Env) (x : Var) :
    Maintains I (dropReference env x) :=
  (maintains_read env x).bind fun l => maintains_onHeap fun _ hI => inv.dec [l] hI

theorem evalBody (inv : Invariant p I) (hcall : ∀ target args, Maintains I (call target args))
    (env : Env) (b : Body) : Maintains I (evalBody p call env b) := by
  induction b generalizing env with
  | ret x =>
      rw [Reclaim.evalBody]
      exact maintains_read env x
  | bind x e b ih =>
      rw [Reclaim.evalBody]
      exact (inv.evalExpr hcall env e).bind fun l => ih _
  | case x arms ih =>
      rw [evalBody_case]
      refine (maintains_chooseArm env x arms).bind_ok fun h b h' harm hI => ?_
      obtain ⟨arm, hmem, rfl⟩ := mem_of_chooseArm harm
      exact ih arm hmem env hI
  | inc x b ih =>
      rw [evalBody_inc]
      exact (inv.addReference env x).bind fun _ => ih env
  | dec x b ih =>
      rw [evalBody_dec]
      exact (inv.dropReference env x).bind fun _ => ih env

/-- Calls keep an invariant, to whatever depth they are carried out. -/
theorem callFn (inv : Invariant p I) (depth : Nat) (target : FnName) (args : List Location) :
    Maintains I (callFn p depth target args) := by
  induction depth generalizing target args with
  | zero => exact fun _ hI => hI
  | succ depth ih =>
      intro h hI
      rcases callFn_succ p depth target args h with ⟨fault, -, hfail⟩ | ⟨d, -, -, hbody⟩
      · rw [hfail]
        exact hI
      · rw [hbody]
        exact inv.evalBody ih _ d.body hI

theorem outcome (inv : Invariant p I) {c : Point} (hI : I c.heap) : I (c.outcome p).2 :=
  inv.evalBody (inv.callFn c.depth) c.env c.body hI

/-! ## Points on the way -/

theorem requests (inv : Invariant p I) {e : Expr} (hreq : Requests env h e target args h')
    (hI : I h) : I h' := by
  cases hreq with
  | call hargs => exact (maintains_readAll env _).after hargs hI
  | apply hforward => exact (maintains_forward inv.inc env _ _).after hforward hI

theorem leads (inv : Invariant p I) {c c' : Point} (hleads : Leads p c c') (hI : I c.heap) :
    I c'.heap := by
  cases hleads with
  | rest he => exact (inv.evalExpr (inv.callFn _) _ _).after he hI
  | call hreq => exact inv.requests hreq hI
  | arm harm => exact (maintains_chooseArm _ _ _).after harm hI
  | inc hinc => exact (inv.addReference _ _).after hinc hI
  | dec hdec => exact (inv.dropReference _ _).after hdec hI

/-- The heap at every point on the way has the property. -/
theorem visits (inv : Invariant p I) {c c' : Point} (hvisits : ReflTransGen (Leads p) c c')
    (hI : I c.heap) : I c'.heap := by
  induction hvisits with
  | refl => exact hI
  | tail _ hleads ih => exact inv.leads hleads ih

end Invariant

/-! ## Heaps that are reached -/

/-- A heap that evaluations of functions meet or leave behind, the first of them on the empty heap and
each other one on a heap that is reached. -/
inductive Reached (p : Program) : Heap → Prop where
  | empty : Reached p .empty
  | meet {h : Heap} {d : FnDef} {args : List Location} {depth : Nat} {c : Point} :
      Reached p h → d ∈ p.fns → ReflTransGen (Leads p) (.entry d args depth h) c → Reached p c.heap
  | leave {h : Heap} {d : FnDef} {args : List Location} {depth : Nat} {c : Point} :
      Reached p h → d ∈ p.fns → ReflTransGen (Leads p) (.entry d args depth h) c →
      Reached p (c.outcome p).2

/-- An invariant that holds of the empty heap holds of every heap that is reached. -/
theorem Invariant.reached (inv : Invariant p I) (hempty : I .empty) (hr : Reached p h) : I h := by
  induction hr with
  | empty => exact hempty
  | meet _ _ hvisits ih => exact inv.visits hvisits ih
  | leave _ _ hvisits ih => exact inv.outcome (inv.visits hvisits ih)

/-- What a call leaves behind is reached, whether the call succeeds or not. -/
theorem Reached.callFn (hr : Reached p h) (depth : Nat) (target : FnName) (args : List Location) :
    Reached p (Reclaim.callFn p depth target args h).2 := by
  cases depth with
  | zero => exact hr
  | succ depth =>
      rcases callFn_succ p depth target args h with ⟨fault, -, hfail⟩ | ⟨d, hd, -, hbody⟩
      · rw [hfail]
        exact hr
      · rw [hbody]
        exact hr.leave (Program.mem_of_fn? hd) .refl

/-- So is what a run leaves behind. -/
theorem Reached.run (hr : Reached p h) (depth : Nat) (entry : String) :
    Reached p (Reclaim.run p depth entry h).2 := by
  rw [Reclaim.run]
  cases p.fn? ⟨entry, .none⟩ with
  | none => exact hr
  | some d =>
      dsimp only
      split
      · exact hr.callFn depth d.name []
      · exact hr

/-! ## What the cells hold -/

/-- Every cell of a heap holds a value that fits a program. -/
def Heap.Fits (p : Program) (h : Heap) : Prop := ∀ ⦃l v⦄, h.value? l = some v → v.Fits p

theorem fits_empty (p : Program) : Heap.empty.Fits p := by
  intro l v hv
  simp at hv

theorem Heap.Fits.shrinks (fits : h.Fits p) (s : h.Shrinks h') : h'.Fits p :=
  fun _ _ hv => fits (s.value hv)

/-- Evaluation keeps all cells fit, also those that are used for another value. -/
theorem invariant_fits (p : Program) : Invariant p (Heap.Fits p) where
  inc := fun h ls fits => fits.shrinks (h.inc_recounts ls).shrinks
  dec := fun h ls fits => fits.shrinks (h.dec_shrinks ls)
  reset := fun h l fits => fits.shrinks (h.reset_shrinks l)
  alloc := by
    intro h v hv fits l w hw
    rcases Heap.value_of_alloc hw with rfl | hold
    · exact hv
    · exact fits hold
  reuse := by
    intro h v token hv fits l w hw
    rcases Heap.value_of_reuse hw with rfl | hold
    · exact hv
    · exact fits hold

theorem Reached.fits (hr : Reached p h) : h.Fits p := (invariant_fits p).reached (fits_empty p) hr

end Reclaim
