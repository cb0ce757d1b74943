import Reclaim.Proofs.Eval.Outcomes

/-!
# What computations leave true of the heap

A computation maintains a property of heaps if the heap that it leaves behind has the property whenever
the heap that it found has it, whether the computation ends with a result or halts (`Eval.Maintains`).
Reading maintains every property, since it changes nothing, and so does building a record that is not put
into a cell yet.
-/

namespace Reclaim

open Reclaim.Core

variable {α β : Type} {I : Heap → Prop} {m : Eval α} {f : α → Eval β} {p : Program} {env : Env}
  {x : Var} {xs : List Var}

/-- The heap that is left behind has a property if the heap that is found has it. -/
def Eval.Maintains (I : Heap → Prop) (m : Eval α) : Prop := ∀ ⦃h⦄, I h → I (m h).2

namespace Eval

theorem Maintains.after {h h' : Heap} {o : Except Halt α} (hm : Maintains I m)
    (heq : m h = (o, h')) (hI : I h) : I h' := by
  have hleft := hm hI
  rwa [heq] at hleft

theorem maintains_pure (a : α) : Maintains I (pure a : Eval α) := fun _ hI => hI

theorem maintains_fail (fault : Fault) : Maintains I (fail fault : Eval α) := fun _ hI => hI

/-- A sequence, where the second part may use that the first has come to a result. -/
theorem Maintains.bind_ok (hm : Maintains I m)
    (hf : ∀ ⦃h a h'⦄, m h = (.ok a, h') → I h' → I (f a h').2) : Maintains I (m >>= f) := by
  intro h hI
  have hleft := hm hI
  rcases heq : m h with ⟨e | a, h'⟩ <;> rw [heq] at hleft
  · rw [Eval.bind_error heq]
    exact hleft
  · rw [Eval.bind_ok heq]
    exact hf heq hleft

theorem Maintains.bind (hm : Maintains I m) (hf : ∀ a, Maintains I (f a)) :
    Maintains I (m >>= f) :=
  hm.bind_ok fun _ a _ _ hI => hf a hI

/-- Whether it succeeds or fails, a heap operation leaves its heap behind. -/
theorem onHeap_snd (span : Span) (op : Heap → HeapResult α) (h : Heap) :
    (onHeap span op h).2 = (op h).2 := by
  unfold onHeap
  split <;> simp [*]

theorem maintains_onHeap {span : Span} {op : Heap → HeapResult α} (hop : ∀ ⦃h⦄, I h → I (op h).2) :
    Maintains I (onHeap span op) := by
  intro h hI
  rw [onHeap_snd]
  exact hop hI

end Eval

open Eval

/-! ## Reading -/

theorem maintains_read (env : Env) (x : Var) : Maintains I (env.read x) := by
  unfold Env.read
  cases env.find? x with
  | none => exact maintains_fail _
  | some l => exact maintains_pure l

theorem maintains_readAll (env : Env) (xs : List Var) : Maintains I (env.readAll xs) := by
  induction xs with
  | nil => exact maintains_pure _
  | cons x rest ih =>
      rw [Env.readAll, List.mapM_cons]
      exact (maintains_read env x).bind fun l => Maintains.bind ih fun ls => maintains_pure _

theorem maintains_readValue (env : Env) (x : Var) : Maintains I (readValue env x) :=
  (maintains_read env x).bind fun _ => maintains_onHeap fun _ hI => hI

theorem maintains_readRecord (env : Env) (x : Var) : Maintains I (readRecord env x) := by
  refine (maintains_readValue env x).bind fun v => ?_
  cases v with
  | record tag fields => exact maintains_pure _
  | closure target args => exact maintains_fail _

theorem maintains_readClosure (env : Env) (x : Var) : Maintains I (readClosure env x) := by
  refine (maintains_readValue env x).bind fun v => ?_
  cases v with
  | record tag fields => exact maintains_fail _
  | closure target args => exact maintains_pure _

theorem maintains_buildRecord (p : Program) (env : Env) (c : Construction) :
    Maintains I (buildRecord p env c) := by
  unfold buildRecord
  cases p.type? c.tag with
  | none => exact maintains_fail _
  | some d =>
      dsimp only
      split
      · exact (maintains_readAll env c.fields).bind fun _ => maintains_pure _
      · exact maintains_fail _

/-- A closure is taken apart by adding references to what it has captured. -/
theorem maintains_forward (hinc : ∀ ⦃h⦄ ls, I h → I (h.inc ls).2) (env : Env) (x : Var)
    (xs : List Var) : Maintains I (forward env x xs) := by
  refine (maintains_readClosure env x).bind fun r => ?_
  refine (maintains_readAll env xs).bind fun args => ?_
  exact (maintains_onHeap fun _ hI => hinc r.2 hI).bind fun _ => maintains_pure _

theorem maintains_reset (hreset : ∀ ⦃h⦄ l, I h → I (h.reset l).2) (p : Program) (call : Caller)
    (env : Env) (x : Var) : Maintains I (evalExpr p call env (.reset x)) := by
  rw [evalExpr]
  exact (maintains_read env x).bind fun l => maintains_onHeap fun _ hI => hreset l hI

theorem maintains_proj (p : Program) (call : Caller) (env : Env) (field : Field) (record : Var) :
    Maintains I (evalExpr p call env (.proj field record)) := by
  rw [evalExpr]
  refine (maintains_readRecord env record).bind fun r => ?_
  obtain ⟨tag, fields⟩ := r
  dsimp only
  cases fields.get? field with
  | none => exact maintains_fail _
  | some l => exact maintains_pure l

end Reclaim
