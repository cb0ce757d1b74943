import Reclaim.Proofs.Counting.Insertion
import Reclaim.Proofs.Eval.Trace
import Reclaim.Proofs.Heap.Growth

/-!
# Evaluation without reference counting

A program that manages no memory itself only makes the heap grow: on a heap that descends, a call with
live arguments never misses a cell, however it ends, and what it leaves behind is an advance of what it
found (`Proceeds`).

The only references that are added without a new cell are those to the arguments that a closure has
captured, each time that it is applied or extended.  A point of the evaluation says to which locations
it adds them (`Point.forwarded`), and the trace of the call says how often that happens.
-/

namespace Reclaim

open Reclaim.Core
open Reclaim.Counting (Unmanaged)

variable {α β : Type} {p : Program} {n : Nat} {env : Env} {h h' mid : Heap} {x : Var} {xs : List Var}
  {e : Expr} {b : Body} {l : Location} {ls args captured log log' : List Location} {target : FnName}

/-! ## Arguments that are handed on -/

/-- The captured arguments that are handed on with further ones. -/
def handedOn (env : Env) (h : Heap) (x : Var) (xs : List Var) : List Location :=
  match readClosure env x h, env.readAll xs h with
  | (.ok (_, captured), _), (.ok _, _) => captured
  | _, _ => []

/-- The captured arguments that an expression hands on. -/
def Core.Expr.forwarded (env : Env) (h : Heap) : Expr → List Location
  | .apply x xs | .extend x xs => handedOn env h x xs
  | _ => []

/-- The captured arguments that are handed on at a point. -/
def Point.forwarded (c : Point) : List Location :=
  match c.body with
  | .bind _ e _ => e.forwarded c.env c.heap
  | _ => []

/-- The captured arguments that are handed on at points, with repetitions. -/
def forwards (cs : List Point) : List Location := cs.flatMap Point.forwarded

/-! ## Computations that read -/

/-- An evaluation ended since it missed a cell. -/
def Halt.IsMissing (halt : Halt) : Prop := halt.diagnostic.message = "missing heap location"

/-- A fault is for a missing cell. -/
def Fault.isMissing : Fault → Bool
  | .missing .. => true
  | _ => false

theorem not_isMissing {fault : Fault} (hfault : fault.isMissing = false) :
    ¬ (Halt.fault fault).IsMissing := by
  cases fault with
  | missing cell span => cases hfault
  | _ => simp [Halt.IsMissing, Halt.diagnostic, Fault.diagnostic, Diagnostic.error]

theorem not_isMissing_exhausted : ¬ Halt.exhausted.IsMissing := by
  simp [Halt.IsMissing, Halt.diagnostic, Diagnostic.bug]

/-- A computation leaves the heap as it is.  It finds the cells that it asks for, and its result satisfies
a condition. -/
def Inspects (h : Heap) (Q : α → Prop) (m : Eval α) : Prop :=
  (∃ a, m h = (.ok a, h) ∧ Q a) ∨ ∃ halt, m h = (.error halt, h) ∧ ¬ halt.IsMissing

namespace Inspects

variable {Q : α → Prop} {R : β → Prop} {m : Eval α} {f : α → Eval β}

theorem pure {a : α} (ha : Q a) : Inspects h Q (pure a) := .inl ⟨a, rfl, ha⟩

theorem fail {fault : Fault} (hfault : fault.isMissing = false) :
    Inspects h Q (Eval.fail fault) := .inr ⟨_, rfl, not_isMissing hfault⟩

theorem bind (hm : Inspects h Q m) (hf : ∀ a, Q a → Inspects h R (f a)) : Inspects h R (m >>= f) := by
  rcases hm with ⟨a, hm, ha⟩ | ⟨halt, hm, hhalt⟩
  · rw [Inspects, Eval.bind_ok hm]
    exact hf a ha
  · exact .inr ⟨halt, Eval.bind_error hm, hhalt⟩

end Inspects

/-- All variables hold live locations. -/
def Env.Live (env : Env) (h : Heap) : Prop := ∀ ⦃x l⦄, env.find? x = some l → h.Live l

namespace Env.Live

theorem bind (henv : env.Live h) (x : Var) (hl : h.Live l) : (env.bind x l).Live h := by
  intro y m hm
  rw [Env.bind, Env.find?, List.find?_cons] at hm
  split at hm
  · cases hm
    exact hl
  · exact henv hm

theorem ofArgs (params : List Var) (hargs : ∀ l ∈ args, h.Live l) : (Env.ofArgs params args).Live h := by
  intro x l hl
  obtain ⟨b, hb, rfl⟩ := Option.map_eq_some_iff.1 hl
  have hmem := List.mem_reverse.1 (List.mem_of_find?_eq_some hb)
  exact hargs b.2 (List.of_mem_zip hmem).2

theorem advances (henv : env.Live h) (a : h.Advances log h') : env.Live h' :=
  fun _ _ hx => a.live (henv hx)

end Env.Live

section

variable (henv : env.Live h)

include henv

theorem inspects_read (x : Var) : Inspects h h.Live (env.read x) := by
  rw [Env.read]
  cases hx : env.find? x with
  | none => exact .fail rfl
  | some l => exact .pure (henv hx)

theorem inspects_readAll (xs : List Var) :
    Inspects h (fun ls => ∀ l ∈ ls, h.Live l) (env.readAll xs) := by
  induction xs with
  | nil => exact .pure (by simp)
  | cons x rest ih =>
      rw [Env.readAll, List.mapM_cons]
      refine (inspects_read henv x).bind fun l hl => Inspects.bind ih fun ls hls => .pure ?_
      exact List.forall_mem_cons.2 ⟨hl, hls⟩

theorem inspects_readValue (x : Var) :
    Inspects h (fun v => ∃ l, h.value? l = some v) (readValue env x) := by
  refine (inspects_read henv x).bind fun l hl => ?_
  obtain ⟨v, hv⟩ := hl
  exact .inl ⟨v, by rw [Eval.onHeap, Heap.get_eq_ok_iff.2 hv], l, hv⟩

theorem inspects_readRecord (x : Var) :
    Inspects h (fun r => ∃ l, h.value? l = some (.record r.1 r.2)) (readRecord env x) := by
  refine (inspects_readValue henv x).bind fun v hv => ?_
  cases v with
  | record tag fields => exact .pure hv
  | closure target args => exact .fail rfl

theorem inspects_readClosure (x : Var) :
    Inspects h (fun r => ∃ l, h.value? l = some (.closure r.1 r.2)) (readClosure env x) := by
  refine (inspects_readValue henv x).bind fun v hv => ?_
  cases v with
  | record tag fields => exact .fail rfl
  | closure target args => exact .pure hv

theorem inspects_chooseArm (x : Var) (arms : List Arm) :
    Inspects h (fun _ => True) (chooseArm env x arms) := by
  refine (inspects_readRecord henv x).bind fun r _ => ?_
  obtain ⟨tag, fields⟩ := r
  dsimp only
  cases findArm arms tag with
  | none => exact .fail rfl
  | some b => exact .pure trivial

/-- A record refers to fields that are live, also if its constructor repeats a field. -/
theorem inspects_buildRecord (c : Construction) :
    Inspects h (fun v => ∀ m ∈ v.children, h.Live m) (buildRecord p env c) := by
  rw [buildRecord]
  cases p.type? c.tag with
  | none => exact .fail rfl
  | some d =>
      dsimp only
      split
      · refine (inspects_readAll henv c.fields).bind fun ls hls => .pure fun m hm => ?_
        have hm := OrderedMap.mem_values_ofList hm
        obtain ⟨entry, hentry, rfl⟩ := List.mem_map.1 hm
        exact hls entry.2 (List.of_mem_zip hentry).2
      · exact .fail rfl

theorem inspects_proj (call : Caller) (d : h.Descends) (field : Field) (record : Var) :
    Inspects h h.Live (evalExpr p call env (.proj field record)) := by
  rw [evalExpr]
  refine (inspects_readRecord henv record).bind fun r hr => ?_
  obtain ⟨tag, fields⟩ := r
  obtain ⟨l, hl⟩ := hr
  dsimp only
  cases hget : fields.get? field with
  | none => exact .fail rfl
  | some m =>
      obtain ⟨entry, hentry, rfl⟩ := Option.map_eq_some_iff.1 hget
      exact .pure (d.live_of_child hl (List.mem_map_of_mem (List.mem_of_find?_eq_some hentry)))

end

/-! ## Outcomes -/

/-- An evaluation has only let the heap grow, with references to the locations of a list.  Its result is
live, or it has ended otherwise than for a missing cell. -/
structure Proceeds (h : Heap) (log : List Location) (o : Except Halt Location × Heap) : Prop where
  /-- The heap has grown. -/
  advances : h.Advances log o.2
  /-- The result is live. -/
  live : ∀ ⦃l⦄, o.1 = .ok l → o.2.Live l
  /-- No cell was missing. -/
  found : ∀ ⦃halt⦄, o.1 = .error halt → ¬ halt.IsMissing

namespace Proceeds

variable {o : Except Halt Location × Heap}

theorem ok (d : h.Descends) (hl : h.Live l) : Proceeds h [] (.ok l, h) :=
  ⟨.refl d, fun _ heq => Except.ok.inj heq ▸ hl, nofun⟩

theorem error {halt : Halt} (d : h.Descends) (hhalt : ¬ halt.IsMissing) :
    Proceeds h [] (.error halt, h) :=
  ⟨.refl d, nofun, fun _ heq => Except.error.inj heq ▸ hhalt⟩

theorem alloc {v : Value} (d : h.Descends) (hv : ∀ m ∈ v.children, h.Live m) :
    Proceeds h [] (.ok (h.alloc v).1, (h.alloc v).2) := by
  refine ⟨.alloc d hv, fun l heq => ?_, nofun⟩
  cases heq
  exact ⟨v, by rw [Heap.value?_alloc, if_pos rfl]⟩

theorem of_inspects {m : Eval Location} (d : h.Descends) (hm : Inspects h h.Live m) :
    Proceeds h [] (m h) := by
  rcases hm with ⟨l, hm, hl⟩ | ⟨halt, hm, hhalt⟩
  · rw [hm]
    exact .ok d hl
  · rw [hm]
    exact .error d hhalt

theorem after (a : h.Advances log mid) (ho : Proceeds mid log' o) : Proceeds h (log ++ log') o :=
  ⟨a.trans ho.advances, ho.live, ho.found⟩

end Proceeds

/-! ## Expressions -/

theorem proceeds_allocClosure (d : h.Descends) (hargs : ∀ l ∈ args, h.Live l) :
    Proceeds h [] (allocClosure p target args h) := by
  rw [allocClosure]
  cases p.fn? target with
  | none => exact .error d (not_isMissing rfl)
  | some callee =>
      dsimp only
      split
      · exact .alloc (v := .closure target args) d hargs
      · exact .error d (not_isMissing rfl)

/-- A closure is taken apart by adding a reference to each captured argument, or nothing is done. -/
theorem forward_advances (d : h.Descends) (henv : env.Live h) (x : Var) (xs : List Var) :
    (∃ target args mid, forward env x xs h = (.ok (target, args), mid) ∧
      h.Advances (handedOn env h x xs) mid ∧ ∀ l ∈ args, mid.Live l) ∨
    ∃ halt, forward env x xs h = (.error halt, h) ∧ handedOn env h x xs = [] ∧ ¬ halt.IsMissing := by
  rw [forward, handedOn]
  rcases inspects_readClosure henv x with ⟨⟨target, captured⟩, hclosure, hl⟩ | ⟨halt, hfail, hhalt⟩
  · rw [Eval.bind_ok hclosure, hclosure]
    obtain ⟨l, hl⟩ := hl
    rcases inspects_readAll henv xs with ⟨args, hargs, hlive⟩ | ⟨halt, hfail, hhalt⟩
    · obtain ⟨mid, hinc, advances⟩ := Heap.inc_advances d fun m hm => d.live_of_child hl hm
      refine .inl ⟨target.movedTo x.span, captured ++ args, mid, ?_, ?_, fun m hm => ?_⟩
      · refine (Eval.bind_ok hargs).trans ?_
        rw [Eval.bind_ok (Eval.onHeap_ok hinc)]
        rfl
      · rw [hargs]
        exact advances
      · rcases List.mem_append.1 hm with hm | hm
        · exact advances.logged m hm
        · exact advances.live (hlive m hm)
    · refine .inr ⟨halt, Eval.bind_error hfail, ?_, hhalt⟩
      rw [hfail]
  · refine .inr ⟨halt, Eval.bind_error hfail, ?_, hhalt⟩
    rw [hfail]

section

variable {calls : Tracer} (hcalls : ∀ target args h, h.Descends → (∀ l ∈ args, h.Live l) →
  Proceeds h (forwards (calls target args h)) (callFn p n target args h))

include hcalls

/-- An expression hands on what its closure has captured, and does what the call does that it makes. -/
theorem evalExpr_proceeds (hm : e.isManaged = false) (d : h.Descends) (henv : env.Live h) :
    Proceeds h (e.forwarded env h ++ forwards (requested calls (e.request? env h)))
      (evalExpr p (callFn p n) env e h) := by
  cases e with
  | call target xs =>
      rw [evalExpr, Expr.request?]
      rcases inspects_readAll henv xs with ⟨args, hargs, hlive⟩ | ⟨halt, hfail, hhalt⟩
      · rw [Eval.bind_ok hargs, hargs]
        exact hcalls target args h d hlive
      · rw [Eval.bind_error hfail, hfail]
        exact .error d hhalt
  | close target xs =>
      rw [evalExpr]
      rcases inspects_readAll henv xs with ⟨args, hargs, hlive⟩ | ⟨halt, hfail, hhalt⟩
      · rw [Eval.bind_ok hargs]
        exact proceeds_allocClosure d hlive
      · rw [Eval.bind_error hfail]
        exact .error d hhalt
  | apply x xs =>
      rw [evalExpr, Expr.request?, Expr.forwarded]
      rcases forward_advances d henv x xs with
        ⟨target, args, mid, hforward, advances, hlive⟩ | ⟨halt, hfail, hnone, hhalt⟩
      · rw [Eval.bind_ok hforward, hforward]
        exact .after advances (hcalls target args mid advances.descends hlive)
      · rw [Eval.bind_error hfail, hfail, hnone]
        exact .error d hhalt
  | extend x xs =>
      rw [evalExpr, Expr.forwarded]
      rcases forward_advances d henv x xs with
        ⟨target, args, mid, hforward, advances, hlive⟩ | ⟨halt, hfail, hnone, hhalt⟩
      · rw [Eval.bind_ok hforward]
        exact .after advances (proceeds_allocClosure advances.descends hlive)
      · rw [Eval.bind_error hfail, hnone]
        exact .error d hhalt
  | new c =>
      rw [evalExpr]
      rcases inspects_buildRecord (p := p) henv c with ⟨v, hbuild, hv⟩ | ⟨halt, hfail, hhalt⟩
      · rw [Eval.bind_ok hbuild]
        exact .alloc d hv
      · rw [Eval.bind_error hfail]
        exact .error d hhalt
  | proj field record => exact .of_inspects d (inspects_proj henv _ d field record)
  | reset x => cases hm
  | reuse token c => cases hm

/-! ## Bodies and calls -/

theorem evalBody_proceeds (hm : b.isManaged = false) (d : h.Descends) (henv : env.Live h) :
    Proceeds h (forwards (bodyTrace p n calls env h b)) (evalBody p (callFn p n) env b h) := by
  induction b generalizing env h with
  | ret x =>
      rw [evalBody]
      exact .of_inspects d (inspects_read henv x)
  | bind x e b ih =>
      rw [Body.isManaged, Bool.or_eq_false_iff] at hm
      have hexpr := evalExpr_proceeds hcalls hm.1 d henv
      rw [bodyTrace, forwards, List.flatMap_cons, List.flatMap_append, evalBody, ← List.append_assoc]
      rcases he : evalExpr p (callFn p n) env e h with ⟨halt | l, mid⟩
      · rw [Eval.bind_error he]
        rw [he] at hexpr
        rw [followed, List.flatMap_nil, List.append_nil]
        exact hexpr
      · rw [Eval.bind_ok he]
        rw [he] at hexpr
        refine .after hexpr.advances ?_
        have henv' := henv.advances hexpr.advances
        exact ih hm.2 hexpr.advances.descends (henv'.bind x (hexpr.live rfl))
  | case x arms ih =>
      rw [Body.isManaged, armsManaged_eq_false_iff] at hm
      rw [bodyTrace, followed_arms, evalBody_case]
      rcases inspects_chooseArm henv x arms with ⟨b, harm, -⟩ | ⟨halt, hfail, hhalt⟩
      · rw [Eval.bind_ok harm, harm]
        obtain ⟨arm, hmem, rfl⟩ := mem_of_chooseArm harm
        exact ih arm hmem (hm arm hmem) d henv
      · rw [Eval.bind_error hfail, hfail]
        exact .error d hhalt
  | inc x b => cases hm
  | dec x b => cases hm

end

theorem callFn_proceeds (hm : Unmanaged p) (depth : Nat) (target : FnName) (args : List Location)
    (h : Heap) (d : h.Descends) (hargs : ∀ l ∈ args, h.Live l) :
    Proceeds h (forwards (callTrace p depth target args h)) (callFn p depth target args h) := by
  induction depth generalizing target args h with
  | zero => exact .error d not_isMissing_exhausted
  | succ depth ih =>
      rw [callFn, callTrace]
      cases hfn : p.fn? target with
      | none => exact .error d (not_isMissing rfl)
      | some callee =>
          dsimp only
          split
          · have hbody := hm callee (Program.mem_of_fn? hfn)
            exact evalBody_proceeds ih hbody d (.ofArgs callee.params hargs)
          · exact .error d (not_isMissing rfl)

/-- Evaluation of programs that manage no memory only grows the heap.  A call with live arguments, on a
heap whose cells refer to live cells at lower locations, misses no cell, whether it comes to a result or
fails.  It leaves each cell with what it held, makes new cells that refer to live cells at lower
locations, so that every live location can be read, and frees, reuses and declines nothing.  Each cell
counts, besides the references that it had, or the first one of a new cell, one for each time that the
call has handed it on as an argument that a closure had captured. -/
theorem call_grows (hm : Unmanaged p) (hd : h.Descends) (hargs : ∀ l ∈ args, h.Live l)
    {depth : Nat} {o : Except Halt Location} (hcall : callFn p depth target args h = (o, h')) :
    (∀ halt, o = .error halt → halt.diagnostic.message ≠ "missing heap location") ∧
      h.Advances (forwards (callTrace p depth target args h)) h' ∧
      ∀ l, h'.Live l → ∃ datum, h'.snapshot l = .ok datum := by
  have hproceeds := callFn_proceeds hm depth target args h hd hargs
  rw [hcall] at hproceeds
  obtain ⟨advances, -, found⟩ := hproceeds
  exact ⟨fun halt heq => found heq, advances, fun l hl => advances.descends.exists_snapshot hl⟩

/-- A closure is applied and extended, and what comes of that is applied to too few arguments. -/
def forwardingProgram : Program where
  types := []
  fns := [
    ⟨⟨"first", .none⟩, [⟨"x", .none⟩, ⟨"y", .none⟩], .ret ⟨"x", .none⟩⟩,
    ⟨⟨"use", .none⟩, [⟨"c", .none⟩, ⟨"u", .none⟩],
      .bind ⟨"r", .none⟩ (.apply ⟨"c", .none⟩ [⟨"u", .none⟩])
        (.bind ⟨"e", .none⟩ (.extend ⟨"c", .none⟩ [])
          (.bind ⟨"s", .none⟩ (.apply ⟨"e", .none⟩ []) (.ret ⟨"s", .none⟩)))⟩]

/-- A record, and a closure that has captured it. -/
def capturingHeap : Heap := ((Heap.empty.alloc (.record ⟨"Unit", .none⟩ .empty)).2.alloc
  (.closure ⟨"first", .none⟩ [.cell 0])).2

theorem descends_capturingHeap : capturingHeap.Descends := by
  refine Heap.alloc_descends (Heap.alloc_descends Heap.descends_empty ?_) ?_
  · intro m hm
    cases hm
  · intro m hm
    obtain rfl := List.mem_singleton.1 hm
    exact ⟨_, rfl⟩

/-- The captured record is handed on three times, the last time just before the call fails. -/
theorem call_grows_forwarding : ∃ fault h', Unmanaged forwardingProgram ∧ capturingHeap.Descends ∧
    (∀ l ∈ [.cell 1, .cell 0], capturingHeap.Live l) ∧
    callFn forwardingProgram 2 ⟨"use", .none⟩ [.cell 1, .cell 0] capturingHeap =
      (.error (.fault fault), h') ∧ fault.diagnostic.message ≠ "missing heap location" ∧
    capturingHeap.Advances [.cell 0, .cell 0, .cell 0] h' ∧
    ∃ datum, h'.snapshot (.cell 2) = .ok datum := by
  have hm : Unmanaged forwardingProgram := by decide
  have hlive : ∀ l ∈ [.cell 1, .cell 0], capturingHeap.Live l := by
    intro l hl
    rcases List.mem_pair.1 hl with rfl | rfl <;> exact ⟨_, rfl⟩
  have hcall : callFn forwardingProgram 2 ⟨"use", .none⟩ [.cell 1, .cell 0] capturingHeap =
      (.error (.fault (.arity ⟨"first", .none⟩ 2 1)), _) := rfl
  obtain ⟨hfound, advances, hsnapshot⟩ := call_grows hm descends_capturingHeap hlive hcall
  exact ⟨_, _, hm, descends_capturingHeap, hlive, hcall, hfound _ rfl, advances,
    hsnapshot (.cell 2) ⟨_, rfl⟩⟩

end Reclaim
