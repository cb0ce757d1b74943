import Mathlib.Data.List.Basic
import Reclaim.Eval.Basic
import Reclaim.Proofs.Heap.Cells
import Reclaim.Proofs.Names
import Reclaim.Proofs.Programs

/-!
# Environments and outcomes

Variables are looked up by their spelling (`Env.loc`), and reading bound variables changes nothing
and cannot fail (`read_eq`, `readAll_eq`).

An outcome meets a condition if a result satisfies it, and no halt is for a missing cell unless that
was to be expected (`Meets`).  Other halts are left open, so `Meets` speaks about what a computation
leaves behind when it comes to an end, and about the safety of its heap operations always.
-/

namespace Reclaim

open Reclaim.Core

/-! ## Environments -/

namespace Env

variable {env : Env} {x : Var} {l : Location} {t : String}

/-- The location of the variable with a spelling, and no cell if there is none. -/
def loc (env : Env) (t : String) : Location := (env.find? ⟨t, .none⟩).getD .invalid

/-- There is a variable with a spelling. -/
def Bound (env : Env) (t : String) : Prop := env.find? ⟨t, .none⟩ ≠ none

theorem find?_eq_of_bound (h : env.Bound x.text) : env.find? x = some (env.loc x.text) := by
  have hx : env.find? x = env.find? ⟨x.text, .none⟩ := rfl
  obtain ⟨l, hl⟩ := Option.ne_none_iff_exists'.1 h
  rw [hx, loc, hl]
  rfl

theorem find?_bind (env : Env) (x : Var) (l : Location) (t : String) :
    (env.bind x l).find? ⟨t, .none⟩ = if t = x.text then some l else env.find? ⟨t, .none⟩ := by
  unfold bind find?
  rw [List.find?_cons]
  by_cases ht : t = x.text
  · have hx : (x == (⟨t, .none⟩ : Var)) = true := Name.beq_iff.2 ht.symm
    rw [if_pos ht]
    simp only [hx]
    rfl
  · have hx : (x == (⟨t, .none⟩ : Var)) = false := Name.beq_eq_false_iff.2 (Ne.symm ht)
    rw [if_neg ht]
    simp only [hx]

@[simp] theorem loc_bind_self : (env.bind x l).loc x.text = l := by
  simp [loc, find?_bind]

theorem loc_bind_of_ne (ht : t ≠ x.text) : (env.bind x l).loc t = env.loc t := by
  simp [loc, find?_bind, ht]

theorem bound_bind_self : (env.bind x l).Bound x.text := by
  simp [Bound, find?_bind]

theorem Bound.bind (h : env.Bound t) : (env.bind x l).Bound t := by
  rw [Bound, find?_bind]
  split
  · simp
  · exact h

variable {params : List Var} {args : List Location}

/-- Arguments are found under their parameters. -/
theorem find?_ofArgs (hp : (params.map (·.text)).Nodup) (hlen : params.length = args.length)
    (hx : (x, l) ∈ params.zip args) : (ofArgs params args).find? ⟨x.text, .none⟩ = some l := by
  have hnodup : ((params.zip args).map fun b => b.1.text).Nodup := by
    have : ((params.zip args).map fun b => b.1.text)
        = ((params.zip args).map Prod.fst).map (·.text) := by
      rw [List.map_map]
      rfl
    rwa [this, List.map_fst_zip hlen.le]
  unfold find? ofArgs
  cases hf : (params.zip args).reverse.find? fun b => b.1 == (⟨x.text, .none⟩ : Var) with
  | none =>
      have := List.find?_eq_none.1 hf (x, l) (List.mem_reverse.2 hx)
      exact absurd (Name.beq_iff.2 rfl) this
  | some b =>
      have hb : (b.1 == (⟨x.text, .none⟩ : Var)) = true :=
        List.find?_some (p := fun b : Var × Location => b.1 == (⟨x.text, .none⟩ : Var)) hf
      have hmem := List.mem_reverse.1 (List.mem_of_find?_eq_some hf)
      have := List.inj_on_of_nodup_map hnodup hmem hx (Name.beq_iff.1 hb)
      rw [this]
      rfl

theorem bound_ofArgs (hp : (params.map (·.text)).Nodup) (hlen : params.length = args.length)
    (hx : x ∈ params) : (ofArgs params args).Bound x.text := by
  rw [← List.map_fst_zip hlen.le] at hx
  obtain ⟨⟨y, l⟩, hy, rfl⟩ := List.mem_map.1 hx
  rw [Bound, find?_ofArgs hp hlen hy]
  simp

theorem loc_ofArgs (hp : (params.map (·.text)).Nodup) (hlen : params.length = args.length) :
    params.map (fun x => (ofArgs params args).loc x.text) = args := by
  have hzip : ∀ b ∈ params.zip args, (ofArgs params args).loc b.1.text = b.2 := by
    rintro ⟨y, l⟩ hy
    rw [loc, find?_ofArgs hp hlen hy]
    rfl
  calc params.map (fun x => (ofArgs params args).loc x.text)
      = ((params.zip args).map Prod.fst).map (fun x => (ofArgs params args).loc x.text) := by
        rw [List.map_fst_zip hlen.le]
    _ = (params.zip args).map Prod.snd := by
        rw [List.map_map]
        exact List.map_congr_left hzip
    _ = args := List.map_snd_zip hlen.ge

end Env

/-! ## Sequences -/

variable {α β : Type} {m : Eval α} {f : α → Eval β} {env : Env} {x : Var} {xs : List Var}
  {h h' : Heap} {a : α} {halt : Halt}

theorem Eval.bind_ok (hm : m h = (.ok a, h')) : (m >>= f) h = f a h' := by
  simp [bind, ExceptT.bind, ExceptT.mk, ExceptT.bindCont, StateT.bind, hm]

theorem Eval.bind_error (hm : m h = (.error halt, h')) : (m >>= f) h = (.error halt, h') := by
  simp [bind, ExceptT.bind, ExceptT.mk, ExceptT.bindCont, StateT.bind, hm]
  rfl

theorem Eval.onHeap_ok {span : Span} {op : Heap → HeapResult α} (hop : op h = (.ok a, h')) :
    Eval.onHeap span op h = (.ok a, h') := by
  rw [Eval.onHeap, hop]

/-! ## Reading -/

theorem read_eq (hx : env.Bound x.text) (h : Heap) : env.read x h = (.ok (env.loc x.text), h) := by
  rw [Env.read, Env.find?_eq_of_bound hx]
  rfl

theorem readAll_eq (xs : List Var) (hxs : ∀ x ∈ xs, env.Bound x.text) (h : Heap) :
    env.readAll xs h = (.ok (xs.map fun x => env.loc x.text), h) := by
  induction xs with
  | nil => rfl
  | cons x rest ih =>
      rw [Env.readAll, List.mapM_cons, Eval.bind_ok (read_eq (hxs x (.head _)) h)]
      exact Eval.bind_ok (ih fun y hy => hxs y (.tail _ hy))

theorem readValue_eq {v : Value} (hx : env.Bound x.text) (hv : h.value? (env.loc x.text) = some v) :
    readValue env x h = (.ok v, h) := by
  rw [readValue, Eval.bind_ok (read_eq hx h), Eval.onHeap, Heap.get_eq_ok_iff.2 hv]

theorem readValue_missing (hx : env.Bound x.text) (hv : h.value? (env.loc x.text) = none) :
    readValue env x h = (.error (.fault (.missing ⟨env.loc x.text⟩ x.span)), h) := by
  have hget : h.get (env.loc x.text) = .error ⟨env.loc x.text⟩ := by
    rw [Heap.value?, Option.map_eq_none_iff] at hv
    simp [Heap.get, Heap.cell, hv, Except.map]
  rw [readValue, Eval.bind_ok (read_eq hx h), Eval.onHeap, hget]

section

variable {tag : Tag} {fields : OrderedMap Field Location} {target : FnName} {args : List Location}

theorem readRecord_record (hx : env.Bound x.text)
    (hv : h.value? (env.loc x.text) = some (.record tag fields)) :
    readRecord env x h = (.ok (tag, fields), h) := by
  rw [readRecord, Eval.bind_ok (readValue_eq hx hv)]
  rfl

theorem readRecord_closure (hx : env.Bound x.text)
    (hv : h.value? (env.loc x.text) = some (.closure target args)) :
    readRecord env x h = (.error (.fault (.notRecord x)), h) := by
  rw [readRecord, Eval.bind_ok (readValue_eq hx hv)]
  rfl

theorem readRecord_missing (hx : env.Bound x.text) (hv : h.value? (env.loc x.text) = none) :
    readRecord env x h = (.error (.fault (.missing ⟨env.loc x.text⟩ x.span)), h) :=
  Eval.bind_error (readValue_missing hx hv)

theorem proj_record {p : Program} {call : Caller} {field : Field} (hx : env.Bound x.text)
    (hv : h.value? (env.loc x.text) = some (.record tag fields)) :
    evalExpr p call env (.proj field x) h = (match fields.get? field with
      | some l => .ok l
      | none => .error (.fault (.unknownField tag field)), h) := by
  rw [evalExpr, Eval.bind_ok (readRecord_record hx hv)]
  dsimp only
  cases fields.get? field <;> rfl

theorem forward_record (hx : env.Bound x.text)
    (hv : h.value? (env.loc x.text) = some (.record tag fields)) :
    forward env x xs h = (.error (.fault (.notClosure x)), h) := by
  refine Eval.bind_error ?_
  rw [readClosure, Eval.bind_ok (readValue_eq hx hv)]
  rfl

theorem forward_missing (hx : env.Bound x.text) (hv : h.value? (env.loc x.text) = none) :
    forward env x xs h = (.error (.fault (.missing ⟨env.loc x.text⟩ x.span)), h) :=
  Eval.bind_error (Eval.bind_error (readValue_missing hx hv))

/-- A closure hands on what it has captured, counted once more. -/
theorem forward_closure (hx : env.Bound x.text)
    (hv : h.value? (env.loc x.text) = some (.closure target args))
    (hxs : ∀ x ∈ xs, env.Bound x.text) (hinc : h.inc args = (.ok (), h')) :
    forward env x xs h =
      (.ok (target.movedTo x.span, args ++ xs.map fun x => env.loc x.text), h') := by
  have hread : readClosure env x h = (.ok (target, args), h) := by
    rw [readClosure, Eval.bind_ok (readValue_eq hx hv)]
    rfl
  rw [forward, Eval.bind_ok hread]
  refine (Eval.bind_ok (readAll_eq xs hxs h)).trans ?_
  rw [Eval.bind_ok (Eval.onHeap_ok hinc)]
  rfl

end

/-! ## Building -/

/-- The record of a construction with given fields. -/
def recordOf (p : Program) (c : Construction) (ls : List Location) : Except Halt Value :=
  match p.type? c.tag with
  | none => .error (.fault (.unknownTag c.tag))
  | some d =>
    if d.fields.length = c.fields.length then .ok (.record c.tag (.ofList (d.fields.zip ls)))
    else .error (.fault (.fieldCount c.tag d.fields.length c.fields.length))

/-- The closure of a function with given arguments. -/
def closureOf (p : Program) (target : FnName) (args : List Location) : Except Halt Value :=
  match p.fn? target with
  | none => .error (.fault (.unknownFn target))
  | some d =>
    if args.length < d.params.length then .ok (.closure target args)
    else .error (.fault (.saturated target d.params.length))

/-- Puts a value into a new cell, if there is one. -/
def allocated (h : Heap) : Except Halt Value → Except Halt Location × Heap
  | .ok v => (.ok (h.alloc v).1, (h.alloc v).2)
  | .error e => (.error e, h)

variable {p : Program} {c : Construction}

theorem buildRecord_eq (hc : ∀ x ∈ c.fields, env.Bound x.text) (h : Heap) :
    buildRecord p env c h = (recordOf p c (c.fields.map fun x => env.loc x.text), h) := by
  unfold buildRecord recordOf
  cases p.type? c.tag with
  | none => rfl
  | some d =>
      dsimp only
      split
      · exact Eval.bind_ok (readAll_eq _ hc h)
      · rfl

theorem allocClosure_eq (p : Program) (target : FnName) (args : List Location) (h : Heap) :
    allocClosure p target args h = allocated h (closureOf p target args) := by
  unfold allocClosure closureOf
  cases p.fn? target with
  | none => rfl
  | some d =>
      dsimp only
      split <;> rfl

theorem buildRecord_alloc (hc : ∀ x ∈ c.fields, env.Bound x.text) (h : Heap) :
    (do Eval.alloc (← buildRecord p env c) : Eval Location) h
      = allocated h (recordOf p c (c.fields.map fun x => env.loc x.text)) := by
  have hb := buildRecord_eq (p := p) hc h
  cases hr : recordOf p c (c.fields.map fun x => env.loc x.text) with
  | error e =>
      rw [hr] at hb
      exact Eval.bind_error hb
  | ok v =>
      rw [hr] at hb
      exact Eval.bind_ok hb

/-- Whether there is a record of a construction does not depend on the fields it is given. -/
theorem recordOf_cases (p : Program) (c : Construction) :
    (∃ e, ∀ ls, recordOf p c ls = .error e) ∨
      ∃ d ∈ p.types, d.fields.length = c.fields.length ∧
        ∀ ls, recordOf p c ls = .ok (.record c.tag (.ofList (d.fields.zip ls))) := by
  unfold recordOf
  cases hd : p.type? c.tag with
  | none => exact .inl ⟨_, fun _ => rfl⟩
  | some d =>
      by_cases hlen : d.fields.length = c.fields.length
      · exact .inr ⟨d, Program.mem_of_type? hd, hlen, fun _ => if_pos hlen⟩
      · exact .inl ⟨_, fun _ => if_neg hlen⟩

/-- A record lists the fields of its constructor in order, if none is repeated. -/
theorem entries_of_fields {fields : List Field} {ls : List Location}
    (hfields : (fields.map (·.text)).Nodup) (hlen : fields.length = ls.length) :
    (OrderedMap.ofList (fields.zip ls)).entries = fields.zip ls := by
  have hfst : ((fields.zip ls).map (·.1)).map (·.text) = fields.map (·.text) := by
    rw [List.map_fst_zip hlen.le]
  rw [← hfst, List.map_map] at hfields
  exact OrderedMap.entries_ofList ((List.pairwise_map.1 hfields).imp Name.beq_eq_false_iff.2)

/-- The parts of a record are its fields, if no field of the constructor is repeated. -/
theorem children_of_recordOf {ls : List Location} {v : Value}
    (hp : ∀ d ∈ p.types, (d.fields.map (·.text)).Nodup) (hlen : c.fields.length = ls.length)
    (hv : recordOf p c ls = .ok v) : v.children = ls := by
  rcases recordOf_cases p c with ⟨e, he⟩ | ⟨d, hd, hlen', hok⟩
  · rw [he] at hv
    cases hv
  · rw [hok] at hv
    cases hv
    rw [Value.children, OrderedMap.values, entries_of_fields (hp d hd) (hlen'.trans hlen)]
    exact List.map_snd_zip (hlen'.trans hlen).ge

theorem children_of_closureOf {target : FnName} {args : List Location} {v : Value}
    (hv : closureOf p target args = .ok v) : v.children = args := by
  unfold closureOf at hv
  split at hv
  · cases hv
  · split at hv
    · cases hv
      rfl
    · cases hv

/-! ## Arms -/

theorem mem_of_findArm {arms : List Arm} {tag : Tag} {b : Body} (hb : findArm arms tag = some b) :
    ∃ arm ∈ arms, arm.2 = b := by
  obtain ⟨arm, hfind, hbody⟩ := Option.map_eq_some_iff.1 hb
  exact ⟨arm, List.mem_of_find?_eq_some hfind, hbody⟩

theorem evalArm_eq {call : Caller} {tag : Tag} (arms : List Arm) :
    evalArm p call env x tag arms = match findArm arms tag with
      | some b => evalBody p call env b
      | none => Eval.fail (.noArm x tag) := by
  induction arms with
  | nil => rfl
  | cons arm rest ih =>
      obtain ⟨armTag, b⟩ := arm
      rw [evalArm, findArm, List.find?_cons]
      by_cases ht : (armTag == tag) = true
      · simp [ht]
      · simp only [ht, if_false, Bool.false_eq_true]
        exact ih

/-! ## Outcomes -/

/-- A result satisfies a condition, and there is no halt for a missing cell, except for one at the
invalid location if `gap`. -/
def Meets (gap : Prop) (Q : α → Heap → Prop) : Except Halt α × Heap → Prop
  | (.ok a, h) => Q a h
  | (.error (.fault (.missing m _)), _) => m.location = .invalid ∧ gap
  | (.error _, _) => True

namespace Meets

variable {gap : Prop} {Q : α → Heap → Prop} {R : β → Heap → Prop} {Q' : α → Heap → Prop}

theorem bind (hm : Meets gap Q (m h)) (hf : ∀ a h', Q a h' → Meets gap R (f a h')) :
    Meets gap R ((m >>= f) h) := by
  rcases hmh : m h with ⟨a | a, h'⟩
  · rw [Eval.bind_error hmh]
    rw [hmh] at hm
    cases a with
    | exhausted => trivial
    | fault fault => cases fault <;> exact hm
  · rw [Eval.bind_ok hmh]
    rw [hmh] at hm
    exact hf a h' hm

theorem imp {o : Except Halt α × Heap} (ho : Meets gap Q o) (hQ : ∀ a h, Q a h → Q' a h) :
    Meets gap Q' o := by
  obtain ⟨a | a, h⟩ := o
  · cases a with
    | exhausted => trivial
    | fault fault => cases fault <;> exact ho
  · exact hQ a h ho

end Meets

end Reclaim
