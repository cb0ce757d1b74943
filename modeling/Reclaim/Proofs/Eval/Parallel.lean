import Reclaim.Proofs.Eval.Outcomes
import Reclaim.Proofs.Heap.Behind

/-!
# Evaluation behind another heap

Programs whose names match are evaluated side by side, one of them on a heap that stands behind another
one.  A relation between computations says that from heaps that stand so they come to corresponding
outcomes, with related results (`InParallel`).  It is kept by each way of putting computations together:
by sequencing (`InParallel.bind`), by heap operations (`InParallel.onHeap`), and by evaluating
expressions, bodies (`evalBody_inParallel`) and calls to whatever depth (`callFn_inParallel`).

Nothing is asked of the programs.  They may count references wrongly, go on using a location whose cell
is gone, or use a token twice: what is found at a location is found at the corresponding one.
-/

namespace Reclaim

open Reclaim.Core Reclaim.Heap

variable {R : Span → Span → Prop} {σ : Location → Location}

/-! ## Faults that correspond -/

/-- The fault with the location moved at which a cell is missing. -/
def Fault.relocate (σ : Location → Location) : Fault → Fault
  | .missing cell span => .missing ⟨σ cell.location⟩ span
  | f => f

/-- The faults are of the same kind, with matching names and the same numbers.  The location at which
the second finds no cell is that of the first, moved. -/
inductive Fault.Matches (R : Span → Span → Prop) (σ : Location → Location) : Fault → Fault → Prop where
  | unbound {x y : Var} : x.Matches R y → Fault.Matches R σ (.unbound x) (.unbound y)
  | unknownFn {f g : FnName} : f.Matches R g → Fault.Matches R σ (.unknownFn f) (.unknownFn g)
  | unknownTag {t u : Tag} : t.Matches R u → Fault.Matches R σ (.unknownTag t) (.unknownTag u)
  | unknownField {t u : Tag} {f g : Field} : t.Matches R u → f.Matches R g →
      Fault.Matches R σ (.unknownField t f) (.unknownField u g)
  | notRecord {x y : Var} : x.Matches R y → Fault.Matches R σ (.notRecord x) (.notRecord y)
  | notClosure {x y : Var} : x.Matches R y → Fault.Matches R σ (.notClosure x) (.notClosure y)
  | missing {l : Location} {s t : Span} : R s t →
      Fault.Matches R σ (.missing ⟨l⟩ s) (.missing ⟨σ l⟩ t)
  | arity {f g : FnName} {m n : Nat} : f.Matches R g →
      Fault.Matches R σ (.arity f m n) (.arity g m n)
  | saturated {f g : FnName} {m : Nat} : f.Matches R g →
      Fault.Matches R σ (.saturated f m) (.saturated g m)
  | fieldCount {t u : Tag} {m n : Nat} : t.Matches R u →
      Fault.Matches R σ (.fieldCount t m n) (.fieldCount u m n)
  | noArm {x y : Var} {t u : Tag} : x.Matches R y → t.Matches R u →
      Fault.Matches R σ (.noArm x t) (.noArm y u)
  | noEntry {entry : String} : Fault.Matches R σ (.noEntry entry) (.noEntry entry)
  | entryTakesParams {f g : FnName} : f.Matches R g →
      Fault.Matches R σ (.entryTakesParams f) (.entryTakesParams g)

/-- If names match only when they are equal, the second fault is the first one, moved. -/
theorem Fault.Matches.eq_relocate {f g : Fault} (m : f.Matches Eq σ g) : g = f.relocate σ := by
  cases m with
  | unbound hx | unknownFn hx | unknownTag hx | notRecord hx | notClosure hx | arity hx
  | saturated hx | fieldCount hx | entryTakesParams hx =>
      rw [hx.eq]
      rfl
  | unknownField hx hy | noArm hx hy =>
      rw [hx.eq, hy.eq]
      rfl
  | missing hs => rw [relocate, hs]
  | noEntry => rfl

/-- The reports of corresponding faults say the same, apart from the location and from places. -/
theorem Fault.Matches.report {f g : Fault} (m : f.Matches R σ g) :
    g.diagnostic.message = (f.relocate σ).diagnostic.message ∧
      g.diagnostic.label.text = (f.relocate σ).diagnostic.label.text := by
  cases m with
  | unbound hx | unknownFn hx | unknownTag hx | notRecord hx | notClosure hx | arity hx
  | saturated hx | fieldCount hx | entryTakesParams hx =>
      simp [relocate, Fault.diagnostic, Diagnostic.error, hx.text]
  | unknownField hx hy | noArm hx hy =>
      simp [relocate, Fault.diagnostic, Diagnostic.error, hx.text, hy.text]
  | missing _ | noEntry => exact ⟨rfl, rfl⟩

/-- The evaluations are given up for corresponding faults, or because of the depth of calls. -/
inductive Halt.Matches (R : Span → Span → Prop) (σ : Location → Location) : Halt → Halt → Prop where
  | fault {f g : Fault} : f.Matches R σ g → Halt.Matches R σ (.fault f) (.fault g)
  | exhausted : Halt.Matches R σ .exhausted .exhausted

/-! ## Computations in parallel -/

section

variable {α α' β β' : Type} {base : Heap} {A : α → α' → Prop} {B : β → β' → Prop}

/-- From heaps that stand one behind `base` the computations come to corresponding outcomes. -/
def InParallel (R : Span → Span → Prop) (base : Heap) (A : α → α' → Prop) (m : Eval α)
    (m' : Eval α') : Prop :=
  ∀ h h', Behind R base h h' → Parallel R base (Halt.Matches R base.past) A (m h) (m' h')

namespace InParallel

theorem pure {a : α} {a' : α'} (ha : A a a') :
    InParallel R base A (Pure.pure a) (Pure.pure a') :=
  fun _ _ b => .ok ha b

theorem fail {f g : Fault} (m : f.Matches R base.past g) :
    InParallel R base A (Eval.fail f) (Eval.fail g) :=
  fun _ _ b => .error (.fault m) b

theorem bind {m : Eval α} {m' : Eval α'} {k : α → Eval β} {k' : α' → Eval β'}
    (hm : InParallel R base A m m') (hk : ∀ a a', A a a' → InParallel R base B (k a) (k' a')) :
    InParallel R base B (m >>= k) (m' >>= k') := by
  intro h h' b
  have hout := hm h h' b
  rcases ho : m h with ⟨e | a, h₁⟩ <;> rcases ho' : m' h' with ⟨e' | a', h₁'⟩ <;>
    rw [ho, ho'] at hout <;> cases hout
  · next he b' =>
      rw [Eval.bind_error ho, Eval.bind_error ho']
      exact .error he b'
  · next ha b' =>
      rw [Eval.bind_ok ho, Eval.bind_ok ho']
      exact hk a a' ha _ _ b'

theorem onHeap {s t : Span} {op : Heap → HeapResult α} {op' : Heap → HeapResult α'} (hs : R s t)
    (hop : ∀ {h h'}, Behind R base h h' → Parallel R base base.Misses A (op h) (op' h')) :
    InParallel R base A (Eval.onHeap s op) (Eval.onHeap t op') := by
  intro h h' b
  have hout := hop b
  unfold Eval.onHeap
  generalize op h = o at hout ⊢
  generalize op' h' = o' at hout ⊢
  cases hout with
  | ok ha b' => exact .ok ha b'
  | @error e e' _ _ hmiss b' =>
      obtain ⟨l⟩ := e
      obtain ⟨l'⟩ := e'
      obtain rfl : l' = base.past l := hmiss
      exact .error (.fault (.missing hs)) b'

theorem alloc {v v' : Value} (m : v.Matches R base.past v') :
    InParallel R base base.Moved (Eval.alloc v) (Eval.alloc v') :=
  fun _ _ b => .ok (b.alloc_location v v') (b.alloc m)

end InParallel

end

variable {p q : Program} {call call' : Caller} {env env' : Env} {base : Heap} {x y : Var}
  {xs ys : List Var} {ls ls' : List Location}

/-! ## Reading -/

/-- The second locations are the first ones, moved. -/
abbrev AllMoved (base : Heap) (ls ls' : List Location) : Prop := ls' = ls.map base.past

theorem read_inParallel (menv : EntriesMatch R base.past env env') (mx : x.Matches R y) :
    InParallel R base base.Moved (env.read x) (env'.read y) := by
  have hfind : env'.find? y = (env.find? x).map base.past := menv.find? mx
  rw [Env.read, Env.read, hfind]
  cases env.find? x with
  | none => exact .fail (.unbound mx)
  | some l => exact .pure rfl

theorem readAll_inParallel (menv : EntriesMatch R base.past env env')
    (mxs : List.Forall₂ (Name.Matches R) xs ys) :
    InParallel R base (AllMoved base) (env.readAll xs) (env'.readAll ys) := by
  unfold Env.readAll
  induction mxs with
  | nil => exact .pure rfl
  | cons mx _ ih =>
      rw [List.mapM_cons, List.mapM_cons]
      refine (read_inParallel menv mx).bind ?_
      rintro l _ rfl
      refine ih.bind ?_
      rintro ls _ rfl
      exact .pure rfl

theorem readValue_inParallel (menv : EntriesMatch R base.past env env') (mx : x.Matches R y) :
    InParallel R base (Value.Matches R base.past) (readValue env x) (readValue env' y) := by
  refine (read_inParallel menv mx).bind ?_
  rintro l _ rfl
  exact .onHeap mx.span fun b => b.get l

/-- The tags match, and so do the fields. -/
structure RecordMatches (R : Span → Span → Prop) (σ : Location → Location)
    (r r' : Tag × OrderedMap Field Location) : Prop where
  /-- The tag. -/
  tag : r.1.Matches R r'.1
  /-- The fields. -/
  fields : EntriesMatch R σ r.2.entries r'.2.entries

theorem readRecord_inParallel (menv : EntriesMatch R base.past env env') (mx : x.Matches R y) :
    InParallel R base (RecordMatches R base.past) (readRecord env x) (readRecord env' y) := by
  refine (readValue_inParallel menv mx).bind ?_
  intro v v' mv
  cases mv with
  | closure _ => exact .fail (.notRecord mx)
  | record htag hfields => exact .pure ⟨htag, hfields⟩

/-- The functions match, and the arguments are moved. -/
structure CallMatches (R : Span → Span → Prop) (base : Heap) (r r' : FnName × List Location) :
    Prop where
  /-- The function. -/
  target : r.1.Matches R r'.1
  /-- The arguments. -/
  args : AllMoved base r.2 r'.2

theorem readClosure_inParallel (menv : EntriesMatch R base.past env env') (mx : x.Matches R y) :
    InParallel R base (CallMatches R base) (readClosure env x) (readClosure env' y) := by
  refine (readValue_inParallel menv mx).bind ?_
  intro v v' mv
  cases mv with
  | closure htarget => exact .pure ⟨htarget, rfl⟩
  | record _ _ => exact .fail (.notClosure mx)

/-! ## Building -/

theorem buildRecord_inParallel {c d : Construction} (mp : p.Matches R q)
    (menv : EntriesMatch R base.past env env') (mc : c.Matches R d) :
    InParallel R base (Value.Matches R base.past) (buildRecord p env c) (buildRecord q env' d) := by
  unfold buildRecord
  rcases rel_cases (mp.type? mc.tag) with ⟨ht, hu⟩ | ⟨t, u, ht, hu, mt⟩
  · rw [ht, hu]
    exact .fail (.unknownTag mc.tag)
  · rw [ht, hu]
    dsimp only
    rw [← mt.fields.length_eq, ← mc.fields.length_eq]
    split
    · refine (readAll_inParallel menv mc.fields).bind ?_
      rintro ls _ rfl
      exact .pure (.record mc.tag (EntriesMatch.zip mt.fields ls).ofList)
    · exact .fail (.fieldCount mc.tag)

theorem allocClosure_inParallel {f g : FnName} (mp : p.Matches R q) (mf : f.Matches R g)
    (hls : AllMoved base ls ls') :
    InParallel R base base.Moved (allocClosure p f ls) (allocClosure q g ls') := by
  unfold allocClosure
  subst hls
  rcases rel_cases (mp.fn? mf) with ⟨hd, he⟩ | ⟨d, e, hd, he, md⟩
  · rw [hd, he]
    exact .fail (.unknownFn mf)
  · rw [hd, he]
    dsimp only
    rw [← md.params.length_eq, List.length_map]
    split
    · exact .alloc (.closure mf)
    · exact .fail (.saturated mf)

theorem forward_inParallel (menv : EntriesMatch R base.past env env') (mx : x.Matches R y)
    (mxs : List.Forall₂ (Name.Matches R) xs ys) :
    InParallel R base (CallMatches R base) (forward env x xs) (forward env' y ys) := by
  refine (readClosure_inParallel menv mx).bind ?_
  rintro ⟨f, captured⟩ ⟨g, _⟩ ⟨mf, rfl⟩
  refine (readAll_inParallel menv mxs).bind ?_
  rintro ls _ rfl
  refine InParallel.bind (.onHeap mx.span fun b => b.inc captured) ?_
  rintro ⟨⟩ ⟨⟩ -
  exact .pure ⟨⟨mf.text, mx.span⟩, (List.map_append ..).symm⟩

/-! ## Expressions and bodies -/

/-- Calls of matching functions with corresponding arguments go in parallel. -/
def CallersMatch (R : Span → Span → Prop) (base : Heap) (call call' : Caller) : Prop :=
  ∀ f g ls ls', Name.Matches R f g → AllMoved base ls ls' →
    InParallel R base base.Moved (call f ls) (call' g ls')

theorem evalExpr_inParallel {d e : Expr} (mp : p.Matches R q) (mcall : CallersMatch R base call call')
    (menv : EntriesMatch R base.past env env') (m : d.Matches R e) :
    InParallel R base base.Moved (evalExpr p call env d) (evalExpr q call' env' e) := by
  cases m with
  | call mf mxs =>
      refine (readAll_inParallel menv mxs).bind ?_
      intro ls ls' hls
      exact mcall _ _ _ _ mf hls
  | close mf mxs =>
      refine (readAll_inParallel menv mxs).bind ?_
      intro ls ls' hls
      exact allocClosure_inParallel mp mf hls
  | apply mx mxs =>
      refine (forward_inParallel menv mx mxs).bind ?_
      rintro r r' ⟨mf, hls⟩
      exact mcall _ _ _ _ mf hls
  | extend mx mxs =>
      refine (forward_inParallel menv mx mxs).bind ?_
      rintro r r' ⟨mf, hls⟩
      exact allocClosure_inParallel mp mf hls
  | new mc =>
      refine (buildRecord_inParallel mp menv mc).bind ?_
      intro v v' mv
      exact .alloc mv
  | proj mf mx =>
      refine (readRecord_inParallel menv mx).bind ?_
      rintro ⟨tag, fields⟩ ⟨tag', fields'⟩ ⟨mtag, mfields⟩
      have hget : fields'.get? _ = (fields.get? _).map base.past := mfields.find? mf
      dsimp only
      rw [hget]
      cases fields.get? _ with
      | none => exact .fail (.unknownField mtag mf)
      | some l => exact .pure rfl
  | reset mx =>
      refine (read_inParallel menv mx).bind ?_
      rintro l _ rfl
      exact .onHeap mx.span fun b => b.reset l
  | reuse mx mc =>
      refine (read_inParallel menv mx).bind ?_
      rintro l _ rfl
      refine (buildRecord_inParallel mp menv mc).bind ?_
      intro v v' mv
      exact .onHeap mx.span fun b => b.reuse l mv

/-- Bodies that match are evaluated in parallel, if calls are. -/
theorem evalBody_inParallel {b c : Body} (mp : p.Matches R q) (mcall : CallersMatch R base call call')
    (menv : EntriesMatch R base.past env env') (m : b.Matches R c) :
    InParallel R base base.Moved (evalBody p call env b) (evalBody q call' env' c) := by
  induction m generalizing env env' with
  | ret mx => exact read_inParallel menv mx
  | bind mx me _ ih =>
      refine (evalExpr_inParallel mp mcall menv me).bind ?_
      intro l l' hl
      exact ih (.cons ⟨mx, hl⟩ menv)
  | @case x y as bs mx hsome _ ih =>
      refine (readRecord_inParallel menv mx).bind ?_
      rintro ⟨tag, _⟩ ⟨tag', _⟩ ⟨mtag, -⟩
      -- The second tag finds the arm of the first, since it is spelled alike.
      have hfind : findArm bs tag' = findArm bs tag := findArm_eq_of_text mtag.text.symm
      dsimp only
      rw [evalArm_eq, evalArm_eq, hfind]
      have hboth := hsome tag
      cases hb : findArm as tag <;> cases hc : findArm bs tag <;> rw [hb, hc] at hboth
      · exact .fail (.noArm mx mtag)
      · cases hboth
      · cases hboth
      · exact ih tag _ _ hb hc menv
  | inc mx _ ih =>
      refine (read_inParallel menv mx).bind ?_
      rintro l _ rfl
      refine InParallel.bind (.onHeap mx.span fun b => b.inc [l]) ?_
      rintro ⟨⟩ ⟨⟩ -
      exact ih menv
  | dec mx _ ih =>
      refine (read_inParallel menv mx).bind ?_
      rintro l _ rfl
      refine InParallel.bind (.onHeap mx.span fun b => b.dec [l]) ?_
      rintro ⟨⟩ ⟨⟩ -
      exact ih menv

/-! ## Calls and runs -/

theorem entriesMatch_ofArgs (mxs : List.Forall₂ (Name.Matches R) xs ys) (ls : List Location) :
    EntriesMatch R σ (Env.ofArgs xs ls) (Env.ofArgs ys (ls.map σ)) :=
  List.rel_reverse (EntriesMatch.zip mxs ls)

/-- Functions of programs that match are called in parallel, to whatever depth. -/
theorem callFn_inParallel (mp : p.Matches R q) (depth : Nat) :
    CallersMatch R base (callFn p depth) (callFn q depth) := by
  induction depth with
  | zero => exact fun _ _ _ _ _ _ _ _ b => .error .exhausted b
  | succ depth ih =>
      rintro f g ls _ mf rfl
      rw [callFn, callFn]
      rcases rel_cases (mp.fn? mf) with ⟨hd, he⟩ | ⟨d, e, hd, he, md⟩
      · rw [hd, he]
        exact .fail (.unknownFn mf)
      · rw [hd, he]
        dsimp only
        rw [← md.params.length_eq, List.length_map]
        split
        · exact evalBody_inParallel mp ih (entriesMatch_ofArgs md.params ls) md.body
        · exact .fail (.arity mf)

/-- Programs that match are run in parallel. -/
theorem run_inParallel (mp : p.Matches R q) (depth : Nat) (entry : String) :
    InParallel R base base.Moved (run p depth entry) (run q depth entry) := by
  unfold run
  rcases rel_cases (mp.fns ⟨entry, .none⟩) with ⟨hd, he⟩ | ⟨d, e, hd, he, md⟩
  · rw [hd, he]
    exact .fail .noEntry
  · have hempty : d.params.isEmpty = e.params.isEmpty := by
      rw [Bool.eq_iff_iff, List.isEmpty_iff_length_eq_zero, List.isEmpty_iff_length_eq_zero,
        md.params.length_eq]
    rw [hd, he]
    dsimp only
    rw [← hempty]
    split
    · exact callFn_inParallel mp depth _ _ _ _ md.name rfl
    · exact .fail (.entryTakesParams md.name)

end Reclaim
