import Reclaim.Proofs.Counting.Insertion
import Reclaim.Proofs.Eval.Backed
import Reclaim.Proofs.Loading

/-!
# Conservation of references

The evaluation of a balanced body ends with one reference to its result; it keeps what others hold,
and asks for no location without a cell unless it was handed the way to the invalid one
(`evalBody_leaves`).  One lemma for each expression carries a
ledger that the heap backs over a binding (`evalExpr_steps`), and calls are carried out by callers
that conserve references themselves (`Conserves`), which is shown of `callFn` by induction on the
depth of calls (`callFn_conserves`).
-/

namespace Reclaim

open Reclaim.Core Reclaim.Counting Reclaim.Heap

variable {gap : Prop} {p : Program} {call : Caller} {σ : Ledger} {env : Env}
  {F G T U : Multiset Location} {h h' : Heap} {x : Var} {e : Expr} {l : Location} {v : Value}

/-- Calls end with one reference to the result, in exchange for those to the arguments. -/
def Conserves (gap : Prop) (call : Caller) : Prop :=
  ∀ {target : FnName} {args : List Location} {F T : Multiset Location} {h : Heap},
    h.AccountedFor (args + F) → h.Vacant T → h.Clear gap args →
      Meets gap (Leaves gap F T h) (call target args h)

/-- No constructor of a program repeats a field. -/
abbrev DistinctFields (p : Program) : Prop := ∀ d ∈ p.types, (d.fields.map (·.text)).Nodup

/-! ## Building values -/

theorem meets_of_not_missing {α : Type} {Q : α → Heap → Prop} {o : Except Halt α}
    (herr : ∀ {m s}, o ≠ .error (.fault (.missing m s))) (ho : ∀ {a}, o = .ok a → Q a h) :
    Meets gap Q (o, h) := by
  rcases o with e | a
  · cases e with
    | exhausted => trivial
    | fault fault =>
        cases fault with
        | missing m s => exact absurd rfl herr
        | _ => trivial
  · exact ho rfl

theorem allocated_leaves {o : Except Halt Value} (t : h.Vacant T)
    (herr : ∀ {m s}, o ≠ .error (.fault (.missing m s)))
    (hv : ∀ {v}, o = .ok v → h.AccountedFor (v.children + F) ∧ h.Clear gap v.children) :
    Meets gap (Leaves gap F T h) (allocated h o) := by
  rcases o with e | v
  · refine meets_of_not_missing (o := .error e) (fun he => ?_) nofun
    cases he
    exact herr rfl
  · obtain ⟨acc, clear⟩ := hv rfl
    exact alloc_leaves acc t clear

theorem recordOf_not_missing {c : Construction} {ls : List Location} {m : MissingCell}
    {s : Span} : recordOf p c ls ≠ .error (.fault (.missing m s)) := by
  unfold recordOf
  split
  · nofun
  · split <;> nofun

/-- A record that is built has the locations of its fields as parts. -/
theorem buildRecord_meets {c : Construction} (hp : DistinctFields p)
    (hc : ∀ x ∈ c.fields, env.Bound x.text) : Meets gap (fun v h' => h' = h ∧
      v.children = c.fields.map fun x => env.loc x.text) (buildRecord p env c h) := by
  rw [buildRecord_eq hc]
  exact meets_of_not_missing recordOf_not_missing fun hv =>
    ⟨rfl, children_of_recordOf hp (by simp) hv⟩

theorem closureOf_not_missing {target : FnName} {args : List Location} {m : MissingCell}
    {s : Span} : closureOf p target args ≠ .error (.fault (.missing m s)) := by
  unfold closureOf
  split
  · nofun
  · split <;> nofun

theorem allocClosure_leaves {target : FnName} {args : List Location}
    (acc : h.AccountedFor (args + F)) (t : h.Vacant T) (clear : h.Clear gap args) :
    Meets gap (Leaves gap F T h) (allocClosure p target args h) := by
  rw [allocClosure_eq]
  refine allocated_leaves t closureOf_not_missing fun hv => ?_
  rw [children_of_closureOf hv]
  exact ⟨acc, clear⟩

/-! ## Expressions -/

theorem map_spellings (env : Env) (xs : List Var) :
    (spellings xs).map env.loc = (xs.map fun x => env.loc x.text : List Location) := by
  rw [spellings, Multiset.map_coe, List.map_map]
  rfl

namespace Backed

theorem supported_consumed (adm : σ.Admits e) (hx : x ∈ e.consumed) : σ.Supported x.text :=
  .held (Multiset.mem_of_le adm.consumed (Multiset.mem_coe.2 (List.mem_map_of_mem hx)))

theorem bound_consumed (b : Backed gap σ env F T h) (adm : σ.Admits e) :
    ∀ x ∈ e.consumed, env.Bound x.text :=
  fun _ hx => b.bound (supported_consumed adm hx)

/-- What is held reaches the references that an expression takes. -/
theorem reachable_consumed (b : Backed gap σ env F T h) (adm : σ.Admits e) :
    ∀ l ∈ e.consumed.map (fun x => env.loc x.text), h.Reachable (σ.held.map env.loc) l := by
  intro l hl
  obtain ⟨x, hx, rfl⟩ := List.mem_map.1 hl
  exact b.reachable (supported_consumed adm hx)

theorem clear_consumed (b : Backed gap σ env F T h) (adm : σ.Admits e) :
    h.Clear gap (e.consumed.map fun x => env.loc x.text : List Location) :=
  b.clear.mono (b.reachable_consumed adm)

/-- A supported variable without a cell is the invalid location, which is there only if `gap`. -/
theorem gap_of_missing (b : Backed gap σ env F T h) (hx : σ.Supported x.text)
    (hv : h.value? (env.loc x.text) = none) : env.loc x.text = .invalid ∧ gap := by
  have hl : env.loc x.text = .invalid := by
    by_contra hl
    obtain ⟨v, hv'⟩ := b.live hx hl
    rw [hv] at hv'
    cases hv'
  exact ⟨hl, b.clear (hl ▸ b.reachable hx)⟩

/-- A supported record is read without any change. -/
theorem readRecord_meets (b : Backed gap σ env F T h) (hx : σ.Supported x.text) :
    Meets gap (fun r h' => h' = h ∧ h.value? (env.loc x.text) = some (.record r.1 r.2))
      (readRecord env x h) := by
  cases hv : h.value? (env.loc x.text) with
  | none =>
      rw [readRecord_missing (b.bound hx) hv]
      exact b.gap_of_missing hx hv
  | some v =>
      cases v with
      | closure target args =>
          rw [readRecord_closure (b.bound hx) hv]
          trivial
      | record tag fields =>
          rw [readRecord_record (b.bound hx) hv]
          exact ⟨rfl, rfl⟩

/-- The references that an expression takes can be handed on. -/
theorem accounted_consumed (b : Backed gap σ env F T h) (adm : σ.Admits e) :
    h.AccountedFor ((e.consumed.map fun x => env.loc x.text : List Location)
      + ((σ.spend e).held.map env.loc + F)) := by
  have := (b.spend adm).accounted
  rwa [map_spellings, add_left_comm] at this

/-- The token that an expression takes is vacant together with the others. -/
theorem vacant_spent (b : Backed gap σ env F T h) (adm : σ.Admits e) :
    h.Vacant ((e.spent.map fun x => env.loc x.text : List Location)
      + ((σ.spend e).tokens.map env.loc + T)) := by
  have := (b.spend adm).vacant
  rwa [map_spellings, add_left_comm] at this

/-- A supported closure can be taken apart, and what it has captured is counted once more. -/
theorem forward (b : Backed gap σ env F T h) (hx : σ.Supported x.text) {xs : List Var}
    (hxs : ∀ y ∈ xs, env.Bound y.text)
    (hreach : ∀ l ∈ xs.map (fun y => env.loc y.text), h.Reachable (σ.held.map env.loc) l)
    (acc : h.AccountedFor ((xs.map fun y => env.loc y.text : List Location) + G))
    (vac : h.Vacant U) :
    Meets gap (fun r h' => h'.AccountedFor (r.2 + G) ∧ h.Recounts h' ∧ h'.Vacant U ∧
      h'.Clear gap r.2 ∧ h.Upholds gap h') (Reclaim.forward env x xs h) := by
  cases hv : h.value? (env.loc x.text) with
  | none =>
      rw [forward_missing (b.bound hx) hv]
      exact b.gap_of_missing hx hv
  | some v =>
      cases v with
      | record tag fields =>
          rw [forward_record (b.bound hx) hv]
          trivial
      | closure target args =>
          have hlive : ∀ l ∈ args, l ≠ .invalid → h.Live l := by
            intro l hl hne
            cases l with
            | invalid => exact absurd rfl hne
            | cell i => exact b.accounted.live_of_child hv hl
          obtain ⟨h', hinc, acc', same, vac', upholds⟩ := inc_leaves gap args acc vac hlive
          rw [forward_closure (b.bound hx) hv hxs hinc]
          refine ⟨?_, same, vac', ?_, upholds⟩
          · rw [← Multiset.coe_add, add_assoc]
            exact acc'
          · refine (b.clear.mono fun l hl => ?_).keeps (same.keeps _)
            rcases List.mem_append.1 (Multiset.mem_coe.1 hl) with hl | hl
            · exact .child (b.reachable hx) hv hl
            · exact hreach l hl

end Backed

/-- An expression whose value is owned leaves a reference to it behind. -/
theorem evalExpr_leaves (hp : DistinctFields p) (hcall : Conserves gap call)
    (b : Backed gap σ env F T h) (adm : σ.Admits e) (hh : e.holding = .owned) :
    Meets gap (Leaves gap ((σ.spend e).held.map env.loc + F) ((σ.spend e).tokens.map env.loc + T) h)
      (evalExpr p call env e h) := by
  have acc := b.accounted_consumed adm
  have hbound := b.bound_consumed adm
  have hreach := b.reachable_consumed adm
  have clear := b.clear_consumed adm
  have vac : h.Vacant ((σ.spend e).tokens.map env.loc + T) :=
    (b.vacant_spent adm).mono (Multiset.le_add_left _ _)
  cases e with
  | call target xs =>
      rw [evalExpr, Eval.bind_ok (readAll_eq xs hbound h)]
      exact hcall acc vac clear
  | close target xs =>
      rw [evalExpr, Eval.bind_ok (readAll_eq xs hbound h)]
      exact allocClosure_leaves acc vac clear
  | apply x xs =>
      rw [evalExpr]
      refine (b.forward (adm.inspected x (.head _)) hbound hreach acc vac).bind ?_
      rintro ⟨target, args⟩ h₁ ⟨acc₁, same, vac₁, clear₁, upholds⟩
      exact (hcall acc₁ vac₁ clear₁).imp fun l h' out => out.after (same.keeps _) upholds
  | extend x xs =>
      rw [evalExpr]
      refine (b.forward (adm.inspected x (.head _)) hbound hreach acc vac).bind ?_
      rintro ⟨target, args⟩ h₁ ⟨acc₁, same, vac₁, clear₁, upholds⟩
      exact (allocClosure_leaves acc₁ vac₁ clear₁).imp
        fun l h' out => out.after (same.keeps _) upholds
  | new c =>
      rw [evalExpr, buildRecord_alloc hbound]
      refine allocated_leaves vac recordOf_not_missing fun hv => ?_
      rw [children_of_recordOf hp (by simp) hv]
      exact ⟨acc, clear⟩
  | reuse w c =>
      have hw : env.Bound w.text :=
        b.token (Multiset.mem_of_le adm.spent (Multiset.mem_singleton_self _))
      rw [evalExpr, Eval.bind_ok (read_eq hw h)]
      refine (buildRecord_meets hp hbound).bind ?_
      rintro v h₁ ⟨rfl, hchildren⟩
      obtain ⟨m, h', hreuse, out, -, -⟩ := reuse_leaves (v := v) (by rwa [hchildren])
        (b.vacant_spent adm) (by rwa [hchildren])
      rw [Eval.onHeap, hreuse]
      exact out
  | proj field record => cases hh
  | reset y => cases hh

/-- The evaluation of an expression carries the ledger over a binding. -/
structure Steps (gap : Prop) (σ : Ledger) (e : Expr) (env : Env) (F T : Multiset Location)
    (h : Heap) (l : Location) (h' : Heap) : Prop where
  /-- What others can reach is kept, and so is what the remaining references reach. -/
  keeps : h.Keeps ((σ.spend e).held.map env.loc + F) h'
  /-- The heap as a whole is as good as it was. -/
  upholds : h.Upholds gap h'
  /-- The heap backs the ledger after the binding. -/
  bind : ∀ {x : Var}, σ.New x.text → Backed gap (σ.bind x e) (env.bind x l) F T h'

/-- Whatever others hold is among what is kept. -/
theorem Steps.keeps_others (step : Steps gap σ e env F T h l h') : h.Keeps F h' :=
  Keeps.right step.keeps

theorem mem_children_of_get? {tag : Tag} {fields : OrderedMap Field Location} {field : Field}
    (hl : fields.get? field = some l) : l ∈ (Value.record tag fields).children := by
  obtain ⟨entry, hentry, rfl⟩ := Option.map_eq_some_iff.1 hl
  exact List.mem_map_of_mem (List.mem_of_find?_eq_some hentry)

theorem proj_steps {field : Field} {record : Var} (b : Backed gap σ env F T h)
    (adm : σ.Admits (.proj field record)) :
    Meets gap (Steps gap σ (.proj field record) env F T h)
      (evalExpr p call env (.proj field record) h) := by
  have hr : σ.Supported record.text := adm.inspected record (.head _)
  rw [evalExpr]
  refine (b.readRecord_meets hr).bind ?_
  rintro ⟨tag, fields⟩ h' ⟨rfl, hv⟩
  dsimp only at hv ⊢
  cases hl : fields.get? field with
  | none => trivial
  | some l =>
      have hspend : σ.spend (.proj field record) = σ := by
        simp [Ledger.spend, Expr.consumed, Expr.spent, spellings]
      refine ⟨Keeps.refl _ _, .refl gap h', fun n => ?_⟩
      rw [Ledger.bind, hspend]
      exact b.borrow hr hv (mem_children_of_get? hl) n

/-- A reset of a cell succeeds. -/
theorem reset_eq (p : Program) (call : Caller) {y : Var} (b : Backed gap σ env F T h)
    (adm : σ.Admits (.reset y)) (hy : env.loc y.text ≠ .invalid) :
    ∃ m h', evalExpr p call env (.reset y) h = (.ok m, h') ∧
      Steps gap σ (.reset y) env F T h m h' := by
  have hs : σ.Supported y.text := Backed.supported_consumed adm (.head _)
  have acc : h.AccountedFor (env.loc y.text ::ₘ ((σ.spend (.reset y)).held.map env.loc + F)) :=
    b.accounted_consumed adm
  obtain ⟨i, hi⟩ : ∃ i, env.loc y.text = .cell i := by
    cases hloc : env.loc y.text with
    | invalid => exact absurd hloc hy
    | cell i => exact ⟨i, rfl⟩
  rw [hi] at acc
  obtain ⟨m, h', hreset, acc', shrinks, vac, upholds⟩ := reset_leaves gap acc b.vacant
  refine ⟨m, h', ?_, shrinks.keeps acc' le_rfl, upholds, fun n => ?_⟩
  · rw [evalExpr, Eval.bind_ok (read_eq (b.bound hs) h), Eval.onHeap, hi, hreset]
  · refine ((b.spend adm).frame (shrinks.keeps acc' (Multiset.le_add_right _ _)) acc' ?_).keep
      n.spend
    have htokens : (σ.spend (.reset y)).tokens = σ.tokens := by
      simp [Ledger.spend, Expr.spent, spellings]
    rwa [htokens, Multiset.add_cons]

theorem reset_steps {y : Var} (b : Backed gap σ env F T h) (adm : σ.Admits (.reset y)) :
    Meets gap (Steps gap σ (.reset y) env F T h) (evalExpr p call env (.reset y) h) := by
  by_cases hy : env.loc y.text = .invalid
  · have hs : σ.Supported y.text := Backed.supported_consumed adm (.head _)
    rw [evalExpr, Eval.bind_ok (read_eq (b.bound hs) h), Eval.onHeap, hy]
    exact ⟨rfl, b.clear (hy ▸ b.reachable hs)⟩
  · obtain ⟨m, h', heq, step⟩ := reset_eq p call b adm hy
    rw [heq]
    exact step

theorem evalExpr_steps (hp : DistinctFields p) (hcall : Conserves gap call)
    (b : Backed gap σ env F T h) (adm : σ.Admits e) :
    Meets gap (Steps gap σ e env F T h) (evalExpr p call env e h) := by
  have owned (hh : e.holding = .owned) :
      Meets gap (Steps gap σ e env F T h) (evalExpr p call env e h) := by
    refine (evalExpr_leaves hp hcall b adm hh).imp fun l h' out => ?_
    refine ⟨out.keeps, out.upholds, fun n => ?_⟩
    rw [Ledger.bind, hh]
    exact (b.spend adm).own out n.spend
  cases e with
  | proj field record => exact proj_steps b adm
  | reset y => exact reset_steps b adm
  | _ => exact owned rfl

/-! ## Bodies -/

theorem evalArm_meets {Q : Location → Heap → Prop} {tag : Tag} {arms : List Arm}
    (harms : ∀ arm ∈ arms, Meets gap Q (evalBody p call env arm.2 h)) :
    Meets gap Q (evalArm p call env x tag arms h) := by
  rw [evalArm_eq]
  cases hb : findArm arms tag with
  | none => trivial
  | some b =>
      obtain ⟨arm, hmem, rfl⟩ := mem_of_findArm hb
      exact harms arm hmem

/-- The evaluation of a balanced body leaves a reference to its result behind. -/
theorem evalBody_leaves {body : Body} (hp : DistinctFields p) (hcall : Conserves gap call)
    (bal : Balanced σ body) (b : Backed gap σ env F T h) :
    Meets gap (Leaves gap F T h) (evalBody p call env body h) := by
  induction bal generalizing env h with
  | @ret σ x hheld =>
      have hx : σ.Supported x.text := .held (hheld ▸ Multiset.mem_singleton_self _)
      rw [evalBody, read_eq (b.bound hx)]
      have acc := b.accounted
      have clear := b.clear
      rw [hheld, Multiset.map_singleton] at acc clear
      exact ⟨Keeps.refl _ _, acc, b.vacant.mono (Multiset.le_add_left _ _), clear, .refl gap h⟩
  | @bind σ x e body adm n _ ih =>
      rw [evalBody]
      refine (evalExpr_steps hp hcall b adm).bind fun l h₁ step => ?_
      exact (ih (step.bind n)).imp fun m h' out => out.after step.keeps_others step.upholds
  | @case σ x arms hx _ ih =>
      rw [evalBody]
      refine (b.readRecord_meets hx).bind ?_
      rintro ⟨tag, fields⟩ h' ⟨rfl, -⟩
      exact evalArm_meets fun arm harm => ih arm harm b
  | @inc σ x body hx _ ih =>
      obtain ⟨h₁, hinc, b₁, same, upholds⟩ := b.take hx
      rw [evalBody, Eval.bind_ok (read_eq (b.bound hx) h), Eval.bind_ok (Eval.onHeap_ok hinc)]
      exact (ih b₁).imp fun m h' out => out.after (same.keeps _) upholds
  | @dec σ x body hx _ ih =>
      obtain ⟨h₁, hdec, b₁, keeps, upholds⟩ := b.drop hx
      rw [evalBody, Eval.bind_ok (read_eq (b.bound (.held hx)) h),
        Eval.bind_ok (Eval.onHeap_ok hdec)]
      exact (ih b₁).imp fun m h' out => out.after (Keeps.right keeps) upholds

/-! ## Calls -/

/-- The functions of a program have bodies that balance. -/
def BalancedFns (p : Program) : Prop :=
  ∀ d ∈ p.fns, (d.params.map (·.text)).Nodup ∧ Balanced (.ofParams d.params) d.body

/-- At the start of a call the heap backs what the parameters hold. -/
theorem backed_ofArgs {params : List Var} {args : List Location}
    (hp : (params.map (·.text)).Nodup) (hlen : params.length = args.length)
    (acc : h.AccountedFor (args + F)) (vac : h.Vacant T) (clear : h.Clear gap args) :
    Backed gap (.ofParams params) (.ofArgs params args) F T h := by
  have hloc : (Ledger.ofParams params).held.map (Env.ofArgs params args).loc = args := by
    rw [Ledger.ofParams, map_spellings, Env.loc_ofArgs hp hlen]
  have held {t : String} (s : (Ledger.ofParams params).Supported t) :
      t ∈ (Ledger.ofParams params).held := by
    cases s with
    | held ht => exact ht
    | read hr _ => cases hr
  constructor
  case bound =>
    intro t s
    obtain ⟨x, hx, rfl⟩ := List.mem_map.1 (Multiset.mem_coe.1 (held s))
    exact Env.bound_ofArgs hp hlen hx
  case token =>
    intro t ht
    exact absurd ht (Multiset.notMem_zero t)
  case part =>
    intro t r hr
    cases hr
  case accounted => rwa [hloc]
  case vacant => rwa [Ledger.ofParams, Multiset.map_zero, zero_add]
  case clear => rwa [hloc]

/-- Calls conserve references, to whatever depth they are carried out. -/
theorem callFn_conserves (gap : Prop) (hp : DistinctFields p) (hf : BalancedFns p) (depth : Nat) :
    Conserves gap (callFn p depth) := by
  induction depth with
  | zero => exact fun _ _ _ => trivial
  | succ depth ih =>
      intro target args F T h acc vac clear
      rw [callFn]
      cases hd : p.fn? target with
      | none => trivial
      | some d =>
          obtain ⟨hnodup, hbal⟩ := hf d (Program.mem_of_fn? hd)
          dsimp only
          split
          · next hlen =>
              exact evalBody_leaves hp ih hbal (backed_ofArgs hnodup hlen acc vac clear)
          · trivial

end Reclaim
