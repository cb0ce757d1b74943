import Reclaim.Proofs.Counting.Insertion
import Reclaim.Proofs.Loading
import Reclaim.Proofs.Paths

/-!
# Counting references along a path

Every variable has a counter.  It starts at one where a variable is bound to a reference of its own
and at zero where it is bound to a field, goes up with each `inc` and down with each occurrence that
hands a reference on.  `Counters.Keeps` says that along a path no counter becomes negative, that
every variable is alive where it is read, and that at the end all counters are zero.

Along the paths through a balanced body the counters are the references that the ledger holds, so
they keep to this.  The main statement is `managedBody_keeps`, for the functions of loaded programs.
-/

namespace Reclaim.Counting

open Reclaim.Core

/-- What has been counted on the way along a path. -/
structure Counters where
  /-- The counter of each variable. -/
  count : String → Int
  /-- The record out of which a variable was read. -/
  source : String → Option String
  /-- The variables bound to tokens. -/
  tokens : List String

namespace Counters

/-- At the start of a function the counter of each parameter is one. -/
def ofParams (params : List Var) : Counters where
  count y := if y ∈ params.map (·.text) then 1 else 0
  source _ := none
  tokens := []

/-- Each occurrence of a variable takes one off its counter. -/
def use (c : Counters) (xs : List Var) : Counters :=
  { c with count := fun y => c.count y - (xs.map (·.text)).count y }

/-- The counters with one more variable. -/
def gain (c : Counters) (x : String) : Holding → Counters
  | .owned => { c with count := Function.update c.count x 1 }
  | .borrowed record =>
    { c with
      count := Function.update c.count x 0
      source := Function.update c.source x (some record.text) }
  | .token => { c with tokens := x :: c.tokens }

/-- The counters after a step. -/
def step (c : Counters) (s : PathStep) : Counters :=
  let c := c.use s.consumed
  match s with
  | .bind x e => c.gain x.text e.holding
  | .inc x => { c with count := Function.update c.count x.text (c.count x.text + 1) }
  | .enter .. | .dec _ | .ret _ => c

/-- A variable with a positive counter, or one that was read out of a variable that is alive. -/
inductive Alive (c : Counters) : String → Prop where
  | counted {x : String} : 0 < c.count x → Alive c x
  | read {x record : String} : c.source x = some record → Alive c record → Alive c x

/-- A step finds what it needs. -/
structure Allows (c : Counters) (s : PathStep) : Prop where
  /-- No counter is negative before the step. -/
  before : ∀ y, 0 ≤ c.count y
  /-- No counter is negative once the step has handed references on. -/
  after : ∀ y, 0 ≤ (c.use s.consumed).count y
  /-- What the step reads is alive, unless it is a token. -/
  alive : ∀ y ∈ s.mentioned, y ∉ c.tokens → c.Alive y

/-- Every step of a path finds what it needs, and at the end all counters are zero. -/
def Keeps (c : Counters) : List PathStep → Prop
  | [] => ∀ y, c.count y = 0
  | s :: rest => c.Allows s ∧ (c.step s).Keeps rest

/-! ## Counters and ledgers -/

variable {c : Counters} {σ : Ledger} {x : Var} {e : Expr} {b : Body} {k : Holding} {y : String}

/-- The counters are the references that a ledger holds. -/
structure Reflects (c : Counters) (σ : Ledger) : Prop where
  /-- A counter is the number of references held by a variable. -/
  count : ∀ y, c.count y = σ.held.count y
  /-- The same variables were read out of the same records. -/
  source : c.source = σ.source
  /-- The tokens of the ledger are tokens. -/
  tokens : ∀ y ∈ σ.tokens, y ∈ c.tokens

namespace Reflects

theorem ofParams {params : List Var} (hp : (params.map (·.text)).Nodup) :
    (Counters.ofParams params).Reflects (.ofParams params) := by
  refine ⟨fun y => ?_, rfl, nofun⟩
  rw [Ledger.ofParams, spellings, Multiset.coe_count, hp.count, Counters.ofParams]
  dsimp only
  split <;> rfl

theorem nonneg (r : c.Reflects σ) (y : String) : 0 ≤ c.count y := by
  rw [r.count]
  exact Int.natCast_nonneg _

theorem alive (r : c.Reflects σ) (s : σ.Supported y) : c.Alive y := by
  induction s with
  | held hy =>
      refine .counted ?_
      rw [r.count]
      exact Int.natCast_pos.2 (Multiset.count_pos.2 hy)
  | read hr _ ih => exact .read (r.source ▸ hr) ih

/-- Handing on references that are held. -/
theorem use {xs : List Var} (r : c.Reflects σ) (hxs : spellings xs ≤ σ.held) :
    (c.use xs).Reflects { σ with held := σ.held - spellings xs } := by
  refine ⟨fun y => ?_, r.source, r.tokens⟩
  have hle : (spellings xs).count y ≤ σ.held.count y := Multiset.count_le_of_le y hxs
  have hcount : (spellings xs).count y = (xs.map (·.text)).count y := Multiset.coe_count _ _
  rw [Counters.use, Multiset.count_sub, Int.ofNat_sub hle, hcount]
  dsimp only
  rw [r.count]

/-- Taking tokens. -/
theorem spend (r : c.Reflects σ) (taken : Multiset String) :
    c.Reflects { σ with tokens := σ.tokens - taken } :=
  ⟨r.count, r.source, fun y hy => r.tokens y (Multiset.mem_of_le (Multiset.sub_le_self _ _) hy)⟩

/-- A variable of which nothing is known gets a counter. -/
theorem gain (r : c.Reflects σ) (n : σ.New y) : (c.gain y k).Reflects (σ.gain y k) := by
  have hzero : σ.held.count y = 0 := Multiset.count_eq_zero.2 n.held
  cases k with
  | owned =>
      refine ⟨fun z => ?_, r.source, r.tokens⟩
      by_cases hz : z = y
      · subst hz
        simp [Counters.gain, Ledger.gain, hzero]
      · simp [Counters.gain, Ledger.gain, hz, r.count]
  | borrowed record =>
      refine ⟨fun z => ?_, congrArg (Function.update · y _) r.source, r.tokens⟩
      by_cases hz : z = y
      · subst hz
        simp [Counters.gain, Ledger.gain, hzero]
      · simp [Counters.gain, Ledger.gain, hz, r.count]
  | token =>
      refine ⟨r.count, r.source, fun z hz => ?_⟩
      rcases Multiset.mem_cons.1 hz with rfl | hz
      · exact .head _
      · exact .tail _ (r.tokens z hz)

/-- A step is allowed if the references that it hands on are held and what it reads is supported. -/
theorem allows {s : PathStep} (r : c.Reflects σ) (hused : spellings s.consumed ≤ σ.held)
    (hread : ∀ y ∈ s.mentioned, y ∈ σ.tokens ∨ σ.Supported y) : c.Allows s where
  before := r.nonneg
  after := (r.use hused).nonneg
  alive y hy ht := r.alive ((hread y hy).resolve_left fun h => ht (r.tokens y h))

/-- A step that only reads a variable is allowed if the variable is supported. -/
theorem allows_read {s : PathStep} (r : c.Reflects σ) (hs : s.consumed = [])
    (hread : s.mentioned = [x.text]) (hx : σ.Supported x.text) : c.Allows s := by
  refine r.allows (hs ▸ Multiset.zero_le _) fun y hy => ?_
  rw [hread] at hy
  exact List.mem_singleton.1 hy ▸ .inr hx

/-- A step that hands on a reference of one variable is allowed if the variable holds it. -/
theorem allows_use {s : PathStep} (r : c.Reflects σ) (hs : s.consumed = [x])
    (hread : s.mentioned = [x.text]) (hx : x.text ∈ σ.held) : c.Allows s := by
  refine r.allows (hs ▸ Multiset.singleton_le.2 hx) fun y hy => ?_
  rw [hread] at hy
  exact List.mem_singleton.1 hy ▸ .inr (.held hx)

theorem allows_bind (r : c.Reflects σ) (a : σ.Admits e) : c.Allows (.bind x e) := by
  refine r.allows a.consumed fun y hy => ?_
  rcases Expr.mem_freeVars.1 hy with h | h | h
  · exact .inr (.held (Multiset.mem_of_le a.consumed h))
  · obtain ⟨z, hz, rfl⟩ := List.mem_map.1 h
    exact .inr (a.inspected z hz)
  · exact .inl (Multiset.mem_of_le a.spent h)

theorem step_bind (r : c.Reflects σ) (a : σ.Admits e) (n : σ.New x.text) :
    (c.step (.bind x e)).Reflects (σ.bind x e) :=
  ((r.use a.consumed).spend (spellings e.spent)).gain n.spend

theorem step_inc (r : c.Reflects σ) : (c.step (.inc x)).Reflects (σ.take x.text) := by
  refine ⟨fun y => ?_, r.source, r.tokens⟩
  by_cases hy : y = x.text
  · subst hy
    simp [step, Counters.use, PathStep.consumed, Ledger.take, r.count]
  · simp [step, Counters.use, PathStep.consumed, Ledger.take, hy, r.count]

theorem step_enter {tag : Tag} (r : c.Reflects σ) : (c.step (.enter x tag)).Reflects σ := by
  refine ⟨fun y => ?_, r.source, r.tokens⟩
  simp [step, Counters.use, PathStep.consumed, r.count]

theorem step_dec (r : c.Reflects σ) (hx : x.text ∈ σ.held) :
    (c.step (.dec x)).Reflects (σ.drop x.text) := by
  have hle : spellings [x] ≤ σ.held := Multiset.singleton_le.2 hx
  have hdrop : σ.held - spellings [x] = σ.held.erase x.text := Multiset.sub_singleton _ _
  have := r.use hle
  rwa [hdrop] at this

/-- A return of the only reference. -/
theorem step_ret (r : c.Reflects σ) (hx : σ.held = {x.text}) (y : String) :
    (c.step (.ret x)).count y = 0 := by
  have hle : spellings [x] ≤ σ.held := hx.ge
  have := (r.use hle).count y
  rw [hx] at this
  exact this.trans (by simp [spellings])

end Reflects

/-! ## Paths through balanced bodies -/

/-- The counters keep to the discipline along every path through a balanced body. -/
theorem keeps_of_balanced {steps : List PathStep} (h : Balanced σ b) (r : c.Reflects σ)
    (hsteps : steps ∈ b.paths) : c.Keeps steps := by
  induction h generalizing c steps with
  | ret hx =>
      obtain rfl := List.mem_singleton.1 hsteps
      exact ⟨r.allows_use rfl rfl (by simp [hx]), r.step_ret hx⟩
  | bind ha hn _ ih =>
      obtain ⟨rest, hrest, rfl⟩ := List.mem_map.1 hsteps
      exact ⟨r.allows_bind ha, ih (r.step_bind ha hn) hrest⟩
  | case hx _ ih =>
      obtain ⟨arm, harm, rest, hrest, rfl⟩ := mem_pathsIn.1 hsteps
      exact ⟨r.allows_read rfl rfl hx, ih arm harm r.step_enter hrest⟩
  | inc hx _ ih =>
      obtain ⟨rest, hrest, rfl⟩ := List.mem_map.1 hsteps
      exact ⟨r.allows_read rfl rfl hx, ih r.step_inc hrest⟩
  | dec hx _ ih =>
      obtain ⟨rest, hrest, rfl⟩ := List.mem_map.1 hsteps
      exact ⟨r.allows_use rfl rfl hx, ih (r.step_dec hx) hrest⟩

end Counters

/-! ## A box in a box -/

/-- A function that takes a box out of a box and puts it into another one, for which the cell of the
first box is used again. -/
def boxSource : String :=
  "(deftype Box v)
  (defn wrap (x) (case x Box (let (y (proj v x)) (case y Box (let (z (new Box y)) (ret z))))))"

set_option maxRecDepth 2000 in
/-- The function of the text is not managed, and there is a path through its transformed body that
makes six steps before it returns. -/
theorem exists_box : ∃ p d, load boxSource = .ok p ∧ d ∈ p.fns ∧ d.body.isManaged = false ∧
    ∃ steps ∈ (managedBody p d).paths, steps.length = 7 := by
  obtain ⟨p, hload, hcheck⟩ : ∃ p, load boxSource = .ok p ∧ (p.fns.any fun d =>
      !d.body.isManaged && (managedBody p d).paths.any fun steps => steps.length == 7) = true :=
    exists_load rfl (by decide +kernel)
  simp only [List.any_eq_true, Bool.and_eq_true, Bool.not_eq_true', beq_iff_eq] at hcheck
  obtain ⟨d, hd, hm, steps, hsteps, hlen⟩ := hcheck
  exact ⟨p, d, hload, hd, hm, steps, hsteps, hlen⟩

/-! ## Main statement -/

variable {source : String} {p : Program} {d : FnDef} {steps : List PathStep}

/-- In a loaded program the memory management of every function that does not manage memory itself
keeps to the discipline of references: along each path no counter becomes negative, every variable
is alive where it is read, and nothing is left after the return. -/
theorem managedBody_keeps (hload : load source = .ok p) (hd : d ∈ p.fns)
    (hm : d.body.isManaged = false) (hsteps : steps ∈ (managedBody p d).paths) :
    (Counters.ofParams d.params).Keeps steps := by
  have hcheck := checkFn_of_mem (wellFormed_of_load hload).valid hd
  have hp := (nodup_of_checkParams (both_eq_ok.1 hcheck).1).1
  exact Counters.keeps_of_balanced (balanced_managedBody hcheck hm) (.ofParams hp) hsteps

/-- The path through the function that changes the box keeps to the discipline. -/
theorem managedBody_keeps_box : ∃ p d steps, load boxSource = .ok p ∧ d ∈ p.fns ∧
    d.body.isManaged = false ∧ steps ∈ (managedBody p d).paths ∧ steps.length = 7 ∧
    (Counters.ofParams d.params).Keeps steps := by
  obtain ⟨p, d, hload, hd, hm, steps, hsteps, hlen⟩ := exists_box
  exact ⟨p, d, steps, hload, hd, hm, hsteps, hlen, managedBody_keeps hload hd hm hsteps⟩

end Reclaim.Counting
