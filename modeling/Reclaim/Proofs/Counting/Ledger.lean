import Mathlib.Data.Multiset.AddSub
import Reclaim.Proofs.Bodies

/-!
# The discipline of references in a body

A ledger records what is known about the variables at a point of a body: how many references each
of them holds, out of which record it was read, and which variables are tokens.  A variable is
supported if it holds a reference or was read out of a supported record.

`Balanced σ b` says that on every path through `b` no variable hands on a reference that it does not
hold, every variable that is looked at is supported at that point, each token is taken at most once,
and no reference is left over after the return.
-/

namespace Reclaim.Counting

open Reclaim.Core

/-- The spellings of variables, each as often as it is listed. -/
def spellings (xs : List Var) : Multiset String := xs.map (·.text)

/-- What is known about the variables at a point of a body. -/
structure Ledger where
  /-- The references held by variables. -/
  held : Multiset String
  /-- The record out of which a variable was read. -/
  source : String → Option String
  /-- The tokens that are not taken yet. -/
  tokens : Multiset String

namespace Ledger

variable {σ τ : Ledger} {x y r : String} {k : Holding} {e : Expr}

/-- A variable that holds a reference, or was read out of a record that is supported. -/
inductive Supported (σ : Ledger) : String → Prop where
  | held {x : String} : x ∈ σ.held → Supported σ x
  | read {x r : String} : σ.source x = some r → Supported σ r → Supported σ x

/-- A name of which nothing is known. -/
structure New (σ : Ledger) (x : String) : Prop where
  /-- It holds no reference. -/
  held : x ∉ σ.held
  /-- It is no token. -/
  token : x ∉ σ.tokens
  /-- It was read out of no record. -/
  source : σ.source x = none
  /-- Nothing was read out of it. -/
  record : ∀ y, σ.source y ≠ some x

/-- What an expression needs is there. -/
structure Admits (σ : Ledger) (e : Expr) : Prop where
  /-- The references that it hands on are held. -/
  consumed : spellings e.consumed ≤ σ.held
  /-- What it looks at is supported. -/
  inspected : ∀ x ∈ e.inspected, σ.Supported x.text
  /-- The token that it takes is there. -/
  spent : spellings e.spent ≤ σ.tokens

/-- The ledger without what an expression takes. -/
def spend (σ : Ledger) (e : Expr) : Ledger :=
  { σ with held := σ.held - spellings e.consumed, tokens := σ.tokens - spellings e.spent }

/-- The ledger with one more variable. -/
def gain (σ : Ledger) (x : String) : Holding → Ledger
  | .owned => { σ with held := x ::ₘ σ.held }
  | .borrowed record => { σ with source := Function.update σ.source x (some record.text) }
  | .token => { σ with tokens := x ::ₘ σ.tokens }

/-- The ledger after a binding. -/
def bind (σ : Ledger) (x : Var) (e : Expr) : Ledger := (σ.spend e).gain x.text e.holding

/-- The ledger with one more reference. -/
def take (σ : Ledger) (x : String) : Ledger := { σ with held := x ::ₘ σ.held }

/-- The ledger with one reference less. -/
def drop (σ : Ledger) (x : String) : Ledger := { σ with held := σ.held.erase x }

/-! ## Support -/

/-- More references and more records support more. -/
theorem Supported.mono (s : σ.Supported x) (held : ∀ y ∈ σ.held, τ.Supported y)
    (source : ∀ {y r}, σ.source y = some r → τ.source y = some r) : τ.Supported x := by
  induction s with
  | held hx => exact held _ hx
  | read hr _ ih => exact .read (source hr) ih

theorem Supported.of_spend (s : (σ.spend e).Supported x) : σ.Supported x :=
  s.mono (fun _ hy => .held (Multiset.mem_of_le (Multiset.sub_le_self _ _) hy)) id

theorem Supported.of_drop (s : (σ.drop y).Supported x) : σ.Supported x :=
  s.mono (fun _ hy => .held (Multiset.mem_of_mem_erase hy)) id

theorem Supported.take (s : σ.Supported x) : (σ.take y).Supported x :=
  s.mono (fun _ hy => .held (Multiset.mem_cons_of_mem hy)) id

/-- A further reference to a supported variable supports nothing new. -/
theorem Supported.of_take (s : (σ.take y).Supported x) (hy : σ.Supported y) : σ.Supported x := by
  refine s.mono (fun z hz => ?_) id
  rcases Multiset.mem_cons.1 hz with rfl | hz
  · exact hy
  · exact .held hz

theorem New.not_supported (n : σ.New x) : ¬ σ.Supported x := by
  intro s
  cases s with
  | held hx => exact n.held hx
  | read hr _ => simp [n.source] at hr

theorem New.spend (n : σ.New x) : (σ.spend e).New x :=
  ⟨fun hx => n.held (Multiset.mem_of_le (Multiset.sub_le_self _ _) hx),
    fun hx => n.token (Multiset.mem_of_le (Multiset.sub_le_self _ _) hx), n.source, n.record⟩

theorem source_gain_of_ne (hy : y ≠ x) : (σ.gain x k).source y = σ.source y := by
  cases k with
  | owned | token => rfl
  | borrowed record => exact Function.update_of_ne hy _ _

/-- A new variable supports no other one. -/
theorem Supported.of_gain (s : (σ.gain x k).Supported y) (n : σ.New x) (hy : y ≠ x) :
    σ.Supported y := by
  induction s with
  | @held y hyh =>
      refine .held ?_
      cases k with
      | owned => exact (Multiset.mem_cons.1 hyh).resolve_left hy
      | borrowed | token => exact hyh
  | @read y r hr _ ih =>
      have hr' : σ.source y = some r := (source_gain_of_ne hy).symm.trans hr
      exact .read hr' (ih fun e => n.record y (e ▸ hr'))

theorem Supported.of_gain_or (s : (σ.gain x k).Supported y) (n : σ.New x) :
    y = x ∨ y ≠ x ∧ σ.Supported y := by
  by_cases hy : y = x
  · exact .inl hy
  · exact .inr ⟨hy, s.of_gain n hy⟩

/-- A token supports nothing. -/
theorem New.not_supported_token (n : σ.New x) : ¬ (σ.gain x .token).Supported x := by
  intro s
  cases s with
  | held hx => exact n.held hx
  | read hr _ =>
      have hr' : σ.source x = _ := hr
      simp [n.source] at hr'

end Ledger

/-- The references in a body balance, on every path, with what is held before it. -/
inductive Balanced : Ledger → Body → Prop where
  | ret {σ : Ledger} {x : Var} : σ.held = {x.text} → Balanced σ (.ret x)
  | bind {σ : Ledger} {x : Var} {e : Expr} {b : Body} :
      σ.Admits e → σ.New x.text → Balanced (σ.bind x e) b → Balanced σ (.bind x e b)
  | case {σ : Ledger} {x : Var} {arms : List Arm} :
      σ.Supported x.text → (∀ arm ∈ arms, Balanced σ arm.2) → Balanced σ (.case x arms)
  | inc {σ : Ledger} {x : Var} {b : Body} :
      σ.Supported x.text → Balanced (σ.take x.text) b → Balanced σ (.inc x b)
  | dec {σ : Ledger} {x : Var} {b : Body} :
      x.text ∈ σ.held → Balanced (σ.drop x.text) b → Balanced σ (.dec x b)

end Reclaim.Counting
