import Mathlib.Algebra.Order.Sub.Basic
import Mathlib.Data.Multiset.MapFold
import Reclaim.Proofs.Counting.Ledger
import Reclaim.Proofs.Eval.Leaves

/-!
# Ledgers and heaps

A heap backs a ledger if the references that the ledger says are held are in the account of the heap,
next to the references `F` held by others, and a variable that was read out of a supported record is
still the location of one of its fields (`Backed`).  So every supported variable is the location of a
live cell, which its own reference or that of a record behind it keeps alive.

One lemma for each change of a ledger says that the heap backs the changed ledger after the
corresponding heap operation.
-/

namespace Reclaim

open Reclaim.Core Reclaim.Counting Reclaim.Heap

variable {gap : Prop} {σ : Ledger} {env : Env} {F F' G T T' U : Multiset Location} {h h' : Heap}
  {x record : Var} {e : Expr} {t r : String} {l : Location} {i : Nat} {v : Value}

/-- The heap has what the ledger says about the variables of the environment, while others hold the
references `F` and the tokens `T`. -/
structure Backed (gap : Prop) (σ : Ledger) (env : Env) (F T : Multiset Location) (h : Heap) :
    Prop where
  /-- Supported variables are bound. -/
  bound : ∀ {x}, σ.Supported x → env.Bound x
  /-- Tokens are bound. -/
  token : ∀ {x}, x ∈ σ.tokens → env.Bound x
  /-- A variable read out of a supported record is one of its parts. -/
  part : ∀ {x r}, σ.source x = some r → σ.Supported r →
    ∃ v, h.value? (env.loc r) = some v ∧ env.loc x ∈ v.children
  /-- The references held by variables are in the account. -/
  accounted : h.AccountedFor (σ.held.map env.loc + F)
  /-- Tokens are vacant. -/
  vacant : h.Vacant (σ.tokens.map env.loc + T)
  /-- The references held by variables lead to cells. -/
  clear : h.Clear gap (σ.held.map env.loc)

namespace Backed

/-- What is held reaches every supported variable. -/
theorem reachable (b : Backed gap σ env F T h) (s : σ.Supported t) :
    h.Reachable (σ.held.map env.loc) (env.loc t) := by
  induction s with
  | held hx => exact .held (Multiset.mem_map_of_mem _ hx)
  | read hr s ih =>
      obtain ⟨v, hv, hmem⟩ := b.part hr s
      exact .child ih hv hmem

theorem live (b : Backed gap σ env F T h) (s : σ.Supported t) (hl : env.loc t ≠ .invalid) :
    h.Live (env.loc t) := by
  have hr := b.reachable s
  cases hloc : env.loc t with
  | invalid => exact absurd hloc hl
  | cell i =>
      rw [hloc] at hr
      exact b.accounted.live_of_reachable (Multiset.le_add_right _ _) hr

/-- A heap that keeps what is held backs the same ledger. -/
theorem frame (b : Backed gap σ env F T h) (k : h.Keeps (σ.held.map env.loc) h')
    (acc : h'.AccountedFor (σ.held.map env.loc + F'))
    (vac : h'.Vacant (σ.tokens.map env.loc + T')) : Backed gap σ env F' T' h' := by
  constructor
  case bound => exact b.bound
  case token => exact b.token
  case part =>
    intro x r hr s
    obtain ⟨v, hv, hmem⟩ := b.part hr s
    exact ⟨v, (k (b.reachable s)).trans hv, hmem⟩
  case accounted => exact acc
  case vacant => exact vac
  case clear => exact b.clear.keeps k

/-! ## Taking and giving up references -/

/-- A reference to a supported variable can be taken. -/
theorem take (b : Backed gap σ env F T h) (s : σ.Supported t) :
    ∃ h', h.inc [env.loc t] = (.ok (), h') ∧ Backed gap (σ.take t) env F T h' ∧ h.Recounts h' ∧
      h.Upholds gap h' := by
  obtain ⟨h', hinc, acc, same, vac, upholds⟩ := inc_leaves gap [env.loc t] b.accounted b.vacant
    fun l hl hne => by
      obtain rfl := List.mem_singleton.1 hl
      exact b.live s hne
  refine ⟨h', hinc, ?_, same, upholds⟩
  constructor
  case bound =>
    intro x s'
    exact b.bound (s'.of_take s)
  case token => exact b.token
  case part =>
    intro x r hr s'
    obtain ⟨v, hv, hmem⟩ := b.part hr (s'.of_take s)
    exact ⟨v, (same.value _).trans hv, hmem⟩
  case accounted =>
    rw [Ledger.take, Multiset.map_cons, Multiset.cons_add]
    exact acc
  case vacant => exact vac
  case clear =>
    refine (b.clear.mono fun l hl => ?_).keeps (same.keeps _)
    rw [Ledger.take, Multiset.map_cons, Multiset.mem_cons] at hl
    rcases hl with rfl | hl
    · exact b.reachable s
    · exact .held hl

/-- A reference that is held can be handed to others. -/
theorem release (b : Backed gap σ env F T h) (ht : t ∈ σ.held) :
    Backed gap (σ.drop t) env (env.loc t ::ₘ F) T h := by
  have hheld : σ.held.map env.loc = env.loc t ::ₘ (σ.held.erase t).map env.loc := by
    rw [← Multiset.map_cons, Multiset.cons_erase ht]
  constructor
  case bound =>
    intro x s
    exact b.bound s.of_drop
  case token => exact b.token
  case part =>
    intro x r hr s
    exact b.part hr s.of_drop
  case accounted =>
    have acc := b.accounted
    rwa [hheld, Multiset.cons_add, ← Multiset.add_cons] at acc
  case vacant => exact b.vacant
  case clear =>
    refine b.clear.mono fun l hl => .held ?_
    rw [hheld]
    exact Multiset.mem_cons_of_mem hl

/-- A reference that is held can be given up. -/
theorem drop (b : Backed gap σ env F T h) (ht : t ∈ σ.held) :
    ∃ h', h.dec [env.loc t] = (.ok (), h') ∧ Backed gap (σ.drop t) env F T h' ∧
      h.Keeps ((σ.drop t).held.map env.loc + F) h' ∧ h.Upholds gap h' := by
  have released := b.release ht
  have acc : h.AccountedFor (([env.loc t] : List Location) + ((σ.drop t).held.map env.loc + F)) := by
    rw [Multiset.coe_singleton, Multiset.singleton_add, ← Multiset.add_cons]
    exact released.accounted
  obtain ⟨h', hdec, acc', shrinks, vac, upholds⟩ := dec_leaves gap acc b.vacant
  exact ⟨h', hdec, released.frame (shrinks.keeps acc' (Multiset.le_add_right _ _)) acc' vac,
    shrinks.keeps acc' le_rfl, upholds⟩

/-! ## Bindings -/

/-- The references and the token that an expression takes are no longer held by variables. -/
theorem spend (b : Backed gap σ env F T h) (adm : σ.Admits e) :
    Backed gap (σ.spend e) env ((spellings e.consumed).map env.loc + F)
      ((spellings e.spent).map env.loc + T) h := by
  constructor
  case bound =>
    intro x s
    exact b.bound s.of_spend
  case token =>
    intro x hx
    exact b.token (Multiset.mem_of_le (Multiset.sub_le_self _ _) hx)
  case part =>
    intro x r hr s
    exact b.part hr s.of_spend
  case accounted =>
    have hsum : σ.held = σ.held - spellings e.consumed + spellings e.consumed :=
      (tsub_add_cancel_of_le adm.consumed).symm
    have acc := b.accounted
    rwa [hsum, Multiset.map_add, add_assoc] at acc
  case vacant =>
    have hsum : σ.tokens = σ.tokens - spellings e.spent + spellings e.spent :=
      (tsub_add_cancel_of_le adm.spent).symm
    have vac := b.vacant
    rwa [hsum, Multiset.map_add, add_assoc] at vac
  case clear =>
    have hle : (σ.spend e).held.map env.loc ≤ σ.held.map env.loc :=
      Multiset.map_le_map (Multiset.sub_le_self _ _)
    exact b.clear.mono fun l hl => .held (Multiset.mem_of_le hle hl)

theorem map_loc_bind {xs : Multiset String} (hx : x.text ∉ xs) :
    xs.map (env.bind x l).loc = xs.map env.loc :=
  Multiset.map_congr rfl fun _ hy => Env.loc_bind_of_ne fun e => hx (e ▸ hy)

/-! Of variables that were there before, a binding changes nothing. -/

section

variable {k : Holding}

theorem bound_gain (b : Backed gap σ env F T h) (n : σ.New x.text)
    (s : (σ.gain x.text k).Supported t) : (env.bind x l).Bound t := by
  rcases s.of_gain_or n with rfl | ⟨-, s⟩
  · exact Env.bound_bind_self
  · exact (b.bound s).bind

theorem part_gain (b : Backed gap σ env F T h) (n : σ.New x.text) (ht : t ≠ x.text)
    (hr : (σ.gain x.text k).source t = some r) (s : (σ.gain x.text k).Supported r) :
    σ.Supported r ∧ ∃ v, h.value? ((env.bind x l).loc r) = some v ∧
      (env.bind x l).loc t ∈ v.children := by
  have hr' : σ.source t = some r := (Ledger.source_gain_of_ne ht).symm.trans hr
  have hne : r ≠ x.text := fun e => n.record t (e ▸ hr')
  have s' := s.of_gain n hne
  rw [Env.loc_bind_of_ne hne, Env.loc_bind_of_ne ht]
  exact ⟨s', b.part hr' s'⟩

end

/-- A new variable takes over a reference that was left behind. -/
theorem own (b : Backed gap σ env F T h)
    (out : Leaves gap (σ.held.map env.loc + G) (σ.tokens.map env.loc + U) h l h')
    (n : σ.New x.text) : Backed gap (σ.gain x.text .owned) (env.bind x l) G U h' := by
  constructor
  case bound =>
    intro t s
    exact b.bound_gain n s
  case token =>
    intro t ht
    exact (b.token ht).bind
  case part =>
    intro y r hr s
    have hy : y ≠ x.text := by
      rintro rfl
      exact absurd (n.source.symm.trans hr) nofun
    obtain ⟨s', v, hv, hmem⟩ := b.part_gain (l := l) n hy hr s
    have hne : r ≠ x.text := fun e => n.record y (e ▸ hr)
    rw [Env.loc_bind_of_ne hne] at hv ⊢
    -- The record is reachable from what the variables held before, which the expression kept.
    exact ⟨v, (out.keeps ((b.reachable s').add G)).trans hv, hmem⟩
  case accounted =>
    rw [Ledger.gain, Multiset.map_cons, map_loc_bind n.held, Env.loc_bind_self, Multiset.cons_add]
    exact out.accounted
  case vacant =>
    rw [Ledger.gain, map_loc_bind n.token]
    exact out.vacant
  case clear =>
    rw [Ledger.gain, Multiset.map_cons, map_loc_bind n.held, Env.loc_bind_self,
      ← Multiset.singleton_add]
    exact out.clear.add (b.clear.keeps (Keeps.left out.keeps))

/-- A new variable borrows a part of a supported record. -/
theorem borrow (b : Backed gap σ env F T h) (hs : σ.Supported record.text)
    (hv : h.value? (env.loc record.text) = some v) (hl : l ∈ v.children) (n : σ.New x.text) :
    Backed gap (σ.gain x.text (.borrowed record)) (env.bind x l) F T h := by
  have hrx : record.text ≠ x.text := fun e => n.not_supported (e ▸ hs)
  constructor
  case bound =>
    intro t s
    exact b.bound_gain n s
  case token =>
    intro t ht
    exact (b.token ht).bind
  case part =>
    intro y r hr s
    by_cases hy : y = x.text
    · subst hy
      have heq : some record.text = some r := (Function.update_self x.text _ _).symm.trans hr
      cases heq
      rw [Env.loc_bind_of_ne hrx, Env.loc_bind_self]
      exact ⟨v, hv, hl⟩
    · exact (b.part_gain n hy hr s).2
  case accounted =>
    rw [Ledger.gain, map_loc_bind n.held]
    exact b.accounted
  case vacant =>
    rw [Ledger.gain, map_loc_bind n.token]
    exact b.vacant
  case clear =>
    rw [Ledger.gain, map_loc_bind n.held]
    exact b.clear

/-- A new variable takes over a token. -/
theorem keep (b : Backed gap σ env F (l ::ₘ T) h) (n : σ.New x.text) :
    Backed gap (σ.gain x.text .token) (env.bind x l) F T h := by
  constructor
  case bound =>
    intro t s
    exact b.bound_gain n s
  case token =>
    intro t ht
    rcases Multiset.mem_cons.1 ht with rfl | ht
    · exact Env.bound_bind_self
    · exact (b.token ht).bind
  case part =>
    intro y r hr s
    have hy : y ≠ x.text := by
      rintro rfl
      exact absurd (n.source.symm.trans hr) nofun
    exact (b.part_gain n hy hr s).2
  case accounted =>
    rw [Ledger.gain, map_loc_bind n.held]
    exact b.accounted
  case vacant =>
    rw [Ledger.gain, Multiset.map_cons, map_loc_bind n.token, Env.loc_bind_self, Multiset.cons_add,
      ← Multiset.add_cons]
    exact b.vacant
  case clear =>
    rw [Ledger.gain, map_loc_bind n.held]
    exact b.clear

end Backed

end Reclaim
