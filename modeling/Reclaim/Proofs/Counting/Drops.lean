import Mathlib.Algebra.Order.Group.Multiset
import Reclaim.Proofs.Counting.Rounds
import Reclaim.Proofs.Counting.Scoped

/-!
# Drops keep bodies scoped

Inserting the drops of matched records takes a scoped body to a scoped body, in which only the tokens
issued meanwhile are new (`insertDrops_settled`); which records are dropped does not matter here.
-/

namespace Reclaim.Counting

open Reclaim.Core

variable {N : String → Prop} {r : Reserved} {c : Counter} {Γ : Context} {x w : Var} {e : Expr}
  {b : Body}

/-! ## Tokens on the way to their reuse -/

/-- A binding that does not take the token leaves it in the context. -/
theorem Context.gain_token_bind (h : spellings e.spent ≤ Γ.tokens) :
    (Γ.gain w.text .token).bind x e = (Γ.bind x e).gain w.text .token := by
  have htokens : (w.text ::ₘ Γ.tokens) - spellings e.spent
      = w.text ::ₘ (Γ.tokens - spellings e.spent) := Multiset.cons_sub_of_le _ h
  unfold Context.bind
  cases e.holding with
  | owned | borrowed record => simp only [Context.spend, Context.gain, htokens]
  | token => simp only [Context.spend, Context.gain, htokens, Multiset.cons_swap]

/-- A token under a name that a body does not bind can be taken by its first construction. -/
theorem Scoped.reuseFirst (s : Scoped N Γ b) (hw : ¬ N w.text) (tag : Tag) :
    Scoped N (Γ.gain w.text .token) (reuseFirst w tag b) := by
  induction b generalizing Γ with
  | ret x =>
      cases s with
      | ret hx => exact .ret hx
  | bind x e b ih =>
      cases s with
      | bind hadm hfree hn s =>
          have hxw : x.text ≠ w.text := fun h => hw (h ▸ hn)
          have hfree' : (Γ.gain w.text .token).Free x.text :=
            ⟨hfree.var, fun hx => (Multiset.mem_cons.1 hx).elim hxw hfree.token⟩
          have hadm' : (Γ.gain w.text .token).Admits e :=
            ⟨hadm.consumed, hadm.inspected, hadm.spent.trans (Multiset.le_cons_self _ _)⟩
          -- Unless this is the construction, the token is on its way behind the binding.
          have later :
              Scoped N (Γ.gain w.text .token) (.bind x e (Counting.reuseFirst w tag b)) := by
            refine .bind hadm' hfree' hn ?_
            rw [Context.gain_token_bind hadm.spent]
            exact ih s
          rcases reuseFirst_bind w tag x e b with h | ⟨d, rfl, -, h⟩
          · exact h ▸ later
          · have hbind : (Γ.gain w.text .token).bind x (.reuse w d) = Γ.bind x (.new d) := by
              simp [Context.bind, Context.spend, Context.gain, Expr.holding, Expr.spent, spellings]
            rw [h]
            refine .bind ⟨hadm.consumed, hadm.inspected, ?_⟩ hfree' hn (hbind ▸ s)
            exact Multiset.cons_le_cons _ (Multiset.zero_le _)
  | case x arms ih =>
      cases s with
      | case hx s =>
          rw [reuseFirst_case]
          exact .case hx (List.forall_mem_map.2 fun arm harm => ih arm harm (s arm harm))
  | inc x b ih => cases s
  | dec x b ih =>
      cases s with
      | dec hx s => exact .dec hx (ih s)

/-! ## Insertion -/

/-- A body that came out of a computation is scoped, with the tokens issued meanwhile. -/
structure Settled (r : Reserved) (c : Counter) (Γ : Context) (out : Body × Counter) : Prop where
  /-- Numbers only grow. -/
  counter : c.issued ≤ out.2.issued
  /-- The body is scoped. -/
  body : Scoped (r.InUse out.2) Γ out.1

/-- Being scoped passes to the parts of a body and back, and survives drops. -/
theorem scoped_compositional :
    Compositional r (fun Γ x => x.text ∈ Γ.vars) fun N Γ b => Context.Within N Γ ∧ Scoped N Γ b where
  mono h hN := ⟨h.1.mono hN, h.2.mono hN⟩
  bind := fun ⟨within, .bind hadm hfree hn s⟩ =>
    ⟨Context.bind _ _ _, fun _ hy => Context.mem_vars_gain hy, ⟨within.bind hn, s⟩,
      fun hN h => ⟨within.mono hN, .bind hadm hfree (hN _ hn) h.2⟩⟩
  case := fun ⟨within, .case hx s⟩ =>
    ⟨hx, fun arm harm => ⟨within, s arm harm⟩,
      fun hN _ h => ⟨within.mono hN, .case hx fun arm harm => (h arm harm).2⟩⟩
  inc h := nomatch h.2
  dec := fun ⟨within, .dec hx s⟩ => ⟨⟨within, s⟩, fun _ h => ⟨h.1, .dec hx h.2⟩⟩
  drop hx h := ⟨h.1, .dec hx h.2⟩
  recycle {N M Γ x w tag b} hx _ hold hnow hN h := by
    obtain ⟨within, s⟩ := h
    have hadm : Γ.Admits (.reset x) :=
      ⟨by simpa [Expr.consumed] using hx, nofun, Multiset.zero_le _⟩
    have hfree : Γ.Free w.text := ⟨fun h => hold (within.vars _ h), fun h => hold (within.tokens _ h)⟩
    have hbind : Γ.bind w (.reset x) = Γ.gain w.text .token := by
      simp [Context.bind, Context.spend, Expr.spent, Expr.holding, spellings]
    refine ⟨within.mono hN, .bind hadm hfree hnow ?_⟩
    rw [hbind]
    exact (s.reuseFirst hold tag).mono hN

/-- Inserting drops takes scoped bodies to scoped bodies. -/
theorem insertDrops_settled (owners : VarSet) (rounds : Nat) (within : Γ.Within (r.InUse c))
    (s : Scoped (r.InUse c) Γ b) : Settled r c Γ (insertDrops r owners rounds b c) := by
  have out := scoped_compositional.insertDrops_preserved owners rounds ⟨within, s⟩
  exact ⟨out.counter, out.body.2⟩

/-- The body of a checked function that is not managed is scoped after drops were inserted. -/
theorem withDrops_scoped {p : Program} {d : FnDef} (h : checkFn p d = .ok ())
    (hm : d.body.isManaged = false) :
    ∃ N, Scoped N ⟨d.params.reverse.map (·.text), 0⟩ (withDrops p d) := by
  obtain ⟨-, hbody⟩ := both_eq_ok.1 h
  let r : Reserved := ⟨d.allVars, p.fns.map (·.name)⟩
  have s : Scoped (r.InUse {}) ⟨d.params.reverse.map (·.text), 0⟩ d.body :=
    scoped_of_checkBody hbody hm fun t ht => .inl ht
  have within : Context.Within (r.InUse {}) ⟨d.params.reverse.map (·.text), 0⟩ := by
    refine ⟨fun t ht => .inl (Body.mem_allVars_of_mem (OrderedSet.mem_texts_ofList.2 ?_)), by simp⟩
    simpa using ht
  exact ⟨_, (insertDrops_settled d.owners (caseDepth d.body) within s).body⟩

end Reclaim.Counting
