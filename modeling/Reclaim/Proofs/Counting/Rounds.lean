import Reclaim.Proofs.Counting.Edits

/-!
# What inserting drops preserves

The drops of matched records are inserted one at a time, and some of them issue tokens.  A property of
bodies survives that if it passes to the parts of a body and back (`Compositional`), holds with one more
drop in front, and holds with a token in front that the body may take.  The main statement is
`insertDrops_preserved`.
-/

namespace Reclaim.Counting

open Reclaim.Core

variable {κ : Type} {Binds : κ → Var → Prop} {I : (String → Prop) → κ → Body → Prop} {r : Reserved}
  {Owner : Var → Prop} {E : Entered} {c c' : Counter} {s : κ} {x : Var} {b b' : Body} {tag : Tag}
  {o o' : Body × Counter}

/-- A property of bodies in a context, in which all names are in `N`.  A variable that a context binds
may be dropped.  Each part of a body has the property, and can be replaced by another that has it,
even if more names are in use by then; the arms of a case keep their tags. -/
structure Compositional (r : Reserved) (Binds : κ → Var → Prop)
    (I : (String → Prop) → κ → Body → Prop) : Prop where
  /-- More names may be in use. -/
  mono {N M : String → Prop} {s : κ} {b : Body} : I N s b → (∀ t, N t → M t) → I M s b
  /-- The rest of a binding. -/
  bind {N : String → Prop} {s : κ} {x : Var} {e : Expr} {b : Body} : I N s (.bind x e b) →
    ∃ s', (∀ y, Binds s y → Binds s' y) ∧ I N s' b ∧
      ∀ {M : String → Prop} {b'}, (∀ t, N t → M t) → I M s' b' → I M s (.bind x e b')
  /-- The arms of a case. -/
  case {N : String → Prop} {s : κ} {x : Var} {arms : List Arm} : I N s (.case x arms) →
    Binds s x ∧ (∀ arm ∈ arms, I N s arm.2) ∧
      ∀ {M : String → Prop} {arms' : List Arm}, (∀ t, N t → M t) →
        arms'.map (·.1) = arms.map (·.1) → (∀ arm ∈ arms', I M s arm.2) → I M s (.case x arms')
  /-- What follows an adjustment upwards. -/
  inc {N : String → Prop} {s : κ} {x : Var} {b : Body} : I N s (.inc x b) →
    I N s b ∧ ∀ {M : String → Prop} {b'}, (∀ t, N t → M t) → I M s b' → I M s (.inc x b')
  /-- What follows an adjustment downwards. -/
  dec {N : String → Prop} {s : κ} {x : Var} {b : Body} : I N s (.dec x b) →
    I N s b ∧ ∀ {M : String → Prop} {b'}, (∀ t, N t → M t) → I M s b' → I M s (.dec x b')
  /-- A drop in front. -/
  drop {N : String → Prop} {s : κ} {x : Var} {b : Body} : Binds s x → I N s b → I N s (.dec x b)
  /-- A token in front, which the body may take, under a name that is not taken and not in use. -/
  recycle {N M : String → Prop} {s : κ} {x w : Var} {tag : Tag} {b : Body} : Binds s x →
    w.text ∉ r.taken → ¬ N w.text → M w.text → (∀ t, N t → M t) → I N s b →
    I M s (.bind w (.reset x) (reuseFirst w tag b))

/-- A computation that issues tokens ended in a body with the property. -/
structure Preserved (I : (String → Prop) → κ → Body → Prop) (r : Reserved) (c : Counter) (s : κ)
    (out : Body × Counter) : Prop where
  /-- Numbers only grow. -/
  counter : c.issued ≤ out.2.issued
  /-- The body has the property, with the tokens issued meanwhile in use. -/
  body : I (r.InUse out.2) s out.1

namespace Compositional

theorem insert_preserved (comp : Compositional r Binds I)
    (h : Inserts r (fun _ => False) Owner E b c b' c') (hE : ∀ e ∈ E, Binds s e.1)
    (hI : I (r.InUse c) s b) : Preserved I r c s (b', c') := by
  refine ⟨h.issued_le, ?_⟩
  induction h generalizing s with
  | adjust hop => exact hop.elim
  | drop _ hx => exact comp.drop (hE _ hx) hI
  | @recycle E x tag b c n _ hx _ hn hperm =>
      have hnow : r.InUse ⟨n + 1⟩ (candidate n).text := .inr ⟨n, Nat.lt_succ_self n, rfl⟩
      have hle : c.issued ≤ (⟨n + 1⟩ : Counter).issued := Nat.le_succ_of_le hn
      exact comp.recycle (hE _ hx) (Reserved.permits_iff.1 hperm) (Reserved.not_inUse hn hperm) hnow
        (fun t ht => ht.mono hle) hI
  | bind h ih =>
      obtain ⟨s', hbinds, hb, whole⟩ := comp.bind hI
      exact whole (fun _ ht => ht.mono h.issued_le) (ih (fun e he => hbinds _ (hE e he)) hb)
  | @arm E x tag before after b b' c c' h ih =>
      obtain ⟨hx, harms, whole⟩ := comp.case hI
      have hgrow (t) (ht : r.InUse c t) : r.InUse c' t := ht.mono h.issued_le
      exact whole hgrow (by simp) (forall_mem_arms harms (fun _ hI => comp.mono hI hgrow) fun hI =>
        ih (List.forall_mem_cons.2 ⟨hx, hE⟩) hI)
  | inc h ih =>
      obtain ⟨hb, whole⟩ := comp.inc hI
      exact whole (fun _ ht => ht.mono h.issued_le) (ih hE hb)
  | dec h ih =>
      obtain ⟨hb, whole⟩ := comp.dec hI
      exact whole (fun _ ht => ht.mono h.issued_le) (ih hE hb)

theorem inserted_preserved (comp : Compositional r Binds I)
    (h : Inserted r (fun _ => False) Owner E o o') (hE : ∀ e ∈ E, Binds s e.1)
    (hI : I (r.InUse o.2) s o.1) : Preserved I r o.2 s o' :=
  ⟨h.issued_le, h.induction (I := fun b c => I (r.InUse c) s b)
    (fun h hI => (comp.insert_preserved h hE hI).body) hI⟩

/-- Inserting drops, whichever records are dropped, preserves the property. -/
theorem insertDrops_preserved (comp : Compositional r Binds I) (owners : VarSet) (rounds : Nat)
    (h : I (r.InUse c) s b) : Preserved I r c s (insertDrops r owners rounds b c) := by
  have drops : Inserted r (fun _ => False) (fun _ => True) [] (b, c)
      (insertDrops r owners rounds b c) :=
    inserted_insertDrops (fun _ _ => trivial) rounds
  exact comp.inserted_preserved drops nofun h

end Compositional

end Reclaim.Counting
