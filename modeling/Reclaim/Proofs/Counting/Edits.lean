import Mathlib.Logic.Relation
import Reclaim.Counting.Drops
import Reclaim.Counting.Retains
import Reclaim.Proofs.Counting.Fresh
import Reclaim.Proofs.Trails

/-!
# One insertion at a time

Memory management is made explicit by putting single operations into a body.  One insertion
(`Inserts`) puts an adjustment in front of a step, drops a matched record inside the arm in which it
was matched, or resets such a record and lets the constructions that follow use its token.

The passes only ever make insertions, one after the other: inserting drops does so although it visits
bodies that earlier visits have changed (`inserted_insertDrops`).  What a single insertion preserves
is therefore preserved by a whole pass (`Inserted.induction`), and nothing else is proved of a pass by
walking through it again.  A property of all steps is preserved if the inserted steps have it
(`Inserted.everywhere`).
-/

namespace Reclaim.Counting

open Reclaim.Core
open Relation (ReflTransGen)

/-- Arms that are entered on the way to a place, the last one first: what is matched, and the tag. -/
abbrev Entered : Type := List (Var × Tag)

/-- One operation is put into a body.  An adjustment can stand anywhere, if it may be made at all; a
variable that may be dropped can be dropped where it is known to hold a record of some tag. -/
inductive Inserts (r : Reserved) (May : Adjustment → Prop) (Owner : Var → Prop) :
    Entered → Body → Counter → Body → Counter → Prop where
  | adjust {E : Entered} {op : Adjustment} {b : Body} {c : Counter} :
      May op → Inserts r May Owner E b c (adjusting [op] b) c
  | drop {E : Entered} {x : Var} {tag : Tag} {b : Body} {c : Counter} :
      Owner x → (x, tag) ∈ E → Inserts r May Owner E b c (.dec x b) c
  | recycle {E : Entered} {x : Var} {tag : Tag} {b : Body} {c : Counter} {n : Nat} :
      Owner x → (x, tag) ∈ E → builds tag b = true → c.issued ≤ n → r.permits n = true →
      Inserts r May Owner E b c
        (.bind (candidate n) (.reset x) (reuseFirst (candidate n) tag b)) ⟨n + 1⟩
  | bind {E : Entered} {x : Var} {e : Expr} {b b' : Body} {c c' : Counter} :
      Inserts r May Owner E b c b' c' →
      Inserts r May Owner E (.bind x e b) c (.bind x e b') c'
  | arm {E : Entered} {x : Var} {tag : Tag} {before after : List Arm} {b b' : Body}
      {c c' : Counter} : Inserts r May Owner ((x, tag) :: E) b c b' c' →
      Inserts r May Owner E (.case x (before ++ (tag, b) :: after)) c
        (.case x (before ++ (tag, b') :: after)) c'
  | inc {E : Entered} {x : Var} {b b' : Body} {c c' : Counter} :
      Inserts r May Owner E b c b' c' → Inserts r May Owner E (.inc x b) c (.inc x b') c'
  | dec {E : Entered} {x : Var} {b b' : Body} {c c' : Counter} :
      Inserts r May Owner E b c b' c' → Inserts r May Owner E (.dec x b) c (.dec x b') c'

/-- Insertions are made one after the other. -/
def Inserted (r : Reserved) (May : Adjustment → Prop) (Owner : Var → Prop) (E : Entered) :
    Body × Counter → Body × Counter → Prop :=
  ReflTransGen fun o o' => Inserts r May Owner E o.1 o.2 o'.1 o'.2

variable {r : Reserved} {May May' : Adjustment → Prop} {Owner Owner' : Var → Prop} {E E' : Entered}
  {x : Var} {tag : Tag} {e : Expr} {b b' : Body} {c c' : Counter} {arms : List Arm}
  {o o' : Body × Counter}

/-! ## Insertions in a row -/

/-- Numbers only grow. -/
theorem Inserts.issued_le (h : Inserts r May Owner E b c b' c') : c.issued ≤ c'.issued := by
  induction h with
  | adjust | drop => exact Nat.le_refl _
  | recycle _ _ _ hn _ => exact Nat.le_succ_of_le hn
  | bind _ ih | arm _ ih | inc _ ih | dec _ ih => exact ih

/-- More may be allowed. -/
theorem Inserts.mono (h : Inserts r May Owner E b c b' c') (hMay : ∀ op, May op → May' op)
    (hOwner : ∀ x, Owner x → Owner' x) : Inserts r May' Owner' E b c b' c' := by
  induction h with
  | adjust hop => exact .adjust (hMay _ hop)
  | drop hx hE => exact .drop (hOwner _ hx) hE
  | recycle hx hE hb hn hperm => exact .recycle (hOwner _ hx) hE hb hn hperm
  | bind _ ih => exact .bind ih
  | arm _ ih => exact .arm ih
  | inc _ ih => exact .inc ih
  | dec _ ih => exact .dec ih

namespace Inserted

theorem refl : Inserted r May Owner E o o := ReflTransGen.refl

theorem trans {o₁ o₂ o₃ : Body × Counter} (h : Inserted r May Owner E o₁ o₂)
    (h' : Inserted r May Owner E o₂ o₃) : Inserted r May Owner E o₁ o₃ :=
  ReflTransGen.trans h h'

theorem single (h : Inserts r May Owner E b c b' c') : Inserted r May Owner E (b, c) (b', c') :=
  ReflTransGen.single h

theorem mono (h : Inserted r May Owner E o o') (hMay : ∀ op, May op → May' op)
    (hOwner : ∀ x, Owner x → Owner' x) : Inserted r May' Owner' E o o' :=
  ReflTransGen.mono (fun _ _ h => h.mono hMay hOwner) _ _ h

/-- Insertions into a part of a body are insertions into the body. -/
theorem inside {f : Body → Body} (h : Inserted r May Owner E' o o')
    (hf : ∀ {b c b' c'}, Inserts r May Owner E' b c b' c' → Inserts r May Owner E (f b) c (f b') c') :
    Inserted r May Owner E (f o.1, o.2) (f o'.1, o'.2) :=
  ReflTransGen.lift (fun o : Body × Counter => (f o.1, o.2)) (fun _ _ h => hf h) _ _ h

/-- A property that a single insertion preserves is preserved by all. -/
theorem induction {I : Body → Counter → Prop} (h : Inserted r May Owner E o o')
    (step : ∀ {b c b' c'}, Inserts r May Owner E b c b' c' → I b c → I b' c')
    (start : I o.1 o.2) : I o'.1 o'.2 := by
  induction h with
  | refl => exact start
  | tail _ h ih => exact step h ih

theorem issued_le (h : Inserted r May Owner E o o') : o.2.issued ≤ o'.2.issued :=
  h.induction (I := fun _ c => o.2.issued ≤ c.issued)
    (fun h hle => Nat.le_trans hle h.issued_le) (Nat.le_refl _)

end Inserted

/-! ## Arms -/

theorem reuseFirstIn_eq (w : Var) (tag : Tag) (arms : List Arm) :
    reuseFirstIn w tag arms = arms.map fun arm => (arm.1, reuseFirst w tag arm.2) := by
  induction arms with
  | nil => rfl
  | cons arm rest ih =>
      obtain ⟨armTag, b⟩ := arm
      rw [reuseFirstIn, ih, List.map_cons]

theorem reuseFirst_case (w : Var) (tag : Tag) (x : Var) (arms : List Arm) :
    reuseFirst w tag (.case x arms) =
      .case x (arms.map fun arm => (arm.1, reuseFirst w tag arm.2)) := by
  rw [reuseFirst, reuseFirstIn_eq]

/-- Behind a binding the search for a construction goes on, unless the binding is one. -/
theorem reuseFirst_bind (w : Var) (tag : Tag) (x : Var) (e : Expr) (b : Body) :
    reuseFirst w tag (.bind x e b) = .bind x e (reuseFirst w tag b) ∨
      ∃ k, e = .new k ∧ k.tag.text = tag.text ∧
        reuseFirst w tag (.bind x e b) = .bind x (.reuse w k) b := by
  rw [reuseFirst.eq_def]
  cases e with
  | new k =>
      dsimp only
      split
      · next hk => exact .inr ⟨k, rfl, Name.beq_iff.1 hk, rfl⟩
      · exact .inl rfl
  | _ => exact .inl rfl

/-- What holds of all arms still holds if one of them gets another body of which it holds. -/
theorem forall_mem_arms {Q Q' : Arm → Prop} {before after : List Arm}
    (h : ∀ arm ∈ before ++ (tag, b) :: after, Q arm) (hold : ∀ arm, Q arm → Q' arm)
    (hnew : Q (tag, b) → Q' (tag, b')) : ∀ arm ∈ before ++ (tag, b') :: after, Q' arm := by
  obtain ⟨hbefore, hafter⟩ := List.forall_mem_append.1 h
  obtain ⟨hb, hafter⟩ := List.forall_mem_cons.1 hafter
  exact List.forall_mem_append.2 ⟨fun arm harm => hold arm (hbefore arm harm),
    List.forall_mem_cons.2 ⟨hnew hb, fun arm harm => hold arm (hafter arm harm)⟩⟩

/-- Arms that are computed one after the other. -/
def mapArms (g : Tag → Body → StateM Counter Body) (arms : List Arm) : StateM Counter (List Arm) :=
  arms.mapM fun arm => return (arm.1, ← g arm.1 arm.2)

theorem mapArms_cons (g : Tag → Body → StateM Counter Body) (arm : Arm) (rest : List Arm) :
    mapArms g (arm :: rest) = do
      let b ← g arm.1 arm.2
      return (arm.1, b) :: (← mapArms g rest) := by
  rw [mapArms, List.mapM_cons]
  rfl

theorem mapArms_cons_run (g : Tag → Body → StateM Counter Body) (arm : Arm) (rest : List Arm)
    (c : Counter) : mapArms g (arm :: rest) c =
      ((arm.1, (g arm.1 arm.2 c).1) :: (mapArms g rest (g arm.1 arm.2 c).2).1,
        (mapArms g rest (g arm.1 arm.2 c).2).2) := by
  rw [mapArms_cons]
  rfl

/-- Each computed arm comes from one of the given arms. -/
theorem mem_mapArms {g : Tag → Body → StateM Counter Body} {arm : Arm}
    (harm : arm ∈ (mapArms g arms c).1) :
    ∃ given ∈ arms, ∃ c', arm = (given.1, (g given.1 given.2 c').1) := by
  induction arms generalizing c with
  | nil => cases harm
  | cons first rest ih =>
      rw [mapArms_cons_run] at harm
      rcases List.mem_cons.1 harm with rfl | harm
      · exact ⟨first, .head _, c, rfl⟩
      · obtain ⟨given, hgiven, found⟩ := ih harm
        exact ⟨given, .tail _ hgiven, found⟩

/-- If no arm changes, none does when they are computed one after the other. -/
theorem mapArms_eq_self {g : Tag → Body → StateM Counter Body}
    (hg : ∀ arm ∈ arms, ∀ c, g arm.1 arm.2 c = (arm.2, c)) : mapArms g arms c = (arms, c) := by
  induction arms generalizing c with
  | nil => rfl
  | cons arm rest ih =>
      obtain ⟨hfirst, hrest⟩ := List.forall_mem_cons.1 hg
      rw [mapArms_cons_run, hfirst, ih hrest]

theorem dropDeadIn_eq (r : Reserved) (x : Var) (tag : Tag) (arms : List Arm) :
    dropDeadIn r x tag arms = mapArms (fun _ => dropDead r x tag) arms := by
  induction arms with
  | nil => rfl
  | cons arm rest ih =>
      obtain ⟨armTag, b⟩ := arm
      rw [dropDeadIn, ih, mapArms_cons]

/-- Computing arms by insertions is a way to insert into a case. -/
theorem inserted_arms (before : List Arm) {g : Tag → Body → StateM Counter Body}
    (hg : ∀ arm ∈ arms, ∀ c, Inserted r May Owner ((x, arm.1) :: E) (arm.2, c) (g arm.1 arm.2 c)) :
    Inserted r May Owner E (.case x (before ++ arms), c)
      (.case x (before ++ (mapArms g arms c).1), (mapArms g arms c).2) := by
  induction arms generalizing before c with
  | nil => exact .refl
  | cons arm rest ih =>
      obtain ⟨tag, b⟩ := arm
      have first := (hg _ (.head _) c).inside (E := E)
        (f := fun b => .case x (before ++ (tag, b) :: rest)) .arm
      have later := ih (before ++ [(tag, (g tag b c).1)]) (c := (g tag b c).2)
        fun arm harm => hg arm (.tail _ harm)
      rw [List.append_assoc, List.append_assoc] at later
      rw [mapArms_cons_run]
      exact first.trans later

/-! ## Drops are insertions -/

/-- In front of a body that constructs a record of the tag, the dropped record leaves a token. -/
theorem dropBefore_of_builds {token : Var} (hb : builds tag b = true)
    (hfresh : r.fresh c = (token, c')) :
    dropBefore r x tag b c = (.bind token (.reset x) (reuseFirst token tag b), c') := by
  rw [dropBefore, if_pos hb]
  change ((fun o : Var × Counter => ((Body.bind o.1 (.reset x) (reuseFirst o.1 tag b)), o.2))
    (r.fresh c)) = _
  rw [hfresh]

theorem inserted_dropBefore (hx : Owner x) (hE : (x, tag) ∈ E) :
    Inserted r May Owner E (b, c) (dropBefore r x tag b c) := by
  by_cases hb : builds tag b = true
  · obtain ⟨n, hle, hperm, hfresh⟩ := r.fresh_spec c
    rw [dropBefore_of_builds hb hfresh]
    exact .single (.recycle hx hE hb hle hperm)
  · rw [dropBefore, if_neg hb]
    exact .single (.drop hx hE)

theorem inserted_dropDead (hx : Owner x) (hE : (x, tag) ∈ E) :
    Inserted r May Owner E (b, c) (dropDead r x tag b c) := by
  induction b generalizing E c with
  | ret y =>
      rw [dropDead]
      split
      · exact .refl
      · exact inserted_dropBefore hx hE
  | bind y e b ih =>
      rw [dropDead]
      split
      · exact inserted_dropBefore hx hE
      · split
        · exact (ih hE).inside .bind
        · split
          · exact .refl
          · exact (inserted_dropBefore hx hE).inside .bind
  | case y arms ih =>
      rw [dropDead]
      split
      · exact inserted_dropBefore hx hE
      · rw [dropDeadIn_eq]
        exact inserted_arms [] (g := fun _ => dropDead r x tag) fun arm harm c =>
          ih arm harm (.tail _ hE)
  | inc y b ih =>
      rw [dropDead]
      split
      · exact inserted_dropBefore hx hE
      · split
        · exact (ih hE).inside .inc
        · exact (inserted_dropBefore hx hE).inside .inc
  | dec y b ih =>
      rw [dropDead]
      split
      · exact inserted_dropBefore hx hE
      · split
        · exact (ih hE).inside .dec
        · exact .refl

theorem inserted_mapCases {f : Var → Tag → Body → StateM Counter Body}
    (hf : ∀ {E x tag b c}, (x, tag) ∈ E → Inserted r May Owner E (b, c) (f x tag b c)) :
    Inserted r May Owner E (b, c) (mapCases f b c) := by
  induction b generalizing c with
  | ret y => exact .refl
  | bind y e b ih => exact ih.inside .bind
  | case y arms ih => exact inserted_arms [] (g := f y) fun _ _ _ => hf (.head _)
  | inc y b ih => exact ih.inside .inc
  | dec y b ih => exact ih.inside .dec

/-- Inserting the drops of matched records is a sequence of insertions.  Each of them drops an owner,
or resets it, in an arm of a case on it. -/
theorem inserted_insertDrops {owners : VarSet} (hOwner : ∀ x, owners.contains x = true → Owner x)
    (rounds : Nat) : Inserted r May Owner E (b, c) (insertDrops r owners rounds b c) := by
  induction rounds generalizing E b c with
  | zero => exact .refl
  | succ rounds ih =>
      refine inserted_mapCases fun {E x tag b c} hE => ?_
      split
      · next hx => exact (inserted_dropDead (hOwner x hx) hE).trans ih
      · exact ih

/-- The names that the tokens of a function have to avoid. -/
abbrev reservedOf (p : Program) (d : FnDef) : Reserved := ⟨d.allVars, p.fns.map (·.name)⟩

/-- The drops of a function are inserted one after the other. -/
theorem inserted_withDrops (p : Program) (d : FnDef) : ∃ c,
    Inserted (reservedOf p d) (fun _ => False) (fun x => d.owners.contains x = true) []
      (d.body, {}) (withDrops p d, c) :=
  ⟨_, inserted_insertDrops (fun _ h => h) (caseDepth d.body)⟩

/-! ## Properties of all steps -/

/-- The step that makes an adjustment. -/
def Adjustment.step : Adjustment → PathStep
  | .inc x => .inc x
  | .dec x => .dec x

/-- The steps that insertions make have a property, if the numbers of tokens are in a range. -/
structure Insertable (r : Reserved) (May : Adjustment → Prop) (Owner : Var → Prop) (lo hi : Nat)
    (P : PathStep → Prop) : Prop where
  /-- An adjustment. -/
  adjust {op : Adjustment} : May op → P op.step
  /-- A drop in an arm. -/
  drop {x : Var} {tag : Tag} : Owner x → P (.enter x tag) → P (.dec x)
  /-- A reset in an arm. -/
  reset {x : Var} {tag : Tag} {n : Nat} : Owner x → P (.enter x tag) → lo ≤ n → n < hi →
    r.permits n = true → P (.bind (candidate n) (.reset x))
  /-- A construction that takes the token. -/
  reuse {x : Var} {k : Construction} {n : Nat} : P (.bind x (.new k)) → lo ≤ n → n < hi →
    r.permits n = true → P (.bind x (.reuse (candidate n) k))

variable {P : PathStep → Prop} {lo hi : Nat}

theorem everywhere_reuseFirst {w : Var} (h : b.Everywhere P)
    (hP : ∀ x k, P (.bind x (.new k)) → P (.bind x (.reuse w k))) :
    (reuseFirst w tag b).Everywhere P := by
  induction h with
  | ret hp => exact .ret hp
  | @bind x e b hp hb ih =>
      rcases reuseFirst_bind w tag x e b with h | ⟨k, rfl, -, h⟩
      · exact h ▸ .bind hp ih
      · exact h ▸ .bind (hP _ _ hp) hb
  | case hp _ ih =>
      rw [reuseFirst_case]
      exact .case hp (List.forall_mem_map.2 ih)
  | inc hp _ ih => exact .inc hp ih
  | dec hp _ ih => exact .dec hp ih

/-- If the inserted steps have a property, an insertion leaves a body all of whose steps have it. -/
theorem Inserts.everywhere (h : Inserts r May Owner E b c b' c')
    (ins : Insertable r May Owner lo hi P) (hlo : lo ≤ c.issued) (hhi : c'.issued ≤ hi)
    (hE : ∀ e ∈ E, Owner e.1 → P (.enter e.1 e.2)) (hb : b.Everywhere P) : b'.Everywhere P := by
  induction h with
  | @adjust E op b c hop =>
      have hop := ins.adjust hop
      cases op with
      | inc x => exact .inc hop hb
      | dec x => exact .dec hop hb
  | drop hx hmem => exact .dec (ins.drop hx (hE _ hmem hx)) hb
  | @recycle E x tag b c n hx hmem _ hn hperm =>
      have hle : lo ≤ n := Nat.le_trans hlo hn
      exact .bind (ins.reset hx (hE _ hmem hx) hle hhi hperm)
        (everywhere_reuseFirst hb fun _ _ hp => ins.reuse hp hle hhi hperm)
  | bind h ih =>
      obtain ⟨hp, hb⟩ := Body.everywhere_bind.1 hb
      exact .bind hp (ih hlo hhi hE hb)
  | arm h ih =>
      obtain ⟨hp, hb⟩ := Body.everywhere_case.1 hb
      exact .case hp (forall_mem_arms hb (fun _ h => h) fun hb =>
        ih hlo hhi (List.forall_mem_cons.2 ⟨fun _ => hp _, hE⟩) hb)
  | inc h ih =>
      obtain ⟨hp, hb⟩ := Body.everywhere_inc.1 hb
      exact .inc hp (ih hlo hhi hE hb)
  | dec h ih =>
      obtain ⟨hp, hb⟩ := Body.everywhere_dec.1 hb
      exact .dec hp (ih hlo hhi hE hb)

theorem Inserted.everywhere (h : Inserted r May Owner E o o')
    (ins : Insertable r May Owner o.2.issued o'.2.issued P)
    (hE : ∀ e ∈ E, Owner e.1 → P (.enter e.1 e.2)) (hb : o.1.Everywhere P) : o'.1.Everywhere P := by
  suffices ∀ hi, o'.2.issued ≤ hi → Insertable r May Owner o.2.issued hi P → o'.1.Everywhere P from
    this _ (Nat.le_refl _) ins
  clear ins
  induction h with
  | refl => exact fun _ _ _ => hb
  | tail before h ih =>
      intro hi hhi ins
      have hstart : o.2.issued ≤ _ := Inserted.issued_le before
      exact h.everywhere ins hstart hhi hE (ih hi (Nat.le_trans h.issued_le hhi) ins)

end Reclaim.Counting
