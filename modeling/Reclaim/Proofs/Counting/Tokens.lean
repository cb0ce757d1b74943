import Reclaim.Proofs.Counting.Validity

/-!
# The life of a token

A token is bound where a matched record is reset, and stands for the cell of that record.  What is said
about tokens here is kept by each insertion, so it holds of every transformed body:

* steps name tokens only where they bind or take them (`NamesTokens`),
* no two resets of a body bind the same token (`Inserts.binders_perm`),
* behind a reset its token is taken at most once on each path, for the tag of the record that was reset,
  and on some path it is taken (`Recycles`).

The main statement is `managedBody_tokens`.
-/

namespace Reclaim.Core

/-! ## Taking tokens -/

/-- Whether a step takes the token of a name. -/
def PathStep.takes (w : Var) : PathStep → Bool
  | .bind _ (.reuse u _) => u == w
  | _ => false

namespace Body

/-- On each path the token is taken at most once, and then for a record of the tag. -/
inductive TakesOnce (w : Var) (tag : Tag) : Body → Prop where
  | ret {x : Var} : TakesOnce w tag (.ret x)
  | take {x u : Var} {k : Construction} {b : Body} : k.tag.text = tag.text →
      (b.Everywhere fun s => s.takes w = false) → TakesOnce w tag (.bind x (.reuse u k) b)
  | bind {x : Var} {e : Expr} {b : Body} :
      (PathStep.bind x e).takes w = false → TakesOnce w tag b → TakesOnce w tag (.bind x e b)
  | case {x : Var} {arms : List Arm} :
      (∀ arm ∈ arms, TakesOnce w tag arm.2) → TakesOnce w tag (.case x arms)
  | inc {x : Var} {b : Body} : TakesOnce w tag b → TakesOnce w tag (.inc x b)
  | dec {x : Var} {b : Body} : TakesOnce w tag b → TakesOnce w tag (.dec x b)

/-- On some path the token is taken. -/
inductive Takes (w : Var) : Body → Prop where
  | take {x u : Var} {k : Construction} {b : Body} : u.text = w.text →
      Takes w (.bind x (.reuse u k) b)
  | bind {x : Var} {e : Expr} {b : Body} : Takes w b → Takes w (.bind x e b)
  | case {x : Var} {arms : List Arm} {arm : Arm} :
      arm ∈ arms → Takes w arm.2 → Takes w (.case x arms)
  | inc {x : Var} {b : Body} : Takes w b → Takes w (.inc x b)
  | dec {x : Var} {b : Body} : Takes w b → Takes w (.dec x b)

end Body

variable {b b' : Body} {w : Var} {tag : Tag} {t : List Waypoint} {o : Option Body}

namespace Body.TakesOnce

theorem count_le (h : b.TakesOnce w tag) (ht : b.Trail t o) :
    t.countP (·.step.takes w) ≤ 1 := by
  induction ht with
  | here => exact Nat.zero_le _
  | ret => exact Nat.zero_le _
  | bind ht ih =>
      cases h with
      | take _ h =>
          have hnone := List.countP_eq_zero.2 fun q hq => Bool.eq_false_iff.1 ((h.trail ht).1 q hq)
          rw [List.countP_cons, hnone]
          split <;> omega
      | bind he h => simpa [he] using ih h
  | case harm _ ih =>
      cases h with
      | case h => exact ih (h _ harm)
  | inc _ ih =>
      cases h with
      | inc h => exact ih h
  | dec _ ih =>
      cases h with
      | dec h => exact ih h

theorem tag_eq (h : b.TakesOnce w tag) (ht : b.Trail t o) : ∀ q ∈ t, ∀ x u k,
    q.step = .bind x (.reuse u k) → u.text = w.text → k.tag.text = tag.text := by
  induction ht with
  | here => exact nofun
  | ret => exact List.forall_mem_singleton.2 nofun
  | bind ht ih =>
      cases h with
      | take hk h =>
          refine List.forall_mem_cons.2 ⟨fun x u k heq _ => ?_, fun q hq x u k heq hu => ?_⟩
          · cases heq
            exact hk
          · have := (h.trail ht).1 q hq
            rw [heq, PathStep.takes, Name.beq_eq_false_iff] at this
            exact absurd hu this
      | bind he h =>
          refine List.forall_mem_cons.2 ⟨fun x u k heq hu => ?_, ih h⟩
          cases heq
          exact absurd hu (Name.beq_eq_false_iff.1 he)
  | case harm _ ih =>
      cases h with
      | case h => exact List.forall_mem_cons.2 ⟨nofun, ih (h _ harm)⟩
  | inc _ ih =>
      cases h with
      | inc h => exact List.forall_mem_cons.2 ⟨nofun, ih h⟩
  | dec _ ih =>
      cases h with
      | dec h => exact List.forall_mem_cons.2 ⟨nofun, ih h⟩

end Body.TakesOnce

/-- Where a token is taken. -/
theorem Body.Takes.trail (h : b.Takes w) :
    ∃ t x u k b', b.Trail t (some (.bind x (.reuse u k) b')) ∧ u.text = w.text := by
  induction h with
  | take hu => exact ⟨_, _, _, _, _, .here, hu⟩
  | bind _ ih =>
      obtain ⟨t, x, u, k, b', ht, hu⟩ := ih
      exact ⟨_, x, u, k, b', .bind ht, hu⟩
  | case harm _ ih =>
      obtain ⟨t, x, u, k, b', ht, hu⟩ := ih
      exact ⟨_, x, u, k, b', .case harm ht, hu⟩
  | inc _ ih =>
      obtain ⟨t, x, u, k, b', ht, hu⟩ := ih
      exact ⟨_, x, u, k, b', .inc ht, hu⟩
  | dec _ ih =>
      obtain ⟨t, x, u, k, b', ht, hu⟩ := ih
      exact ⟨_, x, u, k, b', .dec ht, hu⟩

/-- A token that is taken on some path and at most once on each is taken once on a path to the end. -/
theorem Body.Takes.finishes (h : b.Takes w) (once : b.TakesOnce w tag) :
    ∃ t, b.Finishes t ∧ t.countP (·.step.takes w) = 1 := by
  obtain ⟨t, x, u, k, b', ht, hu⟩ := h.trail
  obtain ⟨t', ht'⟩ := b'.exists_finishes
  have hend := ht.finishes (ht'.imp .bind fun ⟨y, h⟩ => ⟨y, .bind h⟩)
  refine ⟨_, hend, Nat.le_antisymm (hend.elim once.count_le fun ⟨_, h⟩ => once.count_le h) ?_⟩
  rw [Nat.succ_le_iff, List.countP_pos_iff]
  exact ⟨_, List.mem_append_right _ (.head _), Name.beq_iff.2 hu⟩

end Reclaim.Core

namespace Reclaim.Counting

open Reclaim.Core

variable {r : Reserved} {May : Adjustment → Prop} {Owner : Var → Prop} {E : Entered} {h : Holdings}
  {b b' : Body} {c c' : Counter} {o o' : Body × Counter} {p : Program} {d : FnDef} {S : List String}
  {w w' x : Var} {tag tag' : Tag}

/-! ## Names of tokens -/

/-- A variable that was issued as a token. -/
def Reserved.Issued (r : Reserved) (c : Counter) (w : Var) : Prop :=
  ∃ n < c.issued, r.permits n = true ∧ w = candidate n

theorem Reserved.Issued.mono (hw : r.Issued c w) (hc : c.issued ≤ c'.issued) : r.Issued c' w :=
  hw.imp fun _ hn => ⟨Nat.lt_of_lt_of_le hn.1 hc, hn.2⟩

/-- A token is not called like a variable of the function. -/
theorem Reserved.Issued.new (hw : r.Issued c w) : w.text ∉ r.vars.texts := by
  obtain ⟨n, -, hperm, rfl⟩ := hw
  exact fun hmem => permits_iff.1 hperm (List.mem_append_left _ hmem)

/-- A step binds a token by a reset and takes one by a reuse.  Everything else that it names is a
variable of the function. -/
structure NamesTokens (r : Reserved) (c : Counter) (s : PathStep) : Prop where
  /-- A reset binds a token. -/
  reset (x y : Var) : s = .bind x (.reset y) → r.Issued c x
  /-- A reuse takes a token. -/
  token (x u : Var) (k : Construction) : s = .bind x (.reuse u k) → r.Issued c u
  /-- The fields of the record are variables of the function. -/
  fields (x u : Var) (k : Construction) : s = .bind x (.reuse u k) →
    ∀ t ∈ k.fields.map (·.text), t ∈ r.vars.texts
  /-- All other steps read variables of the function. -/
  mentioned : (∀ x u k, s ≠ .bind x (.reuse u k)) → ∀ t ∈ s.mentioned, t ∈ r.vars.texts
  /-- What is not bound to a token is a variable of the function. -/
  binder (x : Var) (e : Expr) : s = .bind x e → e.holding ≠ .token → x.text ∈ r.vars.texts

theorem NamesTokens.mono {s : PathStep} (hs : NamesTokens r c s) (hc : c.issued ≤ c'.issued) :
    NamesTokens r c' s :=
  { hs with
    reset := fun x y h => (hs.reset x y h).mono hc
    token := fun x u k h => (hs.token x u k h).mono hc }

/-- A step that names one variable of the function. -/
theorem namesTokens_of_mentioned {s : PathStep} (hbind : ∀ x e, s ≠ .bind x e)
    (hs : s.mentioned = [x.text]) (hx : x.text ∈ r.vars.texts) : NamesTokens r c s where
  reset _ _ h := absurd h (hbind _ _)
  token _ _ _ h := absurd h (hbind _ _)
  fields _ _ _ h := absurd h (hbind _ _)
  mentioned _ := hs ▸ List.forall_mem_singleton.2 hx
  binder _ _ h := absurd h (hbind _ _)

theorem insertable_namesTokens {lo : Nat} : Insertable r (fun op => op.var.text ∈ r.vars.texts) Owner lo
    c.issued (NamesTokens r c) where
  adjust {op} hop := by
    cases op with
    | inc x => exact namesTokens_of_mentioned nofun rfl hop
    | dec x => exact namesTokens_of_mentioned nofun rfl hop
  drop _ hs := namesTokens_of_mentioned nofun rfl (hs.mentioned nofun _ (.head _))
  reset {x tag n} _ hs _ hn hperm := by
    refine ⟨fun y z h => ?_, nofun, nofun, fun _ t ht => ?_, fun y e h he => ?_⟩
    · cases h
      exact ⟨n, hn, hperm, rfl⟩
    · exact OrderedSet.mem_texts_singleton.1 ht ▸ hs.mentioned nofun _ (.head _)
    · cases h
      exact absurd rfl he
  reuse {x k n} hs _ hn hperm := by
    refine ⟨nofun, fun y u k h => ?_, fun y u k h t ht => ?_, fun h => absurd rfl (h _ _ _),
      fun y e h _ => ?_⟩
    · cases h
      exact ⟨n, hn, hperm, rfl⟩
    · cases h
      exact hs.mentioned nofun t (OrderedSet.mem_texts_ofList.2 ht)
    · cases h
      exact hs.binder _ _ rfl nofun

/-- The names in an unmanaged body are the variables of its function. -/
theorem namesTokens_body (hbound : Bound (fun _ => True) (d.params.reverse.map (·.text)) d.body)
    (hm : d.body.isManaged = false) : d.body.Everywhere (NamesTokens (reservedOf p d) {}) := by
  have hparams : ∀ t ∈ d.params.reverse.map (·.text), t ∈ d.allVars.texts := by
    intro t ht
    refine Body.mem_allVars_of_mem (OrderedSet.mem_texts_ofList.2 ?_)
    simpa using ht
  have hnames := (hbound.of_allVars (N := (· ∈ d.allVars.texts)) fun _ ht => ht).everywhere hparams
  refine ((Body.everywhere_of_unmanaged hm).and hnames).mono fun s ⟨hplain, hread, hbinder⟩ => ?_
  refine ⟨?_, ?_, ?_, fun _ => hread, fun x e h _ => hbinder x (h ▸ rfl)⟩
  all_goals
    intros
    subst_vars
    cases hplain

/-! ## Taking inserted tokens -/

theorem takesOnce_reuseFirst (hb : b.TakesOnce w tag) (hw : w'.text ≠ w.text) :
    (reuseFirst w' tag' b).TakesOnce w tag := by
  have other (x : Var) (k : Construction) : (PathStep.bind x (.reuse w' k)).takes w = false :=
    Name.beq_eq_false_iff.2 hw
  induction hb with
  | ret => exact .ret
  | take hk h => exact .take hk (everywhere_reuseFirst h fun x k _ => other x k)
  | @bind x e b he hb ih =>
      rcases reuseFirst_bind w' tag' x e b with h | ⟨k, rfl, -, h⟩
      · exact h ▸ .bind he ih
      · exact h ▸ .bind (other x k) hb
  | case _ ih =>
      rw [reuseFirst_case]
      exact .case (List.forall_mem_map.2 ih)
  | inc _ ih => exact .inc ih
  | dec _ ih => exact .dec ih

theorem takes_reuseFirst (hb : b.Takes w) : (reuseFirst w' tag' b).Takes w := by
  induction hb with
  | take hu => exact .take hu
  | @bind x e b hb ih =>
      rcases reuseFirst_bind w' tag' x e b with h | ⟨k, rfl, -, h⟩
      · exact h ▸ .bind ih
      · exact h ▸ .bind hb
  | case harm _ ih =>
      rw [reuseFirst_case]
      exact .case (List.mem_map.2 ⟨_, harm, rfl⟩) ih
  | inc _ ih => exact .inc ih
  | dec _ ih => exact .dec ih

/-- A new token is taken by the first construction on each path, and not again. -/
theorem takesOnce_of_new (hb : b.Everywhere fun s => s.takes w = false) :
    (reuseFirst w tag b).TakesOnce w tag := by
  induction hb with
  | ret _ => exact .ret
  | @bind x e b hp hb ih =>
      rcases reuseFirst_bind w tag x e b with h | ⟨k, rfl, hk, h⟩
      · exact h ▸ .bind hp ih
      · exact h ▸ .take hk hb
  | case _ _ ih =>
      rw [reuseFirst_case]
      exact .case (List.forall_mem_map.2 ih)
  | inc _ _ ih => exact .inc ih
  | dec _ _ ih => exact .dec ih

theorem buildsIn_iff {arms : List Arm} :
    buildsIn tag arms = true ↔ ∃ arm ∈ arms, builds tag arm.2 = true := by
  induction arms with
  | nil => simp [buildsIn]
  | cons arm rest ih =>
      obtain ⟨armTag, b⟩ := arm
      rw [buildsIn, Bool.or_eq_true, ih, List.exists_mem_cons_iff]

/-- Where a record of the tag is built on some path, the token is taken on some path. -/
theorem takes_of_builds (hb : builds tag b = true) : (reuseFirst w tag b).Takes w := by
  induction b with
  | ret x => cases hb
  | bind x e b ih =>
      rw [builds.eq_def] at hb
      rw [reuseFirst.eq_def]
      cases e with
      | new k =>
          dsimp only at hb ⊢
          split
          · exact .take rfl
          · next hk => exact .bind (ih ((Bool.or_eq_true _ _ ▸ hb).resolve_left hk))
      | _ => exact .bind (ih hb)
  | case x arms ih =>
      rw [builds, buildsIn_iff] at hb
      obtain ⟨arm, harm, hb⟩ := hb
      rw [reuseFirst_case]
      exact .case (List.mem_map.2 ⟨arm, harm, rfl⟩) (ih arm harm hb)
  | inc x b ih => exact .inc (ih hb)
  | dec x b ih => exact .dec (ih hb)

theorem candidate_ne (hw : r.Issued c w) {n : Nat} (hn : c.issued ≤ n) :
    (candidate n).text ≠ w.text := by
  obtain ⟨m, hm, -, rfl⟩ := hw
  intro heq
  have := candidate_injective heq
  omega

/-- Later insertions do not take a token that was issued. -/
theorem Inserts.untaken (h : Inserts r May Owner E b c b' c') (hw : r.Issued c w)
    (hb : b.Everywhere fun s => s.takes w = false) : b'.Everywhere fun s => s.takes w = false := by
  have ins : Insertable r May Owner c.issued c'.issued fun s => s.takes w = false :=
    { adjust := fun {op} _ => by cases op <;> rfl
      drop := fun _ _ => rfl
      reset := fun _ _ _ _ _ => rfl
      reuse := fun _ hn _ _ => Name.beq_eq_false_iff.2 (candidate_ne hw hn) }
  exact h.everywhere ins (Nat.le_refl _) (Nat.le_refl _) (fun _ _ _ => rfl) hb

theorem Inserts.takesOnce (h : Inserts r May Owner E b c b' c') (hw : r.Issued c w)
    (hb : b.TakesOnce w tag) : b'.TakesOnce w tag := by
  induction h with
  | @adjust E op b c _ =>
      cases op with
      | inc x => exact .inc hb
      | dec x => exact .dec hb
  | drop _ _ => exact .dec hb
  | recycle _ _ _ hn _ => exact .bind rfl (takesOnce_reuseFirst hb (candidate_ne hw hn))
  | bind h ih =>
      cases hb with
      | take hk hb => exact .take hk (h.untaken hw hb)
      | bind he hb => exact .bind he (ih hw hb)
  | arm _ ih =>
      cases hb with
      | case hb => exact .case (forall_mem_arms hb (fun _ h => h) fun hb => ih hw hb)
  | inc _ ih =>
      cases hb with
      | inc hb => exact .inc (ih hw hb)
  | dec _ ih =>
      cases hb with
      | dec hb => exact .dec (ih hw hb)

theorem Inserts.takes (h : Inserts r May Owner E b c b' c') (hb : b.Takes w) : b'.Takes w := by
  induction h with
  | @adjust E op b c _ =>
      cases op with
      | inc x => exact .inc hb
      | dec x => exact .dec hb
  | drop _ _ => exact .dec hb
  | recycle _ _ _ _ _ => exact .bind (takes_reuseFirst hb)
  | bind _ ih =>
      cases hb with
      | take hu => exact .take hu
      | bind hb => exact .bind (ih hb)
  | arm _ ih =>
      cases hb with
      | case harm hb =>
          rcases List.mem_append.1 harm with harm | harm
          · exact .case (List.mem_append_left _ harm) hb
          · rcases List.mem_cons.1 harm with rfl | harm
            · exact .case (List.mem_append_right _ (.head _)) (ih hb)
            · exact .case (List.mem_append_right _ (.tail _ harm)) hb
  | inc _ ih =>
      cases hb with
      | inc hb => exact .inc (ih hb)
  | dec _ ih =>
      cases hb with
      | dec hb => exact .dec (ih hb)

/-- Every reset of a body stands in an arm in which the record was matched, and binds a token that was
issued.  Behind it the token is taken at most once on each path, for the tag that was matched, and on
some path it is taken. -/
inductive Recycles (r : Reserved) (c : Counter) : Entered → Body → Prop where
  | ret {E : Entered} {x : Var} : Recycles r c E (.ret x)
  | reset {E : Entered} {w x : Var} {tag : Tag} {b : Body} : r.Issued c w → (x, tag) ∈ E →
      b.TakesOnce w tag → b.Takes w → Recycles r c E b → Recycles r c E (.bind w (.reset x) b)
  | bind {E : Entered} {x : Var} {e : Expr} {b : Body} :
      (∀ y, e ≠ .reset y) → Recycles r c E b → Recycles r c E (.bind x e b)
  | case {E : Entered} {x : Var} {arms : List Arm} :
      (∀ arm ∈ arms, Recycles r c ((x, arm.1) :: E) arm.2) → Recycles r c E (.case x arms)
  | inc {E : Entered} {x : Var} {b : Body} : Recycles r c E b → Recycles r c E (.inc x b)
  | dec {E : Entered} {x : Var} {b : Body} : Recycles r c E b → Recycles r c E (.dec x b)

theorem Recycles.mono (hb : Recycles r c E b) (hc : c.issued ≤ c'.issued) : Recycles r c' E b := by
  induction hb with
  | ret => exact .ret
  | reset hw hmem once some _ ih => exact .reset (hw.mono hc) hmem once some ih
  | bind he _ ih => exact .bind he ih
  | case _ ih => exact .case ih
  | inc _ ih => exact .inc ih
  | dec _ ih => exact .dec ih

/-- A body that does not manage memory resets nothing. -/
theorem recycles_of_unmanaged (hm : b.isManaged = false) : Recycles r c E b := by
  induction b generalizing E with
  | ret x => exact .ret
  | bind x e b ih =>
      rw [Body.isManaged, Bool.or_eq_false_iff] at hm
      refine .bind (fun y he => ?_) (ih hm.2)
      rw [he] at hm
      cases hm.1
  | case x arms ih =>
      rw [Body.isManaged, armsManaged_eq_false_iff] at hm
      exact .case fun arm harm => ih arm harm (hm arm harm)
  | inc x b ih => cases hm
  | dec x b ih => cases hm

theorem recycles_reuseFirst (hb : Recycles r c E b) (hw : ∀ w, r.Issued c w → w'.text ≠ w.text) :
    Recycles r c E (reuseFirst w' tag' b) := by
  induction hb with
  | ret => exact .ret
  | reset hx hmem once some _ ih =>
      exact .reset hx hmem (takesOnce_reuseFirst once (hw _ hx)) (takes_reuseFirst some) ih
  | @bind E x e b he hb ih =>
      rcases reuseFirst_bind w' tag' x e b with h | ⟨k, rfl, -, h⟩
      · exact h ▸ .bind he ih
      · exact h ▸ .bind nofun hb
  | case _ ih =>
      rw [reuseFirst_case]
      exact .case (List.forall_mem_map.2 ih)
  | inc _ ih => exact .inc ih
  | dec _ ih => exact .dec ih

theorem Inserts.recycles (h : Inserts r May Owner E b c b' c') (hn : b.Everywhere (NamesTokens r c))
    (hb : Recycles r c E b) : Recycles r c' E b' := by
  induction h with
  | @adjust E op b c _ =>
      cases op with
      | inc x => exact .inc hb
      | dec x => exact .dec hb
  | drop _ _ => exact .dec hb
  | @recycle E x tag b c n _ hmem hbuilds hle hperm =>
      have hfresh (w : Var) (hw : r.Issued c w) : (candidate n).text ≠ w.text := candidate_ne hw hle
      have huntaken : b.Everywhere fun s => s.takes (candidate n) = false := by
        refine hn.mono fun s hs => ?_
        unfold PathStep.takes
        split
        · next y u k => exact Name.beq_eq_false_iff.2 (hfresh u (hs.token y u k rfl)).symm
        · rfl
      exact .reset ⟨n, Nat.lt_succ_self n, hperm, rfl⟩ hmem (takesOnce_of_new huntaken)
        (takes_of_builds hbuilds) ((recycles_reuseFirst hb hfresh).mono (Nat.le_succ_of_le hle))
  | bind h ih =>
      obtain ⟨-, hrest⟩ := Body.everywhere_bind.1 hn
      cases hb with
      | reset hw hmem once some hb =>
          exact .reset (hw.mono h.issued_le) hmem (h.takesOnce hw once) (h.takes some) (ih hrest hb)
      | bind he hb => exact .bind he (ih hrest hb)
  | arm h ih =>
      obtain ⟨-, harms⟩ := Body.everywhere_case.1 hn
      cases hb with
      | case hb =>
          exact .case (forall_mem_arms hb (fun _ hb => hb.mono h.issued_le) fun hb =>
            ih (harms _ (List.mem_append_right _ (.head _))) hb)
  | inc _ ih =>
      cases hb with
      | inc hb => exact .inc (ih (Body.everywhere_inc.1 hn).2 hb)
  | dec _ ih =>
      cases hb with
      | dec hb => exact .dec (ih (Body.everywhere_dec.1 hn).2 hb)

/-- What `Recycles` says about the reset to which a trail leads. -/
theorem Recycles.trail {t : List Waypoint} {x : Var} {rest : Body} (hb : Recycles r c E b)
    (ht : b.Trail t (some (.bind w (.reset x) rest))) :
    ∃ tag, ((x, tag) ∈ E ∨ ∃ q ∈ t, q.step = .enter x tag) ∧ rest.TakesOnce w tag ∧ rest.Takes w := by
  have tail {q : Waypoint} {t tag} : (∃ q ∈ t, q.step = .enter x tag) →
      ∃ q' ∈ q :: t, q'.step = .enter x tag := fun h => h.imp fun _ h => ⟨.tail _ h.1, h.2⟩
  generalize hend : some (Body.bind w (.reset x) rest) = o at ht
  induction ht generalizing E with
  | here =>
      cases hend
      cases hb with
      | reset _ hmem once some _ => exact ⟨_, .inl hmem, once, some⟩
      | bind he _ => exact absurd rfl (he x)
  | ret => cases hend
  | @bind _ _ b _ _ _ ih =>
      have : Recycles r c E b := by
        cases hb with
        | reset _ _ _ _ hb => exact hb
        | bind _ hb => exact hb
      obtain ⟨tag, hmem, taken⟩ := ih this hend
      exact ⟨tag, hmem.imp_right tail, taken⟩
  | @case y arms arm t o harm _ ih =>
      cases hb with
      | case hb =>
          obtain ⟨tag, hmem | hmem, taken⟩ := ih (hb _ harm) hend
          · rcases List.mem_cons.1 hmem with heq | hmem
            · cases heq
              exact ⟨_, .inr ⟨_, .head _, rfl⟩, taken⟩
            · exact ⟨tag, .inl hmem, taken⟩
          · exact ⟨tag, .inr (tail hmem), taken⟩
  | inc _ ih =>
      cases hb with
      | inc hb =>
          obtain ⟨tag, hmem, taken⟩ := ih hb hend
          exact ⟨tag, hmem.imp_right tail, taken⟩
  | dec _ ih =>
      cases hb with
      | dec hb =>
          obtain ⟨tag, hmem, taken⟩ := ih hb hend
          exact ⟨tag, hmem.imp_right tail, taken⟩

/-! ## Binders -/

/-- The spellings of the variables that a body binds, in all arms. -/
def binders (b : Body) : List String := b.bindings.map (·.binder.text)

theorem binders_case (x : Var) (arms : List Arm) :
    binders (.case x arms) = arms.flatMap fun arm => binders arm.2 := by
  induction arms with
  | nil => rfl
  | cons arm rest ih =>
      obtain ⟨tag, b⟩ := arm
      rw [List.flatMap_cons, ← ih]
      simp only [binders, Body.bindings, bindingsArms, List.map_append]

theorem binders_reuseFirst (w : Var) (tag : Tag) (b : Body) :
    binders (reuseFirst w tag b) = binders b := by
  induction b with
  | ret x => rfl
  | bind x e b ih =>
      rcases reuseFirst_bind w tag x e b with h | ⟨k, rfl, -, h⟩
      · rw [h]
        exact congrArg (x.text :: ·) ih
      · rw [h]
        rfl
  | case x arms ih =>
      rw [reuseFirst_case, binders_case, binders_case, List.flatMap_map]
      exact List.flatMap_congr ih
  | inc x b ih => exact ih
  | dec x b ih => exact ih

/-- An insertion binds at most one more variable, and that is a token with the next number. -/
theorem Inserts.binders_perm (h : Inserts r May Owner E b c b' c') :
    (binders b').Perm (binders b) ∨ ∃ n, c.issued ≤ n ∧ c'.issued = n + 1 ∧
      (binders b').Perm ((candidate n).text :: binders b) := by
  induction h with
  | @adjust E op b c _ => cases op <;> exact .inl (.refl _)
  | drop _ _ => exact .inl (.refl _)
  | @recycle E x tag b c n _ _ _ hn _ =>
      refine .inr ⟨n, hn, rfl, .of_eq ?_⟩
      exact congrArg _ (binders_reuseFirst _ _ _)
  | @bind E x e b b' c c' _ ih =>
      refine ih.imp (.cons x.text) fun ⟨n, hn, hc, hperm⟩ => ⟨n, hn, hc, ?_⟩
      exact (hperm.cons x.text).trans (.swap ..)
  | @arm E x tag before after b b' c c' _ ih =>
      rw [binders_case, binders_case, List.flatMap_append, List.flatMap_append, List.flatMap_cons,
        List.flatMap_cons]
      refine ih.imp (fun hperm => (hperm.append_right _).append_left _) fun ⟨n, hn, hc, hperm⟩ =>
        ⟨n, hn, hc, ?_⟩
      exact ((hperm.append_right _).append_left _).trans List.perm_middle
  | inc _ ih => exact ih
  | dec _ ih => exact ih

/-! ## All insertions -/

/-- What insertions keep about tokens. -/
structure KeepsTokens (r : Reserved) (c : Counter) (b : Body) : Prop where
  /-- Steps name tokens where they bind or take them. -/
  names : b.Everywhere (NamesTokens r c)
  /-- Tokens are taken behind their resets. -/
  recycles : Recycles r c [] b
  /-- No token is bound twice, and none before it is issued. -/
  binders (n : Nat) : r.permits n = true →
    (binders b).count (candidate n).text ≤ if n < c.issued then 1 else 0

theorem Inserts.keepsTokens (h : Inserts r (fun op => op.var.text ∈ r.vars.texts) Owner [] b c b' c')
    (hb : KeepsTokens r c b) : KeepsTokens r c' b' where
  names := h.everywhere insertable_namesTokens (Nat.le_refl _) (Nat.le_refl _) nofun
    (hb.names.mono fun _ hs => hs.mono h.issued_le)
  recycles := h.recycles hb.names hb.recycles
  binders m hm := by
    have hold := hb.binders m hm
    have hle := h.issued_le
    rcases h.binders_perm with hperm | ⟨n, hn, hc, hperm⟩
    · rw [hperm.count_eq]
      split at hold <;> split <;> omega
    · rw [hperm.count_eq, List.count_cons]
      split
      · next heq =>
          obtain rfl : n = m := candidate_injective (beq_iff_eq.1 heq)
          split at hold <;> split <;> omega
      · split at hold <;> split <;> omega

/-- The tokens of a transformed body are kept. -/
theorem managedBody_keepsTokens (p : Program)
    (hbound : Bound (fun _ => True) (d.params.reverse.map (·.text)) d.body)
    (hm : d.body.isManaged = false) : ∃ c, KeepsTokens (reservedOf p d) c (managedBody p d) := by
  obtain ⟨c, edits⟩ := inserted_managedBody p hm
  have edits := edits.mono (fun _ => FnDef.mem_allVars_of_names) fun _ hx => hx
  refine ⟨c, edits.induction (I := fun b c => KeepsTokens (reservedOf p d) c b) Inserts.keepsTokens
    ⟨namesTokens_body hbound hm, recycles_of_unmanaged hm, fun n hn => ?_⟩⟩
  rw [List.count_eq_zero_of_not_mem fun hmem => ?_]
  · exact Nat.zero_le _
  · obtain ⟨site, hsite, htext⟩ := List.mem_map.1 hmem
    have hvar := (hbound.of_allVars (N := (· ∈ d.allVars.texts)) fun _ ht => ht).binder hsite
    exact Reserved.permits_iff.1 hn (List.mem_append_left _ (htext ▸ hvar))

/-! ## Main statement -/

variable {params : List Var} {body rest : Body} {t : List Waypoint}

/-- A reset of `x` in front of `rest`, to which the trail `t` leads, issues the token `w` of its own,
for records of a tag. -/
structure Issues (params : List Var) (body : Body) (t : List Waypoint) (w x : Var) (rest : Body)
    (tag : Tag) : Prop where
  /-- Nothing else in the body binds the token. -/
  unique : body.bindings.filter (·.binder == w) = [⟨w, .reset x, rest⟩]
  /-- No parameter is called like the token. -/
  param : w.text ∉ params.map (·.text)
  /-- The reset stands in an arm in which `x` was found to have the tag. -/
  entered : ∃ q ∈ t, q.step = .enter x tag
  /-- After the reset the token is taken at most once on each path. -/
  once {t' : List Waypoint} {o : Option Body} : rest.Trail t' o → t'.countP (·.step.takes w) ≤ 1
  /-- On some path to the end it is taken. -/
  taken : ∃ t', rest.Finishes t' ∧ t'.countP (·.step.takes w) = 1
  /-- It is taken for records of the tag. -/
  tag_eq {t' : List Waypoint} {o : Option Body} : rest.Trail t' o → ∀ q ∈ t', ∀ y u k,
    q.step = .bind y (.reuse u k) → u.text = w.text → k.tag.text = tag.text
  /-- Wherever else the token is read, it is taken, and the reset was made before. -/
  elsewhere {t' : List Waypoint} {b : Body} : body.Trail t' (some b) → w.text ∈ b.reads →
    (∃ y u k b', b = .bind y (.reuse u k) b' ∧ u.text = w.text ∧
      w.text ∉ k.fields.map (·.text)) ∧
    ⟨.bind w (.reset x) rest, .bind w (.reset x)⟩ ∈ t'

theorem filter_eq_singleton {α : Type} {f : α → String} {l : List α} {a : α} (ha : a ∈ l)
    (h : (l.map f).count (f a) ≤ 1) : l.filter (fun b => f b == f a) = [a] := by
  have hlen : (l.filter fun b => f b == f a).length ≤ 1 := by
    rwa [List.count, List.countP_map, List.countP_eq_length_filter] at h
  have hmem : a ∈ l.filter fun b => f b == f a := List.mem_filter.2 ⟨ha, beq_self_eq_true _⟩
  obtain ⟨b, hb⟩ := List.length_eq_one_iff.1 (Nat.le_antisymm hlen (List.length_pos_of_mem hmem))
  rw [hb, List.mem_singleton] at hmem
  rw [hb, hmem]

/-- In a body that keeps tokens, a token is read where it is taken. -/
theorem NamesTokens.reads (hb : b.Everywhere (NamesTokens r c)) (hw : w.text ∉ r.vars.texts)
    (hread : w.text ∈ b.reads) :
    ∃ y u k b', b = .bind y (.reuse u k) b' ∧ u.text = w.text ∧
      w.text ∉ k.fields.map (·.text) := by
  cases hb with
  | ret hs => exact absurd (hs.mentioned nofun _ hread) hw
  | @bind y e b hs _ =>
      cases e with
      | reuse u k =>
          have hfields := fun h => hw (hs.fields y u k rfl _ h)
          refine ⟨y, u, k, b, rfl, ?_, hfields⟩
          rcases OrderedSet.mem_texts_union.1 hread with h | h
          · exact (OrderedSet.mem_texts_singleton.1 h).symm
          · exact absurd (OrderedSet.mem_texts_ofList.1 h) hfields
      | _ => exact absurd (hs.mentioned nofun _ hread) hw
  | case hs _ => exact absurd ((hs default).mentioned nofun _ hread) hw
  | inc hs _ => exact absurd (hs.mentioned nofun _ hread) hw
  | dec hs _ => exact absurd (hs.mentioned nofun _ hread) hw

/-- In the transformed body of a function that does not manage memory itself, every reset issues a
token of its own, and every reuse takes a token that a reset on the way has issued. -/
theorem managedBody_tokens (hvalid : p.validate = .ok ()) (hd : d ∈ p.fns)
    (hm : d.body.isManaged = false) :
    (∀ t w x rest, (managedBody p d).Trail t (some (.bind w (.reset x) rest)) →
      ∃ tag, Issues d.params (managedBody p d) t w x rest tag) ∧
    ∀ t y u k rest, (managedBody p d).Trail t (some (.bind y (.reuse u k) rest)) →
      ∃ q ∈ t, ∃ w x, q.step = .bind w (.reset x) ∧ w.text = u.text := by
  obtain ⟨-, hbound, -⟩ := checkFn_eq_ok.1 (checkFn_of_mem hvalid hd)
  have scope : Bound (fun _ => True) (d.params.reverse.map (·.text)) (managedBody p d) :=
    bound_managedBody hbound fun _ _ _ => trivial
  obtain ⟨c, keeps⟩ := managedBody_keepsTokens p hbound hm
  -- A token that is read was bound on the way, since parameters are variables of the function.
  have bound {w : Var} {t b} (hw : (reservedOf p d).Issued c w)
      (ht : (managedBody p d).Trail t (some b)) (hread : w.text ∈ b.reads) :
      ∃ q ∈ t, ∃ z e, q.step = .bind z e ∧ z.text = w.text := by
    refine mem_boundOn.1 ((List.mem_append.1 ((scope.trail ht).reads _ hread)).resolve_right ?_)
    refine fun hparam => hw.new (Body.mem_allVars_of_mem (OrderedSet.mem_texts_ofList.2 ?_))
    simpa using hparam
  refine ⟨fun t w x rest ht => ?_, fun t y u k rest ht => ?_⟩
  · obtain ⟨tag, hmem, once, taken⟩ := keeps.recycles.trail ht
    have hw : (reservedOf p d).Issued c w := by
      cases (keeps.names.trail ht).2 _ rfl with
      | bind hs _ => exact hs.reset w x rfl
    have hunique : (managedBody p d).bindings.filter (·.binder == w) = [⟨w, .reset x, rest⟩] := by
      obtain ⟨n, hn, hperm, rfl⟩ := hw
      have hcount := keeps.binders n hperm
      rw [if_pos hn] at hcount
      exact filter_eq_singleton (f := fun site : BindingSite => site.binder.text)
        (a := ⟨candidate n, .reset x, rest⟩) (Body.mem_bindings_iff.2 ⟨t, ht⟩) hcount
    refine ⟨tag, hunique, fun hparam => ?_, hmem.resolve_left List.not_mem_nil,
      once.count_le, taken.finishes once, once.tag_eq, fun {t' b} ht' hread => ?_⟩
    · exact hw.new (Body.mem_allVars_of_mem (OrderedSet.mem_texts_ofList.2 hparam))
    · refine ⟨NamesTokens.reads ((keeps.names.trail ht').2 b rfl) hw.new hread, ?_⟩
      obtain ⟨q, hq, z, e, hstep, hz⟩ := bound hw ht' hread
      obtain ⟨before, rest', hbody, hbefore⟩ := ht'.exists_binding hq hstep
      have hsite : (⟨z, e, rest'⟩ : BindingSite) ∈ (managedBody p d).bindings.filter (·.binder == w) :=
        List.mem_filter.2 ⟨Body.mem_bindings_iff.2 ⟨before, hbefore⟩, Name.beq_iff.2 hz⟩
      rw [hunique, List.mem_singleton] at hsite
      cases hsite
      obtain ⟨body, step⟩ := q
      cases hstep
      cases hbody
      exact hq
  · have hu : (reservedOf p d).Issued c u := by
      cases (keeps.names.trail ht).2 _ rfl with
      | bind hs _ => exact hs.token y u k rfl
    obtain ⟨q, hq, z, e, hstep, hz⟩ := bound hu ht
      (OrderedSet.mem_texts_union.2 (.inl (OrderedSet.mem_texts_singleton.2 rfl)))
    have hnames := (keeps.names.trail ht).1 q hq
    cases e with
    | reset x => exact ⟨q, hq, z, x, hstep, hz⟩
    | _ => exact absurd (hz ▸ hnames.binder z _ hstep nofun) hu.new

/-- The function that makes another box resets the first one. -/
theorem managedBody_tokens_box : ∃ d ∈ boxProgram.fns, boxProgram.validate = .ok () ∧
    d.body.isManaged = false ∧ ∃ t w x rest tag,
      (managedBody boxProgram d).Trail t (some (.bind w (.reset x) rest)) ∧
        Issues d.params (managedBody boxProgram d) t w x rest tag := by
  have hcheck : (boxProgram.fns.any fun d => !d.body.isManaged &&
      (managedBody boxProgram d).bindings.any fun site =>
        (PathStep.bind site.binder site.expr).dropped?.isSome) = true := by
    decide +kernel
  simp only [List.any_eq_true, Bool.and_eq_true, Bool.not_eq_true'] at hcheck
  obtain ⟨d, hd, hm, ⟨w, e, rest⟩, hsite, he⟩ := hcheck
  obtain ⟨t, ht⟩ := Body.mem_bindings_iff.1 hsite
  cases e with
  | reset x =>
      obtain ⟨tag, h⟩ := (managedBody_tokens rfl hd hm).1 t w x rest ht
      exact ⟨d, hd, rfl, hm, t, w, x, rest, tag, ht, h⟩
  | _ => cases he

end Reclaim.Counting
