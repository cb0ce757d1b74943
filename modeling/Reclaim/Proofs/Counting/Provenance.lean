import Reclaim.Counting.Insertion
import Reclaim.Proofs.Counting.Balance
import Reclaim.Proofs.Counting.Edits
import Reclaim.Proofs.Occurrences

/-!
# Where inserted names come from

Names are compared by their spelling, so a set or a map of them holds one of several occurrences of a
name, and an inserted operation names whichever occurrence it finds.  All of these are occurrences of
variables in the function: a holding is that of a parameter or of a binder (`Holdings.Holds`), and a
reference is taken for a holding or for a variable that a step hands on (`Within`).  So making counts
explicit adjusts nothing but occurrences of variables (`inserted_withCounts`).

The other names that an insertion brings in are occurrences of what is matched around it, and new
tokens (`Inserts.names`).  Hence every name in a transformed body is one of the function, or a token
(`names_managedBody`).
-/

namespace Reclaim.Counting

open Reclaim.Core

variable {V : Var → Prop} {Q : Occurrence → Prop} {h : Holdings} {x y w : Var} {xs : List Var} {e : Expr}
  {b b' : Body} {c c' : Counter} {r : Reserved} {May : Adjustment → Prop} {Owner : Var → Prop}
  {E : Entered} {o o' : Body × Counter} {p : Program} {d : FnDef} {tag : Tag}

/-! ## Holdings -/

/-- The variable that an adjustment names. -/
def Adjustment.var : Adjustment → Var
  | .inc x | .dec x => x

namespace Holdings

/-- The occurrences of variables that are stored as owners and as borrowers. -/
def Holds (h : Holdings) (x : Var) : Prop := x ∈ h.owned.toList ∨ x ∈ h.borrowed.keys

end Holdings

/-- What is counted are occurrences in the list. -/
theorem Holdings.mem_of_mem_tally (hx : x ∈ (Holdings.tally xs).keys) : x ∈ xs := by
  suffices ∀ m : OrderedMap Var Nat,
      x ∈ (xs.foldl (fun m x => m.insert x ((m.get? x).getD 0 + 1)) m).keys → x ∈ m.keys ∨ x ∈ xs from
    (this _ hx).resolve_left List.not_mem_nil
  clear hx
  induction xs with
  | nil => exact fun m hx => .inl hx
  | cons y rest ih =>
      intro m hx
      rcases ih _ hx with hx | hx
      · rcases OrderedMap.mem_of_mem_keys_insert hx with hx | rfl
        · exact .inl hx
        · exact .inr (.head _)
      · exact .inr (.tail _ hx)

/-- A binding gives a holding to no variable but the new one, and none to a token. -/
theorem holds_bind (hy : (h.bind x e).Holds y) : h.Holds y ∨ y = x ∧ e.holding ≠ .token := by
  unfold Holdings.bind at hy
  cases hh : e.holding with
  | owned =>
      rw [hh] at hy
      rcases hy with hy | hy
      · exact (OrderedSet.mem_of_mem_insert hy).imp .inl fun heq => ⟨heq, nofun⟩
      · exact .inl (.inr hy)
  | borrowed record =>
      rw [hh] at hy
      rcases hy with hy | hy
      · exact .inl (.inl hy)
      · exact (OrderedMap.mem_of_mem_keys_insert hy).imp .inr fun heq => ⟨heq, nofun⟩
  | token =>
      rw [hh] at hy
      exact .inl hy

theorem holds_ofParams (hx : (Holdings.ofParams xs).Holds x) : x ∈ xs := by
  rcases hx with hx | hx
  · exact OrderedSet.mem_of_mem_ofList hx
  · cases hx

/-- Adjustments, and the holdings after them, are of certain variables. -/
structure Within (V : Var → Prop) (out : List Adjustment × Holdings) : Prop where
  /-- Each adjustment is. -/
  ops : ∀ op ∈ out.1, V op.var
  /-- Each holding is. -/
  holds : ∀ x, out.2.Holds x → V x

theorem Within.append {before : List Adjustment} {out : List Adjustment × Holdings}
    (hbefore : ∀ op ∈ before, V op.var) (w : Within V out) : Within V (before ++ out.1, out.2) :=
  ⟨List.forall_mem_append.2 ⟨hbefore, w.ops⟩, w.holds⟩

theorem ops_replicate {n : Nat} (hx : V x) : ∀ op ∈ List.replicate n (Adjustment.inc x), V op.var :=
  fun _ hop => List.eq_of_mem_replicate hop ▸ hx

section

variable (live : VarSet) (hV : ∀ x, h.Holds x → V x)

include hV

theorem within_release (owner : Var) : Within V (h.release owner live) := by
  have hdep : ∀ x ∈ h.dependents owner live, V x := fun x hx =>
    hV x (.inr (List.mem_filter.1 hx).1)
  refine ⟨List.forall_mem_map.2 hdep, fun x hx => ?_⟩
  rcases hx with hx | hx
  · rcases OrderedSet.mem_of_mem_insertAll (List.mem_of_mem_eraseP hx) with hx | hx
    · exact hV x (.inl hx)
    · exact hdep x hx
  · exact hV x (.inr (OrderedMap.mem_of_mem_keys_eraseAll hx))

theorem within_dropAll (hxs : ∀ x ∈ xs, V x) : Within V (h.dropAll live xs) := by
  induction xs generalizing h with
  | nil => exact ⟨nofun, hV⟩
  | cons x rest ih =>
      obtain ⟨hx, hrest⟩ := List.forall_mem_cons.1 hxs
      have now := within_release live hV x
      refine .append (List.forall_mem_append.2 ⟨now.ops, ?_⟩) (ih now.holds hrest)
      exact List.forall_mem_singleton.2 hx

theorem within_dropDead : Within V (h.dropDead live) :=
  within_dropAll live hV fun x hx => hV x (.inl (List.mem_filter.1 hx).1)

theorem within_handOn (count : Nat) (hx : V x) : Within V (h.handOn live x count) := by
  rw [Holdings.handOn]
  split
  · exact ⟨ops_replicate hx, hV⟩
  · split
    · split
      · exact ⟨ops_replicate hx, hV⟩
      · have now := within_release live hV x
        exact ⟨List.forall_mem_append.2 ⟨now.ops, ops_replicate hx⟩, now.holds⟩
    · exact ⟨nofun, hV⟩

theorem within_handOnAll {es : List (Var × Nat)} (hes : ∀ e ∈ es, V e.1) :
    Within V (h.handOnAll live es) := by
  induction es generalizing h with
  | nil => exact ⟨nofun, hV⟩
  | cons e rest ih =>
      obtain ⟨he, hrest⟩ := List.forall_mem_cons.1 hes
      have now := within_handOn live hV e.2 he
      exact .append now.ops (ih now.holds hrest)

theorem within_handOver (hxs : ∀ x ∈ xs, V x) : Within V (h.handOver xs live) :=
  within_handOnAll live hV fun _ he => hxs _ (Holdings.mem_of_mem_tally (List.mem_map_of_mem he))

end

/-! ## Counts are insertions -/

theorem inserted_adjusting {ops : List Adjustment} (hops : ∀ op ∈ ops, May op) :
    Inserted r May Owner E (b, c) (adjusting ops b, c) := by
  induction ops with
  | nil => exact .refl
  | cons op rest ih =>
      obtain ⟨hop, hrest⟩ := List.forall_mem_cons.1 hops
      exact (ih hrest).trans (.single (.adjust hop))

theorem mapArms_pure (f : Body → Body) (arms : List Arm) (c : Counter) :
    mapArms (fun _ b => pure (f b)) arms c = (arms.map fun arm => (arm.1, f arm.2), c) := by
  induction arms with
  | nil => rfl
  | cons arm rest ih =>
      rw [mapArms_cons, List.map_cons]
      exact congrArg (fun out : List Arm × Counter => ((arm.1, f arm.2) :: out.1, out.2)) ih

/-- Making counts explicit is a sequence of adjustments of holdings and of variables that the body
names. -/
theorem inserted_withCounts (hV : ∀ x, h.Holds x → V x) (hb : ∀ o ∈ b.names, OfVar V o) :
    Inserted r (fun op => V op.var) Owner E (b, c) (withCounts h b, c) := by
  induction b generalizing h E c with
  | ret x =>
      have drops := within_dropDead (Body.ret x).freeVars hV
      rw [withCounts]
      refine (inserted_adjusting fun op hop => ?_).trans (inserted_adjusting drops.ops)
      split at hop
      · obtain rfl := List.mem_singleton.1 hop
        exact hb _ (.head _) x rfl
      · cases hop
  | bind x e b ih =>
      obtain ⟨hx, he, hb⟩ := Body.forall_names_bind.1 hb
      have drops := within_dropDead (Body.bind x e b).freeVars hV
      have uses := within_handOver b.freeVars drops.holds fun y hy =>
        he _ (Expr.mem_names_of_consumed hy) y rfl
      have known {g : Holdings} (hg : ∀ y, g.Holds y → V y) : ∀ y, (g.bind x e).Holds y → V y := by
        intro y hy
        rcases holds_bind hy with hy | ⟨heq, hne⟩
        · exact hg y hy
        · exact heq ▸ hx x (e.binder_of_ne hne x)
      have rest := (ih (c := c) (known uses.holds) hb).inside (E := E) (f := .bind x e) .bind
      rw [withCounts]
      exact (rest.trans (inserted_adjusting uses.ops)).trans (inserted_adjusting drops.ops)
  | case x arms ih =>
      obtain ⟨-, harms⟩ := Body.forall_names_case.1 hb
      have drops := within_dropDead (Body.case x arms).freeVars hV
      have rest := inserted_arms (r := r) (c := c) (E := E) (x := x) []
        (g := fun _ b => pure (withCounts (h.dropDead (Body.case x arms).freeVars).2 b))
        fun arm harm c => ih arm harm (c := c) drops.holds (harms arm harm).2
      rw [mapArms_pure] at rest
      rw [withCounts_case]
      exact rest.trans (inserted_adjusting drops.ops)
  | inc x b ih =>
      obtain ⟨-, hb⟩ := Body.forall_names_inc.1 hb
      have drops := within_dropDead (Body.inc x b).freeVars hV
      have rest := (ih (c := c) drops.holds hb).inside (E := E) (f := .inc x) .inc
      rw [withCounts]
      exact rest.trans (inserted_adjusting drops.ops)
  | dec x b ih =>
      obtain ⟨hx, hb⟩ := Body.forall_names_dec.1 hb
      have drops := within_dropDead (Body.dec x b).freeVars hV
      have uses := within_handOver b.freeVars drops.holds
        (List.forall_mem_singleton.2 (hx x rfl))
      have rest := (ih (c := c) uses.holds hb).inside (E := E) (f := .dec x) .dec
      rw [withCounts]
      exact (rest.trans (inserted_adjusting uses.ops)).trans (inserted_adjusting drops.ops)

/-! ## Names that are brought in -/

theorem names_reuseFirst (hb : ∀ o ∈ b.names, Q o) (hw : Q (.token w)) :
    ∀ o ∈ (reuseFirst w tag b).names, Q o := by
  induction b with
  | ret x => exact hb
  | bind x e b ih =>
      obtain ⟨hx, he, hrest⟩ := Body.forall_names_bind.1 hb
      rcases reuseFirst_bind w tag x e b with heq | ⟨k, rfl, -, heq⟩
      · rw [heq]
        exact Body.forall_names_bind.2 ⟨hx, he, ih hrest⟩
      · rw [heq]
        exact Body.forall_names_bind.2 ⟨hx, List.forall_mem_cons.2 ⟨hw, he⟩, hrest⟩
  | case x arms ih =>
      obtain ⟨hx, harms⟩ := Body.forall_names_case.1 hb
      rw [reuseFirst_case]
      refine Body.forall_names_case.2 ⟨hx, List.forall_mem_map.2 fun arm harm => ?_⟩
      exact ⟨(harms arm harm).1, ih arm harm (harms arm harm).2⟩
  | inc x b ih =>
      obtain ⟨hx, hb⟩ := Body.forall_names_inc.1 hb
      exact Body.forall_names_inc.2 ⟨hx, ih hb⟩
  | dec x b ih =>
      obtain ⟨hx, hb⟩ := Body.forall_names_dec.1 hb
      exact Body.forall_names_dec.2 ⟨hx, ih hb⟩

/-- An insertion brings in what is adjusted, what is matched around it, and new tokens. -/
theorem Inserts.names (h : Inserts r May Owner E b c b' c') (hMay : ∀ op, May op → Q (.var op.var))
    (htoken : ∀ n, r.permits n = true → Q (.token (candidate n)))
    (hE : ∀ entry ∈ E, Q (.var entry.1)) (hb : ∀ o ∈ b.names, Q o) : ∀ o ∈ b'.names, Q o := by
  induction h with
  | @adjust E op b c hop =>
      have hop := hMay op hop
      cases op with
      | inc x => exact Body.forall_names_inc.2 ⟨hop, hb⟩
      | dec x => exact Body.forall_names_dec.2 ⟨hop, hb⟩
  | drop _ hmem => exact Body.forall_names_dec.2 ⟨hE _ hmem, hb⟩
  | @recycle E x tag b c n _ hmem _ _ hperm =>
      exact Body.forall_names_bind.2 ⟨htoken n hperm, List.forall_mem_singleton.2 (hE _ hmem),
        names_reuseFirst hb (htoken n hperm)⟩
  | bind _ ih =>
      obtain ⟨hx, he, hb⟩ := Body.forall_names_bind.1 hb
      exact Body.forall_names_bind.2 ⟨hx, he, ih hE hb⟩
  | arm _ ih =>
      obtain ⟨hx, harms⟩ := Body.forall_names_case.1 hb
      refine Body.forall_names_case.2 ⟨hx, forall_mem_arms harms (fun _ harm => harm) ?_⟩
      exact fun ⟨htag, hb⟩ => ⟨htag, ih (List.forall_mem_cons.2 ⟨hx, hE⟩) hb⟩
  | inc _ ih =>
      obtain ⟨hx, hb⟩ := Body.forall_names_inc.1 hb
      exact Body.forall_names_inc.2 ⟨hx, ih hE hb⟩
  | dec _ ih =>
      obtain ⟨hx, hb⟩ := Body.forall_names_dec.1 hb
      exact Body.forall_names_dec.2 ⟨hx, ih hE hb⟩

theorem Inserted.names {b : Body} {out : Body × Counter} (h : Inserted r May Owner [] (b, c) out)
    (hMay : ∀ op, May op → Q (.var op.var))
    (htoken : ∀ n, r.permits n = true → Q (.token (candidate n))) (hb : ∀ o ∈ b.names, Q o) :
    ∀ o ∈ out.1.names, Q o :=
  h.induction (I := fun b _ => ∀ o ∈ b.names, Q o) (fun h hb => h.names hMay htoken nofun hb) hb

/-! ## Transformed bodies -/

/-- A name of a function that is no token, or a token that was made up for the function. -/
def Known (p : Program) (d : FnDef) : Occurrence → Prop
  | .token x => ∃ n, (reservedOf p d).permits n = true ∧ x = candidate n
  | o => o ∈ d.names

/-- Where no memory is managed there are no tokens. -/
theorem names_of_unmanaged (hm : b.isManaged = false) : ∀ o ∈ b.names, ∀ x, o ≠ .token x := by
  have hvar (y : Var) : ∀ x, Occurrence.var y ≠ .token x := fun _ => by simp
  have hfn (f : FnName) : ∀ x, Occurrence.fn f ≠ .token x := fun _ => by simp
  have htag (t : Tag) : ∀ x, Occurrence.tag t ≠ .token x := fun _ => by simp
  have hfield (f : Field) : ∀ x, Occurrence.field f ≠ .token x := fun _ => by simp
  have hvars (xs : List Var) : ∀ o ∈ occurrencesOf xs, ∀ x, o ≠ .token x :=
    forall_occurrencesOf.2 fun y _ => hvar y
  induction b with
  | ret x => exact List.forall_mem_singleton.2 (hvar x)
  | bind x e b ih =>
      rw [Body.isManaged, Bool.or_eq_false_iff] at hm
      obtain ⟨he, hb⟩ := hm
      have hexpr : (∀ y, e.binder x ≠ .token y) ∧ ∀ o ∈ e.names, ∀ y, o ≠ .token y := by
        cases e with
        | reset y | reuse w k => cases he
        | call f xs | close f xs => exact ⟨hvar x, List.forall_mem_cons.2 ⟨hfn f, hvars xs⟩⟩
        | apply y xs | extend y xs => exact ⟨hvar x, List.forall_mem_cons.2 ⟨hvar y, hvars xs⟩⟩
        | new k => exact ⟨hvar x, List.forall_mem_cons.2 ⟨htag k.tag, hvars k.fields⟩⟩
        | proj f y =>
            refine ⟨hvar x, List.forall_mem_cons.2 ⟨hfield f, ?_⟩⟩
            exact List.forall_mem_singleton.2 (hvar y)
      exact Body.forall_names_bind.2 ⟨hexpr.1, hexpr.2, ih hb⟩
  | case x arms ih =>
      rw [Body.isManaged, armsManaged_eq_false_iff] at hm
      refine Body.forall_names_case.2 ⟨hvar x, fun arm harm => ⟨htag arm.1, ?_⟩⟩
      exact ih arm harm (hm arm harm)
  | inc x b ih | dec x b ih => cases hm

theorem known_of_mem_names (hm : d.body.isManaged = false) {o : Occurrence} (ho : o ∈ d.names) :
    Known p d o := by
  have hne : ∀ o ∈ d.names, ∀ x, o ≠ .token x :=
    FnDef.forall_names.2 ⟨nofun, fun _ _ => nofun, names_of_unmanaged hm⟩
  cases o with
  | token x => exact absurd rfl (hne _ ho x)
  | _ => exact ho

/-- Memory management is made explicit by insertions that adjust variables of the function, at places
where these are written. -/
theorem inserted_managedBody (p : Program) (hm : d.body.isManaged = false) : ∃ c,
    Inserted (reservedOf p d) (fun op => .var op.var ∈ d.names)
      (fun x => d.owners.contains x = true) [] (d.body, {}) (managedBody p d, c) := by
  obtain ⟨c, drops⟩ := inserted_withDrops p d
  have names : ∀ o ∈ (withDrops p d).names, Known p d o :=
    drops.names (fun _ => False.elim) (fun n hn => ⟨n, hn, rfl⟩) fun o ho =>
      known_of_mem_names hm (List.mem_cons_of_mem _ (List.mem_append_right _ ho))
  refine ⟨c, (drops.mono (fun _ => False.elim) fun _ hx => hx).trans ?_⟩
  rw [managedBody, hm, if_neg Bool.false_ne_true]
  refine inserted_withCounts (fun x hx => ?_) fun o ho x heq => heq ▸ names o ho
  exact List.mem_cons_of_mem _ (List.mem_append_left _ (List.mem_map_of_mem (holds_ofParams hx)))

/-- Every name in a transformed body is one of the function, at the same place, or a token. -/
theorem names_managedBody (p : Program) (hm : d.body.isManaged = false) :
    ∀ o ∈ (managedBody p d).names, Known p d o := by
  obtain ⟨c, inserted⟩ := inserted_managedBody p hm
  refine inserted.names (fun _ hop => hop) (fun n hn => ⟨n, hn, rfl⟩) fun o ho => ?_
  exact known_of_mem_names hm (List.mem_cons_of_mem _ (List.mem_append_right _ ho))

end Reclaim.Counting
