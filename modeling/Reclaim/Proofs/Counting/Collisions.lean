import Reclaim.Proofs.Counting.Tokens
import Reclaim.Proofs.Lawful

/-!
# Tokens collide with nothing

A token has to differ from every name that the function uses.  The variables of a function are collected
from the free variables of each part of its body, from which the names that are bound are missing, and
from the binders.  Together these are all names that occur anywhere (`Body.Occurs`): what is free in a
part is read further down (`Body.occurs_of_mem_freeVars`), and what a step reads is free there.

The resets of a transformed body are those that were inserted, since a function that is transformed had
none.  Each issues a token with a number of its own, and none of these numbers names a variable or a
function (`managedBody_fresh`).
-/

namespace Reclaim.Core

variable {b : Body} {x : Var} {e : Expr} {arms : List Arm} {u : String}

/-! ## Names that occur -/

namespace Body

/-- Some step of a body reads or binds a variable of the name. -/
inductive Occurs (u : String) : Body → Prop where
  | read {b : Body} : u ∈ b.reads → Occurs u b
  | binder {x : Var} {e : Expr} {b : Body} : u = x.text → Occurs u (.bind x e b)
  | bind {x : Var} {e : Expr} {b : Body} : Occurs u b → Occurs u (.bind x e b)
  | arm {x : Var} {arms : List Arm} {arm : Arm} : arm ∈ arms → Occurs u arm.2 → Occurs u (.case x arms)
  | inc {x : Var} {b : Body} : Occurs u b → Occurs u (.inc x b)
  | dec {x : Var} {b : Body} : Occurs u b → Occurs u (.dec x b)

theorem occurs_ret : (Body.ret x).Occurs u ↔ u = x.text := by
  constructor
  · intro h
    cases h with
    | read h => exact List.mem_singleton.1 h
  · exact fun h => .read (List.mem_singleton.2 h)

theorem occurs_bind : (Body.bind x e b).Occurs u ↔ u ∈ e.freeVars.texts ∨ u = x.text ∨ b.Occurs u := by
  constructor
  · intro h
    cases h with
    | read h => exact .inl h
    | binder h => exact .inr (.inl h)
    | bind h => exact .inr (.inr h)
  · rintro (h | h | h)
    · exact .read h
    · exact .binder h
    · exact .bind h

theorem occurs_case : (Body.case x arms).Occurs u ↔ u = x.text ∨ ∃ arm ∈ arms, arm.2.Occurs u := by
  constructor
  · intro h
    cases h with
    | read h => exact .inl (List.mem_singleton.1 h)
    | arm harm h => exact .inr ⟨_, harm, h⟩
  · rintro (h | ⟨arm, harm, h⟩)
    · exact .read (List.mem_singleton.2 h)
    · exact .arm harm h

theorem occurs_inc : (Body.inc x b).Occurs u ↔ u = x.text ∨ b.Occurs u := by
  constructor
  · intro h
    cases h with
    | read h => exact .inl (List.mem_singleton.1 h)
    | inc h => exact .inr h
  · rintro (h | h)
    · exact .read (List.mem_singleton.2 h)
    · exact .inc h

theorem occurs_dec : (Body.dec x b).Occurs u ↔ u = x.text ∨ b.Occurs u := by
  constructor
  · intro h
    cases h with
    | read h => exact .inl (List.mem_singleton.1 h)
    | dec h => exact .inr h
  · rintro (h | h)
    · exact .read (List.mem_singleton.2 h)
    · exact .dec h

/-- A name occurs where a trail leads to a step that reads it or binds it. -/
theorem occurs_iff_trail : b.Occurs u ↔ (∃ site ∈ b.bindings, site.binder.text = u) ∨
    ∃ t b', b.Trail t (some b') ∧ ∃ y ∈ b'.operands, y.text = u := by
  simp only [mem_bindings_iff, ← mem_reads_iff]
  constructor
  · intro h
    induction h with
    | read h => exact .inr ⟨[], _, .here, h⟩
    | @binder x e b h => exact .inl ⟨⟨x, e, b⟩, ⟨[], .here⟩, h.symm⟩
    | bind _ ih =>
        rcases ih with ⟨site, ⟨t, ht⟩, h⟩ | ⟨t, b', ht, h⟩
        · exact .inl ⟨site, ⟨_, .bind ht⟩, h⟩
        · exact .inr ⟨_, b', .bind ht, h⟩
    | arm harm _ ih =>
        rcases ih with ⟨site, ⟨t, ht⟩, h⟩ | ⟨t, b', ht, h⟩
        · exact .inl ⟨site, ⟨_, .case harm ht⟩, h⟩
        · exact .inr ⟨_, b', .case harm ht, h⟩
    | inc _ ih =>
        rcases ih with ⟨site, ⟨t, ht⟩, h⟩ | ⟨t, b', ht, h⟩
        · exact .inl ⟨site, ⟨_, .inc ht⟩, h⟩
        · exact .inr ⟨_, b', .inc ht, h⟩
    | dec _ ih =>
        rcases ih with ⟨site, ⟨t, ht⟩, h⟩ | ⟨t, b', ht, h⟩
        · exact .inl ⟨site, ⟨_, .dec ht⟩, h⟩
        · exact .inr ⟨_, b', .dec ht, h⟩
  · suffices ∀ t b', b.Trail t (some b') → b'.Occurs u → b.Occurs u by
      rintro (⟨site, ⟨t, ht⟩, h⟩ | ⟨t, b', ht, h⟩)
      · exact this t _ ht (.binder h.symm)
      · exact this t b' ht (.read h)
    intro t b' ht h
    generalize hend : some b' = o at ht
    induction ht with
    | here => exact Option.some.inj hend ▸ h
    | ret => cases hend
    | bind _ ih => exact .bind (ih hend)
    | case harm _ ih => exact .arm harm (ih hend)
    | inc _ ih => exact .inc (ih hend)
    | dec _ ih => exact .dec (ih hend)

/-- What is free in a body is read somewhere in it. -/
theorem occurs_of_mem_freeVars (hu : u ∈ b.freeVars.texts) : b.Occurs u := by
  induction b with
  | ret x => exact occurs_ret.2 (mem_freeVars_ret.1 hu)
  | bind x e b ih =>
      rcases mem_freeVars_bind.1 hu with hu | ⟨hu, -⟩
      · exact .read hu
      · exact .bind (ih hu)
  | case x arms ih =>
      rcases mem_freeVars_case.1 hu with hu | ⟨arm, harm, hu⟩
      · exact .read (List.mem_singleton.2 hu)
      · exact .arm harm (ih arm harm hu)
  | inc x b ih => exact occurs_inc.2 ((mem_freeVars_inc.1 hu).imp_right ih)
  | dec x b ih => exact occurs_dec.2 ((mem_freeVars_dec.1 hu).imp_right ih)

theorem mem_allVarsArms_iff {vars : VarSet}
    (harms : ∀ arm ∈ arms, ∀ {vars : VarSet},
      u ∈ (arm.2.allVars vars).texts ↔ u ∈ vars.texts ∨ arm.2.Occurs u) :
    u ∈ (allVarsArms vars arms).texts ↔ u ∈ vars.texts ∨ ∃ arm ∈ arms, arm.2.Occurs u := by
  induction arms generalizing vars with
  | nil => simp [allVarsArms]
  | cons arm rest ih =>
      obtain ⟨tag, b⟩ := arm
      rw [allVarsArms, ih fun arm harm => harms arm (.tail _ harm), harms (tag, b) (.head _)]
      simp [or_assoc]

/-- The variables of a body are the names that occur in it. -/
theorem mem_allVars_iff {vars : VarSet} :
    u ∈ (b.allVars vars).texts ↔ u ∈ vars.texts ∨ b.Occurs u := by
  induction b generalizing vars with
  | ret x =>
      rw [allVars, OrderedSet.mem_texts_union, OrderedSet.mem_texts_singleton, occurs_ret]
  | bind x e b ih =>
      have hread : u ∈ e.freeVars.texts → u ∈ (Body.bind x e b).freeVars.texts :=
        fun hu => mem_freeVars_bind.2 (.inl hu)
      have hfree := fun hu => occurs_bind.1 (occurs_of_mem_freeVars (u := u) (b := .bind x e b) hu)
      rw [allVars]
      refine ih.trans ?_
      rw [OrderedSet.mem_texts_insert, OrderedSet.mem_texts_union, occurs_bind]
      tauto
  | case x arms ih =>
      have hread : u = x.text → u ∈ (Body.case x arms).freeVars.texts :=
        fun hu => mem_freeVars_case.2 (.inl hu)
      have hfree := fun hu => occurs_case.1 (occurs_of_mem_freeVars (u := u) (b := .case x arms) hu)
      rw [allVars, mem_allVarsArms_iff ih, OrderedSet.mem_texts_union, occurs_case]
      tauto
  | inc x b ih =>
      have hread : u = x.text → u ∈ (Body.inc x b).freeVars.texts :=
        fun hu => mem_freeVars_inc.2 (.inl hu)
      have hfree := fun hu => occurs_inc.1 (occurs_of_mem_freeVars (u := u) (b := .inc x b) hu)
      rw [allVars]
      refine ih.trans ?_
      rw [OrderedSet.mem_texts_union, occurs_inc]
      tauto
  | dec x b ih =>
      have hread : u = x.text → u ∈ (Body.dec x b).freeVars.texts :=
        fun hu => mem_freeVars_dec.2 (.inl hu)
      have hfree := fun hu => occurs_dec.1 (occurs_of_mem_freeVars (u := u) (b := .dec x b) hu)
      rw [allVars]
      refine ih.trans ?_
      rw [OrderedSet.mem_texts_union, occurs_dec]
      tauto

/-! ## Tokens -/

/-- The variables that a body binds to resets, from the outside in and arm by arm. -/
def tokens (b : Body) : List Var :=
  b.bindings.filterMap fun site => match site.expr with
    | .reset _ => some site.binder
    | _ => none

theorem mem_tokens : x ∈ b.tokens ↔ ∃ y rest, (⟨x, .reset y, rest⟩ : BindingSite) ∈ b.bindings := by
  rw [tokens, List.mem_filterMap]
  constructor
  · rintro ⟨⟨w, e, rest⟩, hsite, hw⟩
    cases e with
    | reset y =>
        cases hw
        exact ⟨y, rest, hsite⟩
    | _ => cases hw
  · rintro ⟨y, rest, hsite⟩
    exact ⟨_, hsite, rfl⟩

/-- A body that does not manage memory has no tokens. -/
theorem tokens_of_unmanaged (hm : b.isManaged = false) : b.tokens = [] := by
  refine List.eq_nil_iff_forall_not_mem.2 fun x hx => ?_
  obtain ⟨y, rest, hsite⟩ := mem_tokens.1 hx
  obtain ⟨t, ht⟩ := mem_bindings_iff.1 hsite
  cases ((everywhere_of_unmanaged hm).trail ht).2 _ rfl with
  | bind hplain _ => cases hplain

end Body

end Reclaim.Core

namespace Reclaim.Counting

open Reclaim.Core

variable {p : Program} {d : FnDef} {b : Body} {r : Reserved} {c : Counter} {w : Var}

theorem tokens_sublist_binders (b : Body) : (b.tokens.map (·.text)).Sublist (binders b) := by
  unfold Body.tokens binders
  induction b.bindings with
  | nil => exact .slnil
  | cons site rest ih =>
      obtain ⟨x, e, b⟩ := site
      cases e with
      | reset y => exact ih.cons_cons x.text
      | _ => exact ih.cons x.text

/-- A token of a body that keeps tokens was issued. -/
theorem KeepsTokens.issued (h : KeepsTokens r c b) (hw : w ∈ b.tokens) : r.Issued c w := by
  obtain ⟨y, rest, hsite⟩ := Body.mem_tokens.1 hw
  obtain ⟨t, ht⟩ := Body.mem_bindings_iff.1 hsite
  cases (h.names.trail ht).2 _ rfl with
  | bind hs _ => exact hs.reset w y rfl

/-- The tokens of a body that keeps tokens are spelled differently. -/
theorem KeepsTokens.nodup (h : KeepsTokens r c b) : (b.tokens.map (·.text)).Nodup := by
  refine List.nodup_iff_count_le_one.2 fun u => ?_
  by_cases hu : u ∈ b.tokens.map (·.text)
  · obtain ⟨w, hw, rfl⟩ := List.mem_map.1 hu
    obtain ⟨n, hn, hperm, rfl⟩ := h.issued hw
    have hcount := h.binders n hperm
    rw [if_pos hn] at hcount
    exact ((tokens_sublist_binders b).count_le _).trans hcount
  · rw [List.count_eq_zero_of_not_mem hu]
    exact Nat.zero_le 1

/-- The variables of a function are its parameters, what its body binds and what its body reads,
wherever a trail leads.  A function of a valid program that does not manage memory itself has no tokens
at first; the tokens that are inserted are spelled differently from each other, from the variables of
the function and from all functions of the program. -/
theorem managedBody_fresh :
    (∀ (d : FnDef) (x : Var), d.allVars.contains x = true ↔
      (∃ y ∈ d.params, y.text = x.text) ∨ (∃ site ∈ d.body.bindings, site.binder.text = x.text) ∨
        ∃ t b, d.body.Trail t (some b) ∧ ∃ y ∈ b.operands, y.text = x.text) ∧
    ∀ (p : Program) (d : FnDef), p.validate = .ok () → d ∈ p.fns → d.body.isManaged = false →
      d.body.tokens = [] ∧
      ((managedBody p d).tokens.map (·.text)).Nodup ∧
      ∀ w ∈ (managedBody p d).tokens, d.allVars.contains w = false ∧
        ∀ f ∈ p.fns, f.name.text ≠ w.text := by
  constructor
  · intro d x
    rw [OrderedSet.contains_iff, FnDef.allVars, Body.mem_allVars_iff, Body.occurs_iff_trail,
      OrderedSet.mem_texts_ofList, List.mem_map]
  · intro p d hvalid hd hm
    obtain ⟨-, hbound, -⟩ := checkFn_eq_ok.1 (checkFn_of_mem hvalid hd)
    obtain ⟨c, keeps⟩ := managedBody_keepsTokens p hbound hm
    refine ⟨Body.tokens_of_unmanaged hm, keeps.nodup, fun w hw => ?_⟩
    obtain ⟨n, -, hperm, rfl⟩ := keeps.issued hw
    have hfree := Reserved.permits_iff.1 hperm
    rw [Reserved.taken, List.mem_append, not_or] at hfree
    obtain ⟨hvar, hfn⟩ := hfree
    refine ⟨?_, fun f hf heq => hfn ?_⟩
    · rwa [← Bool.not_eq_true, OrderedSet.contains_iff]
    · exact List.mem_map.2 ⟨f.name, List.mem_map_of_mem hf, heq⟩

/-- The first two candidates are a function and a parameter, so that the token is the third one. -/
theorem managedBody_fresh_box : ∃ d ∈ boxProgram.fns, boxProgram.validate = .ok () ∧
    d.body.isManaged = false ∧ (managedBody boxProgram d).tokens.map (·.text) = ["_r2"] ∧
    (∀ w ∈ (managedBody boxProgram d).tokens, d.allVars.contains w = false ∧
      ∀ f ∈ boxProgram.fns, f.name.text ≠ w.text) := by
  obtain ⟨d, hd, htokens⟩ : ∃ d ∈ boxProgram.fns,
      (managedBody boxProgram d).tokens.map (·.text) = ["_r2"] := ⟨_, .head _, by decide +kernel⟩
  obtain rfl := List.mem_singleton.1 hd
  obtain ⟨-, -, hfresh⟩ := managedBody_fresh.2 boxProgram _ rfl hd rfl
  exact ⟨_, hd, rfl, rfl, htokens, hfresh⟩

end Reclaim.Counting
