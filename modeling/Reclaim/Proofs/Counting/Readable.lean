import Reclaim.Proofs.Counting.Validity
import Reclaim.Proofs.Resolution.Readable

/-!
# Transformed programs can be written down

A token is a word, and it is spelled like no function, so it hides none.  Arms keep their tags, and
adjustments name variables of the function.  So a program that a text can express can still be
expressed when its memory management has been made explicit (`expressible_insertCounts`).
-/

namespace Reclaim.Counting

open Reclaim.Core
open Reclaim.Surface (Kind Proper isWordChar)

variable {F S : List String} {r : Reserved} {b : Body} {p : Program} {d : FnDef}

/-! ## Tokens -/

theorem isWordChar_of_isDigit {c : Char} (h : c.isDigit = true) : isWordChar c = true := by
  have hlt : c.toNat < 0x80 := by
    simp only [Char.isDigit, Bool.and_eq_true, decide_eq_true_eq] at h
    change 48 ≤ c.toNat ∧ c.toNat ≤ 57 at h
    omega
  simp [isWordChar, Text.isAlphanumeric, hlt, Char.isAlphanum, h]

theorem toList_candidate (n : Nat) :
    (candidate n).text.toList = '_' :: 'r' :: Nat.toDigits 10 n := by
  simp [candidate, Nat.toList_repr]

/-- No keyword starts like a candidate. -/
theorem ofWord_candidate (n : Nat) : Kind.ofWord (candidate n).text = .ident := by
  have hstart : ∀ entry ∈ Kind.keywords, entry.1.toList.head? ≠ some '_' := by decide
  have hnone : Kind.keywords.lookup (candidate n).text = none := by
    refine List.lookup_eq_none_iff.2 fun entry hentry => bne_iff_ne.2 fun heq => ?_
    refine hstart entry hentry ?_
    rw [← heq, toList_candidate]
    rfl
  rw [Kind.ofWord, hnone]
  rfl

theorem proper_candidate (n : Nat) : Proper (candidate n).text := by
  refine ⟨by simp [toList_candidate], ?_, ofWord_candidate n⟩
  rw [toList_candidate]
  refine List.forall_mem_cons.2 ⟨by decide, List.forall_mem_cons.2 ⟨by decide, fun c hc => ?_⟩⟩
  exact isWordChar_of_isDigit (Nat.isDigit_of_mem_toDigits (by decide) (by decide) hc)

/-- Whether a record is built in a new cell or in an old one makes no difference. -/
theorem readable_reuseFirst (h : Readable F S b) (w : Var) (tag : Tag) :
    Readable F S (reuseFirst w tag b) := by
  induction h with
  | ret => exact .ret
  | @bind S x e b htargets h ih =>
      rcases reuseFirst_bind w tag x e b with heq | ⟨k, rfl, -, heq⟩
      · exact heq ▸ .bind htargets ih
      · exact heq ▸ .bind (List.forall_mem_nil _) h
  | case hnodup _ ih =>
      rw [reuseFirst_case]
      refine .case ?_ (List.forall_mem_map.2 ih)
      rwa [List.map_map]
  | inc _ ih => exact .inc ih
  | dec _ ih => exact .dec ih

/-- That a body can be read passes to its parts and back, and survives drops. -/
theorem readable_compositional (hF : F ⊆ r.taken) :
    Compositional r (fun _ _ => True) fun _ (S : List String) b => Readable F S b where
  mono h _ := h
  bind h := by
    obtain ⟨htargets, h⟩ := readable_bind.1 h
    exact ⟨_ :: _, fun _ _ => trivial, h, fun _ h' => .bind htargets h'⟩
  case h := by
    obtain ⟨hnodup, h⟩ := readable_case.1 h
    refine ⟨trivial, h, fun _ htags h' => .case ?_ h'⟩
    have htexts := congrArg (List.map Name.text) htags
    rw [List.map_map, List.map_map] at htexts
    exact htexts ▸ hnodup
  inc h := ⟨readable_inc.1 h, fun _ h' => .inc h'⟩
  dec h := ⟨readable_dec.1 h, fun _ h' => .dec h'⟩
  drop _ h := .dec h
  recycle {_ _ S x w tag b} _ hw _ _ _ h := by
    refine .bind (List.forall_mem_nil _) (readable_reuseFirst (h.widen fun t ht hS => ?_) w tag)
    rw [List.mem_cons, not_or]
    exact ⟨fun heq => hw (heq ▸ hF ht), hS⟩

/-! ## Adjustments -/

theorem readable_adjusting (ops : List Adjustment) (h : Readable F S b) :
    Readable F S (adjusting ops b) := by
  induction ops with
  | nil => exact h
  | cons op rest ih =>
      cases op with
      | inc x => exact .inc ih
      | dec x => exact .dec ih

theorem readable_withCounts (h : Readable F S b) (held : Holdings) :
    Readable F S (withCounts held b) := by
  induction h generalizing held with
  | ret =>
      rw [withCounts]
      exact readable_adjusting _ (readable_adjusting _ .ret)
  | bind htargets _ ih =>
      rw [withCounts]
      exact readable_adjusting _ (readable_adjusting _ (.bind htargets (ih _)))
  | case hnodup _ ih =>
      rw [withCounts_case]
      refine readable_adjusting _ (.case ?_ (List.forall_mem_map.2 fun arm harm => ih arm harm _))
      rwa [List.map_map]
  | inc _ ih =>
      rw [withCounts]
      exact readable_adjusting _ (.inc (ih _))
  | dec _ ih =>
      rw [withCounts]
      exact readable_adjusting _ (readable_adjusting _ (.dec (ih _)))

/-! ## Programs -/

theorem readable_managedBody (h : Readable (p.fns.map (·.name.text)) S d.body) :
    Readable (p.fns.map (·.name.text)) S (managedBody p d) := by
  rw [managedBody]
  split
  · exact h
  · let r : Reserved := ⟨d.allVars, p.fns.map (·.name)⟩
    have hF : p.fns.map (·.name.text) ⊆ r.taken := by
      refine List.subset_append_of_subset_right _ ?_
      rw [List.map_map]
      exact List.Subset.refl _
    have drops := (readable_compositional hF).insertDrops_preserved d.owners (caseDepth d.body)
      (c := {}) h
    exact readable_withCounts drops.body _

/-- A transformed program can be written down if the program can. -/
theorem expressible_insertCounts (hp : Expressible p) : Expressible (insertCounts p) := by
  have hnames : (insertCounts p).fns.map (·.name.text) = p.fns.map (·.name.text) := by
    rw [insertCounts, Program.mapBodies, List.map_map]
    rfl
  refine ⟨⟨validate_insertCounts hp.valid, hp.fields⟩, hp.tags, hnames ▸ hp.names, hp.types, ?_⟩
  rw [hnames]
  refine List.forall_mem_map.2 fun d hd => ?_
  obtain ⟨hname, hparams, hbound, hread⟩ := hp.fns d hd
  refine ⟨hname, hparams, ?_, readable_managedBody hread⟩
  refine bound_managedBody (hbound.mono fun _ _ => trivial) fun c t ht => ?_
  have hwords : ∀ t ∈ d.params.map (·.text), Proper t := List.forall_mem_map.2 hparams
  rcases ht with hvar | ⟨n, -, rfl⟩
  · refine hbound.allVars (by simpa using hparams) (fun t ht => ?_) t hvar
    exact hwords t (OrderedSet.mem_texts_ofList.1 ht)
  · exact proper_candidate n

end Reclaim.Counting
