import Mathlib.Data.List.Perm.Subperm
import Reclaim.Proofs.Eval.Depth
import Reclaim.Proofs.Eval.Parallel

/-!
# Equal programs run alike

Bodies are compared by `==`, for which neither places nor the order of arms matter.  The arms of two
`case`s are equal when there are as many of them and each arm of the first has an equal one under its tag
in the second.  This says something about one direction only, but if the tags of the first are different
then they are all the tags of the second (`mem_tags_iff`).  So equal bodies match wherever their names
stand (`Body.Distinct.matches`), and programs of such bodies are run in parallel.
-/

namespace Reclaim

open Reclaim.Core Reclaim.Heap

/-! ## Equal names and expressions -/

namespace Core

/-- Any two places are related. -/
abbrev Anywhere (_ _ : Span) : Prop := True

theorem Name.matches_of_beq {kind : NameKind} {x y : Name kind} (h : (x == y) = true) :
    x.Matches Anywhere y :=
  ⟨Name.beq_iff.1 h, trivial⟩

theorem Name.all_match_of_beq {kind : NameKind} {xs ys : List (Name kind)} (h : (xs == ys) = true) :
    List.Forall₂ (Name.Matches Anywhere) xs ys := by
  induction xs generalizing ys with
  | nil =>
      cases ys with
      | nil => exact .nil
      | cons y ys => cases h
  | cons x xs ih =>
      cases ys with
      | nil => cases h
      | cons y ys =>
          rw [List.cons_beq_cons, Bool.and_eq_true] at h
          exact .cons (matches_of_beq h.1) (ih h.2)

theorem Construction.matches_of_beq {c d : Construction} (h : (c == d) = true) :
    c.Matches Anywhere d := by
  obtain ⟨htag, hfields⟩ := Bool.and_eq_true_iff.1 h
  exact ⟨Name.matches_of_beq htag, Name.all_match_of_beq hfields⟩

theorem Expr.matches_of_beq {d e : Expr} (h : (d == e) = true) : d.Matches Anywhere e := by
  change d.same e = true at h
  cases d with
  | call f xs =>
      cases e with
      | call g ys =>
          obtain ⟨hf, hxs⟩ := Bool.and_eq_true_iff.1 h
          exact .call (Name.matches_of_beq hf) (Name.all_match_of_beq hxs)
      | _ => cases h
  | close f xs =>
      cases e with
      | close g ys =>
          obtain ⟨hf, hxs⟩ := Bool.and_eq_true_iff.1 h
          exact .close (Name.matches_of_beq hf) (Name.all_match_of_beq hxs)
      | _ => cases h
  | apply x xs =>
      cases e with
      | apply y ys =>
          obtain ⟨hx, hxs⟩ := Bool.and_eq_true_iff.1 h
          exact .apply (Name.matches_of_beq hx) (Name.all_match_of_beq hxs)
      | _ => cases h
  | extend x xs =>
      cases e with
      | extend y ys =>
          obtain ⟨hx, hxs⟩ := Bool.and_eq_true_iff.1 h
          exact .extend (Name.matches_of_beq hx) (Name.all_match_of_beq hxs)
      | _ => cases h
  | new c =>
      cases e with
      | new d => exact .new (Construction.matches_of_beq h)
      | _ => cases h
  | proj f x =>
      cases e with
      | proj g y =>
          obtain ⟨hf, hx⟩ := Bool.and_eq_true_iff.1 h
          exact .proj (Name.matches_of_beq hf) (Name.matches_of_beq hx)
      | _ => cases h
  | reset x =>
      cases e with
      | reset y => exact .reset (Name.matches_of_beq h)
      | _ => cases h
  | reuse x c =>
      cases e with
      | reuse y d =>
          obtain ⟨hx, hc⟩ := Bool.and_eq_true_iff.1 h
          exact .reuse (Name.matches_of_beq hx) (Construction.matches_of_beq hc)
      | _ => cases h

/-! ## Equal bodies -/

/-- The arms of every `case` in the body have different tags, as the keys of a map have. -/
inductive Body.Distinct : Body → Prop where
  | ret {x : Var} : Body.Distinct (.ret x)
  | bind {x : Var} {e : Expr} {b : Body} : Body.Distinct b → Body.Distinct (.bind x e b)
  | case {x : Var} {arms : List Arm} : (arms.map (·.1.text)).Nodup →
      (∀ arm ∈ arms, Body.Distinct arm.2) → Body.Distinct (.case x arms)
  | inc {x : Var} {b : Body} : Body.Distinct b → Body.Distinct (.inc x b)
  | dec {x : Var} {b : Body} : Body.Distinct b → Body.Distinct (.dec x b)

section

variable {as bs : List Arm} {tag : Tag}

theorem armsIn_iff : armsIn as bs = true ↔
    ∀ arm ∈ as, ∃ c, findArm bs arm.1 = some c ∧ arm.2.same c = true := by
  induction as with
  | nil => simp [armsIn]
  | cons arm rest ih =>
      obtain ⟨tag, b⟩ := arm
      rw [armsIn, Bool.and_eq_true, ih, List.forall_mem_cons]
      cases findArm bs tag <;> simp

theorem isSome_findArm_iff :
    (findArm as tag).isSome = true ↔ tag.text ∈ as.map (·.1.text) := by
  simp [findArm, Name.beq_iff]

/-- Different tags that are all tags of a list of the same length are all the tags of that list. -/
theorem mem_tags_iff (hnodup : (as.map (·.1.text)).Nodup) (hlen : as.length = bs.length)
    (hin : armsIn as bs = true) {t : String} :
    t ∈ as.map (·.1.text) ↔ t ∈ bs.map (·.1.text) := by
  have hsub : as.map (·.1.text) ⊆ bs.map (·.1.text) := by
    intro t ht
    obtain ⟨arm, harm, rfl⟩ := List.mem_map.1 ht
    obtain ⟨c, hc, -⟩ := armsIn_iff.1 hin arm harm
    exact isSome_findArm_iff.1 (by rw [hc]; rfl)
  have hperm := (hnodup.subperm hsub).perm_of_length_le (by simp [hlen])
  exact hperm.mem_iff

end

/-- Equal bodies match, wherever their names stand. -/
theorem Body.Distinct.matches {b c : Body} (distinct : b.Distinct) (h : (b == c) = true) :
    b.Matches Anywhere c := by
  change b.same c = true at h
  induction distinct generalizing c with
  | ret =>
      cases c with
      | ret y => exact .ret (Name.matches_of_beq h)
      | _ => cases h
  | bind _ ih =>
      cases c with
      | bind y e c =>
          obtain ⟨hxe, hc⟩ := Bool.and_eq_true_iff.1 h
          obtain ⟨hx, he⟩ := Bool.and_eq_true_iff.1 hxe
          exact .bind (Name.matches_of_beq hx) (Expr.matches_of_beq he) (ih hc)
      | _ => cases h
  | @case x as hnodup _ ih =>
      cases c with
      | case y bs =>
          obtain ⟨hx, harms⟩ := Bool.and_eq_true_iff.1 h
          obtain ⟨hlen, hin⟩ := Bool.and_eq_true_iff.1 harms
          refine .case (Name.matches_of_beq hx) ?_ ?_
          · intro tag
            rw [Bool.eq_iff_iff, isSome_findArm_iff, isSome_findArm_iff]
            exact mem_tags_iff hnodup (beq_iff_eq.1 hlen) hin
          · intro tag b c hb hc
            obtain ⟨arm, harm, htext, rfl⟩ := text_of_findArm hb
            obtain ⟨c', hc', hsame⟩ := armsIn_iff.1 hin arm harm
            rw [findArm_eq_of_text htext, hc] at hc'
            obtain rfl := Option.some.inj hc'
            exact ih arm harm hsame
      | _ => cases h
  | inc _ ih =>
      cases c with
      | inc y c =>
          obtain ⟨hx, hc⟩ := Bool.and_eq_true_iff.1 h
          exact .inc (Name.matches_of_beq hx) (ih hc)
      | _ => cases h
  | dec _ ih =>
      cases c with
      | dec y c =>
          obtain ⟨hx, hc⟩ := Bool.and_eq_true_iff.1 h
          exact .dec (Name.matches_of_beq hx) (ih hc)
      | _ => cases h

/-! ## Equal programs -/

theorem rel_findRev? {α β : Type} {S : α → β → Prop} {as : List α} {bs : List β} {f : α → Bool}
    {g : β → Bool} (hS : List.Forall₂ S as bs) (hfg : ∀ a b, S a b → f a = g b) :
    Option.Rel S (as.findRev? f) (bs.findRev? g) := by
  rw [List.findRev?_eq_find?_reverse, List.findRev?_eq_find?_reverse]
  exact rel_find? (List.rel_reverse hS) hfg

/-- The constructors have equal tags and equal fields. -/
structure TypeDef.Equals (d e : TypeDef) : Prop where
  /-- The tag. -/
  tag : (d.tag == e.tag) = true
  /-- The fields, in order. -/
  fields : (d.fields == e.fields) = true

/-- The functions have equal names, equal parameters and equal bodies. -/
structure FnDef.Equals (d e : FnDef) : Prop where
  /-- The name. -/
  name : (d.name == e.name) = true
  /-- The parameters, in order. -/
  params : (d.params == e.params) = true
  /-- The body. -/
  body : (d.body == e.body) = true

namespace Program

/-- Under each name there are equal definitions in both programs, or none in either. -/
structure Equals (p q : Program) : Prop where
  /-- The constructors. -/
  types : ∀ tag, Option.Rel TypeDef.Equals (p.type? tag) (q.type? tag)
  /-- The functions. -/
  fns : ∀ name, Option.Rel FnDef.Equals (p.fn? name) (q.fn? name)

/-- The arms of every `case` of the program have different tags. -/
def Distinct (p : Program) : Prop := ∀ d ∈ p.fns, d.body.Distinct

variable {p q : Program}

/-- Programs with equal tables are equal. -/
theorem equals_of_tables (types : List.Forall₂ TypeDef.Equals p.types q.types)
    (fns : List.Forall₂ FnDef.Equals p.fns q.fns) : p.Equals q where
  types _ := rel_findRev? types fun _ _ hde => BEq.congr_left hde.tag
  fns _ := rel_findRev? fns fun _ _ hde => BEq.congr_left hde.name

theorem Equals.matches (e : p.Equals q) (distinct : p.Distinct) : p.Matches Anywhere q where
  types tag := by
    rcases rel_cases (e.types tag) with ⟨hd, hd'⟩ | ⟨d, d', hd, hd', heq⟩
    · rw [hd, hd']
      exact .none
    · rw [hd, hd']
      exact .some ⟨Name.matches_of_beq heq.tag, Name.all_match_of_beq heq.fields⟩
  fns name := by
    rcases rel_cases (e.fns name) with ⟨hd, hd'⟩ | ⟨d, d', hd, hd', heq⟩
    · rw [hd, hd']
      exact .none
    · have hbody : d.body.Distinct := distinct d (mem_of_fn? hd)
      rw [hd, hd']
      exact .some ⟨Name.matches_of_beq heq.name, Name.all_match_of_beq heq.params,
        hbody.matches heq.body⟩

end Program

end Core

/-! ## Heaps behind none -/

/-- The heaps have the same slots, with cells that have the same counts and hold the same values, apart
from the places of names, and in both the same has been done. -/
structure SameHeap (h h' : Heap) : Prop where
  /-- The number of slots. -/
  size : h'.slots.size = h.slots.size
  /-- The cells. -/
  cells : ∀ l, Option.Rel (Cell.Matches Anywhere id) (h.cell? l) (h'.cell? l)
  /-- The number of live cells. -/
  live : h'.live = h.live
  /-- What has been done. -/
  stats : h'.stats = h.stats

/-- Behind a heap without slots every location stays where it is. -/
theorem past_empty : Heap.empty.past = id := by
  funext l
  cases l with
  | invalid => rfl
  | cell i => exact congrArg Location.cell (Nat.zero_add i)

theorem Heap.Behind.sameHeap {h h' : Heap} (b : Behind Anywhere .empty h h') : SameHeap h h' where
  size := b.size.trans (Nat.zero_add _)
  cells l := by
    have hcell := b.cell?_cases l
    rw [past_empty, id] at hcell
    rcases hcell with ⟨hc, hc'⟩ | ⟨c, c', hc, hc', m⟩
    · rw [hc, hc']
      exact .none
    · rw [hc, hc']
      exact .some m
  live := b.live.trans (Nat.zero_add _)
  stats := by
    rw [b.stats]
    obtain ⟨allocations, reuses, frees, declined⟩ := h.stats
    change HeapStats.mk (0 + allocations) (0 + reuses) (0 + frees) (0 + declined) = _
    simp only [Nat.zero_add]

/-! ## Runs -/

variable {p q : Program} {entry : String} {h : Heap} {o : Except Fault Location}

/-- The run from an entry on the empty heap comes to no end, however deeply calls may be nested. -/
def Endless (p : Program) (entry : String) : Prop :=
  ∀ depth, (run p depth entry .empty).1 = .error .exhausted

/-- Either the run comes to no end, or it ends in some way. -/
theorem endless_or_ends (p : Program) (entry : String) :
    Endless p entry ∨ ∃ o h, Ends p entry o h := by
  by_cases hend : Endless p entry
  · exact .inl hend
  · obtain ⟨depth, hne⟩ := not_forall.1 hend
    obtain ⟨o, h, hrun⟩ := exists_ended hne
    exact .inr ⟨o, h, depth, hrun⟩

/-- The outcomes are the same location, or faults whose reports say the same. -/
inductive SameOutcome : Except Fault Location → Except Fault Location → Prop where
  | ok {l : Location} : SameOutcome (.ok l) (.ok l)
  | error {f g : Fault} : f.diagnostic.message = g.diagnostic.message →
      f.diagnostic.label.text = g.diagnostic.label.text → SameOutcome (.error f) (.error g)

theorem Fault.relocate_id (f : Fault) : f.relocate id = f := by
  cases f <;> rfl

/-- If a run comes to an end, so does that of a program that matches, in the same way. -/
theorem Ends.matches (e : Ends p entry o h) (m : p.Matches Anywhere q) :
    ∃ o' h', Ends q entry o' h' ∧ SameOutcome o o' ∧ SameHeap h h' := by
  obtain ⟨depth, hrun⟩ := e
  have hout := run_inParallel m depth entry _ _ (behind_empty Anywhere .empty)
  rw [hrun, past_empty] at hout
  generalize hrun' : run q depth entry .empty = r at hout
  cases o with
  | ok l =>
      cases hout with
      | @ok _ l' _ h' hl b =>
          obtain rfl : l' = l := hl.trans (congrFun past_empty l)
          exact ⟨.ok l', h', ⟨depth, hrun'⟩, .ok, b.sameHeap⟩
  | error f =>
      cases hout with
      | error he b =>
          cases he with
          | @fault _ g hf =>
              obtain ⟨hmessage, htext⟩ := hf.report
              rw [Fault.relocate_id] at hmessage htext
              exact ⟨.error g, _, ⟨depth, hrun'⟩, .error hmessage.symm htext.symm, b.sameHeap⟩

/-- If a run comes to no end, neither does that of a program that matches. -/
theorem Endless.matches (e : Endless p entry) (m : p.Matches Anywhere q) : Endless q entry := by
  intro depth
  have hout := run_inParallel m depth entry _ _ (behind_empty Anywhere .empty)
  have hend := e depth
  generalize run p depth entry .empty = r at hout hend
  generalize run q depth entry .empty = r' at hout ⊢
  cases hout with
  | ok _ _ => cases hend
  | error he _ =>
      obtain rfl := Except.error.inj hend
      cases he
      rfl

/-- Equal programs run alike.  From every entry both runs on the empty heap come to no end, or both end
in the same location or with the same report, and leave the same heap. -/
theorem equal_programs_run_alike (distinct : p.Distinct) (equals : p.Equals q) (entry : String) :
    (Endless p entry ∧ Endless q entry) ∨
      ∃ o h o' h', Ends p entry o h ∧ Ends q entry o' h' ∧ SameOutcome o o' ∧ SameHeap h h' := by
  have m := equals.matches distinct
  rcases endless_or_ends p entry with endless | ⟨o, h, ends⟩
  · exact .inl ⟨endless, endless.matches m⟩
  · obtain ⟨o', h', ends', houtcome, hheap⟩ := ends.matches m
    exact .inr ⟨o, h, o', h', ends, ends', houtcome, hheap⟩

/-! ### A choice within a choice -/

/-- Chooses twice, with names at one place and the arms of each choice in some order. -/
def choosing (place : Span) (order : List Arm → List Arm) : Program :=
  let x : Var := ⟨"x", place⟩
  let y : Var := ⟨"y", place⟩
  let yes : Tag := ⟨"Yes", place⟩
  let no : Tag := ⟨"No", place⟩
  let inner : Body := .bind y (.new ⟨no, []⟩) (.case y (order [(yes, .ret x), (no, .ret y)]))
  { types := [⟨yes, []⟩, ⟨no, []⟩]
    fns := [⟨⟨"main", place⟩, [],
      .bind x (.new ⟨yes, []⟩) (.case x (order [(yes, inner), (no, .ret x)]))⟩] }

/-- The program with all arms the other way round and all names elsewhere does the same. -/
theorem equal_programs_run_alike_choosing : ∃ h h',
    (choosing .none id).Distinct ∧ (choosing .none id).Equals (choosing ⟨3, 4⟩ .reverse) ∧
    Ends (choosing .none id) "main" (.ok (.cell 1)) h ∧
    Ends (choosing ⟨3, 4⟩ .reverse) "main" (.ok (.cell 1)) h' ∧ SameHeap h h' := by
  have distinct : (choosing .none id).Distinct := by
    intro d hd
    cases List.mem_singleton.1 hd
    refine .bind (.case (by decide) (List.forall_mem_cons.2 ⟨?_, List.forall_mem_singleton.2 .ret⟩))
    exact .bind (.case (by decide)
      (List.forall_mem_cons.2 ⟨.ret, List.forall_mem_singleton.2 .ret⟩))
  have equals : (choosing .none id).Equals (choosing ⟨3, 4⟩ .reverse) := by
    refine Program.equals_of_tables ?_ ?_
    · exact .cons ⟨by decide, by decide⟩ (.cons ⟨by decide, by decide⟩ .nil)
    · exact .cons ⟨by decide, by decide, by decide⟩ .nil
  have ends : Ends (choosing .none id) "main" (.ok (.cell 1)) _ := ⟨1, rfl⟩
  rcases equal_programs_run_alike distinct equals "main" with
    ⟨endless, -⟩ | ⟨o, h, o', h', e, e', houtcome, hheap⟩
  · cases endless 1
  · obtain ⟨rfl, rfl⟩ := ends.unique e
    cases houtcome
    exact ⟨_, h', distinct, equals, ends, e', hheap⟩

end Reclaim
