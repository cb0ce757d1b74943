import Mathlib.Data.List.Nodup
import Mathlib.Data.List.Perm.Subperm
import Reclaim.Counting.Token
import Reclaim.Proofs.Names

/-!
# Tokens are new

Different candidates are spelled differently, so the names in use cannot rule out all of one more
candidates than there are names.  The search for a token, which is a loop (`Reserved.Finds`), therefore
ends within a bound at a candidate that is permitted (`Reserved.exists_finds`), and every later token has a
greater number (`Reserved.fresh_spec`).

While tokens are inserted into the body of a function, the names in it are its own variables and the
tokens that have been issued so far (`Reserved.InUse`).
-/

namespace Reclaim.Counting

open Reclaim.Core

theorem candidate_injective {m n : Nat} (h : (candidate m).text = (candidate n).text) : m = n := by
  have hlist := congrArg String.toList h
  have hrepr (k : Nat) : (toString k).toList = Nat.toDigits 10 k := Nat.toList_repr
  simp only [candidate, String.toList_append, hrepr] at hlist
  have hdigits := congrArg (Nat.ofDigitChars 10 · 0) (List.append_cancel_left hlist)
  simpa using hdigits

namespace Reserved

variable {r : Reserved} {c c' : Counter} {n : Nat} {t : String}

/-- The names that a token has to avoid. -/
def taken (r : Reserved) : List String := r.vars.texts ++ r.fns.map (·.text)

theorem permits_iff : r.permits n = true ↔ (candidate n).text ∉ r.taken := by
  rw [permits, taken, List.mem_append, not_or, Bool.and_eq_true, Bool.not_eq_true',
    Bool.not_eq_true', ← Bool.not_eq_true, OrderedSet.contains_iff, ← Bool.not_eq_true]
  simp

/-- One more candidates than there are names are not all taken. -/
theorem exists_permitted (r : Reserved) (start : Nat) :
    ∃ n, start ≤ n ∧ n ≤ start + (r.vars.size + r.fns.length) ∧ r.permits n = true := by
  by_contra hnone
  push Not at hnone
  let window := (List.range' start (r.taken.length + 1)).map fun n => (candidate n).text
  have hlen : r.taken.length = r.vars.size + r.fns.length := by
    simp [taken, OrderedSet.texts, OrderedSet.size]
  have hnodup : window.Nodup :=
    List.Nodup.map (fun _ _ h => candidate_injective h) List.nodup_range'
  have hsub : window ⊆ r.taken := by
    intro t ht
    obtain ⟨n, hn, rfl⟩ := List.mem_map.1 ht
    rw [List.mem_range'_1] at hn
    by_contra hfree
    exact hnone n hn.1 (by omega) (permits_iff.2 hfree)
  have := (List.subperm_of_subset hnodup hsub).length_le
  simp only [window, List.length_map, List.length_range'] at this
  omega

/-- The loop of the search: it ends with a token after looking at `n` candidates. -/
inductive Finds (r : Reserved) : Counter → Nat → Var → Counter → Prop where
  | hit {c : Counter} : r.permits c.next.1 = true → Finds r c 1 (candidate c.next.1) c.next.2
  | miss {c c' : Counter} {n : Nat} {w : Var} : r.permits c.next.1 = false → Finds r c.next.2 n w c' →
      Finds r c (n + 1) w c'

/-- The search ends with a permitted candidate after at most one more attempt than may fail. -/
theorem exists_finds_search {attempts : Nat}
    (h : ∃ n, c.issued ≤ n ∧ n ≤ c.issued + attempts ∧ r.permits n = true) :
    ∃ n ≤ attempts + 1, r.Finds c n (r.search attempts c).1 (r.search attempts c).2 := by
  induction attempts generalizing c with
  | zero =>
      obtain ⟨n, hle, hge, hn⟩ := h
      obtain rfl : n = c.issued := by omega
      exact ⟨1, Nat.le_refl 1, .hit hn⟩
  | succ attempts ih =>
      rw [search]
      cases hc : r.permits c.next.1 with
      | true => exact ⟨1, by omega, .hit hc⟩
      | false =>
          obtain ⟨n, hle, hge, hn⟩ := h
          have hne : n ≠ c.issued := by
            rintro rfl
            cases hc.symm.trans hn
          obtain ⟨m, hm, hfinds⟩ := ih (c := c.next.2)
            ⟨n, by simp only [Counter.next]; omega, by simp only [Counter.next]; omega, hn⟩
          exact ⟨m + 1, by omega, .miss hc hfinds⟩

/-- A token is found after at most one more attempt than there are names to avoid. -/
theorem exists_finds (r : Reserved) (c : Counter) :
    ∃ n ≤ r.vars.size + r.fns.length + 1, r.Finds c n (r.fresh c).1 (r.fresh c).2 :=
  exists_finds_search (r.exists_permitted c.issued)

/-- What is found is a permitted candidate with a number that was not issued before. -/
theorem Finds.spec {w : Var} (h : r.Finds c n w c') :
    ∃ m, c.issued ≤ m ∧ r.permits m = true ∧ (w, c') = (candidate m, ⟨m + 1⟩) := by
  induction h with
  | @hit c hc => exact ⟨c.issued, Nat.le_refl _, hc, rfl⟩
  | miss _ _ ih =>
      obtain ⟨m, hm, hperm, heq⟩ := ih
      exact ⟨m, Nat.le_of_succ_le hm, hperm, heq⟩

/-- A token has a number that was not issued before, and a name that is not taken. -/
theorem fresh_spec (r : Reserved) (c : Counter) :
    ∃ n, c.issued ≤ n ∧ r.permits n = true ∧ r.fresh c = (candidate n, ⟨n + 1⟩) := by
  obtain ⟨n, -, hfinds⟩ := r.exists_finds c
  exact hfinds.spec

/-- The names in a body into which tokens are being inserted: the variables of the function, and
the tokens that have been issued. -/
def InUse (r : Reserved) (c : Counter) (t : String) : Prop :=
  t ∈ r.vars.texts ∨ ∃ n < c.issued, t = (candidate n).text

theorem InUse.mono (h : r.InUse c t) (hc : c.issued ≤ c'.issued) : r.InUse c' t :=
  h.imp_right fun ⟨n, hn, ht⟩ => ⟨n, Nat.lt_of_lt_of_le hn hc, ht⟩

/-- A permitted candidate with a number that was not issued is not in use. -/
theorem not_inUse (hc : c.issued ≤ n) (hn : r.permits n = true) :
    ¬ r.InUse c (candidate n).text := by
  rintro (hvar | ⟨m, hm, hmn⟩)
  · exact permits_iff.1 hn (List.mem_append_left _ hvar)
  · have := candidate_injective hmn
    omega

end Reserved

end Reclaim.Counting
