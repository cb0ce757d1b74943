import Mathlib.Data.Multiset.AddSub
import Reclaim.Counting.Holdings
import Reclaim.Proofs.Bodies

/-!
# Borrowers and the owners behind them

A borrower hangs off an owner if its chain of records leads there through dead borrowers
(`Holdings.Hangs`).  The walk that looks for such a chain is a loop (`Holdings.Walks`), to which a bound on
its steps is given.  The bound is never met, because every record was bound before the fields that are
read out of it (`Holdings.Ordered`), so a chain only goes back in the list of borrowers (`exists_walks`).

A variable is backed if its chain of records leads to an owner through any borrowers
(`Holdings.Backs`).  When an owner lets go, its dependents become owners, and every live variable is
still backed (`Backs.release`).
-/

namespace Reclaim.Counting.Holdings

open Reclaim.Core

variable {h : Holdings} {live : VarSet} {owner : Var} {x r u : String}

/-- The chain of records of a borrower reaches an owner through dead borrowers. -/
inductive Hangs (h : Holdings) (live : VarSet) (owner : String) : String → Prop where
  | direct {x : String} : (x, owner) ∈ h.borrowed.links → Hangs h live owner x
  | dead {x r : String} : (x, r) ∈ h.borrowed.links → r ∉ live.texts → Hangs h live owner r →
      Hangs h live owner x

/-- The chain of records of a variable ends at an owner. -/
inductive Backs (h : Holdings) : String → Prop where
  | owned {x : String} : x ∈ h.owned.texts → Backs h x
  | read {x r : String} : (x, r) ∈ h.borrowed.links → Backs h r → Backs h x

/-- Records come before the borrowers that were read out of them. -/
structure Ordered (links : List (String × String)) : Prop where
  /-- No later borrower is the record of an earlier one. -/
  earlier : links.Pairwise fun a b => a.2 ≠ b.1
  /-- No borrower is its own record. -/
  other : ∀ a ∈ links, a.2 ≠ a.1

/-- The variables with holdings: owners and borrowers. -/
def Knows (h : Holdings) (x : String) : Prop := x ∈ h.owned.texts ∨ x ∈ h.borrowed.keyTexts

theorem Backs.knows (b : h.Backs x) : h.Knows x := by
  cases b with
  | owned hx => exact .inl hx
  | read hx _ => exact .inr (OrderedMap.mem_keyTexts_of_link hx)

theorem Hangs.exists_link {owner : String} (g : h.Hangs live owner x) :
    ∃ r, (x, r) ∈ h.borrowed.links := by
  cases g with
  | direct hx | dead hx => exact ⟨_, hx⟩

theorem Ordered.sublist {links links' : List (String × String)} (ord : Ordered links)
    (s : links'.Sublist links) : Ordered links' :=
  ⟨ord.earlier.sublist s, fun a ha => ord.other a (s.subset ha)⟩

/-- A borrower that comes in last follows every record. -/
theorem Ordered.append {links : List (String × String)} (ord : Ordered links)
    (hx : ∀ a ∈ links, a.2 ≠ x) (hr : r ≠ x) : Ordered (links ++ [(x, r)]) := by
  constructor
  · refine List.pairwise_append.2 ⟨ord.earlier, List.pairwise_singleton _ _, fun a ha b hb => ?_⟩
    obtain rfl := List.mem_singleton.1 hb
    exact hx a ha
  · intro a ha
    rcases List.mem_append.1 ha with ha | ha
    · exact ord.other a ha
    · obtain rfl := List.mem_singleton.1 ha
      exact hr

/-! ## The walk -/

/-- The loop of a walk: from `x` it ends with an answer after looking at `n` records. -/
inductive Walks (h : Holdings) (owner : Var) (live : VarSet) : Var → Nat → Bool → Prop where
  | off {x : Var} : h.borrowed.get? x = none → Walks h owner live x 0 false
  | found {x record : Var} : h.borrowed.get? x = some record → (record == owner) = true →
      Walks h owner live x 1 true
  | live {x record : Var} : h.borrowed.get? x = some record → (record == owner) = false →
      live.contains record = true → Walks h owner live x 1 false
  | dead {x record : Var} {n : Nat} {answer : Bool} : h.borrowed.get? x = some record →
      (record == owner) = false → live.contains record = false → Walks h owner live record n answer →
      Walks h owner live x (n + 1) answer

/-- The record of a borrower comes earlier in the list. -/
theorem Ordered.mem_take {links : List (String × String)} (ord : Ordered links) {n : Nat}
    (hx : (x, r) ∈ links.take (n + 1)) (hr : (r, u) ∈ links) : (r, u) ∈ links.take n := by
  obtain ⟨i, hi, hxi⟩ := List.mem_take_iff_getElem.1 hx
  obtain ⟨j, hj, hrj⟩ := List.mem_iff_getElem.1 hr
  have hlt : j < i := by
    by_contra hle
    rcases Nat.lt_or_eq_of_le (Nat.not_lt.1 hle) with hlt | rfl
    · have := List.pairwise_iff_getElem.1 ord.earlier i j (hlt.trans hj) hj hlt
      rw [hxi, hrj] at this
      exact this rfl
    · have := ord.other _ hr
      rw [hxi] at hrj
      cases hrj
      exact this rfl
  exact List.mem_take_iff_getElem.2 ⟨j, by omega, hrj⟩

theorem link_unique (hr : (x, r) ∈ h.borrowed.links) (hu : (x, u) ∈ h.borrowed.links) : r = u := by
  have := List.inj_on_of_nodup_map h.borrowed.nodup_keyTexts hr hu rfl
  exact (Prod.mk.inj this).2

/-- A walk ends after at most as many records as there are entries ahead of where it starts. -/
theorem exists_walks_of_take (ord : Ordered h.borrowed.links) {x : Var} {m : Nat}
    (hx : ∀ r, (x.text, r) ∈ h.borrowed.links → (x.text, r) ∈ h.borrowed.links.take m) :
    ∃ n ≤ m, h.Walks owner live x n (h.reaches owner live m x) := by
  induction m generalizing x with
  | zero =>
      cases hget : h.borrowed.get? x with
      | none => exact ⟨0, Nat.le_refl 0, .off hget⟩
      | some record => cases hx _ (OrderedMap.link_of_get? hget)
  | succ m ih =>
      rw [reaches]
      cases hget : h.borrowed.get? x with
      | none => exact ⟨0, Nat.zero_le _, .off hget⟩
      | some record =>
          have hlink := hx _ (OrderedMap.link_of_get? hget)
          obtain ⟨n, hn, hwalks⟩ := ih (x := record) fun r hr => ord.mem_take hlink hr
          cases howner : record == owner with
          | true =>
              simp only [howner, Bool.true_or]
              exact ⟨1, by omega, .found hget howner⟩
          | false =>
              cases hlive : live.contains record with
              | true =>
                  simp only [howner, hlive, Bool.not_true, Bool.false_and, Bool.or_false]
                  exact ⟨1, by omega, .live hget howner hlive⟩
              | false =>
                  simp only [howner, hlive, Bool.not_false, Bool.true_and, Bool.false_or]
                  exact ⟨n + 1, by omega, .dead hget howner hlive hwalks⟩

/-- The bound of the walk is the number of borrowers, and it is enough. -/
theorem exists_walks (ord : Ordered h.borrowed.links) (x owner : Var) (live : VarSet) :
    ∃ n ≤ h.borrowed.size, h.Walks owner live x n (h.hangsOff x owner live) := by
  have hsize : h.borrowed.size = h.borrowed.links.length := by
    simp [OrderedMap.size, OrderedMap.links]
  refine exists_walks_of_take ord fun r hr => ?_
  rwa [hsize, List.take_length]

/-- A walk that ends tells whether the borrower hangs off the owner. -/
theorem Walks.iff_hangs {v : Var} {n : Nat} {answer : Bool} (hw : h.Walks owner live v n answer) :
    answer = true ↔ h.Hangs live owner.text v.text := by
  induction hw with
  | off hget =>
      refine ⟨nofun, fun g => ?_⟩
      obtain ⟨r, hr⟩ := g.exists_link
      obtain ⟨record, hrecord, -⟩ := OrderedMap.get?_of_link hr
      rw [hget] at hrecord
      cases hrecord
  | found hget howner =>
      have hlink := OrderedMap.link_of_get? hget
      exact iff_of_true rfl (.direct (Name.beq_iff.1 howner ▸ hlink))
  | live hget howner hlive =>
      have hlink := OrderedMap.link_of_get? hget
      refine ⟨nofun, fun g => ?_⟩
      cases g with
      | direct hr => exact absurd (link_unique hlink hr) (Name.beq_eq_false_iff.1 howner)
      | dead hr hdead _ => exact absurd (OrderedSet.contains_iff.1 hlive) (link_unique hlink hr ▸ hdead)
  | dead hget howner hdead _ ih =>
      have hlink := OrderedMap.link_of_get? hget
      rw [ih]
      constructor
      · refine .dead hlink fun hlive => ?_
        rw [OrderedSet.contains_iff.2 hlive] at hdead
        cases hdead
      · intro g
        cases g with
        | direct hr => exact absurd (link_unique hlink hr) (Name.beq_eq_false_iff.1 howner)
        | dead hr _ g => exact link_unique hlink hr ▸ g

/-- The bound on the steps of the walk is never met. -/
theorem hangsOff_iff (ord : Ordered h.borrowed.links) {v : Var} :
    h.hangsOff v owner live = true ↔ h.Hangs live owner.text v.text := by
  obtain ⟨n, -, hwalks⟩ := exists_walks ord v owner live
  exact hwalks.iff_hangs

/-! ## Letting go -/

/-- The spellings of the dependents of an owner. -/
def dependentTexts (h : Holdings) (owner : Var) (live : VarSet) : List String :=
  (h.dependents owner live).map (·.text)

theorem mem_dependentTexts (ord : Ordered h.borrowed.links) : x ∈ h.dependentTexts owner live ↔
    x ∈ live.texts ∧ h.Hangs live owner.text x := by
  constructor
  · intro hx
    obtain ⟨v, hv, rfl⟩ := List.mem_map.1 hx
    obtain ⟨-, hv⟩ := List.mem_filter.1 hv
    rw [Bool.and_eq_true, OrderedSet.contains_iff, hangsOff_iff ord] at hv
    exact hv
  · rintro ⟨hlive, g⟩
    obtain ⟨r, hr⟩ := g.exists_link
    have hkey : x ∈ h.borrowed.keys.map (·.text) := by
      rw [OrderedMap.keyTexts_eq]
      exact OrderedMap.mem_keyTexts_of_link hr
    obtain ⟨v, hv, rfl⟩ := List.mem_map.1 hkey
    refine List.mem_map.2 ⟨v, List.mem_filter.2 ⟨hv, ?_⟩, rfl⟩
    rw [Bool.and_eq_true, OrderedSet.contains_iff, hangsOff_iff ord]
    exact ⟨hlive, g⟩

theorem dependentTexts_sublist (h : Holdings) (owner : Var) (live : VarSet) :
    (h.dependentTexts owner live).Sublist h.borrowed.keyTexts := by
  rw [← OrderedMap.keyTexts_eq]
  exact List.filter_sublist.map _

/-- The holdings after an owner has let go. -/
def released (h : Holdings) (owner : Var) (live : VarSet) : Holdings := (h.release owner live).2

theorem links_released : (h.released owner live).borrowed.links =
    h.borrowed.links.filter fun e => e.1 ∉ h.dependentTexts owner live :=
  OrderedMap.links_eraseAll _ _

theorem owned_released (apart : ∀ x ∈ h.owned.texts, x ∉ h.borrowed.keyTexts) :
    (h.released owner live).owned.texts =
      (h.owned.texts ++ h.dependentTexts owner live).erase owner.text := by
  have hsub := h.dependentTexts_sublist owner live
  have : (h.released owner live).owned
      = (h.owned.insertAll (h.dependents owner live)).erase owner := rfl
  rw [this, OrderedSet.texts_erase, OrderedSet.texts_insertAll]
  · rfl
  · exact h.borrowed.nodup_keyTexts.sublist hsub
  · exact fun t ht hown => apart t hown (hsub.subset ht)

theorem nodup_owned_dependents (apart : ∀ x ∈ h.owned.texts, x ∉ h.borrowed.keyTexts) :
    (h.owned.texts ++ h.dependentTexts owner live).Nodup := by
  have hsub := h.dependentTexts_sublist owner live
  refine List.nodup_append.2 ⟨h.owned.nodup_texts, h.borrowed.nodup_keyTexts.sublist hsub, ?_⟩
  rintro a ha b hb rfl
  exact apart a ha (hsub.subset hb)

/-- Nothing comes in when an owner lets go, and only the owner goes out. -/
theorem knows_released (apart : ∀ x ∈ h.owned.texts, x ∉ h.borrowed.keyTexts)
    (ho : owner.text ∈ h.owned.texts) :
    (h.released owner live).Knows x ↔ h.Knows x ∧ x ≠ owner.text := by
  have hsub := h.dependentTexts_sublist owner live
  have hkeys : x ∈ (h.released owner live).borrowed.keyTexts ↔
      x ∈ h.borrowed.keyTexts ∧ x ∉ h.dependentTexts owner live := by
    rw [OrderedMap.mem_keyTexts, OrderedMap.mem_keyTexts, links_released]
    simp
  rw [Knows, Knows, hkeys, owned_released apart,
    (nodup_owned_dependents apart).mem_erase_iff, List.mem_append]
  constructor
  · rintro (⟨hne, hx | hx⟩ | ⟨hx, -⟩)
    · exact ⟨.inl hx, hne⟩
    · exact ⟨.inr (hsub.subset hx), hne⟩
    · exact ⟨.inr hx, fun e => apart _ ho (e ▸ hx)⟩
  · rintro ⟨hx | hx, hne⟩
    · exact .inl ⟨hne, .inl hx⟩
    · by_cases hdep : x ∈ h.dependentTexts owner live
      · exact .inl ⟨hne, .inr hdep⟩
      · exact .inr ⟨hx, hdep⟩

/-- When an owner lets go, everything that is live, or does not hang off it, is still backed. -/
theorem Backs.released (b : h.Backs x) (ord : Ordered h.borrowed.links)
    (apart : ∀ x ∈ h.owned.texts, x ∉ h.borrowed.keyTexts) (hne : x ≠ owner.text)
    (hx : x ∈ live.texts ∨ ¬ h.Hangs live owner.text x) : (h.released owner live).Backs x := by
  induction b with
  | owned ho =>
      refine .owned ?_
      rw [owned_released apart]
      exact (List.mem_erase_of_ne hne).2 (List.mem_append_left _ ho)
  | @read x r hr b ih =>
      by_cases hdep : x ∈ h.dependentTexts owner live
      · refine .owned ?_
        rw [owned_released apart]
        exact (List.mem_erase_of_ne hne).2 (List.mem_append_right _ hdep)
      · -- Not a dependent, so its record does not hang off the owner unless it is live.
        have hnot : ¬ h.Hangs live owner.text x := fun g =>
          hx.elim (fun hlive => hdep ((mem_dependentTexts ord).2 ⟨hlive, g⟩)) fun hn => hn g
        have hro : r ≠ owner.text := fun e => hnot (.direct (e ▸ hr))
        have hrx : r ∈ live.texts ∨ ¬ h.Hangs live owner.text r :=
          or_iff_not_imp_left.2 fun hdead g => hnot (.dead hr hdead g)
        refine .read ?_ (ih hro hrx)
        rw [links_released]
        exact List.mem_filter.2 ⟨hr, by simpa using hdep⟩

end Reclaim.Counting.Holdings
