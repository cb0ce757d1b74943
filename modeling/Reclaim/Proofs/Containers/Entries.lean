import Mathlib.Data.List.Basic
import Reclaim.OrderedMap
import Reclaim.OrderedSet

/-!
# Lists of entries and of elements

Maps and sets are lists without repetition, where repetition is judged by `==`.  What is said about them
in other modules goes back to a few facts about such lists: what is listed after an insertion, where the
entry under a key stands (`cut_at`), and that a list without repetition which is as long as another one and
has an equal of each of its elements has no others (`matched_of_length_le`).
-/

namespace Reclaim

/-! ## Lists without repetition -/

section Distinct

variable {α : Type} [BEq α] [EquivBEq α] {as bs : List α}

/-- Equals of elements that differ from `b` are still there when `b` is taken out. -/
theorem matched_eraseP {b : α} (hmatched : ∀ a ∈ as, ∃ c ∈ bs, (c == a) = true)
    (hother : ∀ a ∈ as, (b == a) = false) : ∀ a ∈ as, ∃ c ∈ bs.eraseP (· == b), (c == a) = true := by
  intro a ha
  obtain ⟨c, hc, hca⟩ := hmatched a ha
  have hcb : ¬ (c == b) = true := fun hcb => by
    have := BEq.trans (BEq.symm hcb) hca
    simp [hother a ha] at this
  exact ⟨c, (List.mem_eraseP_of_neg (p := (· == b)) hcb).2 hc, hca⟩

/-- A list whose elements are different is no longer than a list that has an equal of each. -/
theorem length_le_of_matched (has : as.Pairwise fun a b => (a == b) = false)
    (hmatched : ∀ a ∈ as, ∃ b ∈ bs, (b == a) = true) : as.length ≤ bs.length := by
  induction as generalizing bs with
  | nil => simp
  | cons a rest ih =>
      obtain ⟨ha, hrest⟩ := List.pairwise_cons.1 has
      obtain ⟨⟨b, hb, hba⟩, hmatched⟩ := List.forall_mem_cons.1 hmatched
      have hlen := List.length_eraseP_of_mem hb (p := (· == a)) hba
      have hpos := List.length_pos_of_mem hb
      have hle := ih hrest (matched_eraseP hmatched ha)
      simp only [List.length_cons]
      omega

/-- So when it is as long, every element of the other list is an equal of one of its own. -/
theorem matched_of_length_le (has : as.Pairwise fun a b => (a == b) = false)
    (hmatched : ∀ a ∈ as, ∃ b ∈ bs, (b == a) = true) (hlen : bs.length ≤ as.length) {b : α}
    (hb : b ∈ bs) : ∃ a ∈ as, (a == b) = true := by
  by_contra hnone
  have hother : ∀ a ∈ as, (b == a) = false := by
    intro a ha
    rw [BEq.comm, ← Bool.not_eq_true]
    exact fun hab => hnone ⟨a, ha, hab⟩
  have herase := List.length_eraseP_of_mem hb (p := (· == b)) BEq.rfl
  have hpos := List.length_pos_of_mem hb
  have hle := length_le_of_matched has (matched_eraseP hmatched hother)
  omega

end Distinct

/-! ## Entries -/

section Entries

variable {κ ν : Type} [BEq κ] {es : List (κ × ν)} {e : κ × ν} {k : κ} {v : ν}

/-- There is no entry under a key, or there is a first one. -/
theorem cut_at (k : κ) (es : List (κ × ν)) :
    (∀ e ∈ es, (e.1 == k) = false) ∨
      ∃ before e after, es = before ++ e :: after ∧ (e.1 == k) = true ∧
        ∀ d ∈ before, (d.1 == k) = false := by
  cases hfind : es.find? fun e => e.1 == k with
  | none => exact .inl fun e he => by simpa using List.find?_eq_none.1 hfind e he
  | some e =>
      obtain ⟨hek, before, after, hes, hbefore⟩ := List.find?_eq_some_iff_append.1 hfind
      exact .inr ⟨before, e, after, hes, hek, fun d hd => by simpa using hbefore d hd⟩

variable [EquivBEq κ]

/-- A key that is listed keeps its place and only changes its value. -/
theorem putEntry_of_mem (hes : es.Pairwise Apart) (he : e ∈ es) (hk : (e.1 == k) = true) :
    putEntry k v es = es.map fun d => if d.1 == k then (d.1, v) else d := by
  induction es with
  | nil => cases he
  | cons d rest ih =>
      obtain ⟨hd, hrest⟩ := List.pairwise_cons.1 hes
      by_cases hdk : (d.1 == k) = true
      · have hsame : rest.map (fun c => if c.1 == k then (c.1, v) else c) = rest := by
          refine (List.map_congr_left fun c hc => if_neg fun hck => ?_).trans (List.map_id' rest)
          have := BEq.trans hdk (BEq.symm hck)
          simp [hd c hc] at this
        simp [putEntry, hdk, hsame]
      · rcases List.mem_cons.1 he with rfl | he
        · exact absurd hk hdk
        · simp [putEntry, hdk, ih hrest he]

theorem eraseP_of_apart (hes : es.Pairwise Apart) :
    es.eraseP (fun e => e.1 == k) = es.filter fun e => !(e.1 == k) := by
  induction es with
  | nil => rfl
  | cons d rest ih =>
      obtain ⟨hd, hrest⟩ := List.pairwise_cons.1 hes
      by_cases hdk : (d.1 == k) = true
      · have hsame : rest.filter (fun e => !(e.1 == k)) = rest := by
          refine List.filter_eq_self.2 fun c hc => ?_
          rw [Bool.not_eq_true', ← BEq.congr_right hdk]
          exact BEq.symm_false (hd c hc)
        simp [hdk, hsame]
      · simp [hdk, ih hrest]

end Entries

/-! ## Elements of sets -/

namespace OrderedSet

variable {α : Type} [BEq α] {s : OrderedSet α} {a b : α} {as : List α}

theorem mem_of_mem_insert (h : a ∈ (s.insert b).toList) : a ∈ s.toList ∨ a = b := by
  rw [toList_insert] at h
  split at h
  · exact .inl h
  · simpa using h

theorem mem_of_mem_insertAll (h : a ∈ (s.insertAll as).toList) : a ∈ s.toList ∨ a ∈ as := by
  induction as generalizing s with
  | nil => exact .inl h
  | cons b rest ih =>
      rcases ih (s := s.insert b) h with h | h
      · rcases mem_of_mem_insert h with h | rfl
        · exact .inl h
        · exact .inr (.head _)
      · exact .inr (.tail _ h)

theorem mem_of_mem_ofList (h : a ∈ (ofList as).toList) : a ∈ as :=
  (mem_of_mem_insertAll h).resolve_left List.not_mem_nil

end OrderedSet

/-! ## Entries of maps -/

namespace OrderedMap

variable {κ ν : Type} [BEq κ] {m n : OrderedMap κ ν} {es : List (κ × ν)} {a b k : κ} {v : ν}

theorem mem_of_mem_keys_insert (h : a ∈ (m.insert k v).keys) : a ∈ m.keys ∨ a = k := by
  obtain ⟨entry, hentry, rfl⟩ := List.mem_map.1 h
  rcases key_of_mem_putEntry hentry with heq | ⟨old, hold, heq⟩
  · exact .inr heq
  · exact .inl (List.mem_map.2 ⟨old, hold, heq⟩)

theorem mem_of_mem_keys_eraseAll {ks : List κ} (h : a ∈ (ks.foldl erase m).keys) : a ∈ m.keys := by
  induction ks generalizing m with
  | nil => exact h
  | cons k rest ih =>
      obtain ⟨entry, hentry, rfl⟩ := List.mem_map.1 (ih h)
      exact List.mem_map_of_mem (List.mem_of_mem_eraseP hentry)

theorem putEntry_of_apart (h : ∀ e ∈ es, (e.1 == k) = false) : putEntry k v es = es ++ [(k, v)] := by
  induction es with
  | nil => rfl
  | cons e rest ih =>
      rw [putEntry, h e (.head _), if_neg Bool.false_ne_true, ih fun d hd => h d (.tail _ hd)]
      rfl

theorem mem_values_putEntry {w : ν} (hw : w ∈ (putEntry k v es).map (·.2)) : w = v ∨ w ∈ es.map (·.2) := by
  induction es with
  | nil => simpa [putEntry] using hw
  | cons e rest ih =>
      rw [putEntry] at hw
      split at hw
      · rcases List.mem_cons.1 hw with hw | hw
        · exact .inl hw
        · exact .inr (.tail _ hw)
      · rcases List.mem_cons.1 hw with hw | hw
        · exact .inr (List.mem_cons.2 (.inl hw))
        · exact (ih hw).imp_right (.tail _)

/-- Whatever keys are repeated, all values of a map come from its entries. -/
theorem mem_values_ofList {w : ν} (hw : w ∈ (ofList es).values) : w ∈ es.map (·.2) := by
  suffices ∀ m : OrderedMap κ ν, w ∈ (es.foldl (fun m e => m.insert e.1 e.2) m).values →
      w ∈ m.values ∨ w ∈ es.map (·.2) from (this .empty hw).resolve_left (by simp [empty, values])
  clear hw
  induction es with
  | nil => exact fun m hw => .inl hw
  | cons e rest ih =>
      intro m hw
      rcases ih _ hw with hw | hw
      · rcases mem_values_putEntry hw with hw | hw
        · exact .inr (List.mem_cons.2 (.inl hw))
        · exact .inl hw
      · exact .inr (.tail _ hw)

/-- Entries with different keys are listed as they come. -/
theorem entries_ofList (h : es.Pairwise Apart) : (ofList es).entries = es := by
  suffices ∀ m : OrderedMap κ ν, (m.entries ++ es).Pairwise Apart →
      (es.foldl (fun m e => m.insert e.1 e.2) m).entries = m.entries ++ es from
    this .empty h
  clear h
  induction es with
  | nil => simp
  | cons e rest ih =>
      intro m hm
      have hput : (m.insert e.1 e.2).entries = m.entries ++ [e] :=
        putEntry_of_apart fun d hd => (List.pairwise_append.1 hm).2.2 d hd e (.head _)
      rw [List.foldl_cons, ih, hput, List.append_assoc]
      · rfl
      · rw [hput, List.append_assoc]
        exact hm

/-! ### Lookup -/

theorem keys_distinct (m : OrderedMap κ ν) : m.keys.Pairwise fun a b => (a == b) = false :=
  List.pairwise_map.2 m.distinct

theorem contains_eq_isSome (m : OrderedMap κ ν) (k : κ) : m.contains k = (m.get? k).isSome := by
  rw [Bool.eq_iff_iff, contains, get?, Option.isSome_map, List.find?_isSome, List.any_eq_true]

/-- What is found under a key is the value of an entry whose key is equal. -/
theorem entry_of_get? (h : m.get? k = some v) : ∃ e ∈ m.entries, (e.1 == k) = true ∧ e.2 = v := by
  obtain ⟨e, he, hv⟩ := Option.map_eq_some_iff.1 h
  exact ⟨e, List.mem_of_find?_eq_some he, List.find?_some (p := fun e : κ × ν => e.1 == k) he, hv⟩

theorem get?_of_none (hnone : ∀ e ∈ m.entries, (e.1 == k) = false) : m.get? k = none := by
  have : m.entries.find? (fun e => e.1 == k) = none :=
    List.find?_eq_none.2 fun e he => by simp [hnone e he]
  simp [get?, this]

theorem get?_of_cut {before after : List (κ × ν)} {e : κ × ν}
    (hes : m.entries = before ++ e :: after) (hek : (e.1 == k) = true)
    (hbefore : ∀ d ∈ before, (d.1 == k) = false) : m.get? k = some e.2 := by
  have : before.find? (fun d => d.1 == k) = none :=
    List.find?_eq_none.2 fun d hd => by simp [hbefore d hd]
  simp [get?, hes, this, hek, List.find?_append]

section

variable [EquivBEq κ]

theorem get?_congr (m : OrderedMap κ ν) (hab : (a == b) = true) : m.get? a = m.get? b := by
  have : (fun e : κ × ν => e.1 == a) = fun e => e.1 == b := funext fun e => BEq.congr_right hab
  rw [get?, get?, this]

/-- Every entry is found under its key. -/
theorem get?_of_mem {e : κ × ν} (he : e ∈ m.entries) : m.get? e.1 = some e.2 := by
  obtain ⟨before, after, hes⟩ := List.append_of_mem he
  have hapart := m.distinct
  rw [hes, List.pairwise_append] at hapart
  exact get?_of_cut hes BEq.rfl fun d hd => hapart.2.2 d hd e (.head _)

/-- A key is found when an equal one is listed. -/
theorem exists_mem_keys_iff : (∃ a ∈ m.keys, (a == k) = true) ↔ ∃ v, m.get? k = some v := by
  constructor
  · rintro ⟨a, ha, hak⟩
    obtain ⟨e, he, rfl⟩ := List.mem_map.1 ha
    exact ⟨e.2, (m.get?_congr hak).symm.trans (get?_of_mem he)⟩
  · rintro ⟨v, hv⟩
    obtain ⟨e, he, hek, -⟩ := entry_of_get? hv
    exact ⟨e.1, List.mem_map_of_mem he, hek⟩

end

end OrderedMap

end Reclaim
