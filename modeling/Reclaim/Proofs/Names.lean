import Mathlib.Data.List.Nodup
import Reclaim.Core.FreeVars
import Reclaim.Proofs.Containers.Entries

/-!
# Sets and maps of names by spelling

Names are compared by their spelling, so a set of names is seen through the list of its spellings
(`OrderedSet.texts`) and a map between names through the list of pairs of spellings
(`OrderedMap.links`).  Each operation has one lemma for this view.
-/

namespace Reclaim

open Reclaim.Core

variable {kind : NameKind}

theorem any_beq_iff {xs : List (Name kind)} {x : Name kind} :
    xs.any (· == x) = true ↔ x.text ∈ xs.map (·.text) := by
  simp [List.any_eq_true, Name.beq_iff]

namespace OrderedSet

/-- The spellings of the names in a set. -/
def texts (s : OrderedSet (Name kind)) : List String := s.toList.map (·.text)

theorem contains_iff {s : OrderedSet (Name kind)} {x : Name kind} :
    s.contains x = true ↔ x.text ∈ s.texts := any_beq_iff

theorem nodup_texts (s : OrderedSet (Name kind)) : s.texts.Nodup := by
  refine List.pairwise_map.2 (s.distinct.imp fun h => ?_)
  exact Name.beq_eq_false_iff.1 h

theorem texts_insert (s : OrderedSet (Name kind)) (x : Name kind) :
    (s.insert x).texts = if x.text ∈ s.texts then s.texts else s.texts ++ [x.text] := by
  by_cases hx : x.text ∈ s.texts
  · rw [if_pos hx, texts, toList_insert, if_pos (contains_iff.2 hx), texts]
  · rw [if_neg hx, texts, toList_insert, if_neg fun h => hx (contains_iff.1 h)]
    simp [texts]

theorem mem_texts_insert {s : OrderedSet (Name kind)} {x : Name kind} {t : String} :
    t ∈ (s.insert x).texts ↔ t ∈ s.texts ∨ t = x.text := by
  rw [texts_insert]
  split
  · next hx => exact ⟨.inl, fun h => h.elim id (fun h => h ▸ hx)⟩
  · simp

theorem mem_texts_insertAll {xs : List (Name kind)} {s : OrderedSet (Name kind)} {t : String} :
    t ∈ (s.insertAll xs).texts ↔ t ∈ s.texts ∨ t ∈ xs.map (·.text) := by
  induction xs generalizing s with
  | nil => simp [insertAll]
  | cons x rest ih =>
      have : (s.insertAll (x :: rest)) = (s.insert x).insertAll rest := rfl
      rw [this, ih, mem_texts_insert, List.map_cons, List.mem_cons, or_assoc]

/-- New names come after the old ones in their own order. -/
theorem texts_insertAll {xs : List (Name kind)} {s : OrderedSet (Name kind)}
    (hxs : (xs.map (·.text)).Nodup) (hs : ∀ t ∈ xs.map (·.text), t ∉ s.texts) :
    (s.insertAll xs).texts = s.texts ++ xs.map (·.text) := by
  induction xs generalizing s with
  | nil => simp [insertAll]
  | cons x rest ih =>
      rw [List.map_cons, List.nodup_cons] at hxs
      have hx : x.text ∉ s.texts := hs _ (by simp)
      have : (s.insertAll (x :: rest)) = (s.insert x).insertAll rest := rfl
      rw [this, ih hxs.2, texts_insert, if_neg hx, List.map_cons, List.append_assoc]
      · rfl
      · intro t ht
        rw [mem_texts_insert, not_or]
        exact ⟨hs t (by simp [ht]), fun e => hxs.1 (e ▸ ht)⟩

theorem mem_texts_union {s u : OrderedSet (Name kind)} {t : String} :
    t ∈ (s.union u).texts ↔ t ∈ s.texts ∨ t ∈ u.texts := mem_texts_insertAll

theorem mem_texts_ofList {xs : List (Name kind)} {t : String} :
    t ∈ (OrderedSet.ofList xs).texts ↔ t ∈ xs.map (·.text) := by
  rw [ofList, mem_texts_insertAll]
  simp [texts]

theorem texts_ofList {xs : List (Name kind)} (hxs : (xs.map (·.text)).Nodup) :
    (OrderedSet.ofList xs).texts = xs.map (·.text) := by
  rw [ofList, texts_insertAll hxs (by simp [texts])]
  simp [texts]

theorem mem_texts_singleton {x : Name kind} {t : String} :
    t ∈ (singleton x).texts ↔ t = x.text := by
  simp [texts]

theorem texts_erase (s : OrderedSet (Name kind)) (x : Name kind) :
    (s.erase x).texts = s.texts.erase x.text := by
  unfold texts
  rw [toList_erase]
  induction s.toList with
  | nil => rfl
  | cons y rest ih =>
      by_cases h : y == x
      · simp [h, Name.beq_iff.1 h]
      · have hne : y.text ≠ x.text := fun e => h (Name.beq_iff.2 e)
        simp [h, hne, ih]

theorem mem_texts_erase {s : OrderedSet (Name kind)} {x : Name kind} {t : String} :
    t ∈ (s.erase x).texts ↔ t ∈ s.texts ∧ t ≠ x.text := by
  rw [texts_erase, s.nodup_texts.mem_erase_iff, and_comm]

end OrderedSet

namespace OrderedMap

/-- The pairs of spellings of a map between names. -/
def links (m : OrderedMap (Name kind) (Name kind)) : List (String × String) :=
  m.entries.map fun e => (e.1.text, e.2.text)

/-- The spellings of the keys. -/
def keyTexts (m : OrderedMap (Name kind) (Name kind)) : List String := m.links.map (·.1)

variable {m : OrderedMap (Name kind) (Name kind)} {x r : Name kind} {t u : String}

theorem nodup_keyTexts (m : OrderedMap (Name kind) (Name kind)) : m.keyTexts.Nodup := by
  unfold keyTexts links
  rw [List.map_map]
  refine List.pairwise_map.2 (m.distinct.imp fun h => ?_)
  exact Name.beq_eq_false_iff.1 h

theorem mem_keyTexts_of_link (h : (t, u) ∈ m.links) : t ∈ m.keyTexts :=
  List.mem_map.2 ⟨_, h, rfl⟩

theorem mem_keyTexts : t ∈ m.keyTexts ↔ ∃ u, (t, u) ∈ m.links := by
  simp [keyTexts]

theorem keyTexts_eq (m : OrderedMap (Name kind) (Name kind)) :
    m.keys.map (·.text) = m.keyTexts := by
  simp [keys, keyTexts, links]

theorem contains_iff : m.contains x = true ↔ x.text ∈ m.keyTexts := by
  simp [contains, keyTexts, links, Name.beq_iff]

/-- A pair of spellings is found under its first one. -/
theorem get?_of_link (h : (x.text, u) ∈ m.links) : ∃ r, m.get? x = some r ∧ r.text = u := by
  obtain ⟨e, he, heq⟩ := List.mem_map.1 h
  obtain ⟨hx, hu⟩ := Prod.mk.inj heq
  exact ⟨e.2, (m.get?_congr (Name.beq_iff.2 hx)).symm.trans (get?_of_mem he), hu⟩

theorem link_of_get? (h : m.get? x = some r) : (x.text, r.text) ∈ m.links := by
  obtain ⟨e, he, hex, rfl⟩ := entry_of_get? h
  exact List.mem_map.2 ⟨e, he, by rw [Name.beq_iff.1 hex]⟩

theorem links_insert (hx : x.text ∉ m.keyTexts) :
    (m.insert x r).links = m.links ++ [(x.text, r.text)] := by
  have hne : ∀ e ∈ m.entries, (e.1 == x) = false := by
    intro e he
    refine Name.beq_eq_false_iff.2 fun heq => hx (mem_keyTexts_of_link (u := e.2.text) ?_)
    exact List.mem_map.2 ⟨e, he, by rw [heq]⟩
  rw [links, entries_insert, putEntry_of_apart hne, List.map_append]
  rfl

theorem links_erase (m : OrderedMap (Name kind) (Name kind)) (x : Name kind) :
    (m.erase x).links = m.links.filter fun e => e.1 ≠ x.text := by
  rw [links, entries_erase, eraseP_of_apart m.distinct, links, List.filter_map]
  refine congrArg _ (List.filter_congr fun e _ => ?_)
  by_cases hex : e.1.text = x.text
  · simp [Name.beq_iff.2 hex, hex]
  · simp [Name.beq_eq_false_iff.2 hex, hex]

/-- Erasing keys leaves the other pairs in their order. -/
theorem links_eraseAll (m : OrderedMap (Name kind) (Name kind)) (xs : List (Name kind)) :
    (xs.foldl erase m).links = m.links.filter fun e => e.1 ∉ xs.map (·.text) := by
  induction xs generalizing m with
  | nil => simp
  | cons x rest ih =>
      rw [List.foldl_cons, ih, links_erase, List.filter_filter]
      refine List.filter_congr fun e _ => ?_
      by_cases h : e.1 = x.text <;> simp [h]

end OrderedMap

end Reclaim
