import Reclaim.Proofs.Containers.Histories

/-!
# Sets denote mathematical sets

A term says how a set was made from others (`SetTerm`).  It denotes a mathematical set, which is read off
the term (`SetTerm.Has`), and it has a history, in which a union inserts the elements of the second set
one after the other (`SetTerm.events`).  A set is listed as a map whose values carry nothing, so that it
records its history like a map (`SetTerm.records_events`).

As for maps, equality asks for equal sizes and one inclusion only (`OrderedSet.beq_iff`).
-/

namespace Reclaim

variable {α : Type} [BEq α]

namespace OrderedSet

/-! ## Sets as maps without values -/

/-- The elements as the keys of a map. -/
def entries (s : OrderedSet α) : List (α × Unit) := s.toList.map (·, ())

variable {s t : OrderedSet α} {a b : α}

theorem entries_apart (s : OrderedSet α) : s.entries.Pairwise Apart :=
  List.pairwise_map.2 s.distinct

theorem entries_erase (s : OrderedSet α) (a : α) :
    (s.erase a).entries = s.entries.eraseP fun e => e.1 == a := by
  rw [entries, toList_erase, entries, List.eraseP_map]
  rfl

theorem entries_insert (s : OrderedSet α) (a : α) :
    (s.insert a).entries = putEntry a () s.entries := by
  by_cases ha : ∃ b ∈ s.toList, (b == a) = true
  · have hold : s.contains a = true := List.any_eq_true.2 ha
    rw [entries, toList_insert, if_pos hold, entries]
    generalize s.toList = as at ha
    induction as with
    | nil => simp at ha
    | cons b rest ih =>
        by_cases hba : (b == a) = true
        · simp [putEntry, hba]
        · have hrest : ∃ c ∈ rest, (c == a) = true := by simpa [hba] using ha
          simp [putEntry, hba, ← ih hrest]
  · have hnone : ∀ e ∈ s.entries, (e.1 == a) = false := by simpa [entries] using ha
    have hnew : ¬ s.contains a = true := by simpa [contains] using ha
    rw [OrderedMap.putEntry_of_apart hnone, entries, toList_insert, if_neg hnew]
    simp [entries]

theorem matched_of_isSubset (hsub : s.isSubset t = true) :
    ∀ a ∈ s.toList, ∃ b ∈ t.toList, (b == a) = true :=
  fun a ha => List.any_eq_true.1 (List.all_eq_true.1 hsub a ha)

theorem take_eq_none_iff : (s.take a).1 = none ↔ s.contains a = false := by
  simp [take, contains]

/-! ## Elements -/

section

variable [EquivBEq α] {as : List α}

theorem contains_congr (s : OrderedSet α) (hab : (a == b) = true) : s.contains a = s.contains b := by
  have : (fun c : α => c == a) = fun c => c == b := funext fun c => BEq.congr_right hab
  rw [contains, contains, this]

theorem contains_of_mem (ha : a ∈ s.toList) : s.contains a = true :=
  List.any_eq_true.2 ⟨a, ha, BEq.rfl⟩

theorem contains_insert (s : OrderedSet α) (a b : α) :
    (s.insert a).contains b = (s.contains b || a == b) := by
  cases ha : s.contains a with
  | false =>
      rw [contains, toList_insert, if_neg (ha ▸ Bool.false_ne_true), contains]
      simp
  | true =>
      rw [contains, toList_insert, if_pos ha, ← contains, Bool.eq_iff_iff, Bool.or_eq_true]
      exact ⟨.inl, fun h => h.elim id fun hab => by rwa [← s.contains_congr hab]⟩

/-- What is inserted comes after the old elements, as far as it is new. -/
theorem toList_insertAll (has : as.Pairwise fun a b => (a == b) = false) :
    (s.insertAll as).toList = s.toList ++ as.filter fun a => !s.contains a := by
  induction as generalizing s with
  | nil => simp [insertAll]
  | cons a rest ih =>
      obtain ⟨ha, hrest⟩ := List.pairwise_cons.1 has
      have hcons : s.insertAll (a :: rest) = (s.insert a).insertAll rest := rfl
      have hnew : rest.filter (fun b => !(s.insert a).contains b)
          = rest.filter fun b => !s.contains b := by
        refine List.filter_congr fun b hb => ?_
        rw [contains_insert, ha b hb, Bool.or_false]
      rw [hcons, ih hrest, hnew, toList_insert]
      cases hsa : s.contains a <;> simp [hsa]

/-- Being a subset is inclusion. -/
theorem isSubset_iff :
    s.isSubset t = true ↔ ∀ a, s.contains a = true → t.contains a = true := by
  rw [isSubset, List.all_eq_true]
  constructor
  · intro hsub a ha
    obtain ⟨b, hb, hba⟩ := List.any_eq_true.1 ha
    rw [← t.contains_congr hba]
    exact hsub b hb
  · exact fun hsub a ha => hsub a (contains_of_mem ha)

/-- Sets are equal when they have the same elements. -/
theorem beq_iff : (s == t) = true ↔ ∀ a, s.contains a = true ↔ t.contains a = true := by
  change (s.size == t.size && s.isSubset t) = true ↔ _
  rw [Bool.and_eq_true, beq_iff_eq]
  constructor
  · intro ⟨hsize, hsub⟩ a
    refine ⟨isSubset_iff.1 hsub a, fun ha => ?_⟩
    obtain ⟨b, hb, hba⟩ := List.any_eq_true.1 ha
    obtain ⟨c, hc, hcb⟩ := matched_of_length_le s.distinct (matched_of_isSubset hsub)
      (Nat.le_of_eq hsize.symm) hb
    exact List.any_eq_true.2 ⟨c, hc, BEq.trans hcb hba⟩
  · intro hsame
    have hst : s.isSubset t = true := isSubset_iff.2 fun a => (hsame a).1
    have hts : t.isSubset s = true := isSubset_iff.2 fun a => (hsame a).2
    refine ⟨Nat.le_antisymm ?_ ?_, hst⟩
    · exact length_le_of_matched s.distinct (matched_of_isSubset hst)
    · exact length_le_of_matched t.distinct (matched_of_isSubset hts)

/-- What a removal returns is the element that equals the given one. -/
theorem take_eq_some_iff : (s.take a).1 = some b ↔ b ∈ s.toList ∧ (b == a) = true := by
  constructor
  · intro h
    exact ⟨List.mem_of_find?_eq_some h, List.find?_some (p := (· == a)) h⟩
  · intro ⟨hb, hba⟩
    obtain ⟨before, after, hs⟩ := List.append_of_mem hb
    have hdistinct := s.distinct
    rw [hs, List.pairwise_append] at hdistinct
    have hbefore : before.find? (· == a) = none := by
      refine List.find?_eq_none.2 fun c hc => ?_
      rw [← BEq.congr_right hba, hdistinct.2.2 c hc b (.head _)]
      exact Bool.false_ne_true
    simp [take, hs, List.find?_append, hbefore, hba]

variable {h : List (Event α Unit)}

/-- A set has the elements that its history leaves. -/
theorem contains_eq_isSome (hs : Records h s.entries) (a : α) :
    s.contains a = (lastGiven h a).isSome := by
  rw [← hs.find?, Option.isSome_map, Bool.eq_iff_iff, List.find?_isSome, contains,
    List.any_eq_true]
  simp [entries]

/-- Inserting a list records the insertions. -/
theorem records_insertAll (hs : Records h s.entries) (as : List α) :
    Records (h ++ as.map (.insert · ())) (s.insertAll as).entries := by
  induction as generalizing h s with
  | nil => simpa [insertAll] using hs
  | cons a rest ih =>
      have hput : Records (h ++ [.insert a ()]) (s.insert a).entries := by
        rw [entries_insert]
        exact hs.insert s.entries_apart
      have hrest := ih hput
      rwa [List.append_assoc] at hrest

end

end OrderedSet

/-! ## Sets made by terms -/

/-- How a set is made. -/
inductive SetTerm (α : Type) where
  /-- A new set. -/
  | empty
  /-- The set of one element. -/
  | singleton (a : α)
  /-- The elements of a list. -/
  | ofList (as : List α)
  /-- A set after an insertion. -/
  | insert (s : SetTerm α) (a : α)
  /-- A set after a removal. -/
  | remove (s : SetTerm α) (a : α)
  /-- A set after another one was added to it. -/
  | union (s t : SetTerm α)

namespace SetTerm

/-- The set that is made. -/
def eval : SetTerm α → OrderedSet α
  | empty => .empty
  | singleton a => .singleton a
  | ofList as => .ofList as
  | insert s a => (s.eval.put a).2
  | remove s a => (s.eval.take a).2
  | union s t => s.eval.union t.eval

/-- The mathematical set that is denoted. -/
def Has : SetTerm α → α → Prop
  | empty, _ => False
  | singleton a, b => (a == b) = true
  | ofList as, b => ∃ a ∈ as, (a == b) = true
  | insert s a, b => s.Has b ∨ (a == b) = true
  | remove s a, b => s.Has b ∧ (a == b) = false
  | union s t, b => s.Has b ∨ t.Has b

/-- What happened to the set.  A union inserts the elements of the other set in their order. -/
def events : SetTerm α → List (Event α Unit)
  | empty => []
  | singleton a => [.insert a ()]
  | ofList as => as.map (.insert · ())
  | insert s a => s.events ++ [.insert a ()]
  | remove s a => s.events ++ [.remove a]
  | union s t => s.events ++ t.eval.toList.map (.insert · ())

theorem isSome_lastGiven_inserts (h : List (Event α Unit)) (as : List α) (b : α) :
    (lastGiven (h ++ as.map (.insert · ())) b).isSome = true ↔
      (lastGiven h b).isSome = true ∨ ∃ a ∈ as, (a == b) = true := by
  induction as generalizing h with
  | nil => simp
  | cons a rest ih =>
      rw [List.map_cons, List.append_cons, ih, lastGiven_insert]
      by_cases hab : (a == b) = true <;> simp [hab]

variable [EquivBEq α]

/-- Sets record their history. -/
theorem records_events (s : SetTerm α) : Records s.events s.eval.entries := by
  induction s with
  | empty => exact .nil
  | singleton a => exact Records.nil.append (by simp)
  | ofList as => exact OrderedSet.records_insertAll (s := .empty) .nil as
  | insert s a ih =>
      have := ih.insert (k := a) (v := ()) s.eval.entries_apart
      rwa [← OrderedSet.entries_insert] at this
  | remove s a ih =>
      have := ih.remove (k := a) s.eval.entries_apart
      rwa [← OrderedSet.entries_erase] at this
  | union s t ih _ => exact OrderedSet.records_insertAll ih t.eval.toList

/-- The elements that the history leaves are those of the denoted set. -/
theorem isSome_lastGiven_events (s : SetTerm α) (b : α) :
    (lastGiven s.events b).isSome = true ↔ s.Has b := by
  induction s with
  | empty => simp [events, Has]
  | singleton a => simpa [events, Has] using isSome_lastGiven_inserts [] [a] b
  | ofList as => simpa [events, Has] using isSome_lastGiven_inserts [] as b
  | insert s a ih =>
      rw [events, lastGiven_insert, Has, ← ih]
      by_cases hab : (a == b) = true <;> simp [hab]
  | remove s a ih =>
      rw [events, lastGiven_remove, Has, ← ih]
      by_cases hab : (a == b) = true <;> simp [hab]
  | union s t ihs iht =>
      rw [events, isSome_lastGiven_inserts, Has, ihs, ← iht,
        ← OrderedSet.contains_eq_isSome t.records_events, OrderedSet.contains, List.any_eq_true]

theorem contains_eval (s : SetTerm α) (a : α) : s.eval.contains a = true ↔ s.Has a := by
  rw [OrderedSet.contains_eq_isSome s.records_events, isSome_lastGiven_events]

end SetTerm

/-- A set answers as its term says. -/
structure OrderedSet.Denotes (s : OrderedSet α) (term : SetTerm α) : Prop where
  /-- No element occurs twice. -/
  distinct : s.toList.Pairwise fun a b => (a == b) = false
  /-- The set contains the elements of the denoted set. -/
  contains : ∀ a, s.contains a = true ↔ term.Has a
  /-- An insertion tells whether the element is new. -/
  put : ∀ a, (s.put a).1 = true ↔ ¬ term.Has a
  /-- A removal returns the listed element that equals the given one. -/
  take : ∀ a b, (s.take a).1 = some b ↔ b ∈ s.toList ∧ (b == a) = true
  /-- It returns nothing if the element is not there. -/
  takes : ∀ a, (s.take a).1 = none ↔ ¬ term.Has a
  /-- Elements are listed in the order in which they came in. -/
  order : s.toList.Pairwise (CameBefore term.events)

theorem SetTerm.denotes_eval [EquivBEq α] (s : SetTerm α) : s.eval.Denotes s where
  distinct := s.eval.distinct
  contains := s.contains_eval
  put a := by
    rw [← s.contains_eval]
    simp [OrderedSet.put]
  take a b := OrderedSet.take_eq_some_iff
  takes a := by rw [← s.contains_eval, OrderedSet.take_eq_none_iff, Bool.not_eq_true]
  order := by
    have horder := s.records_events.order
    rwa [OrderedSet.entries, List.pairwise_map] at horder

/-! ## Sets as their terms say -/

/-- However a set is made, it has the elements of the mathematical set that its term denotes, listed in
the order in which they came in; a union keeps the order of the first set and appends the new elements of
the second in theirs; and subsets and equality are those of mathematical sets. -/
theorem SetTerm.eval_denotes [EquivBEq α] (s t : SetTerm α) :
    s.eval.Denotes s ∧
      (union s t).eval.toList
        = s.eval.toList ++ t.eval.toList.filter (fun a => !s.eval.contains a) ∧
      (s.eval.isSubset t.eval = true ↔ ∀ a, s.Has a → t.Has a) ∧
      ((s.eval == t.eval) = true ↔ ∀ a, s.Has a ↔ t.Has a) := by
  refine ⟨s.denotes_eval, OrderedSet.toList_insertAll t.eval.distinct, ?_, ?_⟩
  · rw [OrderedSet.isSubset_iff]
    exact forall_congr' fun a => by rw [s.contains_eval, t.contains_eval]
  · rw [OrderedSet.beq_iff]
    exact forall_congr' fun a => by rw [s.contains_eval, t.contains_eval]

/-- A union after a removal lists the element again, at the end, and equals a set that was filled in
another order. -/
theorem SetTerm.eval_denotes_reinserted :
    let s : SetTerm String := .union (.remove (.ofList ["a", "b"]) "a") (.insert (.singleton "b") "a")
    let t : SetTerm String := .insert (.insert .empty "a") "b"
    EquivBEq String ∧ s.eval.Denotes s ∧ s.eval.toList = ["b", "a"] ∧ (∀ a, s.Has a ↔ t.Has a) ∧
      (s.eval == t.eval) = true := by
  intro s t
  obtain ⟨hdenotes, -, -, hbeq⟩ := eval_denotes s t
  have hsame : (s.eval == t.eval) = true := by decide
  exact ⟨inferInstance, hdenotes, by decide, hbeq.1 hsame, hsame⟩

end Reclaim
