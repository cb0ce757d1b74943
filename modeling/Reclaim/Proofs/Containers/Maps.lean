import Mathlib.Data.Option.Defs
import Reclaim.Proofs.Containers.Histories

/-!
# Maps denote partial functions

An `OrderedMap` is used through insertions, removals and collections of lists.  Whatever the order of
these steps, the map records their history (`records_history`), and all that can be observed follows
from this: what is found, what the operations return and in which order entries are listed.

Two maps are compared by their sizes and by looking up the entries of the first in the second.  This
says nothing about the entries of the second, but it cannot have more than the first, so there are no
others (`found_of_size_le`), and maps are equal when they are the same partial function (`beq_iff`).

Entries may as well be kept in two columns, one for the keys and one for the values, that are changed at
the same position (`Columns`).  The operations of the columns give the same results, so the columns
never get out of step.
-/

namespace Reclaim

variable {κ ν : Type} [BEq κ]

/-! ## Equality -/

namespace OrderedMap

variable [EquivBEq κ] {m n : OrderedMap κ ν} {k : κ} {w : ν}

/-- A map is a part of another if the other one finds an equal value wherever it finds one. -/
theorem isSubmap_iff [BEq ν] : m.isSubmap n = true ↔
    ∀ k v, m.get? k = some v → ∃ w, n.get? k = some w ∧ (w == v) = true := by
  rw [isSubmap, List.all_eq_true]
  constructor
  · intro hsub k v hv
    obtain ⟨e, he, hek, rfl⟩ := entry_of_get? hv
    have hsame := hsub e he
    rw [← n.get?_congr hek]
    cases hw : n.get? e.1 with
    | none => simp [hw] at hsame
    | some w => exact ⟨w, rfl, by simpa [hw] using hsame⟩
  · intro hfound e he
    obtain ⟨w, hw, hwe⟩ := hfound e.1 e.2 (get?_of_mem he)
    rw [hw]
    exact hwe

theorem matched_keys (hfound : ∀ k v, m.get? k = some v → ∃ w, n.get? k = some w) :
    ∀ a ∈ m.keys, ∃ b ∈ n.keys, (b == a) = true := by
  intro a ha
  obtain ⟨v, hv⟩ := exists_mem_keys_iff.1 ⟨a, ha, BEq.rfl⟩
  exact exists_mem_keys_iff.2 (hfound a v hv)

/-- A map that finds all keys of another is at least as large. -/
theorem size_le_of_found (hfound : ∀ k v, m.get? k = some v → ∃ w, n.get? k = some w) :
    m.size ≤ n.size := by
  simpa [keys, size] using length_le_of_matched m.keys_distinct (matched_keys hfound)

/-- If it is not larger, it finds no other keys. -/
theorem found_of_size_le (hfound : ∀ k v, m.get? k = some v → ∃ w, n.get? k = some w)
    (hsize : n.size ≤ m.size) (hw : n.get? k = some w) : ∃ v, m.get? k = some v := by
  obtain ⟨b, hb, hbk⟩ := exists_mem_keys_iff.2 ⟨w, hw⟩
  have hlen : n.keys.length ≤ m.keys.length := by simpa [keys, size] using hsize
  obtain ⟨a, ha, hab⟩ := matched_of_length_le m.keys_distinct (matched_keys hfound) hlen hb
  exact exists_mem_keys_iff.1 ⟨a, ha, BEq.trans hab hbk⟩

/-- Maps are equal when they find equal values everywhere. -/
theorem beq_iff [BEq ν] :
    (m == n) = true ↔ ∀ k, Option.Rel (fun v w => (w == v) = true) (m.get? k) (n.get? k) := by
  change (m.size == n.size && m.isSubmap n) = true ↔ _
  rw [Bool.and_eq_true, beq_iff_eq, isSubmap_iff]
  constructor
  · intro ⟨hsize, hsub⟩ k
    have hfound : ∀ k v, m.get? k = some v → ∃ w, n.get? k = some w := fun k v hv =>
      (hsub k v hv).imp fun _ hw => hw.1
    cases hm : m.get? k with
    | some v =>
        obtain ⟨w, hw, hwv⟩ := hsub k v hm
        rw [hw]
        exact .some hwv
    | none =>
        cases hn : n.get? k with
        | none => exact .none
        | some w =>
            obtain ⟨v, hv⟩ := found_of_size_le hfound (Nat.le_of_eq hsize.symm) hn
            simp [hm] at hv
  · intro hrel
    have hsub : ∀ k v, m.get? k = some v → ∃ w, n.get? k = some w ∧ (w == v) = true := by
      intro k v hv
      have hk := hrel k
      rw [hv] at hk
      cases hn : n.get? k with
      | none => simp [hn] at hk
      | some w => exact ⟨w, rfl, by simpa [hn] using hk⟩
    have hback : ∀ k w, n.get? k = some w → ∃ v, m.get? k = some v := by
      intro k w hw
      have hk := hrel k
      rw [hw] at hk
      cases hm : m.get? k with
      | none => simp [hm] at hk
      | some v => exact ⟨v, rfl⟩
    have hfound : ∀ k v, m.get? k = some v → ∃ w, n.get? k = some w := fun k v hv =>
      (hsub k v hv).imp fun _ hw => hw.1
    exact ⟨Nat.le_antisymm (size_le_of_found hfound) (size_le_of_found hback), hsub⟩

/-- When values are compared by an equivalence, so are maps. -/
theorem beq_equivalence [BEq ν] [EquivBEq ν] :
    Equivalence fun m n : OrderedMap κ ν => (m == n) = true where
  refl m := by
    refine beq_iff.2 fun k => ?_
    cases m.get? k with
    | none => exact .none
    | some v => exact .some BEq.rfl
  symm {m n} h := by
    refine beq_iff.2 fun k => ?_
    have := beq_iff.1 h k
    generalize m.get? k = v, n.get? k = w at this
    cases this with
    | none => exact .none
    | some hvw => exact .some (BEq.symm hvw)
  trans {m n o} h h' := by
    refine beq_iff.2 fun k => ?_
    have hmn := beq_iff.1 h k
    have hno := beq_iff.1 h' k
    generalize m.get? k = u, n.get? k = v, o.get? k = w at hmn hno
    cases hmn with
    | none => exact hno
    | some huv =>
        cases hno with
        | some hvw => exact .some (BEq.trans hvw huv)

end OrderedMap

/-! ## Maps made by steps -/

/-- One step in the use of a map. -/
inductive MapStep (κ ν : Type) where
  /-- Binds a key. -/
  | insert (k : κ) (v : ν)
  /-- Forgets a key. -/
  | remove (k : κ)
  /-- Starts over with the entries of a list. -/
  | collect (es : List (κ × ν))

namespace MapStep

/-- The history after a step.  A collection starts a new one. -/
def extend (h : List (Event κ ν)) : MapStep κ ν → List (Event κ ν)
  | insert k v => h ++ [.insert k v]
  | remove k => h ++ [.remove k]
  | collect es => es.map fun e => .insert e.1 e.2

/-- The map after a step. -/
def perform (m : OrderedMap κ ν) : MapStep κ ν → OrderedMap κ ν
  | insert k v => (m.put k v).2
  | remove k => (m.take k).2
  | collect es => .ofList es

/-- The history of a map that was empty at first. -/
def history (steps : List (MapStep κ ν)) : List (Event κ ν) := steps.foldl extend []

end MapStep

namespace OrderedMap

/-- The map that is left by steps from the empty map. -/
def ofSteps (steps : List (MapStep κ ν)) : OrderedMap κ ν := steps.foldl MapStep.perform empty

variable [EquivBEq κ] {m : OrderedMap κ ν} {h : List (Event κ ν)}

/-- Inserting a list records the insertions. -/
theorem records_insertAll (hm : Records h m.entries) (es : List (κ × ν)) :
    Records (h ++ es.map fun e => .insert e.1 e.2)
      (es.foldl (fun m e => m.insert e.1 e.2) m).entries := by
  induction es generalizing h m with
  | nil => simpa using hm
  | cons e rest ih =>
      have := ih (m := m.insert e.1 e.2) (hm.insert m.distinct)
      simpa using this

/-- A step keeps what a map records. -/
theorem records_perform (hm : Records h m.entries) (step : MapStep κ ν) :
    Records (step.extend h) (step.perform m).entries := by
  cases step with
  | insert k v => exact hm.insert m.distinct
  | remove k => exact hm.remove m.distinct
  | collect es => exact records_insertAll (m := empty) .nil es

/-- Maps record their history. -/
theorem records_history (steps : List (MapStep κ ν)) :
    Records (MapStep.history steps) (ofSteps steps).entries := by
  suffices ∀ (h : List (Event κ ν)) (m : OrderedMap κ ν), Records h m.entries →
      Records (steps.foldl MapStep.extend h) (steps.foldl MapStep.perform m).entries from
    this [] empty .nil
  induction steps with
  | nil => exact fun _ _ hm => hm
  | cons step rest ih => exact fun h m hm => ih _ _ (records_perform hm step)

/-- A map answers as its history says. -/
structure Denotes (m : OrderedMap κ ν) (h : List (Event κ ν)) : Prop where
  /-- No two keys are equal. -/
  distinct : m.keys.Pairwise fun a b => (a == b) = false
  /-- There are as many values as keys. -/
  paired : m.keys.length = m.values.length
  /-- The value of a key stands at the position of the key. -/
  aligned : ∀ (i : Nat) k, m.keys[i]? = some k → m.values[i]? = lastGiven h k ∧ (lastGiven h k).isSome
  /-- A key is found with the value that it was given last. -/
  get : ∀ k, m.get? k = lastGiven h k
  /-- A key is there when it has a value. -/
  contains : ∀ k, m.contains k = (lastGiven h k).isSome
  /-- An insertion returns the value that it replaces. -/
  put : ∀ k v, (m.put k v).1 = lastGiven h k
  /-- A removal returns the value that is lost. -/
  take : ∀ k, (m.take k).1 = lastGiven h k
  /-- Entries are listed with their values. -/
  listed : ∀ e ∈ m.entries, lastGiven h e.1 = some e.2
  /-- Every key that has a value is listed once, and no other. -/
  once : ∀ k, m.entries.countP (fun e => e.1 == k) = if (lastGiven h k).isSome then 1 else 0
  /-- Keys are listed in the order in which they came in. -/
  order : m.entries.Pairwise fun d e => CameBefore h d.1 e.1

/-- What follows for a map from what its entries record. -/
theorem denotes_of_records (hm : Records h m.entries) : m.Denotes h := by
  have hget : ∀ k, m.get? k = lastGiven h k := hm.find?
  constructor
  case distinct => exact m.keys_distinct
  case paired => simp [keys, values]
  case aligned =>
    intro i k hk
    obtain ⟨e, he, rfl⟩ : ∃ e, m.entries[i]? = some e ∧ e.1 = k := by simpa [keys] using hk
    have hvalue := hm.value e (List.mem_of_getElem? he)
    simp [values, he, hvalue]
  case get => exact hget
  case contains => exact fun k => by rw [contains_eq_isSome, hget]
  case put => exact fun k _ => hget k
  case take => exact hget
  case listed => exact hm.value
  case once =>
    intro k
    rw [← hget]
    rcases cut_at k m.entries with hnone | ⟨before, e, after, hes, hek, hbefore⟩
    · rw [get?_of_none hnone, List.countP_eq_zero.2 fun e he => by simp [hnone e he]]
      rfl
    · have hafter : ∀ d ∈ after, (d.1 == k) = false := by
        intro d hd
        have hapart := m.distinct
        rw [hes, List.pairwise_append, List.pairwise_cons] at hapart
        rw [← BEq.congr_right hek, BEq.comm]
        exact hapart.2.1.1 d hd
      have hb : before.countP (fun e => e.1 == k) = 0 :=
        List.countP_eq_zero.2 fun d hd => by simp [hbefore d hd]
      have ha : after.countP (fun e => e.1 == k) = 0 :=
        List.countP_eq_zero.2 fun d hd => by simp [hafter d hd]
      rw [get?_of_cut hes hek hbefore, hes, List.countP_append, List.countP_cons, ha, hb, hek]
      rfl
  case order => exact hm.order

end OrderedMap

/-! ## Columns -/

/-- The entries of a map in two columns. -/
structure Columns (κ ν : Type) where
  /-- The keys, oldest first. -/
  keys : List κ
  /-- The value of each key, at its position. -/
  values : List ν

namespace Columns

/-- The columns without rows. -/
def empty : Columns κ ν := ⟨[], []⟩

/-- The position of the key that equals `k`. -/
def position? (c : Columns κ ν) (k : κ) : Option Nat := c.keys.findIdx? (· == k)

/-- The value at the position of `k`. -/
def get? (c : Columns κ ν) (k : κ) : Option ν := (c.position? k).bind fun i => c.values[i]?

/-- Exchanges the value at the position of `k`, or adds a row. -/
def put (c : Columns κ ν) (k : κ) (v : ν) : Option ν × Columns κ ν :=
  match c.position? k with
  | some i => (c.values[i]?, ⟨c.keys, c.values.set i v⟩)
  | none => (none, ⟨c.keys ++ [k], c.values ++ [v]⟩)

/-- Takes the position of `k` out of both columns. -/
def take (c : Columns κ ν) (k : κ) : Option ν × Columns κ ν :=
  match c.position? k with
  | some i => (c.values[i]?, ⟨c.keys.eraseIdx i, c.values.eraseIdx i⟩)
  | none => (none, c)

/-- The columns of a list of entries. -/
def ofList (es : List (κ × ν)) : Columns κ ν := es.foldl (fun c e => (c.put e.1 e.2).2) empty

/-- The first row and the columns below it. -/
def next? : Columns κ ν → Option ((κ × ν) × Columns κ ν)
  | ⟨k :: keys, v :: values⟩ => some ((k, v), ⟨keys, values⟩)
  | _ => none

/-- Taking one row after the other gives these entries. -/
inductive Drains : Columns κ ν → List (κ × ν) → Prop
  | done {c : Columns κ ν} (h : c.next? = none) : Drains c []
  | row {c d : Columns κ ν} {e : κ × ν} {es : List (κ × ν)} (h : c.next? = some (e, d))
      (rest : Drains d es) : Drains c (e :: es)

/-- The columns after a step. -/
def perform (c : Columns κ ν) : MapStep κ ν → Columns κ ν
  | .insert k v => (c.put k v).2
  | .remove k => (c.take k).2
  | .collect es => ofList es

/-- The columns that are left by steps from the empty ones. -/
def ofSteps (steps : List (MapStep κ ν)) : Columns κ ν := steps.foldl perform empty

/-- The columns keep the map `m`: they answer like it and give out its entries. -/
structure Keeps (c : Columns κ ν) (m : OrderedMap κ ν) : Prop where
  /-- The first column holds the keys. -/
  keys : c.keys = m.keys
  /-- The second one holds the values. -/
  values : c.values = m.values
  /-- Lookups find the same. -/
  get : ∀ k, c.get? k = m.get? k
  /-- Insertions return the same. -/
  put : ∀ k v, (c.put k v).1 = (m.put k v).1
  /-- Removals return the same. -/
  take : ∀ k, (c.take k).1 = (m.take k).1
  /-- Walking both columns at once gives the entries, -/
  zip : c.keys.zip c.values = m.entries
  /-- and so does taking the rows one after the other. -/
  drains : ∀ es, c.Drains es ↔ es = m.entries

end Columns

namespace OrderedMap

/-- A map as columns. -/
def columns (m : OrderedMap κ ν) : Columns κ ν := ⟨m.keys, m.values⟩

section

variable {m : OrderedMap κ ν} {k : κ} {v : ν} {before after : List (κ × ν)} {e : κ × ν}

theorem position?_columns_of_none (hnone : ∀ e ∈ m.entries, (e.1 == k) = false) :
    m.columns.position? k = none := by
  simpa [columns, keys, Columns.position?] using hnone

/-- The position of a key is the number of entries before it. -/
theorem position?_columns_of_cut (hes : m.entries = before ++ e :: after) (hek : (e.1 == k) = true)
    (hbefore : ∀ d ∈ before, (d.1 == k) = false) :
    m.columns.position? k = some before.length := by
  have : (before.map (·.1)).findIdx? (· == k) = none := by simpa using hbefore
  simp [columns, keys, Columns.position?, hes, this, hek, List.findIdx?_append, List.findIdx?_cons]

theorem putEntry_of_cut (hek : (e.1 == k) = true) (hbefore : ∀ d ∈ before, (d.1 == k) = false) :
    putEntry k v (before ++ e :: after) = before ++ (e.1, v) :: after := by
  induction before with
  | nil => simp [putEntry, hek]
  | cons d rest ih =>
      have hdk := hbefore d (.head _)
      simp [putEntry, hdk, ih fun c hc => hbefore c (.tail _ hc)]

end

variable (m : OrderedMap κ ν) (k : κ) (v : ν)

theorem get?_columns : m.columns.get? k = m.get? k := by
  rcases cut_at k m.entries with hnone | ⟨before, e, after, hes, hek, hbefore⟩
  · rw [Columns.get?, position?_columns_of_none hnone, get?_of_none hnone]
    rfl
  · rw [Columns.get?, position?_columns_of_cut hes hek hbefore, get?_of_cut hes hek hbefore]
    simp [columns, values, hes]

theorem put_columns : m.columns.put k v = ((m.put k v).1, (m.put k v).2.columns) := by
  rcases cut_at k m.entries with hnone | ⟨before, e, after, hes, hek, hbefore⟩
  · rw [Columns.put, position?_columns_of_none hnone, put, get?_of_none hnone]
    simp [columns, keys, values, putEntry_of_apart hnone]
  · rw [Columns.put, position?_columns_of_cut hes hek hbefore, put, get?_of_cut hes hek hbefore]
    simp [columns, keys, values, hes, putEntry_of_cut hek hbefore]

theorem take_columns : m.columns.take k = ((m.take k).1, (m.take k).2.columns) := by
  rcases cut_at k m.entries with hnone | ⟨before, e, after, hes, hek, hbefore⟩
  · have herase : m.entries.eraseP (fun e => e.1 == k) = m.entries :=
      List.eraseP_of_forall_not fun e he => by simp [hnone e he]
    rw [Columns.take, position?_columns_of_none hnone, take, get?_of_none hnone]
    simp [columns, keys, values, herase]
  · have herase : m.entries.eraseP (fun e => e.1 == k) = before ++ after := by
      rw [hes, List.eraseP_append_right _ fun d hd => by simp [hbefore d hd]]
      simp [hek]
    rw [Columns.take, position?_columns_of_cut hes hek hbefore, take, get?_of_cut hes hek hbefore]
    simp only [columns, keys, values, entries_erase, herase]
    simp [hes, List.eraseIdx_append_of_length_le]

theorem columns_ofList (es : List (κ × ν)) : Columns.ofList es = (ofList es).columns := by
  suffices ∀ m : OrderedMap κ ν, es.foldl (fun c e => (c.put e.1 e.2).2) m.columns
      = (es.foldl (fun m e => m.insert e.1 e.2) m).columns from this empty
  induction es with
  | nil => exact fun _ => rfl
  | cons e rest ih =>
      intro m
      rw [List.foldl_cons, List.foldl_cons, put_columns]
      exact ih _

/-- A step does the same to the columns of a map as to the map. -/
theorem columns_perform (step : MapStep κ ν) :
    m.columns.perform step = (step.perform m).columns := by
  cases step with
  | insert k v => rw [Columns.perform, put_columns, MapStep.perform]
  | remove k => rw [Columns.perform, take_columns, MapStep.perform]
  | collect es => exact columns_ofList es

theorem columns_ofSteps (steps : List (MapStep κ ν)) :
    Columns.ofSteps steps = (ofSteps steps).columns := by
  suffices ∀ m : OrderedMap κ ν, steps.foldl Columns.perform m.columns
      = (steps.foldl MapStep.perform m).columns from this empty
  induction steps with
  | nil => exact fun _ => rfl
  | cons step rest ih =>
      intro m
      rw [List.foldl_cons, List.foldl_cons, columns_perform]
      exact ih _

/-- The columns of a map give out its entries. -/
theorem drains_columns {es : List (κ × ν)} : m.columns.Drains es ↔ es = m.entries := by
  unfold columns keys values
  generalize m.entries = ds
  constructor
  · intro hdrains
    induction ds generalizing es with
    | nil =>
        cases hdrains with
        | done => rfl
        | row h => cases h
    | cons d rest ih =>
        cases hdrains with
        | done h => cases h
        | row h hrest =>
            obtain ⟨rfl, rfl⟩ := Prod.mk.inj (Option.some.inj h)
            rw [ih hrest]
  · rintro rfl
    induction es with
    | nil => exact .done rfl
    | cons d rest ih => exact .row rfl ih

theorem keeps_columns : m.columns.Keeps m where
  keys := rfl
  values := rfl
  get := m.get?_columns
  put k v := by rw [put_columns]
  take k := by rw [take_columns]
  zip := by simp [columns, keys, values, List.zip_map']
  drains _ := m.drains_columns

end OrderedMap

/-! ## Maps as their histories say -/

/-- Whatever is inserted, removed and collected, a map is the partial function that the history of the
steps says, listed in the order in which keys came in; so are the columns that are changed by the same
steps; and maps are equal when they are the same partial function. -/
theorem OrderedMap.ofSteps_denotes [EquivBEq κ] [BEq ν] (steps others : List (MapStep κ ν)) :
    (ofSteps steps).Denotes (MapStep.history steps) ∧
      (Columns.ofSteps steps).Keeps (ofSteps steps) ∧
      ((ofSteps steps == ofSteps others) = true ↔
        ∀ k, Option.Rel (fun v w => (w == v) = true)
          (lastGiven (MapStep.history steps) k) (lastGiven (MapStep.history others) k)) ∧
      (EquivBEq ν → Equivalence fun s t : List (MapStep κ ν) => (ofSteps s == ofSteps t) = true) := by
  have hs := denotes_of_records (records_history steps)
  have ho := denotes_of_records (records_history others)
  refine ⟨hs, ?_, ?_, ?_⟩
  · rw [columns_ofSteps]
    exact keeps_columns _
  · rw [beq_iff]
    exact forall_congr' fun k => by rw [hs.get, ho.get]
  · intro _
    exact ⟨fun _ => beq_equivalence.refl _, beq_equivalence.symm, beq_equivalence.trans⟩

/-- A key that is inserted again keeps its place, and the order of insertions does not matter for `==`. -/
theorem OrderedMap.ofSteps_denotes_reinserted :
    let steps : List (MapStep String Nat) := [.insert "a" 1, .insert "b" 2, .insert "a" 3]
    let others : List (MapStep String Nat) := [.collect [("b", 2), ("c", 0), ("a", 3)], .remove "c"]
    (EquivBEq String ∧ EquivBEq Nat) ∧ (ofSteps steps).Denotes (MapStep.history steps) ∧
      (Columns.ofSteps steps).Drains [("a", 3), ("b", 2)] ∧
      (∀ k, Option.Rel (fun v w => (w == v) = true)
        (lastGiven (MapStep.history steps) k) (lastGiven (MapStep.history others) k)) ∧
      (ofSteps others == ofSteps steps) = true := by
  intro steps others
  obtain ⟨hdenotes, hkeeps, hbeq, hequivalence⟩ := ofSteps_denotes steps others
  have hsame : (ofSteps steps == ofSteps others) = true := by decide
  exact ⟨⟨inferInstance, inferInstance⟩, hdenotes, (hkeeps.drains _).2 (by decide), hbeq.1 hsame,
    (hequivalence inferInstance).symm hsame⟩

end Reclaim
