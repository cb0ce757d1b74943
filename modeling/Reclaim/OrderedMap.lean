/-!
# Finite maps that remember insertion order

An `OrderedMap` is a list of entries whose keys are pairwise different.  A key keeps the place of
its first insertion: inserting it again replaces the value and nothing else, so iteration lists
the keys in the order in which they first came in since they were last erased.

Keys are compared by `==`, which may be coarser than equality.  A key that is inserted again under
an equal spelling leaves the stored key as it was.

Lookup is linear.  The maps of this library are the fields of one record or the borrowed
variables of one function, so they are short.
-/

namespace Reclaim

/-! ## Entry lists -/

/-- Replaces the value at the key of `k` in place, or appends an entry if no key equals `k`. -/
def putEntry {κ ν : Type} [BEq κ] (k : κ) (v : ν) : List (κ × ν) → List (κ × ν)
  | [] => [(k, v)]
  | e :: rest => if e.1 == k then (e.1, v) :: rest else e :: putEntry k v rest

/-- Every key of `putEntry k v es` is a key of `es` or `k` itself. -/
theorem key_of_mem_putEntry {κ ν : Type} [BEq κ] {k : κ} {v : ν} :
    ∀ {es : List (κ × ν)} {e : κ × ν}, e ∈ putEntry k v es → e.1 = k ∨ ∃ d ∈ es, d.1 = e.1
  | [], e, h => by simp [putEntry] at h; simp [h]
  | d :: rest, e, h => by
      by_cases hd : d.1 == k
      · simp only [putEntry, hd, if_true, List.mem_cons] at h
        rcases h with rfl | h
        · exact .inr ⟨d, by simp, rfl⟩
        · exact .inr ⟨e, by simp [h], rfl⟩
      · simp only [putEntry, hd, Bool.false_eq_true, if_false, List.mem_cons] at h
        rcases h with rfl | h
        · exact .inr ⟨e, by simp, rfl⟩
        · rcases key_of_mem_putEntry h with h | ⟨c, hc, he⟩
          · exact .inl h
          · exact .inr ⟨c, by simp [hc], he⟩

/-- Two entries clash when their keys are equal. -/
abbrev Apart {κ ν : Type} [BEq κ] (a b : κ × ν) : Prop := (a.1 == b.1) = false

theorem pairwise_putEntry {κ ν : Type} [BEq κ] {k : κ} {v : ν} :
    ∀ {es : List (κ × ν)}, es.Pairwise Apart → (putEntry k v es).Pairwise Apart
  | [], _ => by simp [putEntry]
  | d :: rest, h => by
      obtain ⟨hd, hrest⟩ := List.pairwise_cons.1 h
      by_cases hk : d.1 == k
      · simp only [putEntry, hk, if_true]
        exact List.pairwise_cons.2 ⟨fun e he => hd e he, hrest⟩
      · simp only [putEntry, hk, Bool.false_eq_true, if_false]
        refine List.pairwise_cons.2 ⟨fun e he => ?_, pairwise_putEntry hrest⟩
        rcases key_of_mem_putEntry he with h | ⟨c, hc, he⟩
        · simp [Apart, h, hk]
        · simpa [Apart, ← he] using hd c hc

/-! ## Maps -/

/-- A finite map listed in insertion order. -/
structure OrderedMap (κ ν : Type) [BEq κ] where
  /-- The entries, oldest first. -/
  entries : List (κ × ν)
  /-- No two entries have equal keys. -/
  distinct : entries.Pairwise Apart

namespace OrderedMap

variable {κ ν : Type} [BEq κ]

/-- The map without entries. -/
def empty : OrderedMap κ ν := ⟨[], .nil⟩

instance : EmptyCollection (OrderedMap κ ν) := ⟨empty⟩
instance : Inhabited (OrderedMap κ ν) := ⟨empty⟩

/-- The keys, oldest first. -/
def keys (m : OrderedMap κ ν) : List κ := m.entries.map (·.1)

/-- The values, in the order of their keys. -/
def values (m : OrderedMap κ ν) : List ν := m.entries.map (·.2)

/-- The number of entries. -/
def size (m : OrderedMap κ ν) : Nat := m.entries.length

/-- Whether there is no entry. -/
def isEmpty (m : OrderedMap κ ν) : Bool := m.entries.isEmpty

/-- The value stored under a key equal to `k`. -/
def get? (m : OrderedMap κ ν) (k : κ) : Option ν :=
  (m.entries.find? fun e => e.1 == k).map (·.2)

/-- Whether some key equals `k`. -/
def contains (m : OrderedMap κ ν) (k : κ) : Bool := m.entries.any fun e => e.1 == k

/-- Binds `k` to `v`.  A key that is already there keeps its place. -/
def insert (m : OrderedMap κ ν) (k : κ) (v : ν) : OrderedMap κ ν :=
  ⟨putEntry k v m.entries, pairwise_putEntry m.distinct⟩

/-- Forgets the key equal to `k`, if there is one. -/
def erase (m : OrderedMap κ ν) (k : κ) : OrderedMap κ ν :=
  ⟨m.entries.eraseP fun e => e.1 == k, m.distinct.sublist List.eraseP_sublist⟩

/-- Binds `k` to `v` and returns the value it replaced. -/
def put (m : OrderedMap κ ν) (k : κ) (v : ν) : Option ν × OrderedMap κ ν :=
  (m.get? k, m.insert k v)

/-- Forgets the key equal to `k` and returns the value that was stored there. -/
def take (m : OrderedMap κ ν) (k : κ) : Option ν × OrderedMap κ ν := (m.get? k, m.erase k)

/-- The map that binds each key of `es` to its last value, in the order of first occurrences. -/
def ofList (es : List (κ × ν)) : OrderedMap κ ν :=
  es.foldl (fun m e => m.insert e.1 e.2) empty

/-- Whether every entry of `m` has an equal entry in `n`. -/
def isSubmap [BEq ν] (m n : OrderedMap κ ν) : Bool :=
  m.entries.all fun e => match n.get? e.1 with
    | some v => v == e.2
    | none => false

/-- Maps are equal when they hold equal entries, in whatever order.  Since keys are distinct, equal
sizes and one inclusion are enough. -/
instance [BEq ν] : BEq (OrderedMap κ ν) := ⟨fun m n => m.size == n.size && m.isSubmap n⟩

/-- The entries in braces, each as `key: value`. -/
def describe (key : κ → String) (value : ν → String) (m : OrderedMap κ ν) : String :=
  "\x7b" ++ ", ".intercalate (m.entries.map fun e => key e.1 ++ ": " ++ value e.2) ++ "\x7d"

/-! ## One equation per operation -/

@[simp] theorem entries_empty : (empty : OrderedMap κ ν).entries = [] := rfl

@[simp] theorem entries_insert (m : OrderedMap κ ν) (k : κ) (v : ν) :
    (m.insert k v).entries = putEntry k v m.entries := rfl

@[simp] theorem entries_erase (m : OrderedMap κ ν) (k : κ) :
    (m.erase k).entries = m.entries.eraseP fun e => e.1 == k := rfl

end OrderedMap

/-! ## Tests -/

example : ((OrderedMap.ofList [("a", 1), ("b", 2), ("a", 3)]).entries) = [("a", 3), ("b", 2)] := by
  decide
example : (OrderedMap.ofList [("a", 1), ("b", 2)] == OrderedMap.ofList [("b", 2), ("a", 1)]) = true := by
  decide
example : ((OrderedMap.ofList [("a", 1), ("b", 2)]).take "a").2.entries = [("b", 2)] := by decide

end Reclaim
