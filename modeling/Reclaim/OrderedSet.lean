/-!
# Finite sets that remember insertion order

An `OrderedSet` is a list without repetition, where repetition is judged by `==`.  An element that
comes in again is ignored, so the stored spelling and its place are those of the first insertion.
The order matters to the rest of the library: it decides the order in which reference counts are
adjusted.
-/

namespace Reclaim

/-- A finite set listed in insertion order. -/
structure OrderedSet (α : Type) [BEq α] where
  /-- The elements, oldest first. -/
  toList : List α
  /-- No two elements are equal. -/
  distinct : toList.Pairwise fun a b => (a == b) = false

namespace OrderedSet

variable {α : Type} [BEq α]

/-- The set without elements. -/
def empty : OrderedSet α := ⟨[], .nil⟩

instance : EmptyCollection (OrderedSet α) := ⟨empty⟩
instance : Inhabited (OrderedSet α) := ⟨empty⟩

/-- The number of elements. -/
def size (s : OrderedSet α) : Nat := s.toList.length

/-- Whether there is no element. -/
def isEmpty (s : OrderedSet α) : Bool := s.toList.isEmpty

/-- Whether some element equals `a`. -/
def contains (s : OrderedSet α) (a : α) : Bool := s.toList.any (· == a)

/-- Adds `a` at the end unless an equal element is there. -/
def insert (s : OrderedSet α) (a : α) : OrderedSet α :=
  if h : s.toList.any (· == a) then s
  else ⟨s.toList ++ [a], List.pairwise_append.2 ⟨s.distinct, List.pairwise_singleton _ _, by
    simp only [List.any_eq_true, not_exists, not_and, Bool.not_eq_true] at h
    simpa using h⟩⟩

/-- Removes the element equal to `a`, if there is one. -/
def erase (s : OrderedSet α) (a : α) : OrderedSet α :=
  ⟨s.toList.eraseP (· == a), s.distinct.sublist List.eraseP_sublist⟩

/-- Adds `a` and tells whether it was new. -/
def put (s : OrderedSet α) (a : α) : Bool × OrderedSet α := (!s.contains a, s.insert a)

/-- Removes the element equal to `a` and returns it as it was stored. -/
def take (s : OrderedSet α) (a : α) : Option α × OrderedSet α :=
  (s.toList.find? (· == a), s.erase a)

/-- Adds the elements of a list one after the other. -/
def insertAll (s : OrderedSet α) (as : List α) : OrderedSet α := as.foldl insert s

/-- The elements of `s`, then those of `t` that are new. -/
def union (s t : OrderedSet α) : OrderedSet α := s.insertAll t.toList

/-- The elements of a list in the order of their first occurrences. -/
def ofList (as : List α) : OrderedSet α := empty.insertAll as

/-- The set of one element. -/
def singleton (a : α) : OrderedSet α := ⟨[a], List.pairwise_singleton _ _⟩

/-- Whether every element of `s` is in `t`. -/
def isSubset (s t : OrderedSet α) : Bool := s.toList.all t.contains

/-- Sets are equal when they have equal elements, in whatever order.  Since nothing is listed twice,
equal sizes and one inclusion are enough. -/
instance : BEq (OrderedSet α) := ⟨fun s t => s.size == t.size && s.isSubset t⟩

/-- The elements in braces, separated by commas. -/
def describe (element : α → String) (s : OrderedSet α) : String :=
  "\x7b" ++ ", ".intercalate (s.toList.map element) ++ "\x7d"

/-! ## One equation per operation -/

@[simp] theorem toList_empty : (empty : OrderedSet α).toList = [] := rfl

@[simp] theorem toList_singleton (a : α) : (singleton a).toList = [a] := rfl

theorem toList_insert (s : OrderedSet α) (a : α) :
    (s.insert a).toList = if s.contains a then s.toList else s.toList ++ [a] := by
  unfold insert contains
  split <;> rfl

@[simp] theorem toList_erase (s : OrderedSet α) (a : α) :
    (s.erase a).toList = s.toList.eraseP (· == a) := rfl

end OrderedSet

/-! ## Tests -/

example : (OrderedSet.ofList ["b", "a", "b"]).toList = ["b", "a"] := by decide
example : ((OrderedSet.ofList ["a"]).union (.ofList ["c", "a", "b"])).toList = ["a", "c", "b"] := by
  decide
example : (OrderedSet.ofList ["a", "b"] == OrderedSet.ofList ["b", "a"]) = true := by decide

end Reclaim
