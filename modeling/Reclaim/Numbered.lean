/-!
# Numbered rows

A `Numbered` table only grows.  A row is known by its number, the count of rows that were there
when it came in, and a row that has been given a number can be changed but never taken away.  A
`Counter` hands out such numbers without the rows.
-/

namespace Reclaim

/-- Rows numbered from zero in order of arrival. -/
structure Numbered (α : Type) where
  /-- The rows; the number of a row is its index. -/
  rows : Array α := #[]

namespace Numbered

variable {α : Type}

/-- The table without rows. -/
def empty : Numbered α := ⟨#[]⟩

instance : EmptyCollection (Numbered α) := ⟨empty⟩
instance : Inhabited (Numbered α) := ⟨empty⟩

/-- The table of a list's elements. -/
def ofList (as : List α) : Numbered α := ⟨as.toArray⟩

/-- The number of rows, which is also the next number. -/
def size (t : Numbered α) : Nat := t.rows.size

/-- Whether there is no row. -/
def isEmpty (t : Numbered α) : Bool := t.rows.isEmpty

/-- The row with number `i`. -/
def get? (t : Numbered α) (i : Nat) : Option α := t.rows[i]?

/-- Adds a row and returns its number. -/
def push (t : Numbered α) (a : α) : Nat × Numbered α := (t.size, ⟨t.rows.push a⟩)

/-- Replaces row `i`; a number that was never given changes nothing. -/
def set (t : Numbered α) (i : Nat) (a : α) : Numbered α := ⟨t.rows.setIfInBounds i a⟩

/-- Replaces row `i` and tells whether there was one. -/
def put (t : Numbered α) (i : Nat) (a : α) : Bool × Numbered α :=
  (decide (i < t.size), t.set i a)

/-- The rows with their numbers, in order. -/
def entries (t : Numbered α) : List (Nat × α) := t.rows.toList.zipIdx.map fun (a, i) => (i, a)

/-- The rows in braces, each after its number and a dot. -/
def describe (row : α → String) (t : Numbered α) : String :=
  "\x7b" ++ ", ".intercalate (t.entries.map fun e => "." ++ toString e.1 ++ ": " ++ row e.2) ++ "\x7d"

/-! ## One equation per operation -/

@[simp] theorem size_empty : (empty : Numbered α).size = 0 := rfl

@[simp] theorem get?_empty (i : Nat) : (empty : Numbered α).get? i = none := by
  simp [empty, get?]

@[simp] theorem size_push (t : Numbered α) (a : α) : (t.push a).2.size = t.size + 1 := by
  simp [push, size]

theorem get?_push (t : Numbered α) (a : α) (i : Nat) :
    (t.push a).2.get? i = if i = t.size then some a else t.get? i :=
  Array.getElem?_push

@[simp] theorem size_set (t : Numbered α) (i : Nat) (a : α) : (t.set i a).size = t.size := by
  simp [set, size]

theorem get?_set (t : Numbered α) (i j : Nat) (a : α) :
    (t.set i a).get? j = if i = j then (if i < t.size then some a else none) else t.get? j :=
  Array.getElem?_setIfInBounds

end Numbered

/-- Hands out consecutive numbers. -/
structure Counter where
  /-- The next number. -/
  issued : Nat := 0

namespace Counter

/-- The next number, and the counter after it was given. -/
def next (c : Counter) : Nat × Counter := (c.issued, ⟨c.issued + 1⟩)

/-- The next number, and the counter after it was given, if that counter stays below a bound. -/
def next? (bound : Nat) (c : Counter) : Option (Nat × Counter) :=
  if c.issued + 1 < bound then some c.next else none

end Counter

/-! ## Tests -/

example : ((Numbered.ofList [5, 7]).push 9).1 = 2 := by decide
example : ((Numbered.ofList [5, 7]).put 2 9).1 = false := by decide
example : (Counter.next ⟨3⟩).2.next.1 = 4 := by decide
example : (Counter.next? 8 ⟨6⟩).isSome = true := by decide
example : (Counter.next? 8 ⟨7⟩).isSome = false := by decide

end Reclaim
