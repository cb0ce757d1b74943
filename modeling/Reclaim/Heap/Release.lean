import Reclaim.Heap.Basic

/-!
# Giving up references

Giving up the last reference to a cell frees it, and with it one reference to each of its children.
So one `dec` can free a whole structure.  The references that are still to be given up are a list,
the children of a freed cell go in front of it, and no recursion follows the structure.

The cascade ends because every freed cell takes the references it held out of the heap:
`Heap.weight`, the number of references held by live cells, together with the length of the list
falls in every step.

A `reset` gives up a reference too, but hands out the emptied slot as a token when it was the last
one.  A `reuse` puts a value into that slot, or into a new cell if there was none.
-/

namespace Reclaim

/-- Replacing an element of a list changes a sum by the difference of the terms. -/
theorem sum_map_set {α M : Type} [Add M] [Zero M] [Std.Associative (· + · : M → M → M)]
    [Std.Commutative (· + · : M → M → M)] (f : α → M) (new : α) :
    ∀ (as : List α) (i : Nat) (old : α), as[i]? = some old →
      ((as.set i new).map f).sum + f old = (as.map f).sum + f new
  | [], _, _, h => by simp at h
  | a :: as, 0, old, h => by
      simp only [List.getElem?_cons_zero, Option.some.injEq] at h
      subst h
      simp only [List.set_cons_zero, List.map_cons, List.sum_cons]
      ac_rfl
  | a :: as, i + 1, old, h => by
      have ih := sum_map_set f new as i old (by simpa using h)
      simp only [List.set_cons_succ, List.map_cons, List.sum_cons]
      calc f a + ((as.set i new).map f).sum + f old
          = f a + (((as.set i new).map f).sum + f old) := by ac_rfl
        _ = f a + ((as.map f).sum + f new) := by rw [ih]
        _ = f a + (as.map f).sum + f new := by ac_rfl

namespace Heap

/-! ## The references held by live cells -/

/-- The references held by what is in a slot. -/
def slotWeight : Option Cell → Nat
  | none => 0
  | some c => c.value.children.length

/-- The references held by live cells. -/
def weight (h : Heap) : Nat := h.slots.rows.toList.foldr (fun s n => slotWeight s + n) 0

theorem weight_write {h : Heap} {i : Nat} {c : Cell} (new : Option Cell)
    (hc : h.cell? (.cell i) = some c) :
    (h.write i new).weight + slotWeight (some c) = h.weight + slotWeight new := by
  have hs : h.slots.rows.toList[i]? = some (some c) := by
    rw [Array.getElem?_toList]
    exact Option.join_eq_some_iff.1 hc
  have hsum (h : Heap) : h.weight = (h.slots.rows.toList.map slotWeight).sum := by
    rw [weight, List.sum_eq_foldr, List.foldr_map]
  rw [hsum, hsum]
  simpa [write, Numbered.set] using sum_map_set slotWeight new _ i _ hs

/-- Taking one reference away leaves the cell's own references in place. -/
theorem weight_recount {h : Heap} {i n : Nat} {c : Cell} (hc : h.cell? (.cell i) = some c) :
    (h.write i (some { c with count := n })).weight = h.weight := by
  have := weight_write (some { c with count := n }) hc
  simp only [slotWeight] at this
  omega

/-- A freed cell takes its references with it. -/
theorem weight_free {h : Heap} {i : Nat} {c : Cell} (hc : h.cell? (.cell i) = some c) :
    (h.free i).weight + c.value.children.length = h.weight := by
  have := weight_write none hc
  simp only [slotWeight, Nat.add_zero] at this
  exact this

/-! ## The operations -/

/-- Gives up one reference to each location, freeing cells whose last reference this was together
with everything only they kept alive.  The invalid location is skipped. -/
def dec (h : Heap) : List Location → HeapResult Unit
  | [] => (.ok (), h)
  | .invalid :: rest => h.dec rest
  | .cell i :: rest => match _hc : h.cell? (.cell i) with
    | none => (.error ⟨.cell i⟩, h)
    | some c =>
      if 1 < c.count then (h.write i (some { c with count := c.count - 1 })).dec rest
      else (h.free i).dec (c.value.children ++ rest)
termination_by locations => h.weight + locations.length
decreasing_by
  · simp
  · rw [weight_recount _hc]
    simp
  · have := weight_free _hc
    simp only [List.length_append, List.length_cons]
    omega

/-- Gives up one reference.  The last one to a cell frees it and turns its location into a token;
otherwise the reset is declined and the token is invalid. -/
def reset (h : Heap) (l : Location) : HeapResult Location :=
  match l, h.cell? l with
  | .cell i, some c =>
    if c.count = 1 then
      match (h.free i).dec c.value.children with
      | (.ok (), h) => (.ok l, h)
      | (.error e, h) => (.error e, h)
    else
      match h.dec [l] with
      | (.ok (), h) =>
        (.ok .invalid, { h with stats := { h.stats with declined := h.stats.declined + 1 } })
      | (.error e, h) => (.error e, h)
  | _, _ => (.error ⟨l⟩, h)

/-- Puts a value into the slot of a token, or into a new cell if the token is invalid. -/
def reuse (h : Heap) (token : Location) (v : Value) : HeapResult Location :=
  match token with
  | .invalid => let (l, h) := h.alloc v; (.ok l, h)
  | .cell _ => match h.set token v with
    | (.ok (), h) =>
      (.ok token, { h with stats := { h.stats with reuses := h.stats.reuses + 1 } })
    | (.error e, h) => (.error e, h)

end Heap

end Reclaim
