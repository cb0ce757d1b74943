import Reclaim.Proofs.Heap.Accounts

/-!
# Sessions of heap operations

A client that holds references to cells carries out operations one after another.  Each operation
takes references from the client and hands references to it (`Operation.takes`, `Operation.gives`),
and is permitted if the client holds what it takes.

The main statement is `session_accounted`: from a heap that is accounted for by what the client
holds, every session keeps the account, and every permitted operation succeeds.
-/

namespace Reclaim.Heap

/-- The cells in a list of locations, each as often as it is listed. -/
def cells (ls : List Location) : Multiset Location := ls.filter (· ≠ .invalid)

/-- One operation on a heap. -/
inductive Operation where
  /-- Puts a value into a new cell. -/
  | alloc (value : Value)
  /-- Adds a reference to each location. -/
  | inc (locations : List Location)
  /-- Gives up a reference to each location. -/
  | dec (locations : List Location)
  /-- Gives up a reference to a location and asks for a token. -/
  | reset (location : Location)
  /-- Puts a value into the slot of a token, or into a new cell. -/
  | reuse (token : Location) (value : Value)
  /-- Replaces the value of a live cell. -/
  | set (location : Location) (value : Value)

namespace Operation

/-- Carries out an operation; the answer is the location that it returns, if it returns one. -/
def run (h : Heap) : Operation → HeapResult (Option Location)
  | .alloc v => (.ok (some (h.alloc v).1), (h.alloc v).2)
  | .inc ls => ((h.inc ls).1.map fun _ => none, (h.inc ls).2)
  | .dec ls => ((h.dec ls).1.map fun _ => none, (h.dec ls).2)
  | .reset l => ((h.reset l).1.map some, (h.reset l).2)
  | .reuse t v => ((h.reuse t v).1.map some, (h.reuse t v).2)
  | .set l v => ((h.set l v).1.map fun _ => none, (h.set l v).2)

/-- The references that an operation takes from the client. -/
def takes : Operation → Multiset Location
  | .alloc v | .reuse _ v | .set _ v => cells v.children
  | .inc _ => 0
  | .dec ls => cells ls
  | .reset l => cells [l]

/-- The references that an operation on `h` hands to the client, given its answer. -/
def gives (h : Heap) (answer : Option Location) : Operation → Multiset Location
  | .alloc _ | .reuse .. => cells answer.toList
  | .inc ls => cells ls
  | .dec _ | .reset _ => 0
  | .set l _ => match h.get l with
    | .ok old => cells old.children
    | .error _ => 0

/-- The references that a client holds after an operation, if it held `E` before. -/
def settle (h : Heap) (E : Multiset Location) (answer : Option Location) (op : Operation) :
    Multiset Location :=
  E - op.takes + op.gives h answer

/-- A client that holds `E` may carry out an operation on `h`: it holds what the operation takes;
only live cells are counted up or overwritten; and a token is invalid or a spare slot. -/
def Permitted (h : Heap) (E : Multiset Location) (op : Operation) : Prop :=
  op.takes ≤ E ∧ match op with
    | .inc ls => ∀ l ∈ ls, l ≠ .invalid → h.Live l
    | .reset l => l ≠ .invalid
    | .reuse t _ => ∀ i, t = .cell i → h.Spare i
    | .set l _ => h.Live l
    | _ => True

/-- A token that a reset answers with is a spare slot to which no live cell refers. -/
def TokenSpare (h : Heap) (answer : Option Location) : Operation → Prop
  | .reset _ => ∀ i, answer = some (.cell i) → h.Spare i ∧ .cell i ∉ h.references
  | _ => True

end Operation

/-- A session leads from a heap and the references that its client holds to those after it. -/
inductive Session : Heap → Multiset Location → List Operation → Heap → Multiset Location → Prop where
  | nil {h E} : Session h E [] h E
  | cons {h h₁ h' E E' op ops answer} :
      op.Permitted h E →
      op.run h = (.ok answer, h₁) →
      Session h₁ (op.settle h E answer) ops h' E' →
      Session h E (op :: ops) h' E'

/-! ## References in lists of locations -/

theorem count_cells (ls : List Location) (i : Nat) :
    (cells ls).count (.cell i) = (ls : Multiset Location).count (.cell i) := by
  simp [cells, List.count_filter]

theorem invalid_notMem_cells (ls : List Location) : .invalid ∉ cells ls := by
  simp [cells]

@[simp] theorem cells_nil : cells [] = 0 := rfl

@[simp] theorem cells_cell (i : Nat) : cells [.cell i] = {.cell i} := rfl

variable {h h' : Heap} {E E' : Multiset Location}

/-- What an operation takes can be set apart in an account. -/
theorem AccountedFor.split {ls : List Location} (acc : h.AccountedFor E) (hle : cells ls ≤ E) :
    h.AccountedFor (ls + (E - cells ls)) := by
  refine acc.congr fun i => ?_
  have := Multiset.count_le_of_le (.cell i) hle
  simp only [Multiset.count_add, Multiset.count_sub, count_cells] at this ⊢
  omega

/-- References that are no cell can be left out of an account. -/
theorem AccountedFor.cells {ls : List Location} (acc : h.AccountedFor (ls + E)) :
    h.AccountedFor (E + cells ls) := by
  refine acc.congr fun i => ?_
  simp only [Multiset.count_add, count_cells]
  omega

/-! ## One operation -/

theorem Operation.invalid_notMem_settle {op : Operation} {answer : Option Location}
    (hE : .invalid ∉ E) : .invalid ∉ op.settle h E answer := by
  rw [settle, Multiset.mem_add, not_or]
  refine ⟨fun hm => hE (Multiset.mem_of_le (Multiset.sub_le_self _ _) hm), ?_⟩
  cases op with
  | alloc | reuse | inc => exact invalid_notMem_cells _
  | dec | reset => exact Multiset.notMem_zero _
  | set l v =>
      simp only [gives]
      split
      · exact invalid_notMem_cells _
      · exact Multiset.notMem_zero _

/-- A permitted operation succeeds and keeps the account. -/
theorem Operation.accounted {op : Operation} (acc : h.AccountedFor E) (p : op.Permitted h E) :
    ∃ answer h', op.run h = (.ok answer, h') ∧ h'.AccountedFor (op.settle h E answer) ∧
      op.TokenSpare h' answer := by
  obtain ⟨hle, hop⟩ := p
  cases op with
  | alloc v =>
      have acc' := alloc_accounted (acc.split hle)
      rw [← Multiset.singleton_add, ← Multiset.coe_singleton] at acc'
      exact ⟨_, _, rfl, acc'.cells, trivial⟩
  | inc ls =>
      obtain ⟨h', hinc, acc', -⟩ := inc_accounted acc hop
      refine ⟨none, h', by simp [run, hinc, Except.map], ?_, trivial⟩
      simpa [settle, takes, gives] using acc'.cells
  | dec ls =>
      obtain ⟨h', hdec, acc', -⟩ := dec_accounted (acc.split hle)
      refine ⟨none, h', by simp [run, hdec, Except.map], ?_, trivial⟩
      simpa [settle, takes, gives] using acc'
  | reset l =>
      obtain ⟨i, rfl⟩ : ∃ i, l = .cell i := by
        cases l with
        | invalid => exact absurd rfl hop
        | cell i => exact ⟨i, rfl⟩
      obtain ⟨t, h', hreset, acc', -, htoken⟩ := reset_accounted (E := E - {.cell i})
        (by simpa using acc.split hle)
      refine ⟨some t, h', by simp [run, hreset, Except.map],
        by simpa [settle, takes, gives] using acc', fun j hj => ?_⟩
      obtain rfl := Option.some.inj hj
      rcases htoken with ht | ⟨ht, hs⟩
      · cases ht
      · obtain rfl := Location.cell.inj ht
        have := (acc'.count_eq_zero (i := j) (by simpa [value?] using hs.value?)).2
        exact ⟨hs, Multiset.count_eq_zero.1 this⟩
  | reuse t v =>
      cases t with
      | invalid =>
          have acc' := alloc_accounted (acc.split hle)
          rw [← Multiset.singleton_add, ← Multiset.coe_singleton] at acc'
          exact ⟨_, _, rfl, acc'.cells, trivial⟩
      | cell i =>
          obtain ⟨h', hreuse, acc', -⟩ := reuse_accounted (acc.split hle) (hop i rfl)
          rw [← Multiset.singleton_add, ← Multiset.coe_singleton] at acc'
          exact ⟨some (.cell i), h', by simp [run, hreuse, Except.map], acc'.cells, trivial⟩
  | set l v =>
      obtain ⟨old, hold⟩ := hop
      cases l with
      | invalid => simp at hold
      | cell i =>
          obtain ⟨h', hset, acc'⟩ := set_accounted (acc.split hle) hold
          refine ⟨none, h', by simp [run, hset, Except.map], ?_, trivial⟩
          simpa [settle, takes, gives, get_eq_ok_iff.2 hold] using acc'.cells

/-! ## Sessions -/

theorem Session.keeps {ops : List Operation} (s : Session h E ops h' E') (acc : h.AccountedFor E)
    (hE : .invalid ∉ E) : h'.AccountedFor E' ∧ .invalid ∉ E' := by
  induction s with
  | nil => exact ⟨acc, hE⟩
  | cons hp hrun _ ih =>
      obtain ⟨answer, h₁, hrun', acc₁, -⟩ := Operation.accounted acc hp
      rw [hrun] at hrun'
      cases hrun'
      exact ih acc₁ (Operation.invalid_notMem_settle hE)

/-- After any session from a heap that is accounted for by the cells that the client holds, the
next permitted operation succeeds.  The heap is then accounted for by what the client held before,
without what the operation takes and with what it gives; a token is a spare slot to which no live
cell refers. -/
theorem session_accounted {ops : List Operation} {o : Operation} (acc : h.AccountedFor E)
    (hE : .invalid ∉ E) (s : Session h E ops h' E') (p : o.Permitted h' E') :
    ∃ answer h'', o.run h' = (.ok answer, h'') ∧ h''.AccountedFor (o.settle h' E' answer) ∧
      .invalid ∉ o.settle h' E' answer ∧ o.TokenSpare h'' answer := by
  obtain ⟨acc', hE'⟩ := s.keeps acc hE
  obtain ⟨answer, h'', hrun, acc'', htoken⟩ := Operation.accounted acc' p
  exact ⟨answer, h'', hrun, acc'', Operation.invalid_notMem_settle hE', htoken⟩

/-- A record whose only field leads back to the first cell. -/
def loop : Value := .record ⟨"Loop", .none⟩ (.ofList [(⟨"next", .none⟩, .cell 0)])

/-- A cell is made to refer to itself, and the reference held outside is given up. -/
theorem session_accounted_loop :
    ∃ h' E', Session .empty 0
        [.alloc (.closure ⟨"f", .none⟩ []), .inc [.cell 0], .set (.cell 0) loop] h' E' ∧
      ∃ answer h'', (Operation.dec [.cell 0]).run h' = (.ok answer, h'') ∧
        h''.AccountedFor ((Operation.dec [.cell 0]).settle h' E' answer) := by
  have s : Session .empty 0
      [.alloc (.closure ⟨"f", .none⟩ []), .inc [.cell 0], .set (.cell 0) loop] _ _ :=
    .cons ⟨by decide, trivial⟩ rfl
      (.cons ⟨by decide, fun l hl _ => by obtain rfl := List.mem_singleton.1 hl; exact ⟨_, rfl⟩⟩ rfl
        (.cons ⟨by decide, ⟨_, rfl⟩⟩ rfl .nil))
  obtain ⟨answer, h'', hrun, acc, -⟩ := session_accounted (o := .dec [.cell 0])
    (fun i => by simp [tally, slotTally]) (by simp) s ⟨by decide, trivial⟩
  exact ⟨_, _, s, answer, h'', hrun, acc⟩

end Reclaim.Heap
