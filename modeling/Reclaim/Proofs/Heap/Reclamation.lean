import Reclaim.Proofs.Heap.Leaks
import Reclaim.Proofs.Heap.Sessions

/-!
# Exact reclamation

A client that follows the discipline of ownership gives up only references that it holds, counts up
only live cells, fills only the slots of tokens that it was handed, each once, and overwrites no cell
(`Operation.Disciplined`).  A history is a sequence of such operations on a heap that was empty at
first.

The main statement is `history_reclaims`.  At every point of a history the live cells are those that
can be reached from the references held, whatever the client does next succeeds and leaves every cell
as it was, unless it was freed or built in the slot of a token, and giving up all references leaves
no cell.  Counting alone would not do: a circle of cells keeps itself alive.  There is none, since a
new value cannot refer to its own slot, nor can anything else.  So the invariant carries a ranking
of the cells along with the account (`Custody`).
-/

namespace Reclaim.Heap

namespace Operation

/-- A client that holds references `E` and tokens `T` follows the discipline of ownership: what the
operation takes is held, only live cells are counted up, a reset gives up a reference to a cell, and
a reuse fills a slot for which a token is held. -/
def Disciplined (h : Heap) (E T : Multiset Location) (op : Operation) : Prop :=
  op.takes ≤ E ∧ match op with
    | .inc ls => ∀ l ∈ ls, l ≠ .invalid → h.Live l
    | .reset l => l ≠ .invalid
    | .reuse t _ => cells [t] ≤ T
    | .set .. => False
    | _ => True

/-- The tokens that a client holds after an operation, if it held `T` before. -/
def settleTokens (T : Multiset Location) (answer : Option Location) : Operation → Multiset Location
  | .reset _ => cells answer.toList + T
  | .reuse t _ => T - cells [t]
  | _ => T

/-- Whether an operation gives up references. -/
def Releases : Operation → Prop
  | .dec _ | .reset _ => True
  | _ => False

/-- What an operation leaves of the slots of `h`, if the client holds tokens `T`: each one has the
value that it had, or its cell was freed, or it was filled through its token. -/
def Respects (h : Heap) (T : Multiset Location) (op : Operation) (h' : Heap) : Prop :=
  ∀ i < h.slots.size, h'.value? (.cell i) = h.value? (.cell i) ∨
    (op.Releases ∧ h.Live (.cell i) ∧ h'.cell? (.cell i) = none) ∨
    ∃ v, op = .reuse (.cell i) v ∧ .cell i ∈ T ∧ h'.value? (.cell i) = some v

end Operation

/-- Operations carried out on the empty heap by a client that follows the discipline lead to a heap,
references and tokens. -/
inductive History : Heap → Multiset Location → Multiset Location → Prop where
  | start : History .empty 0 0
  | step {h h' : Heap} {E T : Multiset Location} {op : Operation} {answer : Option Location} :
      History h E T → op.Disciplined h E T → op.run h = (.ok answer, h') →
      History h' (op.settle h E answer) (op.settleTokens T answer)

/-- A heap in the custody of a client that holds references `E` and tokens `T`. -/
structure Custody (h : Heap) (E T : Multiset Location) : Prop where
  /-- The references held account for the heap. -/
  account : h.AccountedFor E
  /-- The heap is tidy and has no circles. -/
  sound : h.Sound
  /-- Tokens are different spare slots. -/
  vacant : h.Vacant T

variable {h h' : Heap} {E T : Multiset Location} {i : Nat} {v : Value} {op : Operation}

/-! ## Slots -/

theorem Grows.respects (g : h.Grows h') (spare : ∀ i < h.slots.size, h.value? (.cell i) = none →
    h'.value? (.cell i) = none) : op.Respects h T h' := by
  intro i hi
  cases hv : h.value? (.cell i) with
  | none => exact .inl (spare i hi hv)
  | some v => exact .inl (g hv)

theorem Shrinks.respects (s : h.Shrinks h') (release : op.Releases) : op.Respects h T h' := by
  intro i _
  cases hv' : h'.value? (.cell i) with
  | some v => exact .inl (s.value hv').symm
  | none =>
      cases hv : h.value? (.cell i) with
      | none => exact .inl rfl
      | some v => exact .inr (.inl ⟨release, ⟨v, hv⟩, by simpa [value?] using hv'⟩)

/-! ## One operation -/

theorem Custody.alloc (c : h.Custody E T) (hle : cells v.children ≤ E) :
    (h.alloc v).2.Custody (E - cells v.children + {(h.alloc v).1}) T := by
  have acc := c.account.split hle
  refine ⟨?_, ⟨alloc_tidy c.sound.tidy v, alloc_ranked c.sound.ranked acc⟩, c.vacant.alloc v⟩
  rw [add_comm, Multiset.singleton_add]
  exact alloc_accounted acc

theorem alloc_respects (h : Heap) (v : Value) : op.Respects h T (h.alloc v).2 := by
  refine Grows.respects (alloc_grows h v) fun i hi hv => ?_
  have hne : Location.cell i ≠ (h.alloc v).1 := by
    rw [alloc_fst]
    simpa using hi.ne
  rw [value?_alloc, if_neg hne, hv]

theorem Custody.inc {ls : List Location} (c : h.Custody E T)
    (live : ∀ l ∈ ls, l ≠ .invalid → h.Live l) :
    ∃ h', h.inc ls = (.ok (), h') ∧ h'.Custody (E + cells ls) T ∧ h.Recounts h' := by
  obtain ⟨h', hinc, acc, same⟩ := inc_accounted c.account live
  refine ⟨h', hinc, ⟨acc.cells, ?_, c.vacant.shrinks same.shrinks⟩, same⟩
  exact c.sound.shrinks same.shrinks (inc_tidy c.sound.tidy) hinc

theorem Custody.dec {ls : List Location} (c : h.Custody E T) (hle : cells ls ≤ E) :
    ∃ h', h.dec ls = (.ok (), h') ∧ h'.Custody (E - cells ls) T ∧ h.Shrinks h' := by
  obtain ⟨h', hdec, acc, shrinks⟩ := dec_accounted (c.account.split hle)
  refine ⟨h', hdec, ⟨acc, ?_, c.vacant.shrinks shrinks⟩, shrinks⟩
  exact c.sound.shrinks shrinks (dec_tidy c.sound.tidy) hdec

theorem Custody.reset (c : h.Custody E T) (hi : .cell i ∈ E) :
    ∃ t h', h.reset (.cell i) = (.ok t, h') ∧ h'.Custody (E - {.cell i}) (cells [t] + T) ∧
      h.Shrinks h' := by
  have hE : h.AccountedFor (.cell i ::ₘ (E - {.cell i})) := by
    rw [Multiset.sub_singleton, Multiset.cons_erase hi]
    exact c.account
  obtain ⟨t, h', hreset, acc, shrinks, htoken⟩ := reset_accounted hE
  have vacant := c.vacant.shrinks shrinks
  refine ⟨t, h', hreset, ⟨acc, c.sound.shrinks shrinks (reset_tidy c.sound.tidy) hreset, ?_⟩,
    shrinks⟩
  rcases htoken with rfl | ⟨rfl, hs⟩
  · simpa [cells] using vacant
  · -- The slot was live until now, so it is none of the other tokens.
    rw [cells_cell, Multiset.singleton_add]
    exact vacant.cons_cell (c.vacant.notMem_of_live (c.account.live_of_mem hi)) hs

theorem Custody.reuse (c : h.Custody E T) (hi : .cell i ∈ T) (hle : cells v.children ≤ E) :
    ∃ h', h.reuse (.cell i) v = (.ok (.cell i), h') ∧
      h'.Custody (E - cells v.children + {.cell i}) (T - {.cell i}) ∧
      h.Replaces i none (some ⟨1, v⟩) h' := by
  have acc := c.account.split hle
  have hs := c.vacant.spare hi
  obtain ⟨h', hreuse, acc', hslots⟩ := reuse_accounted acc hs
  have r : h.Replaces i none (some ⟨1, v⟩) h' := ⟨hs, hslots⟩
  have ranked : h'.Ranked := by
    obtain ⟨rank, hrank⟩ := fill_ranked c.sound.ranked acc hs
    refine ⟨rank, fun {l w m} hw => hrank ?_⟩
    simpa only [value?, cell?, hslots] using hw
  have tidy : h'.Tidy := by
    have := reuse_tidy (t := .cell i) (v := v) c.sound.tidy
    rwa [hreuse] at this
  refine ⟨h', hreuse, ⟨?_, ⟨tidy, ranked⟩, ?_⟩, r⟩
  · rwa [add_comm, Multiset.singleton_add]
  · rw [Multiset.sub_singleton]
    have vacant := c.vacant
    rw [← Multiset.cons_erase hi] at vacant
    exact vacant.fill r

/-- A slot that is filled through its token is the only one that changes. -/
theorem Replaces.respects {new : Cell} (r : h.Replaces i none (some new) h') (hi : .cell i ∈ T) :
    (Operation.reuse (.cell i) new.value).Respects h T h' := by
  intro j _
  by_cases hj : j = i
  · subst hj
    exact .inr (.inr ⟨new.value, rfl, hi, r.value?_self⟩)
  · exact .inl (r.value?_other (by simpa using hj))

/-- A disciplined operation succeeds, and the heap stays in custody. -/
theorem Custody.operation (c : h.Custody E T) (d : op.Disciplined h E T) :
    ∃ answer h', op.run h = (.ok answer, h') ∧
      h'.Custody (op.settle h E answer) (op.settleTokens T answer) ∧ op.Respects h T h' := by
  obtain ⟨hle, hop⟩ := d
  cases op with
  | alloc v => exact ⟨_, _, rfl, c.alloc hle, alloc_respects h v⟩
  | inc ls =>
      obtain ⟨h', hinc, c', same⟩ := c.inc hop
      refine ⟨none, h', by simp [Operation.run, hinc, Except.map], ?_,
        Grows.respects same.grows fun i _ hv => (same.value _).trans hv⟩
      simpa [Operation.settle, Operation.takes, Operation.gives, Operation.settleTokens] using c'
  | dec ls =>
      obtain ⟨h', hdec, c', shrinks⟩ := c.dec hle
      refine ⟨none, h', by simp [Operation.run, hdec, Except.map], ?_, shrinks.respects trivial⟩
      simpa [Operation.settle, Operation.takes, Operation.gives, Operation.settleTokens] using c'
  | reset l =>
      obtain ⟨i, rfl⟩ : ∃ i, l = .cell i := by
        cases l with
        | invalid => exact absurd rfl hop
        | cell i => exact ⟨i, rfl⟩
      have hi : .cell i ∈ E := Multiset.singleton_le.1 hle
      obtain ⟨t, h', hreset, c', shrinks⟩ := c.reset hi
      refine ⟨some t, h', by simp [Operation.run, hreset, Except.map], ?_,
        shrinks.respects trivial⟩
      simpa [Operation.settle, Operation.takes, Operation.gives, Operation.settleTokens] using c'
  | reuse t v =>
      cases t with
      | invalid =>
          have c' := c.alloc hle
          refine ⟨_, _, rfl, ?_, alloc_respects h v⟩
          have hnone : cells [.invalid] = 0 := rfl
          rwa [Operation.settleTokens, hnone, tsub_zero]
      | cell i =>
          have hi : .cell i ∈ T := Multiset.singleton_le.1 hop
          obtain ⟨h', hreuse, c', r⟩ := c.reuse hi hle
          exact ⟨some (.cell i), h', by simp [Operation.run, hreuse, Except.map], c', r.respects hi⟩
  | set l v => exact hop.elim

/-! ## Histories -/

theorem custody_empty : Heap.empty.Custody 0 0 :=
  ⟨fun i => by simp [tally, slotTally], ⟨tidy_empty, ⟨fun _ => 0, by simp⟩⟩, nofun, by simp⟩

/-- The heap stays in the custody of a client that follows the discipline. -/
theorem History.custody (hist : History h E T) : h.Custody E T := by
  induction hist with
  | start => exact custody_empty
  | step _ d hrun c =>
      obtain ⟨answer, h', hrun', c', -⟩ := c.operation d
      rw [hrun] at hrun'
      cases hrun'
      exact c'

/-- In custody exactly those cells are live that the references held reach. -/
theorem Custody.live_iff (c : h.Custody E T) : h.Live (.cell i) ↔ h.Reachable E (.cell i) :=
  ⟨c.sound.reachable c.account, c.account.live_of_reachable le_rfl⟩

/-- At every point of a history of a client that follows the discipline of ownership, the live cells
are those that are reachable from the references that the client holds.  Whatever the client may do
next succeeds, and a value changes only where a cell is freed or built in the slot of a token.  Giving
up all references leaves no cell. -/
theorem history_reclaims (hist : History h E T) :
    (∀ i, h.Live (.cell i) ↔ h.Reachable E (.cell i)) ∧
    (∀ op : Operation, op.Disciplined h E T →
      ∃ answer h', op.run h = (.ok answer, h') ∧ op.Respects h T h') ∧
    ∀ ls : List Location, ↑ls = E →
      ∃ h', h.dec ls = (.ok (), h') ∧ h'.isEmpty = true ∧ ∀ l, h'.cell? l = none := by
  have c := hist.custody
  refine ⟨fun i => c.live_iff, fun op d => ?_, fun ls hls => ?_⟩
  · obtain ⟨answer, h', hrun, -, hrespects⟩ := c.operation d
    exact ⟨answer, h', hrun, hrespects⟩
  · subst hls
    exact c.sound.dec_all c.account

theorem History.next (hist : History h E T) (op : Operation) (answer : Option Location)
    (d : op.Disciplined h E T) (hrun : (op.run h).1 = .ok answer) :
    History (op.run h).2 (op.settle h E answer) (op.settleTokens T answer) :=
  .step hist d (Prod.ext hrun rfl)

/-- A closure that is handed some locations. -/
def holder (ls : List Location) : Value := .closure ⟨"f", .none⟩ ls

/-- A cell that was taken apart and built again, around a cell that was allocated later. -/
def rebuilt : Heap :=
  [.alloc (holder []), .inc [.cell 0], .alloc (holder [.cell 0, .cell 0]), .reset (.cell 1),
    .alloc (holder []), .reuse (.cell 1) (holder [.cell 2])].foldl
      (fun h op => (Operation.run h op).2) .empty

/-- The cell in the slot of the token keeps the later one alive, and the one to which it referred
before is gone.  Giving up the reference to it leaves nothing. -/
theorem history_reclaims_rebuilt : History rebuilt {.cell 1} 0 ∧
    rebuilt.Live (.cell 2) ∧ rebuilt.Reachable {.cell 1} (.cell 2) ∧ ¬ rebuilt.Live (.cell 0) ∧
    (∃ answer h', (Operation.dec [.cell 1]).run rebuilt = (.ok answer, h') ∧
      (Operation.dec [.cell 1]).Respects rebuilt 0 h') ∧
    ∃ h', rebuilt.dec [.cell 1] = (.ok (), h') ∧ h'.isEmpty = true := by
  have h₁ : History _ {.cell 0} 0 :=
    History.start.next (.alloc (holder [])) (some (.cell 0)) ⟨by decide, trivial⟩ rfl
  have h₂ : History _ {.cell 0, .cell 0} 0 :=
    h₁.next (.inc [.cell 0]) none ⟨by decide, fun l hl _ => by
      obtain rfl := List.mem_singleton.1 hl
      exact ⟨_, rfl⟩⟩ rfl
  have h₃ : History _ {.cell 1} 0 :=
    h₂.next (.alloc (holder [.cell 0, .cell 0])) (some (.cell 1)) ⟨by decide, trivial⟩ rfl
  have h₄ : History _ 0 {.cell 1} :=
    h₃.next (.reset (.cell 1)) (some (.cell 1)) ⟨by decide, by decide⟩ (by decide +kernel)
  have h₅ : History _ {.cell 2} {.cell 1} :=
    h₄.next (.alloc (holder [])) (some (.cell 2)) ⟨by decide, trivial⟩ (by decide +kernel)
  have h₆ : History rebuilt {.cell 1} 0 :=
    h₅.next (.reuse (.cell 1) (holder [.cell 2])) (some (.cell 1)) ⟨by decide, by decide⟩
      (by decide +kernel)
  obtain ⟨live, next, drop⟩ := history_reclaims h₆
  have live₂ : rebuilt.Live (.cell 2) := Option.isSome_iff_exists.1 (by decide +kernel)
  have dead₀ : rebuilt.value? (.cell 0) = none := Option.isNone_iff_eq_none.1 (by decide +kernel)
  obtain ⟨h', hdec, hempty, -⟩ := drop [.cell 1] rfl
  refine ⟨h₆, live₂, (live 2).1 live₂, ?_, next (.dec [.cell 1]) ⟨by decide, trivial⟩, h', hdec,
    hempty⟩
  rintro ⟨v, hv⟩
  rw [dead₀] at hv
  cases hv

end Reclaim.Heap
