import Reclaim.Proofs.Eval.Outcomes
import Reclaim.Proofs.Heap.Leaks
import Reclaim.Proofs.Heap.Reach

/-!
# What a computation leaves behind

A computation that is handed some references ends with one reference to its result.  Meanwhile
others hold references `F` and tokens `T`: what these references reach is kept, and the tokens are
still vacant (`Leaves`).  Building a value in a new cell or in the cell of a token leaves it behind in
this sense.

Programs never ask for the value at the invalid location as long as nothing that they can reach refers
to it.  This is tracked under a condition `gap`: if it does not hold, the references that are held do not
lead to the invalid location (`Heap.Clear`).
-/

namespace Reclaim

open Reclaim.Heap

variable {gap : Prop} {h h' h'' : Heap} {F F' G T U : Multiset Location} {l m : Location}
  {v : Value} {i : Nat}

/-- The references lead to the invalid location only if `gap`. -/
def Heap.Clear (gap : Prop) (h : Heap) (F : Multiset Location) : Prop :=
  h.Reachable F .invalid → gap

/-- Live cells refer to cells. -/
def Heap.Closed (h : Heap) : Prop := ∀ {l v}, h.value? l = some v → .invalid ∉ v.children

/-- What holds of all cells of a heap holds after a change as well. -/
structure Heap.Upholds (gap : Prop) (h h' : Heap) : Prop where
  /-- A heap without circles and lost cells stays one. -/
  sound : h.Sound → h'.Sound
  /-- If there is no gap, then cells go on to refer to cells. -/
  closed : ¬ gap → h.Closed → h'.Closed

/-- A computation ended with a reference to `l`, while others held the references `F` and the tokens
`T`. -/
structure Leaves (gap : Prop) (F T : Multiset Location) (h : Heap) (l : Location) (h' : Heap) :
    Prop where
  /-- What others can reach is kept. -/
  keeps : h.Keeps F h'
  /-- The result is the only new reference. -/
  accounted : h'.AccountedFor (l ::ₘ F)
  /-- The tokens are still there. -/
  vacant : h'.Vacant T
  /-- The result leads to cells. -/
  clear : h'.Clear gap {l}
  /-- The heap as a whole is as good as it was. -/
  upholds : h.Upholds gap h'

theorem Heap.Upholds.refl (gap : Prop) (h : Heap) : h.Upholds gap h := ⟨id, fun _ => id⟩

theorem Heap.Upholds.trans (u : h.Upholds gap h') (u' : h'.Upholds gap h'') : h.Upholds gap h'' :=
  ⟨fun s => u'.sound (u.sound s), fun hgap c => u'.closed hgap (u.closed hgap c)⟩

/-- A computation after a change of the heap that keeps what others can reach. -/
theorem Leaves.after (out : Leaves gap F T h' l h'') (k : h.Keeps F h') (u : h.Upholds gap h') :
    Leaves gap F T h l h'' :=
  ⟨k.trans out.keeps, out.accounted, out.vacant, out.clear, u.trans out.upholds⟩

/-! ## Gaps -/

namespace Heap

/-- A heap is closed if no reference is invalid. -/
theorem closed_iff : h.Closed ↔ .invalid ∉ h.references := by
  rw [mem_references]
  constructor
  · rintro hc ⟨m, v, hv, hmem⟩
    exact hc hv hmem
  · intro hnone l v hv hmem
    exact hnone ⟨l, v, hv, hmem⟩

theorem Closed.shrinks (c : h.Closed) (s : h.Shrinks h') : h'.Closed := fun hv => c (s.value hv)

/-- A heap stays closed when a value comes in that refers to cells. -/
theorem Closed.add (c : h.Closed) (hv : .invalid ∉ v.children)
    (h₁ : ∀ {m w}, h'.value? m = some w → w = v ∨ h.value? m = some w) : h'.Closed := by
  intro m w hw
  rcases h₁ hw with rfl | hw
  · exact hv
  · exact c hw

/-- In a closed heap, cells do not lead to the invalid location. -/
theorem Closed.not_reachable (c : h.Closed) (hF : .invalid ∉ F) : ¬ h.Reachable F .invalid := by
  intro r
  cases r with
  | held hl => exact hF hl
  | child _ hv hm => exact c hv hm

namespace Clear

theorem mono (c : h.Clear gap F) (hG : ∀ l ∈ G, h.Reachable F l) : h.Clear gap G :=
  fun r => c (r.trans hG)

/-- What references lead to does not change where it is kept. -/
theorem keeps (c : h.Clear gap F) (k : h.Keeps F h') : h'.Clear gap F :=
  fun r => c (k.of_reachable r)

theorem add (c : h.Clear gap F) (c' : h.Clear gap G) : h.Clear gap (F + G) :=
  fun r => (reachable_add.1 r).elim c c'

theorem invalid_notMem (c : h.Clear gap F) (hgap : ¬ gap) : .invalid ∉ F :=
  fun hl => hgap (c (.held hl))

/-- A new cell leads to cells if its parts do. -/
theorem cell (c : h.Clear gap v.children) (k : h.Keeps v.children h')
    (hv : h'.value? (.cell i) = some v) : h'.Clear gap {.cell i} :=
  fun r => (r.eq_or_parts hv).elim nofun fun r => c (k.of_reachable r)

end Clear

end Heap

/-! ## Building values -/

theorem value?_alloc_self (h : Heap) (v : Value) : (h.alloc v).2.value? (h.alloc v).1 = some v := by
  rw [value?_alloc, if_pos rfl]

theorem Heap.value?_of_slots (hs : h'.slots = h.slots) (l : Location) :
    h'.value? l = h.value? l := by
  cases l with
  | invalid => rfl
  | cell i => simp [value?, cell?, hs]

theorem Heap.Vacant.of_slots (t : h.Vacant T) (hs : h'.slots = h.slots) : h'.Vacant T :=
  ⟨fun hi => by simpa [Spare, hs] using t.spare hi, t.apart⟩

/-- A heap that grows by one value, in exchange for the references to its parts. -/
theorem Heap.Grows.leaves (g : h.Grows h') (acc : h.AccountedFor (v.children + F))
    (c : h.Clear gap v.children) (acc' : h'.AccountedFor (.cell i ::ₘ F)) (t : h'.Vacant T)
    (hv : h'.value? (.cell i) = some v)
    (hold : ∀ {m w}, h'.value? m = some w → w = v ∨ h.value? m = some w)
    (hsound : h.Sound → h'.Sound) : Leaves gap F T h (.cell i) h' := by
  constructor
  case keeps => exact g.keeps acc (Multiset.le_add_left _ _)
  case accounted => exact acc'
  case vacant => exact t
  case clear => exact c.cell (g.keeps acc (Multiset.le_add_right _ _)) hv
  case upholds => exact ⟨hsound, fun hgap hc => hc.add (c.invalid_notMem hgap) hold⟩

/-- A value in a new cell. -/
theorem alloc_leaves (acc : h.AccountedFor (v.children + F)) (t : h.Vacant T)
    (c : h.Clear gap v.children) : Leaves gap F T h (h.alloc v).1 (h.alloc v).2 := by
  refine Grows.leaves (alloc_grows h v) acc c (alloc_accounted acc) (t.alloc v)
    (value?_alloc_self h v) (fun {m w} hw => ?_)
    fun s => ⟨alloc_tidy s.tidy v, alloc_ranked s.ranked acc⟩
  rw [value?_alloc] at hw
  split at hw
  · exact .inl (Option.some.inj hw).symm
  · exact .inr hw

/-- A value in the cell of a token, or in a new one. -/
theorem reuse_leaves (acc : h.AccountedFor (v.children + F)) (t : h.Vacant (l ::ₘ T))
    (c : h.Clear gap v.children) :
    ∃ m h', h.reuse l v = (.ok m, h') ∧ Leaves gap F T h m h' ∧ h.Grows h' ∧
      h'.value? m = some v := by
  cases l with
  | invalid =>
      exact ⟨_, _, reuse_invalid h v, alloc_leaves acc (t.mono (Multiset.le_cons_self _ _)) c,
        alloc_grows h v, value?_alloc_self h v⟩
  | cell i =>
      have hs : h.Spare i := t.spare (Multiset.mem_cons_self _ _)
      obtain ⟨h', hreuse, acc', hslots⟩ := reuse_accounted acc hs
      have r := replaces_fill v hs
      have hvalue := value?_of_slots hslots
      have hself : h'.value? (.cell i) = some v := by
        rw [hvalue, r.value?_self]
        rfl
      have grows : h.Grows h' := fun hw => (hvalue _).trans (r.grows hw)
      refine ⟨_, h', hreuse, grows.leaves acc c acc' ((t.fill r).of_slots hslots) hself
        (fun {m w} hw => ?_) fun s => ⟨?_, ?_⟩, grows, hself⟩
      · by_cases hm : m = .cell i
        · subst hm
          exact .inl (Option.some.inj (hw.symm.trans hself))
        · rw [hvalue, r.value?_other hm] at hw
          exact .inr hw
      · have := reuse_tidy (t := .cell i) (v := v) s.tidy
        rwa [hreuse] at this
      · obtain ⟨rank, hrank⟩ := fill_ranked s.ranked acc hs
        exact ⟨rank, fun hw => hrank ((hvalue _).symm.trans hw)⟩

/-! ## Counting -/

/-- References to live cells can be taken. -/
theorem inc_leaves (gap : Prop) (ls : List Location) (acc : h.AccountedFor F) (t : h.Vacant T)
    (live : ∀ l ∈ ls, l ≠ .invalid → h.Live l) :
    ∃ h', h.inc ls = (.ok (), h') ∧ h'.AccountedFor (ls + F) ∧ h.Recounts h' ∧ h'.Vacant T ∧
      h.Upholds gap h' := by
  obtain ⟨h', hinc, acc', same⟩ := inc_accounted acc live
  exact ⟨h', hinc, acc', same, t.shrinks same.shrinks,
    fun s => s.shrinks same.shrinks (inc_tidy s.tidy) hinc, fun _ c => c.shrinks same.shrinks⟩

/-- References can be given up. -/
theorem dec_leaves (gap : Prop) {ls : List Location} (acc : h.AccountedFor (ls + F))
    (t : h.Vacant T) :
    ∃ h', h.dec ls = (.ok (), h') ∧ h'.AccountedFor F ∧ h.Shrinks h' ∧ h'.Vacant T ∧
      h.Upholds gap h' := by
  obtain ⟨h', hdec, acc', shrinks⟩ := dec_accounted acc
  exact ⟨h', hdec, acc', shrinks, t.shrinks shrinks,
    fun s => s.shrinks shrinks (dec_tidy s.tidy) hdec, fun _ c => c.shrinks shrinks⟩

/-- A reset leaves a token behind that is vacant together with the others. -/
theorem reset_leaves (gap : Prop) (acc : h.AccountedFor (.cell i ::ₘ F)) (t : h.Vacant T) :
    ∃ m h', h.reset (.cell i) = (.ok m, h') ∧ h'.AccountedFor F ∧ h.Shrinks h' ∧
      h'.Vacant (m ::ₘ T) ∧ h.Upholds gap h' := by
  have hlive : h.Live (.cell i) := acc.live_of_mem (Multiset.mem_cons_self _ _)
  obtain ⟨m, h', hreset, acc', shrinks, htoken⟩ := reset_accounted acc
  refine ⟨m, h', hreset, acc', shrinks, ?_,
    fun s => s.shrinks shrinks (reset_tidy s.tidy) hreset, fun _ c => c.shrinks shrinks⟩
  rcases htoken with rfl | ⟨rfl, hs⟩
  · exact (t.shrinks shrinks).cons_invalid
  · exact (t.shrinks shrinks).cons_cell (t.notMem_of_live hlive) hs

end Reclaim
