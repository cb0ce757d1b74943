import Reclaim.Proofs.Heap.Leaks
import Reclaim.Proofs.Heap.Rebuilding
import Reclaim.Proofs.Matching

/-!
# One heap behind another

A heap can hold the cells of another one, `base`, in its first slots and do its own work behind them.
Compared with a heap that does the same work on its own, every location is then moved past the slots of
`base` (`Heap.past`), and there is nothing else to tell the two apart (`Heap.Behind`).  Names in cells
may also stand at other places.

Every operation on heaps that stand so, at locations that correspond, comes to corresponding ends
(`Parallel`): it succeeds or fails on both, a failure is reported for corresponding locations, and
the heaps still stand so.  It does not matter whether a location that it is given leads to a live cell,
to an empty slot or to no slot: a location that is moved past `base` never leads to a slot of `base`.
-/

namespace Reclaim

open Reclaim.Core

variable {R : Span → Span → Prop} {σ : Location → Location} {kind : NameKind}

/-! ## Locations under names -/

/-- The entries have matching names, and the location of the second is that of the first, moved. -/
structure EntryMatches (R : Span → Span → Prop) (σ : Location → Location)
    (e e' : Name kind × Location) : Prop where
  /-- The name. -/
  name : e.1.Matches R e'.1
  /-- The location. -/
  location : e'.2 = σ e.2

/-- The entries match one by one. -/
abbrev EntriesMatch (R : Span → Span → Prop) (σ : Location → Location) :
    List (Name kind × Location) → List (Name kind × Location) → Prop :=
  List.Forall₂ (EntryMatches R σ)

namespace EntriesMatch

variable {es es' : List (Name kind × Location)} {k k' : Name kind}

theorem map_snd (m : EntriesMatch R σ es es') : es'.map (·.2) = (es.map (·.2)).map σ := by
  induction m with
  | nil => rfl
  | cons he _ ih => rw [List.map_cons, List.map_cons, List.map_cons, he.location, ih]

theorem eq_map (m : EntriesMatch Eq σ es es') : es' = es.map fun e => (e.1, σ e.2) := by
  induction m with
  | nil => rfl
  | cons he _ ih => rw [List.map_cons, ← ih, he.name.eq, ← he.location]

/-- Under matching names there are corresponding locations. -/
theorem find? (m : EntriesMatch R σ es es') (hk : k.Matches R k') :
    (es'.find? fun e => e.1 == k').map (·.2)
      = ((es.find? fun e => e.1 == k).map (·.2)).map σ := by
  rcases rel_cases (rel_find? m fun e e' he => he.name.beq hk) with
    ⟨hnone, hnone'⟩ | ⟨e, e', he, he', hmatch⟩
  · rw [hnone, hnone']
    rfl
  · rw [he, he']
    exact congrArg some hmatch.location

theorem zip {ks ks' : List (Name kind)} (hks : List.Forall₂ (Name.Matches R) ks ks')
    (ls : List Location) : EntriesMatch R σ (ks.zip ls) (ks'.zip (ls.map σ)) := by
  induction hks generalizing ls with
  | nil => exact .nil
  | cons hk _ ih =>
      cases ls with
      | nil => exact .nil
      | cons l rest => exact .cons ⟨hk, rfl⟩ (ih rest)

theorem putEntry {l : Location} (m : EntriesMatch R σ es es') (hk : k.Matches R k') :
    EntriesMatch R σ (putEntry k l es) (putEntry k' (σ l) es') := by
  induction m with
  | nil => exact .cons ⟨hk, rfl⟩ .nil
  | @cons e e' _ _ he hrest ih =>
      rw [Reclaim.putEntry, Reclaim.putEntry, he.name.beq hk]
      cases e'.1 == k' with
      | true => exact .cons ⟨he.name, rfl⟩ hrest
      | false => exact .cons he ih

/-- Maps that are built from matching lists have matching entries. -/
theorem ofList (m : EntriesMatch R σ es es') :
    EntriesMatch R σ (OrderedMap.ofList es).entries (OrderedMap.ofList es').entries := by
  unfold OrderedMap.ofList
  -- This holds of any two maps that the entries are added to, if they match already.
  suffices ∀ fs gs : OrderedMap (Name kind) Location, EntriesMatch R σ fs.entries gs.entries →
      EntriesMatch R σ (es.foldl (fun m e => m.insert e.1 e.2) fs).entries
        (es'.foldl (fun m e => m.insert e.1 e.2) gs).entries from
    this _ _ .nil
  induction m with
  | nil => exact fun _ _ hm => hm
  | cons he _ ih =>
      intro fs gs hm
      refine ih _ _ ?_
      rw [OrderedMap.entries_insert, OrderedMap.entries_insert, he.location]
      exact hm.putEntry he.name

end EntriesMatch

/-! ## Values and cells -/

/-- The values are of the same kind, with matching names.  The locations of the second are those of
the first, moved, in the same order. -/
inductive Value.Matches (R : Span → Span → Prop) (σ : Location → Location) : Value → Value → Prop where
  | closure {f g : FnName} {args : List Location} : f.Matches R g →
      Value.Matches R σ (.closure f args) (.closure g (args.map σ))
  | record {t u : Tag} {fs gs : OrderedMap Field Location} : t.Matches R u →
      EntriesMatch R σ fs.entries gs.entries → Value.Matches R σ (.record t fs) (.record u gs)

/-- The cells have the same count and matching values. -/
structure Cell.Matches (R : Span → Span → Prop) (σ : Location → Location) (c c' : Cell) : Prop where
  /-- The count. -/
  count : c'.count = c.count
  /-- The value. -/
  value : c.value.Matches R σ c'.value

theorem Value.Matches.children {v v' : Value} (m : v.Matches R σ v') :
    v'.children = v.children.map σ := by
  cases m with
  | closure _ => rfl
  | record _ hentries => exact hentries.map_snd

/-- If names match only when they are equal, the second value is the first one, moved. -/
theorem Value.Matches.eq_relocate {v v' : Value} (m : v.Matches Eq σ v') : v' = v.relocate σ := by
  cases m with
  | closure hname => rw [relocate, hname.eq]
  | @record t u fs gs htag hentries =>
      obtain ⟨entries, distinct⟩ := gs
      obtain rfl : entries = _ := hentries.eq_map
      rw [relocate, htag.eq]
      rfl

theorem Cell.Matches.eq_relocate {c c' : Cell} (m : c.Matches Eq σ c') : c' = c.relocate σ := by
  obtain ⟨n, v⟩ := c'
  obtain rfl : n = c.count := m.count
  obtain rfl : v = c.value.relocate σ := m.value.eq_relocate
  rfl

/-! ## Heaps that correspond -/

/-- What has been done altogether. -/
instance : Add HeapStats :=
  ⟨fun s t => ⟨s.allocations + t.allocations, s.reuses + t.reuses, s.frees + t.frees,
    s.declined + t.declined⟩⟩

namespace Heap

/-- The location past the slots of `base`.  The invalid location is no slot and stays. -/
def past (base : Heap) : Location → Location
  | .invalid => .invalid
  | .cell i => .cell (base.slots.size + i)

/-- The slots of `h'` are those of `base`, as they are there, and behind them those of `h`, with
corresponding cells.  Cells are counted, and work is, on top of what `base` says. -/
structure Behind (R : Span → Span → Prop) (base h h' : Heap) : Prop where
  /-- The number of live cells of `h` is kept right. -/
  tidy : h.Tidy
  /-- The number of slots. -/
  size : h'.slots.size = base.slots.size + h.slots.size
  /-- The slots of `base`. -/
  front : ∀ i < base.slots.size, h'.slots.get? i = base.slots.get? i
  /-- The slots behind them. -/
  slots : ∀ i, Option.Rel (Option.Rel (Cell.Matches R base.past)) (h.slots.get? i)
    (h'.slots.get? (base.slots.size + i))
  /-- The number of live cells. -/
  live : h'.live = base.live + h.live
  /-- What has been done. -/
  stats : h'.stats = base.stats + h.stats

/-- The outcomes are both results or both failures, related in either case, and leave heaps that stand
one behind `base`. -/
inductive Parallel {α α' ε ε' : Type} (R : Span → Span → Prop) (base : Heap) (E : ε → ε' → Prop)
    (A : α → α' → Prop) : Except ε α × Heap → Except ε' α' × Heap → Prop where
  | ok {a : α} {a' : α'} {h h' : Heap} : A a a' → Behind R base h h' →
      Parallel R base E A (.ok a, h) (.ok a', h')
  | error {e : ε} {e' : ε'} {h h' : Heap} : E e e' → Behind R base h h' →
      Parallel R base E A (.error e, h) (.error e', h')

/-- The second location is the first one, moved. -/
def Moved (base : Heap) (l l' : Location) : Prop := l' = base.past l

/-- The second failure is the first one, at a location that is moved. -/
def Misses (base : Heap) (e e' : MissingCell) : Prop := base.Moved e.location e'.location

variable {base h h' h₁ h₁' : Heap} {i : Nat} {l : Location} {ls : List Location}
  {v v' : Value} {c c' : Cell} {old old' new new' : Option Cell}

/-- A heap without cells stands behind `base` in `base` itself. -/
theorem behind_empty (R : Span → Span → Prop) (base : Heap) : Behind R base .empty base where
  tidy := tidy_empty
  size := rfl
  front _ _ := rfl
  slots i := by
    have hnone : base.slots.get? (base.slots.size + i) = none := by
      simp [Numbered.get?, Numbered.size]
    rw [hnone, Heap.empty, Numbered.get?_empty]
    exact .none
  live := rfl
  stats := rfl

namespace Behind

/-- A number is that of a slot in both heaps or in neither, and the slot is empty in both or holds
corresponding cells. -/
theorem slot_cases (b : Behind R base h h') (i : Nat) :
    (h.slots.get? i = none ∧ h'.slots.get? (base.slots.size + i) = none) ∨
      (h.slots.get? i = some none ∧ h'.slots.get? (base.slots.size + i) = some none) ∨
      ∃ c c', h.slots.get? i = some (some c) ∧
        h'.slots.get? (base.slots.size + i) = some (some c') ∧ c.Matches R base.past c' := by
  rcases rel_cases (b.slots i) with hnone | ⟨slot, slot', hs, hs', hslot⟩
  · exact .inl hnone
  · rw [hs, hs']
    rcases rel_cases hslot with ⟨rfl, rfl⟩ | ⟨c, c', rfl, rfl, m⟩
    · exact .inr (.inl ⟨rfl, rfl⟩)
    · exact .inr (.inr ⟨c, c', rfl, rfl, m⟩)

/-- A location has a cell in both heaps or in neither. -/
theorem cell?_cases (b : Behind R base h h') (l : Location) :
    (h.cell? l = none ∧ h'.cell? (base.past l) = none) ∨
      ∃ c c', h.cell? l = some c ∧ h'.cell? (base.past l) = some c' ∧ c.Matches R base.past c' := by
  cases l with
  | invalid => exact .inl ⟨rfl, rfl⟩
  | cell i =>
      rw [past, cell?, cell?]
      rcases b.slot_cases i with ⟨hs, hs'⟩ | ⟨hs, hs'⟩ | ⟨c, c', hs, hs', m⟩
      · rw [hs, hs']
        exact .inl ⟨rfl, rfl⟩
      · rw [hs, hs']
        exact .inl ⟨rfl, rfl⟩
      · rw [hs, hs']
        exact .inr ⟨c, c', rfl, rfl, m⟩

/-! ### Single changes -/

/-- Corresponding slots are replaced by corresponding ones. -/
theorem replace (b : Behind R base h h') (r : h.Replaces i old new h₁)
    (r' : h'.Replaces (base.slots.size + i) old' new' h₁')
    (m : Option.Rel (Cell.Matches R base.past) new new') (tidy : h₁.Tidy)
    (live : h₁'.live = base.live + h₁.live) (stats : h₁'.stats = base.stats + h₁.stats) :
    Behind R base h₁ h₁' where
  tidy := tidy
  size := by rw [r.size_eq, r'.size_eq, b.size]
  front j hj := by rw [r'.get?, if_neg (by omega), b.front j hj]
  slots j := by
    rw [r.get?, r'.get?]
    by_cases hj : i = j
    · rw [if_pos hj, if_pos (by omega)]
      exact .some m
    · rw [if_neg hj, if_neg (by omega)]
      exact b.slots j
  live := live
  stats := stats

theorem recount {n : Nat} (b : Behind R base h h') (hc : h.cell? (.cell i) = some c)
    (hc' : h'.cell? (base.past (.cell i)) = some c') (m : c.Matches R base.past c') (hn : 0 < n) :
    Behind R base (h.write i (some { c with count := n }))
      (h'.write (base.slots.size + i) (some { c' with count := n })) :=
  b.replace (replaces_write _ (get?_of_cell? hc)) (replaces_write _ (get?_of_cell? hc'))
    (.some ⟨rfl, m.value⟩) (recount_tidy b.tidy hc hn) b.live b.stats

theorem free (b : Behind R base h h') (hc : h.cell? (.cell i) = some c)
    (hc' : h'.cell? (base.past (.cell i)) = some c') :
    Behind R base (h.free i) (h'.free (base.slots.size + i)) := by
  refine b.replace (replaces_free (get?_of_cell? hc)) (replaces_free (get?_of_cell? hc')) .none
    (free_tidy b.tidy hc) ?_ ?_
  · -- There is a cell in `h`, so taking one away from the number of live cells does not stop at zero.
    have hpos := b.tidy.live_pos hc
    have hlive := b.live
    simp only [Heap.free]
    omega
  · simp only [Heap.free, b.stats]
    rfl

theorem fill (b : Behind R base h h') (hs : h.Spare i) (hs' : h'.Spare (base.slots.size + i))
    (m : v.Matches R base.past v') :
    Behind R base (h.fill i v) (h'.fill (base.slots.size + i) v') := by
  refine b.replace (replaces_fill v hs) (replaces_fill v' hs') (.some ⟨rfl, m⟩)
    (fill_tidy b.tidy hs) ?_ b.stats
  simp only [Heap.fill, b.live, Nat.add_assoc]

theorem overwrite (b : Behind R base h h') (hs : h.slots.get? i = some (some c))
    (hs' : h'.slots.get? (base.slots.size + i) = some (some c')) (mc : c.Matches R base.past c')
    (m : v.Matches R base.past v') :
    Behind R base (h.write i (some { c with value := v }))
      (h'.write (base.slots.size + i) (some { c' with value := v' })) := by
  have tidy : (h.set (.cell i) v).2.Tidy := set_tidy b.tidy
  simp only [Heap.set, hs] at tidy
  exact b.replace (replaces_write _ hs) (replaces_write _ hs') (.some ⟨mc.count, m⟩) tidy b.live
    b.stats

theorem alloc (b : Behind R base h h') (m : v.Matches R base.past v') :
    Behind R base (h.alloc v).2 (h'.alloc v').2 where
  tidy := alloc_tidy b.tidy v
  size := by
    simp only [Heap.alloc, Numbered.size_push, b.size]
    omega
  front j hj := by rw [get?_alloc, if_neg (by rw [b.size]; omega), b.front j hj]
  slots j := by
    rw [get?_alloc, get?_alloc, b.size]
    by_cases hj : j = h.slots.size
    · rw [if_pos hj, if_pos (by omega)]
      exact .some (.some ⟨rfl, m⟩)
    · rw [if_neg hj, if_neg (by omega)]
      exact b.slots j
  live := by simp only [Heap.alloc, b.live, Nat.add_assoc]
  stats := by
    simp only [Heap.alloc, b.stats]
    rfl

theorem alloc_location (b : Behind R base h h') (v v' : Value) :
    base.Moved (h.alloc v).1 (h'.alloc v').1 := by
  rw [Moved, alloc_fst, alloc_fst, past, b.size]

/-- What leaves the cells alone may be counted on both sides. -/
theorem count (b : Behind R base h h') (f : HeapStats → HeapStats)
    (hf : ∀ s, f (base.stats + s) = base.stats + f s) :
    Behind R base { h with stats := f h.stats } { h' with stats := f h'.stats } where
  tidy := ⟨b.tidy.live, b.tidy.counted⟩
  size := b.size
  front := b.front
  slots := b.slots
  live := b.live
  stats := by rw [b.stats, hf]

/-! ### Operations -/

theorem get (b : Behind R base h h') (l : Location) :
    Parallel R base base.Misses (Value.Matches R base.past) (h.get l, h)
      (h'.get (base.past l), h') := by
  rw [Heap.get, Heap.get, cell, cell]
  rcases b.cell?_cases l with ⟨hc, hc'⟩ | ⟨c, c', hc, hc', m⟩
  · rw [hc, hc']
    exact .error rfl b
  · rw [hc, hc']
    exact .ok m.value b

theorem inc (b : Behind R base h h') (ls : List Location) :
    Parallel R base base.Misses (fun _ _ => True) (h.inc ls) (h'.inc (ls.map base.past)) := by
  induction ls generalizing h h' with
  | nil => exact .ok trivial b
  | cons l rest ih =>
      cases l with
      | invalid => exact ih b
      | cell i =>
          rw [List.map_cons, past, Heap.inc, Heap.inc]
          rcases b.cell?_cases (.cell i) with ⟨hc, hc'⟩ | ⟨c, c', hc, hc', m⟩ <;>
            rw [past] at hc' <;> rw [hc, hc']
          · exact .error rfl b
          · dsimp only
            rw [m.count]
            exact ih (b.recount hc hc' m (Nat.succ_pos _))

theorem dec (b : Behind R base h h') (ls : List Location) :
    Parallel R base base.Misses (fun _ _ => True) (h.dec ls) (h'.dec (ls.map base.past)) := by
  induction h, ls using dec.induct generalizing h' with
  | case1 h =>
      rw [List.map_nil, Heap.dec, Heap.dec]
      exact .ok trivial b
  | case2 h rest ih =>
      rw [List.map_cons, past, Heap.dec, Heap.dec]
      exact ih b
  | case3 h i rest hc =>
      rcases b.cell?_cases (.cell i) with ⟨-, hc'⟩ | ⟨c, c', hc₁, -, -⟩
      · rw [dec_missing hc, List.map_cons, past, dec_missing hc']
        exact .error rfl b
      · rw [hc] at hc₁
        cases hc₁
  | case4 h i rest c hc hlt ih =>
      rcases b.cell?_cases (.cell i) with ⟨hc₁, -⟩ | ⟨c₁, c', hc₁, hc', m⟩
      · rw [hc] at hc₁
        cases hc₁
      · obtain rfl := Option.some.inj (hc.symm.trans hc₁)
        rw [dec_shared hc hlt, List.map_cons, past, dec_shared hc' (by rwa [m.count]), m.count]
        exact ih (b.recount hc hc' m (Nat.sub_pos_of_lt hlt))
  | case5 h i rest c hc hle ih =>
      rcases b.cell?_cases (.cell i) with ⟨hc₁, -⟩ | ⟨c₁, c', hc₁, hc', m⟩
      · rw [hc] at hc₁
        cases hc₁
      · obtain rfl := Option.some.inj (hc.symm.trans hc₁)
        rw [dec_unshared hc hle, List.map_cons, past, dec_unshared hc' (by rwa [m.count]),
          m.value.children, ← List.map_append]
        exact ih (b.free hc hc')

theorem reset (b : Behind R base h h') (l : Location) :
    Parallel R base base.Misses base.Moved (h.reset l)
      (h'.reset (base.past l)) := by
  rcases b.cell?_cases l with ⟨hc, hc'⟩ | ⟨c, c', hc, hc', m⟩
  · rw [reset_missing hc, reset_missing hc']
    exact .error rfl b
  · cases l with
    | invalid => cases hc
    | cell i =>
        have hdec := b.dec [.cell i]
        rw [List.map_singleton, past] at hdec
        by_cases hone : c.count = 1
        · -- With the last reference both resets do what `dec` does.
          rw [past, reset_unshared hc hone, reset_unshared hc' (m.count.trans hone)]
          generalize h.dec [.cell i] = o at hdec ⊢
          generalize h'.dec [.cell (base.slots.size + i)] = o' at hdec ⊢
          cases hdec with
          | ok _ b' => exact .ok rfl b'
          | error e b' => exact .error e b'
        · have hlt : 1 < c.count := by
            have := b.tidy.counted hc
            omega
          rw [past, reset_shared hc hlt, reset_shared hc' (by rwa [m.count])]
          generalize h.dec [.cell i] = o at hdec ⊢
          generalize h'.dec [.cell (base.slots.size + i)] = o' at hdec ⊢
          have b' : Behind R base o.2 o'.2 := by
            cases hdec with
            | ok _ b' => exact b'
            | error _ b' => exact b'
          exact .ok rfl (b'.count (fun s => { s with declined := s.declined + 1 }) fun _ => rfl)

theorem set (b : Behind R base h h') (l : Location) (m : v.Matches R base.past v') :
    Parallel R base base.Misses (fun _ _ => True) (h.set l v) (h'.set (base.past l) v') := by
  cases l with
  | invalid => exact .error rfl b
  | cell i =>
      rw [past, Heap.set, Heap.set]
      rcases b.slot_cases i with ⟨hs, hs'⟩ | ⟨hs, hs'⟩ | ⟨c, c', hs, hs', mc⟩
      · rw [hs, hs']
        exact .error rfl b
      · rw [hs, hs']
        exact .ok trivial (b.fill hs hs' m)
      · rw [hs, hs']
        exact .ok trivial (b.overwrite hs hs' mc m)

theorem reuse (b : Behind R base h h') (token : Location) (m : v.Matches R base.past v') :
    Parallel R base base.Misses base.Moved (h.reuse token v)
      (h'.reuse (base.past token) v') := by
  cases token with
  | invalid => exact .ok (b.alloc_location v v') (b.alloc m)
  | cell i =>
      have hset := b.set (.cell i) m
      rw [past] at hset ⊢
      rw [Heap.reuse, Heap.reuse]
      generalize h.set (.cell i) v = o at hset ⊢
      generalize h'.set (.cell (base.slots.size + i)) v' = o' at hset ⊢
      cases hset with
      | ok _ b' =>
          exact .ok rfl (b'.count (fun s => { s with reuses := s.reuses + 1 }) fun _ => rfl)
      | error e b' => exact .error e b'

end Behind

end Heap

end Reclaim
