import Reclaim.Proofs.Heap.Data
import Reclaim.Proofs.Heap.Reach

/-!
# Structures that are built alike

Two heaps may hold the same structure in different cells, with different sharing and next to other
cells.  Locations of the two are alike if their values have the same shape and their parts are alike
(`Heap.Alike`).  Alike locations have the same datum (`Alike.snapshot`).  They stay alike when one heap
grows and the other keeps what can be reached (`Alike.frame`).
-/

namespace Reclaim

/-- Maps with the same keys whose values are related have related values under each key. -/
theorem OrderedMap.get?_rel {κ ν : Type} [BEq κ] {R : ν → ν → Prop} {m₁ m₂ : OrderedMap κ ν}
    (hk : m₁.keys = m₂.keys) (hv : List.Forall₂ R m₁.values m₂.values) (k : κ) :
    Option.Rel R (m₁.get? k) (m₂.get? k) := by
  rw [keys, keys] at hk
  rw [values, values] at hv
  rw [get?, get?]
  generalize m₁.entries = es₁ at hk hv
  generalize m₂.entries = es₂ at hk hv
  induction es₁ generalizing es₂ with
  | nil =>
      cases es₂ with
      | nil => exact .none
      | cons e₂ rest₂ => cases hk
  | cons e₁ rest₁ ih =>
      cases es₂ with
      | nil => cases hk
      | cons e₂ rest₂ =>
          obtain ⟨hkey, hkeys⟩ : e₁.1 = e₂.1 ∧ _ := List.cons.inj hk
          obtain ⟨hhead, hrest⟩ := List.forall₂_cons.1 hv
          rw [List.find?_cons, List.find?_cons, hkey]
          cases e₂.1 == k with
          | true => exact .some hhead
          | false => exact ih rest₂ hkeys hrest

namespace Heap

variable {h₁ h₂ h₁' h₂' : Heap} {F : Multiset Location} {l₁ l₂ : Location} {v₁ v₂ : Value}
  {ls₁ ls₂ : List Location}

/-- The structures at a location of one heap and at a location of another are built alike. -/
inductive Alike (h₁ h₂ : Heap) : Location → Location → Prop where
  | intro {l₁ l₂ : Location} {v₁ v₂ : Value} :
      h₁.value? l₁ = some v₁ → h₂.value? l₂ = some v₂ → v₁.shape = v₂.shape →
      (∀ {m₁ m₂}, (m₁, m₂) ∈ v₁.children.zip v₂.children → Alike h₁ h₂ m₁ m₂) →
      Alike h₁ h₂ l₁ l₂

/-- The parts of values of the same shape are as many. -/
theorem length_children_eq (hs : v₁.shape = v₂.shape) :
    v₁.children.length = v₂.children.length := by
  rw [v₁.length_children, v₂.length_children, hs]

/-- Locations that are read alike one by one are read alike within a common bound. -/
theorem readWithin_all (hm : List.Forall₂ (fun m₁ m₂ => ∃ n d,
      h₁.readWithin n m₁ = .ok d ∧ h₂.readWithin n m₂ = .ok d) ls₁ ls₂) :
    ∃ n ds, List.Forall₂ (fun m d => h₁.readWithin n m = .ok d) ls₁ ds ∧
      List.Forall₂ (fun m d => h₂.readWithin n m = .ok d) ls₂ ds := by
  induction hm with
  | nil => exact ⟨0, [], .nil, .nil⟩
  | cons hd _ ih =>
      obtain ⟨n, d, hd₁, hd₂⟩ := hd
      obtain ⟨k, ds, hds₁, hds₂⟩ := ih
      have hn := Nat.le_max_left n k
      have hk := Nat.le_max_right n k
      exact ⟨max n k, d :: ds,
        .cons (readWithin_mono hd₁ hn) (hds₁.imp fun _ _ hx => readWithin_mono hx hk),
        .cons (readWithin_mono hd₂ hn) (hds₂.imp fun _ _ hx => readWithin_mono hx hk)⟩

/-- Values of one shape whose parts are alike. -/
structure Similar (h₁ h₂ : Heap) (v₁ v₂ : Value) : Prop where
  /-- What they are apart from their parts. -/
  shape : v₁.shape = v₂.shape
  /-- Their parts, one by one. -/
  parts : List.Forall₂ (Alike h₁ h₂) v₁.children v₂.children

theorem Similar.alike (s : Similar h₁ h₂ v₁ v₂) (hv₁ : h₁.value? l₁ = some v₁)
    (hv₂ : h₂.value? l₂ = some v₂) : Alike h₁ h₂ l₁ l₂ :=
  .intro hv₁ hv₂ s.shape (List.forall₂_iff_zip.1 s.parts).2

namespace Alike

theorem similar (a : Alike h₁ h₂ l₁ l₂) :
    ∃ v₁ v₂, h₁.value? l₁ = some v₁ ∧ h₂.value? l₂ = some v₂ ∧ Similar h₁ h₂ v₁ v₂ := by
  obtain ⟨hv₁, hv₂, hs, hm⟩ := a
  exact ⟨_, _, hv₁, hv₂, hs, List.forall₂_iff_zip.2 ⟨length_children_eq hs, hm⟩⟩

/-- Alike locations are those of two closures of one function or of two records with the same tag
and the same fields. -/
theorem closure_or_record (a : Alike h₁ h₂ l₁ l₂) :
    (∃ target args₁ args₂, h₁.value? l₁ = some (.closure target args₁) ∧
      h₂.value? l₂ = some (.closure target args₂) ∧ List.Forall₂ (Alike h₁ h₂) args₁ args₂) ∨
    ∃ tag fields₁ fields₂, h₁.value? l₁ = some (.record tag fields₁) ∧
      h₂.value? l₂ = some (.record tag fields₂) ∧ fields₁.keys = fields₂.keys ∧
        List.Forall₂ (Alike h₁ h₂) fields₁.values fields₂.values := by
  obtain ⟨v₁, v₂, hv₁, hv₂, hs, hparts⟩ := a.similar
  cases v₁ with
  | closure target args₁ =>
      cases v₂ with
      | closure target' args₂ =>
          obtain ⟨rfl, -⟩ := Shape.closure.inj hs
          exact .inl ⟨_, _, _, hv₁, hv₂, hparts⟩
      | record tag fields₂ => cases hs
  | record tag fields₁ =>
      cases v₂ with
      | closure target args₂ => cases hs
      | record tag' fields₂ =>
          obtain ⟨rfl, hkeys⟩ := Shape.record.inj hs
          exact .inr ⟨_, _, _, hv₁, hv₂, hkeys, hparts⟩

theorem live_left (a : Alike h₁ h₂ l₁ l₂) : h₁.Live l₁ := by
  obtain ⟨hv₁, -, -, -⟩ := a
  exact ⟨_, hv₁⟩

theorem live_right (a : Alike h₁ h₂ l₁ l₂) : h₂.Live l₂ := by
  obtain ⟨-, hv₂, -, -⟩ := a
  exact ⟨_, hv₂⟩

/-- Locations that are alike one by one are live on both sides. -/
theorem live_all (as : List.Forall₂ (Alike h₁ h₂) ls₁ ls₂) :
    (∀ l ∈ ls₁, h₁.Live l) ∧ ∀ l ∈ ls₂, h₂.Live l := by
  induction as with
  | nil => exact ⟨nofun, nofun⟩
  | cons a _ ih =>
      exact ⟨List.forall_mem_cons.2 ⟨a.live_left, ih.1⟩,
        List.forall_mem_cons.2 ⟨a.live_right, ih.2⟩⟩

theorem ne_invalid (a : Alike h₁ h₂ l₁ l₂) : l₂ ≠ .invalid := by
  rintro rfl
  obtain ⟨-, hv₂, -, -⟩ := a
  cases hv₂

theorem exists_left (as : List.Forall₂ (Alike h₁ h₂) ls₁ ls₂) (hl : l₂ ∈ ls₂) :
    ∃ l₁, Alike h₁ h₂ l₁ l₂ := by
  induction as with
  | nil => cases hl
  | cons a _ ih =>
      rcases List.mem_cons.1 hl with rfl | hl
      · exact ⟨_, a⟩
      · exact ih hl

/-- Whatever can be reached from locations that are alike one by one is alike to something. -/
theorem of_reachable (as : List.Forall₂ (Alike h₁ h₂) ls₁ ls₂) (r : h₂.Reachable ls₂ l₂) :
    ∃ l₁, Alike h₁ h₂ l₁ l₂ := by
  induction r with
  | held hl => exact exists_left as (Multiset.mem_coe.1 hl)
  | child _ hv hm ih =>
      obtain ⟨l₁, a⟩ := ih
      obtain ⟨v₁, v₂, -, hv₂, similar⟩ := a.similar
      obtain rfl := Option.some.inj (hv₂.symm.trans hv)
      exact exists_left similar.parts hm

/-- What is built alike stays so when one heap grows and the other keeps what can be reached. -/
theorem frame (a : Alike h₁ h₂ l₁ l₂) (g : h₁.Grows h₁') (k : h₂.Keeps F h₂')
    (r : h₂.Reachable F l₂) : Alike h₁' h₂' l₁ l₂ := by
  induction a with
  | intro hv₁ hv₂ hs _ ih =>
      refine .intro (g hv₁) ((k r).trans hv₂) hs fun hm => ih hm ?_
      exact .child r hv₂ (List.of_mem_zip hm).2

theorem grow (a : Alike h₁ h₂ l₁ l₂) (g₁ : h₁.Grows h₁') (g₂ : h₂.Grows h₂') :
    Alike h₁' h₂' l₁ l₂ := by
  induction a with
  | intro hv₁ hv₂ hs _ ih => exact .intro (g₁ hv₁) (g₂ hv₂) hs ih

/-- What is built alike has the same datum. -/
theorem readWithin (a : Alike h₁ h₂ l₁ l₂) :
    ∃ n d, h₁.readWithin n l₁ = .ok d ∧ h₂.readWithin n l₂ = .ok d := by
  induction a with
  | @intro l₁ l₂ v₁ v₂ hv₁ hv₂ hs _ ih =>
      obtain ⟨n, ds, hds₁, hds₂⟩ := readWithin_all
        (List.forall₂_iff_zip.2 ⟨length_children_eq hs, fun hm => ih hm⟩)
      refine ⟨n + 1, v₁.shape.datum ds, readWithin_eq_ok_iff.2 ⟨v₁, ds, hv₁, hds₁, rfl⟩, ?_⟩
      exact readWithin_eq_ok_iff.2 ⟨v₂, ds, hv₂, hds₂, by rw [hs]⟩

theorem snapshot (a : Alike h₁ h₂ l₁ l₂) :
    ∃ d, h₁.snapshot l₁ = .ok d ∧ h₂.snapshot l₂ = .ok d := by
  obtain ⟨n, d, hd₁, hd₂⟩ := a.readWithin
  exact ⟨d, snapshot_of_readWithin hd₁, snapshot_of_readWithin hd₂⟩

end Alike

end Heap

end Reclaim
