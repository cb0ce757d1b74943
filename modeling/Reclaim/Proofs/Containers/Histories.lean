import Reclaim.Proofs.Containers.Entries

/-!
# What a list of entries records

A keyed collection is used through insertions and removals.  What it should hold is read off the
*history* of these events and not off the collection: a key has the value of its last insertion, unless
it was removed since (`lastGiven`), and it stands where it first came in since its last removal
(`CameIn`).  A list of entries *records* a history when it lists the keys that have a value, each with
that value and in the order in which they came in (`Records`).

An insertion and a removal each keep this (`Records.insert`, `Records.remove`), as long as the keys are
different.  This is all that maps and sets need: a set is a collection whose values carry nothing.

Keys are compared by `==`, which may be coarser than equality.  The listed key is the one that was
inserted when the key came in.
-/

namespace Reclaim

/-! ## Histories -/

/-- One event in the life of a keyed collection. -/
inductive Event (κ ν : Type) where
  /-- The key is given a value. -/
  | insert (k : κ) (v : ν)
  /-- The key loses its value, if it has one. -/
  | remove (k : κ)

namespace Event

variable {κ ν : Type} [BEq κ]

/-- Whether the event concerns the key `k`. -/
def concerns (k : κ) : Event κ ν → Bool
  | insert j _ => j == k
  | remove j => j == k

/-- Whether the event removes the key `k`. -/
def removes (k : κ) : Event κ ν → Bool
  | insert _ _ => false
  | remove j => j == k

/-- The value that the event leaves at its key. -/
def left? : Event κ ν → Option ν
  | insert _ v => some v
  | remove _ => none

end Event

section Histories

variable {κ ν : Type} [BEq κ]

/-- The value of the last insertion of `k`, if `k` was not removed since. -/
def lastGiven (h : List (Event κ ν)) (k : κ) : Option ν :=
  (h.findRev? fun e => e.concerns k).bind Event.left?

/-- The key `k` came in with event number `i`: it was inserted there while it had no value, and it was
not removed since. -/
inductive CameIn : List (Event κ ν) → κ → Nat → Prop
  | intro {past future : List (Event κ ν)} {k : κ} {v : ν} (absent : lastGiven past k = none)
      (kept : ∀ e ∈ future, e.removes k = false) :
      CameIn (past ++ .insert k v :: future) k past.length

/-- The key `a` came in before the key `b`. -/
def CameBefore (h : List (Event κ ν)) (a b : κ) : Prop :=
  ∃ i j, CameIn h a i ∧ CameIn h b j ∧ i < j

variable {h : List (Event κ ν)} {e : Event κ ν} {a b k : κ} {v : ν} {i : Nat}

@[simp] theorem lastGiven_nil : lastGiven ([] : List (Event κ ν)) k = none := rfl

theorem lastGiven_concat :
    lastGiven (h ++ [e]) k = if e.concerns k then e.left? else lastGiven h k := by
  unfold lastGiven
  rw [List.findRev?_eq_find?_reverse, List.reverse_concat, List.find?_cons,
    ← List.findRev?_eq_find?_reverse]
  cases e.concerns k <;> rfl

@[simp] theorem lastGiven_insert :
    lastGiven (h ++ [.insert a v]) k = if a == k then some v else lastGiven h k :=
  lastGiven_concat

@[simp] theorem lastGiven_remove :
    lastGiven (h ++ [.remove a]) k = if a == k then none else lastGiven h k :=
  lastGiven_concat

/-- Equal keys have the same value. -/
theorem lastGiven_congr [EquivBEq κ] (hab : (a == b) = true) : lastGiven h a = lastGiven h b := by
  have : (fun e : Event κ ν => e.concerns a) = fun e => e.concerns b := by
    funext e
    cases e <;> exact BEq.congr_right hab
  rw [lastGiven, lastGiven, this]

theorem CameIn.lt_length (hk : CameIn h k i) : i < h.length := by
  cases hk
  simp

/-- What came in stays in as long as it is not removed. -/
theorem CameIn.concat (hk : CameIn h k i) (he : e.removes k = false) : CameIn (h ++ [e]) k i := by
  cases hk with
  | @intro past future _ v absent kept =>
      rw [List.append_assoc, List.cons_append]
      refine .intro absent fun d hd => ?_
      rcases List.mem_append.1 hd with hd | hd
      · exact kept d hd
      · rwa [List.mem_singleton.1 hd]

theorem CameIn.last (absent : lastGiven h k = none) : CameIn (h ++ [.insert k v]) k h.length :=
  .intro absent (by simp)

theorem CameBefore.concat (hab : CameBefore h a b) (ha : e.removes a = false)
    (hb : e.removes b = false) : CameBefore (h ++ [e]) a b := by
  obtain ⟨i, j, hi, hj, hij⟩ := hab
  exact ⟨i, j, hi.concat ha, hj.concat hb, hij⟩

/-! ## Records -/

/-- The entries `es` are what the history `h` leaves. -/
structure Records (h : List (Event κ ν)) (es : List (κ × ν)) : Prop where
  /-- A listed key came in. -/
  came : ∀ e ∈ es, ∃ i, CameIn h e.1 i
  /-- It has the value that it was given last. -/
  value : ∀ e ∈ es, lastGiven h e.1 = some e.2
  /-- Every key that has a value is listed. -/
  complete : ∀ k v, lastGiven h k = some v → ∃ e ∈ es, (e.1 == k) = true
  /-- The keys are listed in the order in which they came in. -/
  order : es.Pairwise fun d e => CameBefore h d.1 e.1

namespace Records

variable {es : List (κ × ν)}

theorem nil : Records ([] : List (Event κ ν)) [] where
  came := by simp
  value := by simp
  complete := by simp
  order := .nil

/-- A key without an entry has no value. -/
theorem absent (hr : Records h es) (hk : ∀ e ∈ es, (e.1 == k) = false) : lastGiven h k = none := by
  cases hv : lastGiven h k with
  | none => rfl
  | some v =>
      obtain ⟨e, he, hek⟩ := hr.complete k v hv
      simp [hk e he] at hek

/-- A key with a value is found, and with that value. -/
theorem find? [EquivBEq κ] (hr : Records h es) (k : κ) :
    (es.find? fun e => e.1 == k).map (·.2) = lastGiven h k := by
  cases hfind : es.find? fun e => e.1 == k with
  | none =>
      rw [hr.absent fun e he => Bool.not_eq_true _ ▸ List.find?_eq_none.1 hfind e he]
      rfl
  | some e =>
      have hek := List.find?_some (p := fun e : κ × ν => e.1 == k) hfind
      rw [← lastGiven_congr hek, hr.value e (List.mem_of_find?_eq_some hfind)]
      rfl

section Steps

variable [EquivBEq κ] (hr : Records h es) (hes : es.Pairwise Apart)

include hr

/-- A key that is not listed comes in last. -/
theorem append (hk : ∀ e ∈ es, (e.1 == k) = false) :
    Records (h ++ [.insert k v]) (es ++ [(k, v)]) where
  came e he := by
    rcases List.mem_append.1 he with he | he
    · exact (hr.came e he).imp fun _ hi => hi.concat rfl
    · rw [List.mem_singleton.1 he]
      exact ⟨_, .last (hr.absent hk)⟩
  value e he := by
    rcases List.mem_append.1 he with he | he
    · simp [BEq.symm_false (hk e he), hr.value e he]
    · simp [List.mem_singleton.1 he]
  complete j w hw := by
    by_cases hkj : (k == j) = true
    · exact ⟨(k, v), by simp, hkj⟩
    · obtain ⟨e, he, hej⟩ := hr.complete j w (by simpa [hkj] using hw)
      exact ⟨e, by simp [he], hej⟩
  order := by
    refine List.pairwise_append.2 ⟨?_, List.pairwise_singleton _ _, ?_⟩
    · exact hr.order.imp fun hde => hde.concat rfl rfl
    · intro d hd e he
      rw [List.mem_singleton.1 he]
      obtain ⟨i, hi⟩ := hr.came d hd
      exact ⟨i, h.length, hi.concat rfl, .last (hr.absent hk), hi.lt_length⟩

/-- A key that is listed keeps its place. -/
theorem replace {e : κ × ν} (he : e ∈ es) (hek : (e.1 == k) = true) :
    Records (h ++ [.insert k v]) (es.map fun d => if d.1 == k then (d.1, v) else d) := by
  have hkey : ∀ d : κ × ν, (if d.1 == k then (d.1, v) else d).1 = d.1 := by
    intro d
    split <;> rfl
  constructor
  case came =>
    intro c hc
    obtain ⟨d, hd, rfl⟩ := List.mem_map.1 hc
    rw [hkey]
    exact (hr.came d hd).imp fun _ hi => hi.concat rfl
  case value =>
    intro c hc
    obtain ⟨d, hd, rfl⟩ := List.mem_map.1 hc
    rw [hkey, lastGiven_insert, BEq.comm (a := k)]
    by_cases hdk : (d.1 == k) = true
    · simp [hdk]
    · simp [hdk, hr.value d hd]
  case complete =>
    intro j w hw
    have hmem : ∀ d ∈ es, (d.1 == j) = true →
        ∃ c ∈ es.map (fun d => if d.1 == k then (d.1, v) else d), (c.1 == j) = true :=
      fun d hd hdj => ⟨_, List.mem_map_of_mem hd, by rwa [hkey]⟩
    by_cases hkj : (k == j) = true
    · exact hmem e he (BEq.trans hek hkj)
    · obtain ⟨d, hd, hdj⟩ := hr.complete j w (by simpa [hkj] using hw)
      exact hmem d hd hdj
  case order =>
    refine List.pairwise_map.2 (hr.order.imp fun hde => ?_)
    rw [hkey, hkey]
    exact hde.concat rfl rfl

include hes

theorem insert : Records (h ++ [.insert k v]) (putEntry k v es) := by
  by_cases hk : ∃ e ∈ es, (e.1 == k) = true
  · obtain ⟨e, he, hek⟩ := hk
    rw [putEntry_of_mem hes he hek]
    exact hr.replace he hek
  · have hk : ∀ e ∈ es, (e.1 == k) = false := by simpa using hk
    rw [OrderedMap.putEntry_of_apart hk]
    exact hr.append hk

theorem remove : Records (h ++ [.remove k]) (es.eraseP fun e => e.1 == k) := by
  rw [eraseP_of_apart hes]
  have hother : ∀ {e}, e ∈ es.filter (fun e => !(e.1 == k)) → e ∈ es ∧ (k == e.1) = false := by
    intro e he
    rw [List.mem_filter, Bool.not_eq_true'] at he
    exact he.imp_right BEq.symm_false
  constructor
  case came =>
    intro e he
    exact (hr.came e (hother he).1).imp fun _ hi => hi.concat (hother he).2
  case value =>
    intro e he
    simp [(hother he).2, hr.value e (hother he).1]
  case complete =>
    intro j w hw
    by_cases hkj : (k == j) = true
    · simp [hkj] at hw
    · obtain ⟨e, he, hej⟩ := hr.complete j w (by simpa [hkj] using hw)
      have hek : ¬ (e.1 == k) = true := fun hek => hkj (BEq.trans (BEq.symm hek) hej)
      exact ⟨e, by simp [he, hek], hej⟩
  case order =>
    refine (hr.order.sublist List.filter_sublist).imp_of_mem fun hd he hde => ?_
    exact hde.concat (hother hd).2 (hother he).2

end Steps

end Records

end Histories

end Reclaim
