import Reclaim.Eval.Result
import Reclaim.Proofs.Eval.Canonical
import Reclaim.Proofs.Eval.Conservation

/-!
# Transformed programs

What holds of every call of a function of a program whose memory management was made explicit, if no
function manages memory itself.  The heap may hold anything that is accounted for, and the caller may
hold references of its own.

The main statements are `call_conserves`, that a call exchanges the references to its arguments for
one to its result and nothing leaks, and `call_frame`, that nothing that others can reach is changed
and no heap operation fails, unless the arguments lead to the invalid location
(`exists_missing_location`).
-/

namespace Reclaim

open Reclaim.Core Reclaim.Counting Reclaim.Heap

variable {p : Program} {source entry : String} {E : Multiset Location} {h h' : Heap} {depth : Nat}
  {r : Location}

theorem balancedFns_insertCounts (hp : WellFormed p) (hm : Unmanaged p) :
    BalancedFns (insertCounts p) := by
  refine List.forall_mem_map.2 fun d hd => ?_
  have hcheck := checkFn_of_mem hp.valid hd
  exact ⟨(nodup_of_checkParams (both_eq_ok.1 hcheck).1).1, balanced_managedBody hcheck (hm d hd)⟩

/-- Calls of transformed functions conserve references. -/
theorem callFn_insertCounts (gap : Prop) (hp : WellFormed p) (hm : Unmanaged p) (depth : Nat) :
    Conserves gap (callFn (insertCounts p) depth) :=
  callFn_conserves gap (p := insertCounts p) hp.fields (balancedFns_insertCounts hp hm) depth

/-- A call, on a heap that is accounted for by references among which are those to the arguments.  Only
the arguments can lead it to the invalid location. -/
theorem call_meets (depth : Nat) (target : FnName) {args : List Location} (hp : WellFormed p)
    (hm : Unmanaged p) (acc : h.AccountedFor E) (hargs : (args : Multiset Location) ≤ E) :
    Meets (h.Reachable args .invalid) (Leaves (h.Reachable args .invalid) (E - args) 0 h)
      (callFn (insertCounts p) depth target args h) := by
  refine callFn_insertCounts _ hp hm depth ?_ ⟨nofun, by simp⟩ id
  rwa [add_tsub_cancel_of_le hargs]

theorem accountedFor_empty : Heap.empty.AccountedFor 0 := fun i => by simp [tally, slotTally]

theorem sound_empty : Heap.empty.Sound := ⟨tidy_empty, ⟨fun _ => 0, by simp⟩⟩

/-- A run is a call without arguments on the empty heap. -/
theorem run_eq_ok {q : Program} (hrun : run q depth entry .empty = (.ok r, h')) :
    ∃ d : FnDef, callFn q depth d.name [] .empty = (.ok r, h') := by
  unfold run at hrun
  cases hd : q.fn? ⟨entry, .none⟩ with
  | none =>
      rw [hd] at hrun
      cases hrun
  | some d =>
      rw [hd] at hrun
      dsimp only at hrun
      split at hrun
      · exact ⟨d, hrun⟩
      · cases hrun

/-- Giving up the last reference leaves no cell of a sound heap. -/
theorem dec_last (acc : h.AccountedFor {r}) (s : h.Sound) :
    ∃ h', h.dec [r] = (.ok (), h') ∧ h'.isEmpty = true ∧ ∀ l, h'.cell? l = none :=
  s.dec_all acc

/-! ## A shared pair -/

/-- A function that exchanges the fields of a pair, and one that calls it. -/
def swapSource : String :=
  "(deftype Pair a b) (deftype Unit)
  (defn swap (p) (case p Pair (let (x (proj a p) y (proj b p) q (new Pair y x)) (ret q))))
  (defn main () (let (u (new Unit) p (new Pair u u) q (swap p)) (ret q)))"

/-- A record without fields. -/
def unitRecord : Value := .record ⟨"Unit", .none⟩ .empty

/-- A record of the first two cells. -/
def pairRecord : Value :=
  .record ⟨"Pair", .none⟩ (.ofList [(⟨"a", .none⟩, .cell 0), (⟨"b", .none⟩, .cell 1)])

/-- A pair of two records. -/
def pairHeap : Heap := (((Heap.empty.alloc unitRecord).2.alloc unitRecord).2.alloc pairRecord).2

theorem accountedFor_pairHeap : pairHeap.AccountedFor {.cell 2} := by
  have acc₁ : (Heap.empty.alloc unitRecord).2.AccountedFor {.cell 0} :=
    alloc_accounted (v := unitRecord) (E := 0) accountedFor_empty
  have acc₂ :
      ((Heap.empty.alloc unitRecord).2.alloc unitRecord).2.AccountedFor {.cell 1, .cell 0} :=
    alloc_accounted (v := unitRecord) (E := {.cell 0}) acc₁
  have hparts : ({.cell 1, .cell 0} : Multiset Location) = pairRecord.children + 0 := by decide
  exact alloc_accounted (v := pairRecord) (E := 0) (hparts ▸ acc₂)

/-- A pair with two references to it. -/
def sharedPair : Heap := (pairHeap.inc [.cell 2]).2

theorem accountedFor_sharedPair : sharedPair.AccountedFor {.cell 2, .cell 2} := by
  have live : ∀ l ∈ [.cell 2], l ≠ .invalid → pairHeap.Live l := by
    rintro l hl -
    obtain rfl := List.mem_singleton.1 hl
    exact ⟨pairRecord, rfl⟩
  obtain ⟨h', hinc, acc, -⟩ := inc_accounted accountedFor_pairHeap live
  rw [sharedPair, hinc]
  exact acc

theorem closed_sharedPair : sharedPair.Closed := Heap.closed_iff.2 (by decide)

theorem exists_result {o : Except Halt Location × Heap} (ho : o.1.isOk = true) :
    ∃ l h, o = (.ok l, h) := by
  obtain ⟨e | l, h⟩ := o
  · cases ho
  · exact ⟨l, h, rfl⟩

set_option maxRecDepth 2000 in
/-- The program of the text is not managed and ends with a result, and so does the transformed program
and a call of its function for a pair that is shared. -/
theorem exists_swap : ∃ p, load swapSource = .ok p ∧ Unmanaged p ∧
    (∃ r h', run p 2 "main" .empty = (.ok r, h')) ∧
    (∃ r h', run (insertCounts p) 2 "main" .empty = (.ok r, h')) ∧
    ∃ r h', callFn (insertCounts p) 2 ⟨"swap", .none⟩ [.cell 2] sharedPair = (.ok r, h') := by
  obtain ⟨p, hload, hcheck⟩ : ∃ p, load swapSource = .ok p ∧ (decide (Unmanaged p)
      && (run p 2 "main" .empty).1.isOk && (run (insertCounts p) 2 "main" .empty).1.isOk
      && (callFn (insertCounts p) 2 ⟨"swap", .none⟩ [.cell 2] sharedPair).1.isOk) = true :=
    exists_load rfl (by decide +kernel)
  simp only [Bool.and_eq_true, decide_eq_true_eq] at hcheck
  obtain ⟨⟨⟨hm, hplain⟩, hrun⟩, hcall⟩ := hcheck
  exact ⟨p, hload, hm, exists_result hplain, exists_result hrun, exists_result hcall⟩

/-! ## An empty box -/

/-- A function that looks into a box. -/
def openSource : String :=
  "(deftype Unit) (deftype Box item)
  (defn open (x) (case x Box (let (y (proj item x)) (case y Unit (ret x)))))"

/-- A box with the invalid location in it. -/
def emptyBox : Value :=
  .record ⟨"Box", ⟨24, 27⟩⟩ (.ofList [(⟨"item", ⟨28, 32⟩⟩, .invalid)])

/-- An empty box and nothing else. -/
def boxHeap : Heap := (Heap.empty.alloc emptyBox).2

theorem accountedFor_boxHeap : boxHeap.AccountedFor {.cell 0} := by
  have hparts : emptyBox.children = [.invalid] := rfl
  refine alloc_accounted (v := emptyBox) (E := 0) fun i => ?_
  simp [hparts, tally, slotTally]

/-- The location without a cell that an outcome reports. -/
def missingAt : Except Halt Location → Option Location
  | .error (.fault (.missing m _)) => some m.location
  | _ => none

theorem missingAt_eq_some {o : Except Halt Location} {l : Location} (ho : missingAt o = some l) :
    ∃ s, o = .error (.fault (.missing ⟨l⟩ s)) := by
  unfold missingAt at ho
  split at ho
  · next m s =>
      obtain rfl := Option.some.inj ho
      exact ⟨s, rfl⟩
  · cases ho

/-- The program of the text is not managed, declares the box, and stops where it looks into it. -/
theorem exists_open : ∃ p s, load openSource = .ok p ∧ Unmanaged p ∧
    emptyBox.Canonical (insertCounts p) ∧
    (callFn (insertCounts p) 1 ⟨"open", .none⟩ [.cell 0] boxHeap).1 =
      .error (.fault (.missing ⟨.invalid⟩ s)) := by
  obtain ⟨p, hload, hcheck⟩ : ∃ p, load openSource = .ok p ∧ (decide (Unmanaged p)
      && (p.type? ⟨"Box", .none⟩).any (fun d => d.fields.map (fun x => (x.text, x.span))
        == [("item", ⟨28, 32⟩)])
      && decide (missingAt (callFn (insertCounts p) 1 ⟨"open", .none⟩ [.cell 0] boxHeap).1
        = some .invalid)) = true :=
    exists_load rfl (by decide +kernel)
  simp only [Bool.and_eq_true, decide_eq_true_eq, Option.any_eq_true, beq_iff_eq] at hcheck
  obtain ⟨⟨hm, d, hd, hfields⟩, hcall⟩ := hcheck
  have hinj : Function.Injective fun x : Field => (x.text, x.span) := by
    rintro ⟨t, s⟩ ⟨t', s'⟩ heq
    cases heq
    rfl
  have hkeys : [⟨"item", ⟨28, 32⟩⟩] = d.fields :=
    List.map_injective_iff.2 hinj hfields.symm
  obtain ⟨s, hmissing⟩ := missingAt_eq_some hcall
  exact ⟨p, s, hload, hm, ⟨d, hd, hkeys⟩, hmissing⟩

/-! ## Main statements -/

/-- Every call of a transformed function that comes to an end exchanges the references to its
arguments for one to its result, and if the heap is closed it stays so.  A result of a run from the
empty heap holds the last references: giving it up leaves no cell. -/
theorem call_conserves (hload : load source = .ok p) (hm : Unmanaged p) :
    (∀ {depth : Nat} {target : FnName} {args : List Location} {h : Heap} {E : Multiset Location}
      {r : Location} {h' : Heap}, h.AccountedFor E → (args : Multiset Location) ≤ E →
      callFn (insertCounts p) depth target args h = (.ok r, h') →
      h'.AccountedFor (r ::ₘ (E - args)) ∧
        (h.Closed → .invalid ∉ E → h'.Closed ∧ .invalid ∉ r ::ₘ (E - args))) ∧
    ∀ {depth : Nat} {entry : String} {r : Location} {h' : Heap},
      run (insertCounts p) depth entry .empty = (.ok r, h') → checkLeaks h' r = .ok () ∧
        ∃ h'', h'.dec [r] = (.ok (), h'') ∧ h''.isEmpty = true ∧ ∀ l, h''.cell? l = none := by
  have hp := wellFormed_of_load hload
  constructor
  · intro depth target args h E r h' acc hargs hcall
    have out := call_meets depth target hp hm acc hargs
    rw [hcall] at out
    refine ⟨out.accounted, fun hc hE => ?_⟩
    have hreach : ¬ h.Reachable args .invalid :=
      hc.not_reachable fun hl => hE (Multiset.mem_of_le hargs hl)
    refine ⟨out.upholds.closed hreach hc, fun hmem => ?_⟩
    rcases Multiset.mem_cons.1 hmem with hr | hmem
    · exact out.clear.invalid_notMem hreach (Multiset.mem_singleton.2 hr)
    · exact hE (Multiset.mem_of_le (Multiset.sub_le_self _ _) hmem)
  · intro depth entry r h' hrun
    obtain ⟨d, hcall⟩ := run_eq_ok hrun
    have hargs : (([] : List Location) : Multiset Location) ≤ 0 := le_rfl
    have out := call_meets depth d.name hp hm accountedFor_empty hargs
    rw [hcall] at out
    obtain ⟨h'', hdec, hempty, hnone⟩ := dec_last (r := r) (by simpa using out.accounted)
      (out.upholds.sound sound_empty)
    refine ⟨?_, h'', hdec, hempty, hnone⟩
    simp [checkLeaks, hdec, hempty]

/-- A pair that is shared is taken apart, and a run that does the same leaves nothing behind. -/
theorem call_conserves_swap : ∃ p r h', load swapSource = .ok p ∧ Unmanaged p ∧
    callFn (insertCounts p) 2 ⟨"swap", .none⟩ [.cell 2] sharedPair = (.ok r, h') ∧
    h'.AccountedFor (r ::ₘ {.cell 2}) ∧ h'.Closed ∧
    ∃ l h'', run (insertCounts p) 2 "main" .empty = (.ok l, h'') ∧ checkLeaks h'' l = .ok () := by
  obtain ⟨p, hload, hm, -, ⟨l, h'', hrun⟩, r, h', hcall⟩ := exists_swap
  have conserved := call_conserves hload hm
  have hargs : (([.cell 2] : List Location) : Multiset Location) ≤ {.cell 2, .cell 2} := by decide
  obtain ⟨acc, closed⟩ := conserved.1 accountedFor_sharedPair hargs hcall
  exact ⟨p, r, h', hload, hm, hcall, acc, (closed closed_sharedPair (by decide)).1, l, h'', hrun,
    (conserved.2 hrun).1⟩

/-- Every call of a transformed function leaves whatever is reachable from the other references as
it was.  Whether the call comes to an end or not, no operation meets a location without a cell, except
for the invalid location, and only if the arguments lead to it. -/
theorem call_frame (hload : load source = .ok p) (hm : Unmanaged p) :
    ∀ {depth : Nat} {target : FnName} {args : List Location} {h : Heap} {E : Multiset Location},
      h.AccountedFor E → (args : Multiset Location) ≤ E →
      (∀ {r : Location} {h' : Heap}, callFn (insertCounts p) depth target args h = (.ok r, h') →
        ∀ {i : Nat}, h.Reachable (E - args) (.cell i) →
          ∃ v, h.get (.cell i) = .ok v ∧ h'.get (.cell i) = .ok v) ∧
      ∀ {m : MissingCell} {s : Span},
        (callFn (insertCounts p) depth target args h).1 = .error (.fault (.missing m s)) →
          m.location = .invalid ∧ h.Reachable args .invalid := by
  have hp := wellFormed_of_load hload
  intro depth target args h E acc hargs
  have out := call_meets depth target hp hm acc hargs
  constructor
  · intro r h' hcall i hreach
    rw [hcall] at out
    obtain ⟨v, hv⟩ := acc.live_of_reachable (Multiset.sub_le_self _ _) hreach
    exact ⟨v, get_eq_ok_iff.2 hv, get_eq_ok_iff.2 ((out.keeps hreach).trans hv)⟩
  · intro m s hmissing
    rcases hcall : callFn (insertCounts p) depth target args h with ⟨o, h'⟩
    rw [hcall] at out hmissing
    dsimp only at hmissing
    subst hmissing
    exact out

/-- A pair that somebody else holds as well is not changed when it is taken apart, and a call that halts
where it looks into an empty box was led to the invalid location by the box. -/
theorem call_frame_swap : ∃ p q r h' v s, load swapSource = .ok p ∧ Unmanaged p ∧
    callFn (insertCounts p) 2 ⟨"swap", .none⟩ [.cell 2] sharedPair = (.ok r, h') ∧
    sharedPair.get (.cell 2) = .ok v ∧ h'.get (.cell 2) = .ok v ∧
    load openSource = .ok q ∧ Unmanaged q ∧
    (callFn (insertCounts q) 1 ⟨"open", .none⟩ [.cell 0] boxHeap).1 =
      .error (.fault (.missing ⟨.invalid⟩ s)) ∧ boxHeap.Reachable {.cell 0} .invalid := by
  obtain ⟨p, hload, hm, -, -, r, h', hcall⟩ := exists_swap
  have hargs : (([.cell 2] : List Location) : Multiset Location) ≤ {.cell 2, .cell 2} := by decide
  have hreach : sharedPair.Reachable ({.cell 2, .cell 2} - ([.cell 2] : List Location)) (.cell 2) :=
    .held (by decide)
  obtain ⟨v, hv, hv'⟩ := (call_frame hload hm accountedFor_sharedPair hargs).1 hcall hreach
  obtain ⟨q, s, hload', hm', -, hmissing⟩ := exists_open
  obtain ⟨-, hinvalid⟩ := (call_frame hload' hm' accountedFor_boxHeap le_rfl).2 hmissing
  exact ⟨p, q, r, h', v, s, hload, hm, hcall, hv, hv', hload', hm', hmissing, hinvalid⟩

/-- Being accounted for does not keep the invalid location out of reach.  A heap with a single cell, which
is held once and is a complete record of a declared constructor, is accounted for, and a call for this cell
halts at the invalid location, which is in the record. -/
theorem exists_missing_location : ∃ p s, load openSource = .ok p ∧ Unmanaged p ∧
    boxHeap.AccountedFor {.cell 0} ∧ .invalid ∉ ({.cell 0} : Multiset Location) ∧
    (∀ {l v}, boxHeap.value? l = some v → v.Canonical (insertCounts p)) ∧
    (callFn (insertCounts p) 1 ⟨"open", .none⟩ [.cell 0] boxHeap).1 =
      .error (.fault (.missing ⟨.invalid⟩ s)) := by
  obtain ⟨p, s, hload, hm, hbox, hmissing⟩ := exists_open
  refine ⟨p, s, hload, hm, accountedFor_boxHeap, by decide, fun {l v} hv => ?_, hmissing⟩
  rw [boxHeap, value?_alloc] at hv
  split at hv
  · obtain rfl := Option.some.inj hv
    exact hbox
  · simp at hv

end Reclaim
