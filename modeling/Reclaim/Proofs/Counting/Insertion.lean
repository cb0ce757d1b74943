import Reclaim.Counting.Insertion
import Reclaim.Proofs.Counting.Balance
import Reclaim.Proofs.Counting.Drops

/-!
# The discipline of transformed bodies

The memory management that `insertCounts` makes explicit balances: on every path through the body of
a function that does not manage memory itself, every reference that a parameter or a binding brings
in is handed on or given up exactly once (`balanced_managedBody`).
-/

namespace Reclaim.Counting

open Reclaim.Core

/-- At the start of a function each parameter holds a reference. -/
def Ledger.ofParams (params : List Var) : Ledger := ⟨spellings params, fun _ => none, 0⟩

theorem tracks_ofParams {params : List Var} (hp : (params.map (·.text)).Nodup) :
    Tracks ⟨params.reverse.map (·.text), 0⟩ 0 (.ofParams params) (.ofParams params) := by
  have htexts : (Holdings.ofParams params).owned.texts = params.map (·.text) :=
    OrderedSet.texts_ofList hp
  have hlinks (e : String × String) : e ∉ (Holdings.ofParams params).borrowed.links := by
    simp [Holdings.ofParams, OrderedMap.links]
  have hnone (t : String) : t ∉ (Holdings.ofParams params).borrowed.keyTexts := fun ht => by
    obtain ⟨u, hu⟩ := OrderedMap.mem_keyTexts.1 ht
    exact hlinks _ hu
  constructor
  case held =>
    rw [htexts, zero_add]
    rfl
  case links =>
    intro t r hr
    exact absurd hr (hlinks _)
  case apart =>
    intro t _
    exact hnone t
  case ordered => exact ⟨.nil, fun e he => absurd he (hlinks e)⟩
  case bound =>
    intro t ht
    simpa [htexts] using ht.resolve_right (hnone t)
  case tokens => rfl
  case source =>
    intro t r hr
    cases hr

/-- A checked function that is not managed gets a balanced body. -/
theorem balanced_managedBody {p : Program} {d : FnDef} (h : checkFn p d = .ok ())
    (hm : d.body.isManaged = false) : Balanced (.ofParams d.params) (managedBody p d) := by
  obtain ⟨N, s⟩ := withDrops_scoped h hm
  have hp := (nodup_of_checkParams (both_eq_ok.1 h).1).1
  rw [managedBody, hm, if_neg Bool.false_ne_true]
  refine balanced_withCounts s (tracks_ofParams hp) fun y _ hy => .owned ?_
  have htexts : (Holdings.ofParams d.params).owned.texts = d.params.map (·.text) :=
    OrderedSet.texts_ofList hp
  simpa [htexts] using hy

/-- No function of a program manages memory itself. -/
def Unmanaged (p : Program) : Prop := ∀ d ∈ p.fns, d.body.isManaged = false

instance (p : Program) : Decidable (Unmanaged p) :=
  inferInstanceAs (Decidable (∀ d ∈ p.fns, d.body.isManaged = false))

end Reclaim.Counting
