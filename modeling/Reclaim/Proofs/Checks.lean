import Mathlib.Data.List.Forall2
import Reclaim.Core.Validity
import Reclaim.Proofs.Bodies

/-!
# What a check guarantees

Each check answers with nothing or with the first fault, so a sequence of checks answers with
nothing exactly if each of them does.
-/

namespace Reclaim.Core

/-- A sequence succeeds if both of its parts do. -/
theorem bind_eq_ok {ε α β : Type} {x : Except ε α} {f : α → Except ε β} {b : β} :
    x >>= f = .ok b ↔ ∃ a, x = .ok a ∧ f a = .ok b := by
  cases x with
  | error e => simp [bind, Except.bind]
  | ok a => simp [bind, Except.bind]

theorem pure_eq_ok {ε α : Type} {a b : α} : (pure a : Except ε α) = .ok b ↔ b = a := by
  simp [pure, Except.pure, eq_comm]

/-- A test on a result, if there is one, finds the result. -/
theorem any_toOption {ε α : Type} {x : Except ε α} {P : α → Bool} :
    x.toOption.any P = true ↔ ∃ a, x = .ok a ∧ P a = true := by
  cases x with
  | error e => simp [Except.toOption]
  | ok a => simp [Except.toOption]

/-- A computation on each element succeeds if each of them does. -/
theorem mapM_eq_ok {ε α β : Type} {f : α → Except ε β} {xs : List α} {ys : List β} :
    xs.mapM f = .ok ys ↔ List.Forall₂ (fun x y => f x = .ok y) xs ys := by
  induction xs generalizing ys with
  | nil => rw [List.mapM_nil, pure_eq_ok, List.forall₂_nil_left_iff]
  | cons x rest ih =>
      simp only [List.mapM_cons, bind_eq_ok, pure_eq_ok, ih, List.forall₂_cons_left_iff]
      constructor
      · rintro ⟨y, hy, zs, hzs, rfl⟩
        exact ⟨y, zs, hy, hzs, rfl⟩
      · rintro ⟨y, zs, hy, hzs, rfl⟩
        exact ⟨y, hy, zs, hzs, rfl⟩

theorem both_eq_ok {ε : Type} {x y : Except ε Unit} :
    (x >>= fun _ => y) = .ok () ↔ x = .ok () ∧ y = .ok () := by
  rw [bind_eq_ok]
  exact ⟨fun ⟨_, hx, hy⟩ => ⟨hx, hy⟩, fun ⟨hx, hy⟩ => ⟨(), hx, hy⟩⟩

variable {fn : FnName} {scope : List Var} {x : Var} {xs : List Var}

theorem checkVar_eq_ok : checkVar fn scope x = .ok () ↔ x.text ∈ scope.map (·.text) := by
  rw [← any_beq_iff, checkVar]
  split <;> simp_all

theorem checkVars_eq_ok :
    checkVars fn scope xs = .ok () ↔ ∀ x ∈ xs, x.text ∈ scope.map (·.text) := by
  induction xs with
  | nil => simp [checkVars]
  | cons x rest ih =>
      rw [checkVars, both_eq_ok, List.forall_mem_cons, ih, checkVar_eq_ok]

theorem checkBinder_eq_ok : checkBinder fn scope x = .ok () ↔ x.text ∉ scope.map (·.text) := by
  rw [← any_beq_iff, checkBinder, List.any_eq_true]
  cases hf : scope.find? (· == x) with
  | none => simpa using hf
  | some y =>
      have hy : (y == x) = true := List.find?_some (p := (· == x)) hf
      simpa using ⟨y, List.mem_of_find?_eq_some hf, hy⟩

theorem checkBody_of_mem {p : Program} {arms : List Arm} {arm : Arm}
    (h : checkArms p fn scope arms = .ok ()) (harm : arm ∈ arms) :
    checkBody p fn scope arm.2 = .ok () := by
  induction arms with
  | nil => cases harm
  | cons first rest ih =>
      obtain ⟨tag, b⟩ := first
      rw [checkArms] at h
      obtain ⟨-, h⟩ := both_eq_ok.1 h
      obtain ⟨hb, hrest⟩ := both_eq_ok.1 h
      rcases List.mem_cons.1 harm with rfl | harm
      · exact hb
      · exact ih hrest harm

/-- Checked parameters are spelled differently. -/
theorem nodup_of_checkParams (h : checkParams fn scope xs = .ok ()) :
    (xs.map (·.text)).Nodup ∧ ∀ x ∈ xs, x.text ∉ scope.map (·.text) := by
  induction xs generalizing scope with
  | nil => simp
  | cons x rest ih =>
      rw [checkParams] at h
      obtain ⟨hx, hrest⟩ := both_eq_ok.1 h
      obtain ⟨hnodup, hnot⟩ := ih hrest
      simp only [List.map_cons, List.mem_cons, not_or] at hnot
      refine ⟨List.nodup_cons.2 ⟨fun hmem => ?_, hnodup⟩, ?_⟩
      · obtain ⟨y, hy, heq⟩ := List.mem_map.1 hmem
        exact (hnot y hy).1 heq
      · exact List.forall_mem_cons.2 ⟨checkBinder_eq_ok.1 hx, fun y hy => (hnot y hy).2⟩

/-- Each function of a valid program passes the check. -/
theorem checkFn_of_mem {p : Program} {d : FnDef} (h : p.validate = .ok ()) (hd : d ∈ p.fns) :
    checkFn p d = .ok () := by
  unfold Program.validate at h
  generalize p.fns = ds at h hd
  induction ds with
  | nil => cases hd
  | cons first rest ih =>
      rw [checkFns] at h
      obtain ⟨hfirst, hrest⟩ := both_eq_ok.1 h
      rcases List.mem_cons.1 hd with rfl | hd
      · exact hfirst
      · exact ih hrest hd

end Reclaim.Core
