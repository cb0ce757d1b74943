import Reclaim.Proofs.Bodies

/-!
# Paths through bodies

A path goes from the start of a body to a return and takes one arm at each `case`.  A body whose
cases all have arms has a path for every way to choose them, and nothing comes back, so there are
finitely many.
-/

namespace Reclaim.Core

/-- What a path goes through. -/
inductive PathStep where
  /-- Binds a variable. -/
  | bind (binder : Var) (expr : Expr)
  /-- Goes on in the arm of a tag. -/
  | enter (scrutinee : Var) (tag : Tag)
  /-- Adds a reference. -/
  | inc (var : Var)
  /-- Gives up a reference. -/
  | dec (var : Var)
  /-- Returns a variable. -/
  | ret (var : Var)
deriving Repr, Inhabited

/-- The occurrences in a step that hand a reference on, with repetitions. -/
def PathStep.consumed : PathStep → List Var
  | .bind _ e => e.consumed
  | .dec x | .ret x => [x]
  | .enter .. | .inc _ => []

/-- The spellings of the variables that a step reads. -/
def PathStep.mentioned : PathStep → List String
  | .bind _ e => e.freeVars.texts
  | .enter x _ | .inc x | .dec x | .ret x => [x.text]

mutual

/-- The paths through a body, arm by arm. -/
def Body.paths : Body → List (List PathStep)
  | .ret x => [[.ret x]]
  | .bind x e b => b.paths.map (.bind x e :: ·)
  | .case x arms => pathsIn x arms
  | .inc x b => b.paths.map (.inc x :: ·)
  | .dec x b => b.paths.map (.dec x :: ·)
termination_by structural b => b

/-- The paths that enter an arm. -/
def pathsIn (x : Var) : List Arm → List (List PathStep)
  | [] => []
  | (tag, b) :: rest => b.paths.map (.enter x tag :: ·) ++ pathsIn x rest
termination_by structural arms => arms

end

theorem mem_pathsIn {x : Var} {arms : List Arm} {steps : List PathStep} :
    steps ∈ pathsIn x arms ↔
      ∃ arm ∈ arms, ∃ rest ∈ arm.2.paths, .enter x arm.1 :: rest = steps := by
  induction arms with
  | nil => simp [pathsIn]
  | cons arm others ih =>
      obtain ⟨tag, b⟩ := arm
      rw [pathsIn, List.mem_append, List.mem_map, ih]
      simp

end Reclaim.Core
