import Reclaim.Source.Span

/-!
# Names

A name of the core language is a spelling together with the place of one occurrence.  Two names are
the same, `x == y`, when they are spelled alike; the place only serves diagnostics.  So `==` is an
equivalence that is coarser than equality, and a set of names holds one occurrence of each.

What a name names is part of its type: a variable cannot be looked up as a function.
-/

namespace Reclaim.Core

/-- What names stand for. -/
inductive NameKind where
  /-- A parameter or a bound variable of one function. -/
  | var
  /-- A function of the program. -/
  | fn
  /-- The tag of a constructor, which tells the shapes of records apart. -/
  | tag
  /-- A field of a record. -/
  | field

/-- An occurrence of a name. -/
structure Name (kind : NameKind) where
  /-- The spelling. -/
  text : String
  /-- Where it stands, or `Span.none` if no source text spelled it. -/
  span : Span := .none
deriving Repr, Inhabited

/-- A variable. -/
abbrev Var : Type := Name .var
/-- The name of a function. -/
abbrev FnName : Type := Name .fn
/-- The tag of a constructor. -/
abbrev Tag : Type := Name .tag
/-- The name of a field. -/
abbrev Field : Type := Name .field

namespace Name

variable {kind : NameKind}

/-- Names are compared by their spelling. -/
instance : BEq (Name kind) := ⟨fun x y => x.text == y.text⟩

theorem beq_iff {x y : Name kind} : (x == y) = true ↔ x.text = y.text := by
  change (x.text == y.text) = true ↔ _
  exact beq_iff_eq

theorem beq_eq_false_iff {x y : Name kind} : (x == y) = false ↔ x.text ≠ y.text := by
  rw [← Bool.not_eq_true, beq_iff]

instance : EquivBEq (Name kind) where
  rfl := beq_iff.2 rfl
  symm h := beq_iff.2 (beq_iff.1 h).symm
  trans h₁ h₂ := beq_iff.2 ((beq_iff.1 h₁).trans (beq_iff.1 h₂))

/-- The same name at another place. -/
def movedTo (x : Name kind) (span : Span) : Name kind := ⟨x.text, span⟩

@[simp] theorem text_movedTo (x : Name kind) (span : Span) : (x.movedTo span).text = x.text := rfl

end Name

end Reclaim.Core
