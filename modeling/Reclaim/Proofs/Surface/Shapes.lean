import Reclaim.Surface.Parser

/-!
# Trees as sequences of tokens

To the parser a token is a punctuation mark or keyword, of which only the kind counts, or a name
(`Shape`).  A syntax tree stands for the sequence of shapes in which it is written.

Where things stand in a text plays no part in its form: `bare` forgets every span of a tree.
-/

namespace Reclaim.Surface

/-! ## Shapes -/

/-- What the parser sees of a token. -/
inductive Shape where
  /-- A token of which only the kind counts. -/
  | mark (kind : Kind)
  /-- A name. -/
  | name (text : String)
deriving DecidableEq, Repr, Inhabited

/-- The shape of a token. -/
def Token.shape (t : Token) : Shape :=
  match t.kind with
  | .ident => .name t.text
  | kind => .mark kind

/-- A token of a shape that stands nowhere. -/
def Shape.token : Shape → Token
  | .mark kind => ⟨kind, "", .none⟩
  | .name text => ⟨.ident, text, .none⟩

/-- Names. -/
def namesOf (xs : List Ident) : List Shape := xs.map fun x => .name x.val

/-- An expression up to its closing parenthesis. -/
def Expr.opened : Expr → List Shape
  | .new tag fields => [.mark .lparen, .mark .new, .name tag.val] ++ namesOf fields
  | .proj field record => [.mark .lparen, .mark .proj, .name field.val, .name record.val]
  | .pap target args => [.mark .lparen, .mark .pap, .name target.val] ++ namesOf args
  | .app target args => [.mark .lparen, .name target.val] ++ namesOf args
  | .reset x => [.mark .lparen, .mark .reset, .name x.val]
  | .reuse token tag fields =>
    [.mark .lparen, .mark .reuse, .name token.val, .name tag.val] ++ namesOf fields

/-- A binding of a `let`. -/
def Binding.shapes (b : Binding) : List Shape :=
  .name b.binder.val :: (b.expr.val.opened ++ [.mark .rparen])

mutual

/-- A body. -/
def Body.shapes : Body → List Shape
  | .ret x => [.mark .lparen, .mark .ret, .name x.val, .mark .rparen]
  | .lets bindings ⟨_, b⟩ =>
    [.mark .lparen, .mark .lets, .mark .lparen] ++ bindings.flatMap Binding.shapes ++
      [.mark .rparen] ++ b.shapes ++ [.mark .rparen]
  | .case x arms =>
    [.mark .lparen, .mark .case, .name x.val] ++ shapesArms arms ++ [.mark .rparen]
  | .inc x ⟨_, b⟩ => [.mark .lparen, .mark .inc, .name x.val] ++ b.shapes ++ [.mark .rparen]
  | .dec x ⟨_, b⟩ => [.mark .lparen, .mark .dec, .name x.val] ++ b.shapes ++ [.mark .rparen]
termination_by structural b => b

/-- Arms. -/
def shapesArms : List Arm → List Shape
  | [] => []
  | (tag, ⟨_, b⟩) :: rest => .name tag.val :: (b.shapes ++ shapesArms rest)
termination_by structural arms => arms

end

/-- An item. -/
def Item.shapes : Item → List Shape
  | .type tag fields =>
    [.mark .lparen, .mark .deftype, .name tag.val] ++ namesOf fields ++ [.mark .rparen]
  | .fn name params body =>
    [.mark .lparen, .mark .defn, .name name.val, .mark .lparen] ++ namesOf params ++
      [.mark .rparen] ++ body.val.shapes ++ [.mark .rparen]

/-- A program text. -/
def Tree.shapes (tree : Tree) : List Shape := tree.flatMap fun item => item.val.shapes

/-! ## Trees without spans -/

/-- An identifier that stands nowhere. -/
def bareIdent (x : Ident) : Ident := ⟨.none, x.val⟩

/-- An expression without spans. -/
def Expr.bare : Expr → Expr
  | .new tag fields => .new (bareIdent tag) (fields.map bareIdent)
  | .proj field record => .proj (bareIdent field) (bareIdent record)
  | .pap target args => .pap (bareIdent target) (args.map bareIdent)
  | .app target args => .app (bareIdent target) (args.map bareIdent)
  | .reset x => .reset (bareIdent x)
  | .reuse token tag fields => .reuse (bareIdent token) (bareIdent tag) (fields.map bareIdent)

/-- A binding without spans. -/
def Binding.bare (b : Binding) : Binding := ⟨bareIdent b.binder, ⟨.none, b.expr.val.bare⟩⟩

mutual

/-- A body without spans. -/
def Body.bare : Body → Body
  | .ret x => .ret (bareIdent x)
  | .lets bindings ⟨_, b⟩ => .lets (bindings.map Binding.bare) ⟨.none, b.bare⟩
  | .case x arms => .case (bareIdent x) (bareArms arms)
  | .inc x ⟨_, b⟩ => .inc (bareIdent x) ⟨.none, b.bare⟩
  | .dec x ⟨_, b⟩ => .dec (bareIdent x) ⟨.none, b.bare⟩
termination_by structural b => b

/-- Arms without spans. -/
def bareArms : List Arm → List Arm
  | [] => []
  | (tag, ⟨_, b⟩) :: rest => (bareIdent tag, ⟨.none, b.bare⟩) :: bareArms rest
termination_by structural arms => arms

end

/-- An item without spans. -/
def Item.bare : Item → Item
  | .type tag fields => .type (bareIdent tag) (fields.map bareIdent)
  | .fn name params body => .fn (bareIdent name) (params.map bareIdent) ⟨.none, body.val.bare⟩

/-- A program text without spans. -/
def Tree.bare (tree : Tree) : Tree := tree.map fun item => ⟨.none, item.val.bare⟩

/-! ## Induction on bodies -/

theorem sizeOf_arm_lt {arms : List Arm} {arm : Arm} (harm : arm ∈ arms) :
    sizeOf arm.2.val < sizeOf arms := by
  have hlt := List.sizeOf_lt_of_mem harm
  obtain ⟨tag, span, b⟩ := arm
  simp only [Prod.mk.sizeOf_spec, Spanned.mk.sizeOf_spec] at hlt
  dsimp only
  omega

/-- Induction on bodies, with one case for all arms of a `case`. -/
@[induction_eliminator]
theorem Body.induction {motive : Body → Prop} (ret : ∀ x, motive (.ret x))
    (lets : ∀ bindings s b, motive b → motive (.lets bindings ⟨s, b⟩))
    (case : ∀ x arms, (∀ arm ∈ arms, motive arm.2.val) → motive (.case x arms))
    (inc : ∀ x s b, motive b → motive (.inc x ⟨s, b⟩))
    (dec : ∀ x s b, motive b → motive (.dec x ⟨s, b⟩)) : ∀ b, motive b
  | .ret x => ret x
  | .lets bindings ⟨s, b⟩ => lets bindings s b (Body.induction ret lets case inc dec b)
  | .case x arms => case x arms fun arm harm =>
      have := sizeOf_arm_lt harm
      Body.induction ret lets case inc dec arm.2.val
  | .inc x ⟨s, b⟩ => inc x s b (Body.induction ret lets case inc dec b)
  | .dec x ⟨s, b⟩ => dec x s b (Body.induction ret lets case inc dec b)

theorem shapesArms_eq (arms : List Arm) :
    shapesArms arms = arms.flatMap fun arm => .name arm.1.val :: arm.2.val.shapes := by
  induction arms with
  | nil => rfl
  | cons arm rest ih =>
      obtain ⟨tag, span, b⟩ := arm
      rw [shapesArms, ih, List.flatMap_cons, List.cons_append]

theorem bareArms_eq (arms : List Arm) :
    bareArms arms = arms.map fun arm => (bareIdent arm.1, ⟨.none, arm.2.val.bare⟩) := by
  induction arms with
  | nil => rfl
  | cons arm rest ih =>
      obtain ⟨tag, span, b⟩ := arm
      rw [bareArms, ih, List.map_cons]

end Reclaim.Surface
