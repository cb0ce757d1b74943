import Reclaim.Proofs.Surface.Shapes

/-!
# The parser against the shapes of trees

The state of the parser stands for the sequence of shapes that it has read (`State.shapes`), and each
token that is accepted adds its own shape.  So the tokens of a text that parses are the shapes of the
tree (`shapes_of_parse`).
-/

namespace Reclaim.Surface

variable {s s' : State} {t : Token} {ts : List Token}

theorem Token.shape_of_ident (h : t.kind = .ident) : t.shape = .name t.text := by
  rw [shape, h]

theorem Token.shape_of_ne (h : t.kind ≠ .ident) : t.shape = .mark t.kind := by
  unfold shape
  split
  · next hk => exact absurd hk h
  · rfl

/-- A shape keeps the kind of a token. -/
theorem Token.kind_shape (t : Token) : t.shape.token.kind = t.kind := by
  by_cases hk : t.kind = .ident
  · rw [shape_of_ident hk, hk]
    rfl
  · rw [shape_of_ne hk]
    rfl

/-- A token whose shape is a name is an identifier. -/
theorem Token.ident_of_shape {x : String} (h : t.shape = .name x) : t.kind = .ident ∧ t.text = x := by
  by_cases hk : t.kind = .ident
  · rw [shape_of_ident hk] at h
    exact ⟨hk, Shape.name.inj h⟩
  · rw [shape_of_ne hk] at h
    cases h

/-! ## What a state has read -/

/-- The shapes of an expression that is open. -/
def OpenExpr.shapes : OpenExpr → List Shape
  | .head => [.mark .lparen]
  | .newTag => [.mark .lparen, .mark .new]
  | .projField => [.mark .lparen, .mark .proj]
  | .projRecord field => [.mark .lparen, .mark .proj, .name field.val]
  | .papTarget => [.mark .lparen, .mark .pap]
  | .resetVar => [.mark .lparen, .mark .reset]
  | .reuseToken => [.mark .lparen, .mark .reuse]
  | .reuseTag token => [.mark .lparen, .mark .reuse, .name token.val]
  | .args e | .full e => e.opened

/-- The shapes of a `let` up to some binding. -/
def letOpened (bindings : List Binding) : List Shape :=
  [.mark .lparen, .mark .lets, .mark .lparen] ++ bindings.flatMap Binding.shapes

/-- The shapes of a function up to some parameter. -/
def fnOpened (name : Ident) (params : List Ident) : List Shape :=
  [.mark .lparen, .mark .defn, .name name.val, .mark .lparen] ++ namesOf params

/-- The shapes of a `case` up to some arm. -/
def caseOpened (scrutinee : Ident) (arms : List Arm) : List Shape :=
  [.mark .lparen, .mark .case, .name scrutinee.val] ++ shapesArms arms

/-- The shapes of an item up to some body inside. -/
def BodyContext.shapes : BodyContext → List Shape
  | .fn _ name params => fnOpened name params ++ [.mark .rparen]
  | .lets _ bindings outer => outer.shapes ++ letOpened bindings ++ [.mark .rparen]
  | .arm _ scrutinee arms tag outer => outer.shapes ++ caseOpened scrutinee arms ++ [.name tag.val]
  | .inc _ x outer => outer.shapes ++ [.mark .lparen, .mark .inc, .name x.val]
  | .dec _ x outer => outer.shapes ++ [.mark .lparen, .mark .dec, .name x.val]

/-- The shapes of a body up to its closing parenthesis. -/
def Body.opened : Body → List Shape
  | .ret x => [.mark .lparen, .mark .ret, .name x.val]
  | .lets bindings ⟨_, b⟩ => letOpened bindings ++ [.mark .rparen] ++ b.shapes
  | .case x arms => caseOpened x arms
  | .inc x ⟨_, b⟩ => [.mark .lparen, .mark .inc, .name x.val] ++ b.shapes
  | .dec x ⟨_, b⟩ => [.mark .lparen, .mark .dec, .name x.val] ++ b.shapes

theorem Body.shapes_eq (b : Body) : b.shapes = b.opened ++ [.mark .rparen] := by
  cases b <;> simp [shapes, opened, letOpened, caseOpened]

/-- The shapes of an item up to a point inside. -/
def Position.shapes : Position → List Shape
  | .items => []
  | .itemHead _ => [.mark .lparen]
  | .typeTag _ => [.mark .lparen, .mark .deftype]
  | .typeFields _ tag fields => [.mark .lparen, .mark .deftype, .name tag.val] ++ namesOf fields
  | .fnName _ => [.mark .lparen, .mark .defn]
  | .fnOpen _ name => [.mark .lparen, .mark .defn, .name name.val]
  | .fnParams _ name params => fnOpened name params
  | .fnClose _ name params b => fnOpened name params ++ [.mark .rparen] ++ b.val.shapes
  | .body context => context.shapes
  | .bodyHead _ context => context.shapes ++ [.mark .lparen]
  | .bodyClose _ b context => context.shapes ++ b.opened
  | .retVar _ context => context.shapes ++ [.mark .lparen, .mark .ret]
  | .letsOpen _ context => context.shapes ++ [.mark .lparen, .mark .lets]
  | .letsBinder _ bindings context => context.shapes ++ letOpened bindings
  | .letsExpr _ bindings x context => context.shapes ++ letOpened bindings ++ [.name x.val]
  | .expr _ bindings x _ e context =>
    context.shapes ++ letOpened bindings ++ [.name x.val] ++ e.shapes
  | .caseVar _ context => context.shapes ++ [.mark .lparen, .mark .case]
  | .caseArms _ x arms context => context.shapes ++ caseOpened x arms
  | .incVar _ context => context.shapes ++ [.mark .lparen, .mark .inc]
  | .decVar _ context => context.shapes ++ [.mark .lparen, .mark .dec]
  | .misnamed word => [.name word.val]

/-- The shapes of what has been read. -/
def State.shapes (s : State) : List Shape := s.items.shapes ++ s.position.shapes

/-! ## Each token adds its shape -/

/-- Whether more arguments may follow in an expression. -/
def Expr.takesArgs : Expr → Bool
  | .proj .. | .reset _ => false
  | _ => true

/-- An open expression to which arguments are added only if it takes some. -/
def OpenExpr.Coherent : OpenExpr → Prop
  | .args e => e.takesArgs = true
  | _ => True

/-- A point that the parser reaches on its way to a tree. -/
def Position.Coherent : Position → Prop
  | .misnamed _ => False
  | .expr _ _ _ _ e _ => e.Coherent
  | _ => True

theorem opened_extend {e : Expr} (he : e.takesArgs = true) (x : Ident) :
    (OpenExpr.extend e x).takesArgs = true ∧
      (OpenExpr.extend e x).opened = e.opened ++ [.name x.val] := by
  cases e with
  | proj | reset => cases he
  | _ => exact ⟨rfl, by simp [OpenExpr.extend, Expr.opened, namesOf]⟩

theorem OpenExpr.shapes_accept {e e' : OpenExpr} (he : e.Coherent) (h : e.accept t = some e') :
    e'.Coherent ∧ e'.shapes = e.shapes ++ [t.shape] := by
  obtain ⟨kind, text, span⟩ := t
  cases e with
  | args e =>
      cases kind with
      | ident =>
          cases h
          exact opened_extend he ⟨span, text⟩
      | _ => cases h
  | _ =>
      cases kind <;> cases h <;>
        simp [shapes, Token.shape, Expr.opened, namesOf, Token.ident, Coherent, Expr.takesArgs]

theorem OpenExpr.shapes_complete? {e : OpenExpr} {d : Expr} (h : e.complete? = some d) :
    e.shapes = d.opened := by
  cases e with
  | args | full =>
      cases h
      rfl
  | _ => cases h

theorem shapes_resume (context : BodyContext) (b : Spanned Body) :
    (context.resume b).Coherent ∧
      (context.resume b).shapes = context.shapes ++ b.val.shapes := by
  refine ⟨by cases context <;> exact trivial, ?_⟩
  cases context <;>
    simp [BodyContext.resume, Position.shapes, BodyContext.shapes, Body.opened, caseOpened,
      shapesArms_eq]

namespace Position

variable {opening exprOpening : Span} {bindings : List Binding} {x : Ident} {e : OpenExpr}
  {context : BodyContext}

/-- A closing parenthesis completes an expression. -/
theorem accept_expr_rparen (ht : t.kind = .rparen) :
    (expr opening bindings x exprOpening e context).accept t = e.complete?.map fun e =>
      .letsBinder opening (bindings ++ [⟨x, exprOpening.through t.span, e⟩]) context := by
  unfold accept
  rw [ht]

/-- Any other token goes on with it. -/
theorem accept_expr (ht : t.kind ≠ .rparen) :
    (expr opening bindings x exprOpening e context).accept t =
      (e.accept t).map fun e => .expr opening bindings x exprOpening e context := by
  obtain ⟨kind, text, span⟩ := t
  cases kind with
  | rparen => exact absurd rfl ht
  | _ => rfl

theorem shapes_accept {p p' : Position} (hp : p.Coherent) (h : p.accept t = some p') :
    p' = .misnamed t.ident ∨ p'.Coherent ∧ p'.shapes = p.shapes ++ [t.shape] := by
  obtain ⟨kind, text, span⟩ := t
  cases p with
  | bodyClose opening b context =>
      cases kind with
      | rparen =>
          cases h
          obtain ⟨hcoh, hshapes⟩ := shapes_resume context ⟨opening.through span, b⟩
          refine .inr ⟨hcoh, ?_⟩
          rw [hshapes]
          simp [shapes, Body.shapes_eq, Token.shape]
      | _ => cases h
  | caseArms opening x arms context =>
      cases kind with
      | rparen =>
          cases h
          obtain ⟨hcoh, hshapes⟩ := shapes_resume context ⟨opening.through span, .case x arms⟩
          refine .inr ⟨hcoh, ?_⟩
          rw [hshapes]
          simp [shapes, Body.shapes, caseOpened, Token.shape]
      | ident =>
          cases h
          exact .inr ⟨trivial, by simp [shapes, BodyContext.shapes, Token.shape, Token.ident]⟩
      | _ => cases h
  | expr opening bindings x exprOpening e context =>
      by_cases hk : kind = .rparen
      · subst hk
        rw [accept_expr_rparen rfl] at h
        obtain ⟨d, hd, rfl⟩ := Option.map_eq_some_iff.1 h
        refine .inr ⟨trivial, ?_⟩
        simp [shapes, letOpened, Binding.shapes, OpenExpr.shapes_complete? hd, Token.shape]
      · rw [accept_expr hk] at h
        obtain ⟨d, hd, rfl⟩ := Option.map_eq_some_iff.1 h
        obtain ⟨hcoh, hshapes⟩ := OpenExpr.shapes_accept hp hd
        exact .inr ⟨hcoh, by simp [shapes, hshapes]⟩
  | _ =>
      -- The token only moves the point on within its form.
      cases kind <;> cases h <;>
        simp [shapes, Token.shape, Coherent, OpenExpr.Coherent, namesOf, Token.ident, fnOpened,
          BodyContext.shapes, Body.opened, letOpened, caseOpened, shapesArms, OpenExpr.shapes]

theorem shapes_complete? {p : Position} {item : Spanned Item} {closing : Span}
    (h : p.complete? closing = some item) : item.val.shapes = p.shapes ++ [.mark .rparen] := by
  cases p with
  | typeFields | fnClose =>
      cases h
      simp [Item.shapes, shapes, fnOpened]
  | _ => cases h

end Position

theorem State.shapes_accept (hs : s.position.Coherent) (h : s.accept t = some s') :
    s'.position = .misnamed t.ident ∨
      s'.position.Coherent ∧ s'.shapes = s.shapes ++ [t.shape] := by
  unfold accept at h
  split at h
  · next item hk hitem =>
      cases h
      refine .inr ⟨trivial, ?_⟩
      simp [shapes, Tree.shapes, Position.shapes_complete? hitem, Position.shapes, Token.shape, hk]
  · obtain ⟨p, hp, rfl⟩ := Option.map_eq_some_iff.1 h
    rcases Position.shapes_accept hs hp with hw | ⟨hcoh, hshapes⟩
    · exact .inl hw
    · exact .inr ⟨hcoh, by simp [shapes, hshapes]⟩

/-- After a word that starts no body no token is accepted. -/
theorem State.accept_misnamed {w : Ident} (hs : s.position = .misnamed w) (t : Token) :
    s.accept t = none := by
  simp [accept, hs, Position.complete?, Position.accept]

/-- Nothing comes of such a word. -/
theorem State.run_misnamed {stop : Stop} {w : Ident} {tree : Tree}
    (hs : s.position = .misnamed w) : run stop s ts ≠ .ok tree := by
  cases ts with
  | nil => cases stop <;> simp [run, finish, hs]
  | cons t rest =>
      simp [run, accept_misnamed hs t]

theorem State.shapes_run {stop : Stop} {tree : Tree} (hs : s.position.Coherent)
    (h : run stop s ts = .ok tree) :
    stop = .finished ∧ tree.shapes = s.shapes ++ ts.map Token.shape := by
  induction ts generalizing s with
  | nil =>
      cases stop with
      | stray c span => cases h
      | finished =>
          rw [run, finish] at h
          split at h
          · next hitems =>
              cases h
              simp [shapes, hitems, Position.shapes]
          · cases h
          · cases h
  | cons t rest ih =>
      rw [run] at h
      split at h
      · next s' hs' =>
          rcases State.shapes_accept hs hs' with hw | ⟨hcoh, hshapes⟩
          · exact absurd h (run_misnamed hw)
          · obtain ⟨hstop, htree⟩ := ih hcoh h
            exact ⟨hstop, by simp [htree, hshapes]⟩
      · cases h

/-- The tokens of a text that parses are the shapes of its tree. -/
theorem shapes_of_parse {source : String} {tree : Tree} (h : parse source = .ok tree) :
    (lex source).stop = .finished ∧ (lex source).tokens.map Token.shape = tree.shapes := by
  obtain ⟨hstop, hshapes⟩ := State.shapes_run (s := {}) trivial h
  exact ⟨hstop, hshapes.symm⟩

end Reclaim.Surface
