import Reclaim.Proofs.Surface.Parsing

/-!
# Trees are read off their shapes

The parser never looks at spans, so it does the same with tokens that stand nowhere
(`State.bare_accept`).  From these it rebuilds every tree out of its shapes (`State.reads_tree`).  So
whenever the tokens of a text are the shapes of a tree, the text parses to that tree, up to spans
(`parse_of_shapes`).
-/

namespace Reclaim.Surface

variable {s s' : State} {t : Token} {ts : List Token}

/-! ## The parser does not look at spans -/

/-- An open expression without spans. -/
def OpenExpr.bare : OpenExpr → OpenExpr
  | .projRecord field => .projRecord (bareIdent field)
  | .reuseTag token => .reuseTag (bareIdent token)
  | .args e => .args e.bare
  | .full e => .full e.bare
  | e => e

/-- Open forms without spans. -/
def BodyContext.bare : BodyContext → BodyContext
  | .fn _ name params => .fn .none (bareIdent name) (params.map bareIdent)
  | .lets _ bindings outer => .lets .none (bindings.map Binding.bare) outer.bare
  | .arm _ x arms tag outer => .arm .none (bareIdent x) (bareArms arms) (bareIdent tag) outer.bare
  | .inc _ x outer => .inc .none (bareIdent x) outer.bare
  | .dec _ x outer => .dec .none (bareIdent x) outer.bare

/-- A point without spans. -/
def Position.bare : Position → Position
  | .items => .items
  | .itemHead _ => .itemHead .none
  | .typeTag _ => .typeTag .none
  | .typeFields _ tag fields => .typeFields .none (bareIdent tag) (fields.map bareIdent)
  | .fnName _ => .fnName .none
  | .fnOpen _ name => .fnOpen .none (bareIdent name)
  | .fnParams _ name params => .fnParams .none (bareIdent name) (params.map bareIdent)
  | .fnClose _ name params b =>
    .fnClose .none (bareIdent name) (params.map bareIdent) ⟨.none, b.val.bare⟩
  | .body context => .body context.bare
  | .bodyHead _ context => .bodyHead .none context.bare
  | .bodyClose _ b context => .bodyClose .none b.bare context.bare
  | .retVar _ context => .retVar .none context.bare
  | .letsOpen _ context => .letsOpen .none context.bare
  | .letsBinder _ bindings context => .letsBinder .none (bindings.map Binding.bare) context.bare
  | .letsExpr _ bindings x context =>
    .letsExpr .none (bindings.map Binding.bare) (bareIdent x) context.bare
  | .expr _ bindings x _ e context =>
    .expr .none (bindings.map Binding.bare) (bareIdent x) .none e.bare context.bare
  | .caseVar _ context => .caseVar .none context.bare
  | .caseArms _ x arms context => .caseArms .none (bareIdent x) (bareArms arms) context.bare
  | .incVar _ context => .incVar .none context.bare
  | .decVar _ context => .decVar .none context.bare
  | .misnamed word => .misnamed (bareIdent word)

/-- A state without spans. -/
def State.bare (s : State) : State := ⟨s.items.bare, s.position.bare, .none⟩

theorem bare_resume (context : BodyContext) (b : Spanned Body) :
    (context.resume b).bare = context.bare.resume ⟨.none, b.val.bare⟩ := by
  cases context with
  | arm opening x arms tag outer =>
      simp [BodyContext.resume, Position.bare, BodyContext.bare, bareArms_eq]
  | _ => rfl

theorem bare_extend (e : Expr) (x : Ident) :
    (OpenExpr.extend e x).bare = OpenExpr.extend e.bare (bareIdent x) := by
  cases e <;> simp [OpenExpr.extend, Expr.bare]

theorem OpenExpr.bare_accept (e : OpenExpr) (t : Token) :
    (e.accept t).map bare = e.bare.accept t.shape.token := by
  obtain ⟨kind, text, span⟩ := t
  cases e with
  | args e =>
      cases kind with
      | ident => exact congrArg (fun e => some (args e)) (bare_extend e ⟨span, text⟩)
      | _ => rfl
  | _ => cases kind <;> rfl

theorem OpenExpr.bare_complete? (e : OpenExpr) : e.complete?.map Expr.bare = e.bare.complete? := by
  cases e <;> rfl

namespace Position

theorem bare_accept (p : Position) (t : Token) :
    (p.accept t).map bare = p.bare.accept t.shape.token := by
  cases p with
  | expr opening bindings x exprOpening e context =>
      by_cases ht : t.kind = .rparen
      · have ht' : t.shape.token.kind = .rparen := t.kind_shape.trans ht
        rw [accept_expr_rparen ht, bare, accept_expr_rparen ht', ← OpenExpr.bare_complete?,
          Option.map_map, Option.map_map]
        congr 1
        funext d
        simp [bare, Binding.bare, Token.shape, ht, Shape.token, Span.through, Span.none]
      · have ht' : t.shape.token.kind ≠ .rparen := t.kind_shape ▸ ht
        rw [accept_expr ht, bare, accept_expr ht', ← OpenExpr.bare_accept, Option.map_map,
          Option.map_map]
        rfl
  | typeFields opening tag fields =>
      obtain ⟨kind, text, span⟩ := t
      cases kind with
      | ident => simp [accept, bare, Token.shape, Shape.token, Token.ident, bareIdent]
      | _ => rfl
  | fnParams opening name params =>
      obtain ⟨kind, text, span⟩ := t
      cases kind with
      | ident => simp [accept, bare, Token.shape, Shape.token, Token.ident, bareIdent]
      | _ => rfl
  | bodyClose opening b context =>
      obtain ⟨kind, text, span⟩ := t
      cases kind with
      | rparen => exact congrArg some (bare_resume context ⟨opening.through span, b⟩)
      | _ => rfl
  | caseArms opening x arms context =>
      obtain ⟨kind, text, span⟩ := t
      cases kind with
      | rparen => exact congrArg some (bare_resume context ⟨opening.through span, .case x arms⟩)
      | _ => rfl
  | _ =>
      obtain ⟨kind, text, span⟩ := t
      cases kind <;> rfl

/-- An item without its span. -/
def bareItem (item : Spanned Item) : Spanned Item := ⟨.none, item.val.bare⟩

theorem bare_complete? (p : Position) (closing : Span) :
    (p.complete? closing).map bareItem = p.bare.complete? .none := by
  cases p <;> rfl

end Position

namespace State

/-- A token that completes an item. -/
theorem accept_of_item {item : Spanned Item} (ht : t.kind = .rparen)
    (h : s.position.complete? t.span = some item) :
    s.accept t = some ⟨s.items ++ [item], .items, t.span⟩ := by
  rw [accept, ht, h]

/-- A token that completes no item. -/
theorem accept_of_none (h : t.kind = .rparen → s.position.complete? t.span = none) :
    s.accept t = (s.position.accept t).map fun p => ⟨s.items, p, t.span⟩ := by
  unfold accept
  split
  · next item ht hitem =>
      rw [h ht] at hitem
      cases hitem
  · rfl

/-- Without spans a state takes the same tokens. -/
theorem bare_accept (s : State) (t : Token) :
    (s.accept t).map bare = s.bare.accept t.shape.token := by
  have hspan : t.shape.token.span = .none := by unfold Token.shape; split <;> rfl
  have hkind := t.kind_shape
  have hcomplete := s.position.bare_complete? t.span
  by_cases hitem : t.kind = .rparen ∧ (s.position.complete? t.span).isSome
  · obtain ⟨ht, hsome⟩ := hitem
    obtain ⟨item, hitem⟩ := Option.isSome_iff_exists.1 hsome
    have hitem' : s.bare.position.complete? t.shape.token.span = some (Position.bareItem item) := by
      rw [hspan, bare, ← hcomplete, hitem, Option.map_some]
    rw [accept_of_item ht hitem, accept_of_item (hkind.trans ht) hitem', hspan]
    simp [bare, Tree.bare, Position.bareItem, Position.bare]
  · have hnone : t.kind = .rparen → s.position.complete? t.span = none := by
      simpa using hitem
    have hnone' : t.shape.token.kind = .rparen →
        s.bare.position.complete? t.shape.token.span = none := by
      intro ht
      rw [hspan, bare, ← hcomplete, hnone (hkind.symm.trans ht), Option.map_none]
    rw [accept_of_none hnone, accept_of_none hnone', hspan, bare, ← Position.bare_accept,
      Option.map_map, Option.map_map]
    rfl

/-- The state after some tokens, if some program text can go on like that. -/
def advance (s : State) (ts : List Token) : Option State := ts.foldlM accept s

theorem bare_advance (s : State) (ts : List Token) :
    (s.advance ts).map bare = s.bare.advance (ts.map fun t => t.shape.token) := by
  induction ts generalizing s with
  | nil => rfl
  | cons t rest ih =>
      rw [List.map_cons, advance, advance, List.foldlM_cons, List.foldlM_cons, ← bare_accept]
      cases s.accept t with
      | none => rfl
      | some s' => exact ih s'

theorem run_of_advance {stop : Stop} (h : s.advance ts = some s') : run stop s ts = run stop s' [] := by
  induction ts generalizing s with
  | nil =>
      cases h
      rfl
  | cons t rest ih =>
      rw [advance, List.foldlM_cons] at h
      obtain ⟨s'', hs'', h⟩ := Option.bind_eq_some_iff.1 h
      rw [run, hs'']
      exact ih h

/-! ## Trees are read off their shapes -/

/-- The state after tokens of some shapes that stand nowhere. -/
def reads (s : State) (shapes : List Shape) : Option State := s.advance (shapes.map Shape.token)

theorem reads_nil (s : State) : s.reads [] = some s := rfl

theorem reads_cons {s s' s'' : State} {shape : Shape} {rest : List Shape}
    (h : s.accept shape.token = some s') (h' : s'.reads rest = some s'') :
    s.reads (shape :: rest) = some s'' := by
  rw [reads, List.map_cons, advance, List.foldlM_cons, h]
  exact h'

theorem reads_append {s s' s'' : State} {before after : List Shape}
    (h : s.reads before = some s') (h' : s'.reads after = some s'') :
    s.reads (before ++ after) = some s'' := by
  rw [reads] at h
  rw [reads, List.map_append, advance, List.foldlM_append]
  exact Option.bind_eq_some_iff.2 ⟨s', h, h'⟩

variable {items : Tree} {context : BodyContext} {x : Ident} {bindings : List Binding}

/-- A list of names, where names can be added one after the other. -/
theorem reads_namesOf (items : Tree) (point : List Ident → Position)
    (h : ∀ xs x, (point xs).accept (Shape.name x).token = some (point (xs ++ [⟨.none, x⟩])))
    (xs ys : List Ident) : reads ⟨items, point xs, .none⟩ (namesOf ys) =
      some ⟨items, point (xs ++ ys.map bareIdent), .none⟩ := by
  induction ys generalizing xs with
  | nil => rw [List.map_nil, List.append_nil, namesOf, List.map_nil, reads_nil]
  | cons y rest ih =>
      have hstep : accept ⟨items, point xs, .none⟩ (Shape.name y.val).token =
          some ⟨items, point (xs ++ [bareIdent y]), .none⟩ := by
        have hkind : (Shape.name y.val).token.kind ≠ .rparen := by simp [Shape.token]
        rw [accept_of_none fun hk => absurd hk hkind]
        exact congrArg (Option.map _) (h xs y.val)
      rw [List.map_cons, List.append_cons]
      exact reads_cons hstep (ih (xs ++ [bareIdent y]))

/-- An expression is read up to its closing parenthesis. -/
theorem reads_opened (items : Tree) (bindings : List Binding) (x : Ident) (context : BodyContext)
    (e : Expr) : ∃ opened, opened.complete? = some e.bare ∧
      reads ⟨items, .letsExpr .none bindings x context, .none⟩ e.opened =
        some ⟨items, .expr .none bindings x .none opened context, .none⟩ := by
  have args (mk : List Ident → Expr) (hmk : ∀ xs x, OpenExpr.extend (mk xs) x = mk (xs ++ [x]))
      (ys : List Ident) : reads ⟨items, .expr .none bindings x .none (.args (mk [])) context, .none⟩
        (namesOf ys) = some ⟨items, .expr .none bindings x .none (.args (mk (ys.map bareIdent)))
          context, .none⟩ :=
    reads_namesOf items (fun xs => .expr .none bindings x .none (.args (mk xs)) context)
      (fun xs x => by rw [← hmk]; rfl) [] ys
  cases e with
  | new tag fields =>
      refine ⟨.args (.new (bareIdent tag) (fields.map bareIdent)), rfl, ?_⟩
      exact args (.new (bareIdent tag)) (fun _ _ => rfl) fields
  | proj field record => exact ⟨.full (.proj (bareIdent field) (bareIdent record)), rfl, rfl⟩
  | pap target xs =>
      refine ⟨.args (.pap (bareIdent target) (xs.map bareIdent)), rfl, ?_⟩
      exact args (.pap (bareIdent target)) (fun _ _ => rfl) xs
  | app target xs =>
      refine ⟨.args (.app (bareIdent target) (xs.map bareIdent)), rfl, ?_⟩
      exact args (.app (bareIdent target)) (fun _ _ => rfl) xs
  | reset y => exact ⟨.full (.reset (bareIdent y)), rfl, rfl⟩
  | reuse token tag fields =>
      refine ⟨.args (.reuse (bareIdent token) (bareIdent tag) (fields.map bareIdent)), rfl, ?_⟩
      exact args (.reuse (bareIdent token) (bareIdent tag)) (fun _ _ => rfl) fields

theorem reads_bindings (before bs : List Binding) :
    reads ⟨items, .letsBinder .none before context, .none⟩ (bs.flatMap Binding.shapes) =
      some ⟨items, .letsBinder .none (before ++ bs.map Binding.bare) context, .none⟩ := by
  induction bs generalizing before with
  | nil => rw [List.map_nil, List.append_nil, List.flatMap_nil, reads_nil]
  | cons b rest ih =>
      obtain ⟨opened, hopen, hread⟩ :=
        reads_opened items before (bareIdent b.binder) context b.expr.val
      have hbinder : accept ⟨items, .letsBinder .none before context, .none⟩
          (Shape.name b.binder.val).token =
            some ⟨items, .letsExpr .none before (bareIdent b.binder) context, .none⟩ := rfl
      have hclose : accept ⟨items, .expr .none before (bareIdent b.binder) .none opened context, .none⟩
          (Shape.mark .rparen).token =
            some ⟨items, .letsBinder .none (before ++ [b.bare]) context, .none⟩ := by
        rw [accept_of_none fun _ => rfl, Position.accept_expr_rparen rfl, hopen]
        rfl
      have hrest := ih (before ++ [b.bare])
      rw [List.append_assoc, List.singleton_append, ← List.map_cons] at hrest
      rw [List.flatMap_cons]
      exact reads_append (reads_cons hbinder (reads_append hread (reads_cons hclose rfl))) hrest

theorem reads_rparen_body (b : Body) (context : BodyContext) :
    reads ⟨items, .bodyClose .none b context, .none⟩ [.mark .rparen] =
      some ⟨items, context.resume ⟨.none, b⟩, .none⟩ := rfl

theorem reads_arms {arms : List Arm} (before : List Arm)
    (h : ∀ arm ∈ arms, ∀ context : BodyContext,
      reads ⟨items, .body context, .none⟩ arm.2.val.shapes =
        some ⟨items, context.resume ⟨.none, arm.2.val.bare⟩, .none⟩) :
    reads ⟨items, .caseArms .none x before context, .none⟩ (shapesArms arms) =
      some ⟨items, .caseArms .none x (before ++ bareArms arms) context, .none⟩ := by
  induction arms generalizing before with
  | nil => rw [bareArms, List.append_nil, shapesArms, reads_nil]
  | cons arm rest ih =>
      obtain ⟨tag, s, b⟩ := arm
      obtain ⟨hb, hrest⟩ := List.forall_mem_cons.1 h
      have htag : accept ⟨items, .caseArms .none x before context, .none⟩
          (Shape.name tag.val).token =
            some ⟨items, .body (.arm .none x before (bareIdent tag) context), .none⟩ := rfl
      have hothers := ih (before ++ [(bareIdent tag, ⟨.none, b.bare⟩)]) hrest
      rw [List.append_assoc, List.singleton_append] at hothers
      exact reads_cons htag (reads_append (hb _) hothers)

/-- A body is read from its shapes, whatever forms are open around it. -/
theorem reads_body (b : Body) (context : BodyContext) :
    reads ⟨items, .body context, .none⟩ b.shapes =
      some ⟨items, context.resume ⟨.none, b.bare⟩, .none⟩ := by
  induction b generalizing context with
  | ret x => rfl
  | lets bindings s b ih =>
      have hopen : reads ⟨items, .body context, .none⟩ [.mark .lparen, .mark .lets, .mark .lparen] =
          some ⟨items, .letsBinder .none [] context, .none⟩ := rfl
      have hbindings : reads ⟨items, .letsBinder .none [] context, .none⟩
          (bindings.flatMap Binding.shapes) =
            some ⟨items, .letsBinder .none (bindings.map Binding.bare) context, .none⟩ :=
        reads_bindings [] bindings
      have hmid : reads ⟨items, .letsBinder .none (bindings.map Binding.bare) context, .none⟩
          [.mark .rparen] =
            some ⟨items, .body (.lets .none (bindings.map Binding.bare) context), .none⟩ := rfl
      have hbody := reads_append (reads_append (reads_append hopen hbindings) hmid) (ih _)
      exact reads_append hbody (reads_rparen_body _ context)
  | case x arms ih =>
      have hopen : reads ⟨items, .body context, .none⟩ [.mark .lparen, .mark .case, .name x.val] =
          some ⟨items, .caseArms .none (bareIdent x) [] context, .none⟩ := rfl
      have hclose : reads ⟨items, .caseArms .none (bareIdent x) (bareArms arms) context, .none⟩
          [.mark .rparen] =
            some ⟨items, context.resume ⟨.none, (Body.case x arms).bare⟩, .none⟩ := rfl
      exact reads_append (reads_append hopen (reads_arms [] ih)) hclose
  | inc x s b ih =>
      have hopen : reads ⟨items, .body context, .none⟩ [.mark .lparen, .mark .inc, .name x.val] =
          some ⟨items, .body (.inc .none (bareIdent x) context), .none⟩ := rfl
      exact reads_append (reads_append hopen (ih _)) (reads_rparen_body _ context)
  | dec x s b ih =>
      have hopen : reads ⟨items, .body context, .none⟩ [.mark .lparen, .mark .dec, .name x.val] =
          some ⟨items, .body (.dec .none (bareIdent x) context), .none⟩ := rfl
      exact reads_append (reads_append hopen (ih _)) (reads_rparen_body _ context)

theorem reads_item (item : Spanned Item) :
    reads ⟨items, .items, .none⟩ item.val.shapes =
      some ⟨items ++ [Position.bareItem item], .items, .none⟩ := by
  obtain ⟨s, item⟩ := item
  cases item with
  | type tag fields =>
      have hopen : reads ⟨items, .items, .none⟩ [.mark .lparen, .mark .deftype, .name tag.val] =
          some ⟨items, .typeFields .none (bareIdent tag) [], .none⟩ := rfl
      have hfields := reads_namesOf items (fun xs => .typeFields .none (bareIdent tag) xs) (fun _ _ => rfl) [] fields
      exact reads_append (reads_append hopen hfields) rfl
  | fn name params body =>
      have hopen : reads ⟨items, .items, .none⟩
          [.mark .lparen, .mark .defn, .name name.val, .mark .lparen] =
            some ⟨items, .fnParams .none (bareIdent name) [], .none⟩ := rfl
      have hparams := reads_namesOf items (fun xs => .fnParams .none (bareIdent name) xs) (fun _ _ => rfl) [] params
      have hmid : reads ⟨items, .fnParams .none (bareIdent name) (params.map bareIdent), .none⟩
          [.mark .rparen] =
            some ⟨items, .body (.fn .none (bareIdent name) (params.map bareIdent)), .none⟩ := rfl
      have hbody := reads_append (reads_append (reads_append hopen hparams) hmid)
        (reads_body body.val (.fn .none (bareIdent name) (params.map bareIdent)))
      exact reads_append hbody rfl

theorem reads_tree (items tree : Tree) :
    reads ⟨items, .items, .none⟩ tree.shapes = some ⟨items ++ tree.bare, .items, .none⟩ := by
  induction tree generalizing items with
  | nil => rw [Tree.bare, List.map_nil, List.append_nil, Tree.shapes, List.flatMap_nil, reads_nil]
  | cons item rest ih =>
      have hrest := ih (items ++ [Position.bareItem item])
      rw [List.append_assoc, List.singleton_append] at hrest
      exact reads_append (reads_item item) hrest

end State

/-- A text whose tokens are the shapes of a tree parses to that tree, up to spans. -/
theorem parse_of_shapes {source : String} {tree : Tree} (hstop : (lex source).stop = .finished)
    (h : (lex source).tokens.map Token.shape = tree.shapes) :
    ∃ tree', parse source = .ok tree' ∧ tree'.bare = tree.bare := by
  have hbare := State.bare_advance {} (lex source).tokens
  have htokens : ((lex source).tokens.map fun t => t.shape.token) =
      tree.shapes.map Shape.token := by
    rw [← h, List.map_map]
    rfl
  have hreads : State.advance (State.bare {}) (tree.shapes.map Shape.token) =
      some ⟨tree.bare, .items, .none⟩ := State.reads_tree [] tree
  rw [htokens, hreads] at hbare
  obtain ⟨s, hs, hsbare⟩ := Option.map_eq_some_iff.1 hbare
  refine ⟨s.items, ?_, congrArg State.items hsbare⟩
  have hposition : s.position = .items := by
    have := congrArg State.position hsbare
    revert this
    rw [State.bare]
    cases s.position <;> simp [Position.bare]
  have hfinish : State.run .finished s [] = .ok s.items := by simp [State.run, State.finish, hposition]
  have hrun : parse source = State.run (lex source).stop {} (lex source).tokens := rfl
  rw [hrun, hstop, State.run_of_advance hs, hfinish]

end Reclaim.Surface
