import Reclaim.Proofs.Surface.Grammar
import Reclaim.Proofs.Surface.Reprinting

/-!
# The token that is to blame

The parser has accepted some tokens exactly if a program text can go on from there.  In one direction,
every point that it reaches is completed by closing the forms that are open (`State.exists_tree`), and
the tree is printed.  In the other, it does not look at spans, so it follows the tokens as far as it
follows the text that goes on from them (`coherent_of_goesOn`).  The one exception is a word where a
body has to start, which is accepted and reported later.

So a text that does not parse is reported at the first token after which no program text can go on, or
at its end if one can (`parse_blames`).
-/

namespace Reclaim.Surface

variable {s s' : State} {t : Token} {ts before after : List Token} {more : List Shape}
  {e : SyntaxError} {source : String}

/-! ## Closing what is open -/

/-- A name that completes a form. -/
def filler : Ident := ⟨.none, "x"⟩

@[simp] theorem proper_filler : Proper filler.val := by decide

/-- A body that completes a form. -/
def fillerBody : Body := .ret filler

@[simp] theorem named_fillerBody : Named fillerBody.shapes := by
  simp [fillerBody, Body.shapes]

theorem OpenExpr.exists_expr (e : OpenExpr) :
    ∃ (d : Expr) (more : List Shape), d.opened = e.shapes ++ more ∧ Named more := by
  cases e with
  | head => exact ⟨.reset filler, [.mark .reset, .name filler.val], rfl, by simp⟩
  | newTag => exact ⟨.new filler [], [.name filler.val], rfl, by simp⟩
  | projField => exact ⟨.proj filler filler, [.name filler.val, .name filler.val], rfl, by simp⟩
  | projRecord field => exact ⟨.proj field filler, [.name filler.val], rfl, by simp⟩
  | papTarget => exact ⟨.pap filler [], [.name filler.val], rfl, by simp⟩
  | resetVar => exact ⟨.reset filler, [.name filler.val], rfl, by simp⟩
  | reuseToken =>
      exact ⟨.reuse filler filler [], [.name filler.val, .name filler.val], rfl, by simp⟩
  | reuseTag token => exact ⟨.reuse token filler [], [.name filler.val], rfl, by simp⟩
  | args e | full e => exact ⟨e, [], (List.append_nil _).symm, named_nil⟩

/-- An item in which a body stands in a context. -/
theorem BodyContext.exists_item (context : BodyContext) (b : Body) :
    ∃ (item : Item) (more : List Shape),
      more ≠ [] ∧ item.shapes = context.shapes ++ b.shapes ++ more ∧ Named more := by
  induction context generalizing b with
  | fn s name params =>
      refine ⟨.fn name params ⟨.none, b⟩, [.mark .rparen], List.cons_ne_nil _ _, ?_, by simp⟩
      simp [Item.shapes, shapes, fnOpened]
  | lets s bindings outer ih =>
      obtain ⟨item, more, -, hitem, hmore⟩ := ih (.lets bindings ⟨.none, b⟩)
      refine ⟨item, .mark .rparen :: more, List.cons_ne_nil _ _, ?_, by simpa using hmore⟩
      simp [hitem, Body.shapes, shapes, letOpened]
  | arm s x arms tag outer ih =>
      obtain ⟨item, more, -, hitem, hmore⟩ := ih (.case x (arms ++ [(tag, ⟨.none, b⟩)]))
      refine ⟨item, .mark .rparen :: more, List.cons_ne_nil _ _, ?_, by simpa using hmore⟩
      simp [hitem, Body.shapes, shapes, caseOpened, shapesArms_eq]
  | inc s x outer ih =>
      obtain ⟨item, more, -, hitem, hmore⟩ := ih (.inc x ⟨.none, b⟩)
      refine ⟨item, .mark .rparen :: more, List.cons_ne_nil _ _, ?_, by simpa using hmore⟩
      simp [hitem, Body.shapes, shapes]
  | dec s x outer ih =>
      obtain ⟨item, more, -, hitem, hmore⟩ := ih (.dec x ⟨.none, b⟩)
      refine ⟨item, .mark .rparen :: more, List.cons_ne_nil _ _, ?_, by simpa using hmore⟩
      simp [hitem, Body.shapes, shapes]

/-- An item in which a body stands in a context, seen from a point inside the body. -/
theorem BodyContext.exists_item_of_body (context : BodyContext) (b : Body) (opened rest : List Shape)
    (hb : b.shapes = opened ++ rest) (hrest : Named rest) :
    ∃ (item : Item) (more : List Shape),
      more ≠ [] ∧ item.shapes = context.shapes ++ opened ++ more ∧ Named more := by
  obtain ⟨item, more, hne, hitem, hmore⟩ := context.exists_item b
  refine ⟨item, rest ++ more, by simp [hne], ?_, named_append.2 ⟨hrest, hmore⟩⟩
  simp [hitem, hb]

/-- An item in which a point lies. -/
theorem Position.exists_item {p : Position} (hp : p.Coherent) (hne : p ≠ .items) :
    ∃ (item : Item) (more : List Shape),
      more ≠ [] ∧ item.shapes = p.shapes ++ more ∧ Named more := by
  cases p with
  | items => exact absurd rfl hne
  | misnamed word => exact hp.elim
  | itemHead s =>
      exact ⟨.type filler [], [.mark .deftype, .name filler.val, .mark .rparen], by simp, rfl, by simp⟩
  | typeTag s => exact ⟨.type filler [], [.name filler.val, .mark .rparen], by simp, rfl, by simp⟩
  | typeFields s tag fields => exact ⟨.type tag fields, [.mark .rparen], by simp, rfl, by simp⟩
  | fnName s =>
      exact ⟨.fn filler [] ⟨.none, fillerBody⟩,
        .name filler.val :: .mark .lparen :: .mark .rparen :: (fillerBody.shapes ++ [.mark .rparen]),
        by simp, rfl, by simp⟩
  | fnOpen s name =>
      exact ⟨.fn name [] ⟨.none, fillerBody⟩,
        .mark .lparen :: .mark .rparen :: (fillerBody.shapes ++ [.mark .rparen]),
        by simp, rfl, by simp⟩
  | fnParams s name params =>
      refine ⟨.fn name params ⟨.none, fillerBody⟩,
        .mark .rparen :: (fillerBody.shapes ++ [.mark .rparen]), by simp, ?_, ?_⟩
      · simp [Item.shapes, shapes, fnOpened]
      · simp
  | fnClose s name params b =>
      refine ⟨.fn name params b, [.mark .rparen], by simp, ?_, by simp⟩
      simp [Item.shapes, shapes, fnOpened]
  | body context =>
      obtain ⟨item, more, hmore, hitem, hnamed⟩ := context.exists_item fillerBody
      refine ⟨item, fillerBody.shapes ++ more, by simp [hmore], ?_, by simp [hnamed]⟩
      rw [hitem, shapes, List.append_assoc]
  | bodyHead s context =>
      exact context.exists_item_of_body fillerBody [.mark .lparen] _ rfl (by simp)
  | bodyClose s b context =>
      exact context.exists_item_of_body b b.opened _ b.shapes_eq (by simp)
  | retVar s context =>
      exact context.exists_item_of_body fillerBody [.mark .lparen, .mark .ret] _ rfl (by simp)
  | letsOpen s context =>
      exact context.exists_item_of_body (.lets [] ⟨.none, fillerBody⟩)
        [.mark .lparen, .mark .lets] _ rfl (by simp)
  | letsBinder s bindings context =>
      refine context.exists_item_of_body (.lets bindings ⟨.none, fillerBody⟩) (letOpened bindings)
        (.mark .rparen :: (fillerBody.shapes ++ [.mark .rparen])) ?_ (by simp)
      simp [Body.shapes, letOpened]
  | letsExpr s bindings x context =>
      have := context.exists_item_of_body
        (.lets (bindings ++ [⟨x, ⟨.none, .reset filler⟩⟩]) ⟨.none, fillerBody⟩)
        (letOpened bindings ++ [.name x.val])
        ([.mark .lparen, .mark .reset, .name filler.val, .mark .rparen, .mark .rparen] ++
          fillerBody.shapes ++ [.mark .rparen])
        (by simp [Body.shapes, letOpened, Binding.shapes, Expr.opened]) (by simp)
      simpa only [shapes, List.append_assoc] using this
  | expr s bindings x o e context =>
      obtain ⟨d, rest, hd, hrest⟩ := e.exists_expr
      have := context.exists_item_of_body
        (.lets (bindings ++ [⟨x, ⟨.none, d⟩⟩]) ⟨.none, fillerBody⟩)
        (letOpened bindings ++ [.name x.val] ++ e.shapes)
        (rest ++ [.mark .rparen, .mark .rparen] ++ fillerBody.shapes ++ [.mark .rparen])
        (by simp [Body.shapes, letOpened, Binding.shapes, hd]) (by simp [hrest])
      simpa only [shapes, List.append_assoc] using this
  | caseVar s context =>
      exact context.exists_item_of_body (.case filler []) [.mark .lparen, .mark .case]
        [.name filler.val, .mark .rparen] rfl (by simp)
  | caseArms s x arms context =>
      exact context.exists_item_of_body (.case x arms) (caseOpened x arms) _ (Body.shapes_eq _)
        (by simp)
  | incVar s context =>
      exact context.exists_item_of_body (.inc filler ⟨.none, fillerBody⟩)
        [.mark .lparen, .mark .inc] _ rfl (by simp)
  | decVar s context =>
      exact context.exists_item_of_body (.dec filler ⟨.none, fillerBody⟩)
        [.mark .lparen, .mark .dec] _ rfl (by simp)

/-- A text in which the state of the parser lies, as long as it can be completed. -/
theorem State.exists_tree (hs : s.position.Coherent) : ∃ (tree : Tree) (more : List Shape),
    tree.shapes = s.shapes ++ more ∧ Named more ∧ (s.position ≠ .items → more ≠ []) := by
  by_cases hp : s.position = .items
  · refine ⟨s.items, [], ?_, named_nil, fun hne => absurd hp hne⟩
    rw [State.shapes, hp, Position.shapes, List.append_nil, List.append_nil]
  · obtain ⟨item, more, hne, hitem, hmore⟩ := s.position.exists_item hs hp
    refine ⟨s.items ++ [⟨.none, item⟩], more, ?_, hmore, fun _ => hne⟩
    simp [Tree.shapes, State.shapes, hitem]

/-! ## What a program text can go on with -/

/-- Some program text has these tokens and goes on with tokens of the shapes `more`. -/
def GoesOn (ts : List Token) (more : List Shape) : Prop :=
  ∃ (source : String) (tree : Tree), (lex source).stop = .finished ∧ IsTree (lex source).tokens tree ∧
    (lex source).tokens.map Token.shape = ts.map Token.shape ++ more

/-- Some program text starts with these tokens. -/
def Viable (ts : List Token) : Prop := ∃ more, GoesOn ts more

theorem State.exists_of_advance_append (h : s.advance (before ++ after) = some s') :
    ∃ mid, s.advance before = some mid ∧ mid.advance after = some s' := by
  rw [advance, List.foldlM_append] at h
  exact Option.bind_eq_some_iff.1 h

theorem State.advance_misnamed {w : Ident} (hs : s.position = .misnamed w)
    (h : s.advance ts = some s') : s' = s := by
  cases ts with
  | nil =>
      cases h
      rfl
  | cons t rest =>
      rw [advance, List.foldlM_cons, accept_misnamed hs] at h
      cases h

theorem State.shapes_advance (hs : s.position.Coherent) (h : s.advance ts = some s') :
    (∃ w, s'.position = .misnamed w) ∨
      s'.position.Coherent ∧ s'.shapes = s.shapes ++ ts.map Token.shape := by
  induction ts generalizing s with
  | nil =>
      cases h
      exact .inr ⟨hs, (List.append_nil _).symm⟩
  | cons t rest ih =>
      rw [advance, List.foldlM_cons] at h
      obtain ⟨mid, hmid, h⟩ := Option.bind_eq_some_iff.1 h
      rcases shapes_accept hs hmid with hw | ⟨hcoh, hshapes⟩
      · have heq := advance_misnamed hw h
        exact .inl ⟨t.ident, by rw [heq, hw]⟩
      · rcases ih hcoh h with hw | ⟨hcoh', hshapes'⟩
        · exact .inl hw
        · exact .inr ⟨hcoh', by rw [hshapes', hshapes]; simp⟩

/-- What the parser has read from the start. -/
theorem State.shapes_read (h : State.advance {} ts = some s) :
    (∃ w, s.position = .misnamed w) ∨ s.position.Coherent ∧ s.shapes = ts.map Token.shape :=
  shapes_advance (s := {}) trivial h

/-- A program text goes on from every point that the parser reaches, as far as its tokens are words. -/
theorem goesOn_of_advance (hts : Named (ts.map Token.shape)) (h : State.advance {} ts = some s)
    (hs : s.position.Coherent) : ∃ more, GoesOn ts more ∧ (s.position ≠ .items → more ≠ []) := by
  have hshapes : s.shapes = ts.map Token.shape := by
    rcases State.shapes_read h with ⟨w, hw⟩ | ⟨-, hshapes⟩
    · rw [hw] at hs
      exact hs.elim
    · exact hshapes
  obtain ⟨tree, more, htree, hmore, hne⟩ := s.exists_tree hs
  rw [hshapes] at htree
  have hnamed : Named tree.shapes := htree ▸ named_append.2 ⟨hts, hmore⟩
  obtain ⟨hstop, htokens⟩ := tree.lex_print hnamed
  obtain ⟨tree', htree'⟩ := exists_isTree htokens
  exact ⟨more, ⟨tree.print, tree', hstop, htree', htokens.trans htree⟩, hne⟩

/-- Where a program text goes on, there the parser gets to a point that it can go on from. -/
theorem coherent_of_goesOn (h : GoesOn ts more) :
    ∃ s, State.advance {} ts = some s ∧ s.position.Coherent := by
  obtain ⟨source, tree, -, htree, hshapes⟩ := h
  obtain ⟨last, hfull⟩ := advance_of_isTree [] .none htree
  have hbare := State.bare_advance {} (lex source).tokens
  have htokens : ((lex source).tokens.map fun t => t.shape.token) =
      (ts.map fun t => t.shape.token) ++ more.map Shape.token := by
    calc
      _ = ((lex source).tokens.map Token.shape).map Shape.token := by rw [List.map_map]; rfl
      _ = _ := by rw [hshapes, List.map_append, List.map_map]; rfl
  rw [hfull, htokens] at hbare
  obtain ⟨mid, hmid, hrest⟩ := State.exists_of_advance_append hbare.symm
  have hts := State.bare_advance {} ts
  rw [hmid] at hts
  obtain ⟨s, hs, rfl⟩ := Option.map_eq_some_iff.1 hts
  refine ⟨s, hs, ?_⟩
  rcases State.shapes_read hs with ⟨w, hw⟩ | ⟨hcoh, -⟩
  · have hmisnamed : s.bare.position = .misnamed (bareIdent w) := by
      rw [State.bare, hw]
      rfl
    have hitems := congrArg State.position (State.advance_misnamed hmisnamed hrest)
    rw [hmisnamed] at hitems
    cases hitems
  · exact hcoh

/-! ## Where an error is reported -/

/-- A run that fails does so at a token that is not accepted, or at the end. -/
theorem State.run_eq_error (h : run .finished s ts = .error e) :
    (∃ before t after s', ts = before ++ t :: after ∧ s.advance before = some s' ∧
      s'.accept t = none ∧ e = s'.refusal t) ∨
    ∃ s', s.advance ts = some s' ∧ s'.finish = .error e := by
  induction ts generalizing s with
  | nil => exact .inr ⟨s, rfl, h⟩
  | cons t rest ih =>
      rw [run] at h
      split at h
      · next mid hmid =>
          rcases ih h with ⟨before, u, after, s', rfl, hs', hu, he⟩ | ⟨s', hs', he⟩
          · exact .inl ⟨t :: before, u, after, s', rfl, (advance_cons hmid).trans hs', hu, he⟩
          · exact .inr ⟨s', (advance_cons hmid).trans hs', he⟩
      · next hnone => exact .inl ⟨[], t, rest, s, rfl, rfl, hnone, (Except.error.inj h).symm⟩

/-- The state after some tokens, seen from the last of them. -/
theorem State.exists_of_advance_concat (h : s.advance (before ++ [t]) = some s') :
    ∃ mid, s.advance before = some mid ∧ mid.accept t = some s' := by
  obtain ⟨mid, hmid, h⟩ := exists_of_advance_append h
  rw [advance, List.foldlM_cons] at h
  obtain ⟨s'', hs'', h⟩ := Option.bind_eq_some_iff.1 h
  cases h
  exact ⟨mid, hmid, hs''⟩

theorem State.last_accept (h : s.accept t = some s') : s'.last = t.span := by
  unfold accept at h
  split at h
  · cases h
    rfl
  · obtain ⟨p, -, rfl⟩ := Option.map_eq_some_iff.1 h
    rfl

/-- A label is on the first token after which no program text goes on, or, if one goes on after the last
token, at its end. -/
def Blames (ts : List Token) (label : Span) : Prop :=
  (∃ before t after, ts = before ++ t :: after ∧ label = t.span ∧ Viable before ∧
    ¬Viable (before ++ [t])) ∨
  ∃ t more, ts.getLast? = some t ∧ label = t.span.clip ∧ more ≠ [] ∧ GoesOn ts more

/-- A token that cannot be accepted is to blame. -/
theorem blames_token (hts : Named (ts.map Token.shape)) (heq : ts = before ++ t :: after)
    (h : State.advance {} before = some s) (hs : s.position.Coherent)
    (hbad : ∀ s', s.accept t = some s' → ¬s'.position.Coherent) : Blames ts t.span := by
  refine .inl ⟨before, t, after, heq, rfl, ?_, ?_⟩
  · rw [heq, List.map_append, named_append] at hts
    obtain ⟨more, hmore, -⟩ := goesOn_of_advance hts.1 h hs
    exact ⟨more, hmore⟩
  · rintro ⟨more, hmore⟩
    obtain ⟨s', hs', hcoh⟩ := coherent_of_goesOn hmore
    obtain ⟨mid, hmid, haccept⟩ := State.exists_of_advance_concat hs'
    obtain rfl : s = mid := Option.some.inj (h.symm.trans hmid)
    exact hbad s' haccept hcoh

/-- A word that starts no body is to blame, once it has been accepted. -/
theorem blames_misnamed {w : Ident} (hts : Named (ts.map Token.shape)) (heq : ts = before ++ after)
    (h : State.advance {} before = some s) (hs : s.position = .misnamed w) : Blames ts w.span := by
  rcases List.eq_nil_or_concat' before with rfl | ⟨front, t, rfl⟩
  · cases h
    cases hs
  · obtain ⟨mid, hmid, haccept⟩ := State.exists_of_advance_concat h
    rcases State.shapes_read hmid with ⟨v, hv⟩ | ⟨hcoh, -⟩
    · rw [State.accept_misnamed hv] at haccept
      cases haccept
    · rcases State.shapes_accept hcoh haccept with hw | ⟨hcoh', -⟩
      · obtain rfl : t.ident = w := Position.misnamed.inj (hw.symm.trans hs)
        refine blames_token hts (heq.trans (List.append_assoc _ _ _)) hmid hcoh fun s' hs' hcoh' => ?_
        obtain rfl : s = s' := Option.some.inj (haccept.symm.trans hs')
        rw [hs] at hcoh'
        exact hcoh'
      · rw [hs] at hcoh'
        exact hcoh'.elim

theorem State.label_refusal (hs : s.position.Coherent) (t : Token) :
    (s.refusal t).diagnostic.label.span = t.span := by
  unfold refusal
  split
  · next w kind hw =>
      rw [hw] at hs
      exact hs.elim
  · rfl
  · cases s.position.expectation <;> rfl

/-- The end of the text is reported where more is expected. -/
theorem State.label_finish (hs : s.position.Coherent) (h : s.finish = .error e) :
    s.position ≠ .items ∧ e.diagnostic.label.span = s.last.clip := by
  unfold finish at h
  split at h
  · cases h
  · next w hw =>
      rw [hw] at hs
      exact hs.elim
  · next hne _ =>
      cases h
      refine ⟨hne, ?_⟩
      cases s.position.expectation <;> rfl

theorem blames_of_error (hstop : (lex source).stop = .finished) (h : parse source = .error e) :
    Blames (lex source).tokens e.diagnostic.label.span := by
  have hnamed : Named ((lex source).tokens.map Token.shape) := by
    intro x hx
    obtain ⟨t, ht, heq⟩ := List.mem_map.1 hx
    obtain ⟨hkind, rfl⟩ := Token.ident_of_shape heq
    exact proper_of_mem_lex ht hkind
  have hrun : State.run .finished {} (lex source).tokens = .error e := hstop ▸ h
  rcases State.run_eq_error hrun with ⟨before, t, after, s, heq, hs, hnone, rfl⟩ | ⟨s, hs, hfinish⟩
  · rcases State.shapes_read hs with ⟨w, hw⟩ | ⟨hcoh, -⟩
    · have hlabel : (s.refusal t).diagnostic.label.span = w.span := by
        rw [State.refusal, hw]
        rfl
      rw [hlabel]
      exact blames_misnamed hnamed heq hs hw
    · rw [s.label_refusal hcoh t]
      refine blames_token hnamed heq hs hcoh fun s' hs' => ?_
      rw [hnone] at hs'
      cases hs'
  · rcases State.shapes_read hs with ⟨w, hw⟩ | ⟨hcoh, -⟩
    · rw [State.finish, hw] at hfinish
      cases hfinish
      exact blames_misnamed hnamed (List.append_nil _).symm hs hw
    · obtain ⟨hne, hlabel⟩ := State.label_finish hcoh hfinish
      obtain ⟨more, hmore, hmoreNe⟩ := goesOn_of_advance hnamed hs hcoh
      rcases List.eq_nil_or_concat' (lex source).tokens with hnil | ⟨before, t, hlast⟩
      · rw [hnil] at hs
        cases hs
        exact absurd rfl hne
      · rw [hlast] at hs
        obtain ⟨mid, -, haccept⟩ := State.exists_of_advance_concat hs
        rw [hlabel, State.last_accept haccept]
        refine .inr ⟨t, more, ?_, rfl, hmoreNe hne, hmore⟩
        rw [hlast, List.getLast?_append]
        rfl

/-! ## Labels tell tokens apart -/

/-- Tokens stand one after the other, and none of them is empty.  So no two have the same span, and none
has the empty span at the end of another. -/
def InOrder (ts : List Token) : Prop :=
  ts.Pairwise (fun t u => t.span.hi ≤ u.span.lo) ∧ ∀ t ∈ ts, t.span.lo < t.span.hi

theorem byteSize_pos (c : Char) (cs : List Char) : 0 < byteSize (c :: cs) := by
  have := c.utf8Size_pos
  simp only [byteSize, List.foldr_cons]
  omega

/-- Tokens that start from some place on stay in order with one that ends there. -/
theorem inOrder_cons (kind : Kind) (pos : Nat) (c : Char) (cs : List Char)
    (h : InOrder ts ∧ ∀ u ∈ ts, pos + byteSize (c :: cs) ≤ u.span.lo) :
    InOrder (tokenAt kind pos (c :: cs) :: ts) ∧
      ∀ u ∈ tokenAt kind pos (c :: cs) :: ts, pos ≤ u.span.lo := by
  obtain ⟨⟨hpair, hlt⟩, hle⟩ := h
  have hpos := byteSize_pos c cs
  refine ⟨⟨List.pairwise_cons.2 ⟨hle, hpair⟩, List.forall_mem_cons.2 ⟨?_, hlt⟩⟩,
    List.forall_mem_cons.2 ⟨Nat.le_refl pos, fun u hu => ?_⟩⟩
  · show pos < pos + byteSize (c :: cs)
    omega
  · have := hle u hu
    omega

theorem inOrder_lexFrom (pos : Nat) (cs : List Char) :
    InOrder (lexFrom pos cs).tokens ∧ ∀ u ∈ (lexFrom pos cs).tokens, pos ≤ u.span.lo := by
  fun_induction lexFrom pos cs with
  | case1 | case7 => exact ⟨⟨.nil, List.forall_mem_nil _⟩, List.forall_mem_nil _⟩
  | case2 pos c rest hb ih | case3 pos rest hb ih =>
      exact ⟨ih.1, fun u hu => (Nat.le_add_right _ _).trans (ih.2 u hu)⟩
  | case4 pos rest hb hsemi ih => exact inOrder_cons .lparen pos '(' [] ih
  | case5 pos rest hb hsemi hopen ih => exact inOrder_cons .rparen pos ')' [] ih
  | case6 pos c rest hb hsemi hopen hclose hc word ih => exact inOrder_cons _ pos c _ ih

/-! ## The main statement -/

/-- On a text that is read to its end, the parser accepts exactly the grammar and returns the tree that
is derived, and a text that it does not accept it reports at the token that is to blame. -/
theorem parse_spec (hstop : (lex source).stop = .finished) :
    (∀ tree, parse source = .ok tree ↔ IsTree (lex source).tokens tree) ∧
    (∀ e, parse source = .error e → Blames (lex source).tokens e.diagnostic.label.span) ∧
    InOrder (lex source).tokens :=
  ⟨fun _ => parse_eq_ok hstop, fun _ => blames_of_error hstop, (inOrder_lexFrom 0 source.toList).1⟩

/-- A function whose body starts with a misspelled keyword. -/
def misspelled : String := "(deftype Box v) (defn f (x) (rte x))"

/-- The misspelled word is to blame. -/
theorem parse_spec_misspelled : (lex misspelled).stop = .finished ∧
    Blames (lex misspelled).tokens ⟨29, 32⟩ ∧ InOrder (lex misspelled).tokens := by
  have hstop : (lex misspelled).stop = .finished := by decide +kernel
  have hcheck : (match parse misspelled with
      | .ok _ => none
      | .error e => some e.diagnostic.label.span) = some ⟨29, 32⟩ := by decide +kernel
  obtain ⟨-, hblames, horder⟩ := parse_spec hstop
  cases hparse : parse misspelled with
  | ok tree =>
      rw [hparse] at hcheck
      cases hcheck
  | error e =>
      rw [hparse] at hcheck
      have hlabel : e.diagnostic.label.span = ⟨29, 32⟩ := Option.some.inj hcheck
      exact ⟨hstop, hlabel ▸ hblames e hparse, horder⟩

end Reclaim.Surface
