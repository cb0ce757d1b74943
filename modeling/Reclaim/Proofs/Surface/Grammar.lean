import Reclaim.Proofs.Surface.Reading

/-!
# The grammar of program texts

The grammar is stated on tokens: `IsExpr`, `IsBody`, `IsItem` and `IsTree` relate a sequence of tokens to
the tree that it derives, with one rule for each form.  A list inside a form is a sequence of parts, so
every list may be empty.

A sequence of tokens derives at most one tree, and the parser finds it: it moves over the tokens of a
form in one go (`Moves`), whatever forms are open around it (`moves_body`).  Conversely the tokens of a
text that parses have the shapes of its tree, and tokens of such shapes have a derivation
(`exists_isTree`).  So the parser accepts exactly the grammar (`parse_eq_ok`).
-/

namespace Reclaim.Surface

/-! ## Derivations -/

/-- The parentheses around a form. -/
structure Parens (opening closing : Token) : Prop where
  /-- The first token of the form opens it. -/
  opens : opening.kind = .lparen
  /-- Its last token closes it. -/
  closes : closing.kind = .rparen

/-- A form with the span from its first to its last token. -/
def form {α : Type} (opening closing : Token) (x : α) : Spanned α :=
  ⟨opening.span.through closing.span, x⟩

/-- Names that follow each other. -/
def Words (ts : List Token) : Prop := ∀ t ∈ ts, t.kind = .ident

/-- A name and a form after it: a binder with its expression or a tag with its body. -/
structure Part (α : Type) where
  /-- The name. -/
  word : Token
  /-- The tokens of the form. -/
  tokens : List Token
  /-- What they derive. -/
  tree : Spanned α

/-- The tokens of a part. -/
def Part.all {α : Type} (part : Part α) : List Token := part.word :: part.tokens

/-- A part of a `let`. -/
def Part.binding (part : Part Expr) : Binding := ⟨part.word.ident, part.tree⟩

/-- A part of a `case`. -/
def Part.arm (part : Part Body) : Arm := (part.word.ident, part.tree)

/-- Tokens that derive an expression. -/
inductive IsExpr : List Token → Spanned Expr → Prop where
  /-- `(new Tag x ...)` -/
  | new {opening closing word tag : Token} {xs : List Token} : Parens opening closing →
      word.kind = .new → tag.kind = .ident → Words xs →
      IsExpr ([opening, word, tag] ++ xs ++ [closing])
        (form opening closing (.new tag.ident (xs.map Token.ident)))
  /-- `(proj f r)` -/
  | proj {opening closing word field record : Token} : Parens opening closing →
      word.kind = .proj → field.kind = .ident → record.kind = .ident →
      IsExpr [opening, word, field, record, closing]
        (form opening closing (.proj field.ident record.ident))
  /-- `(pap f x ...)` -/
  | pap {opening closing word target : Token} {xs : List Token} : Parens opening closing →
      word.kind = .pap → target.kind = .ident → Words xs →
      IsExpr ([opening, word, target] ++ xs ++ [closing])
        (form opening closing (.pap target.ident (xs.map Token.ident)))
  /-- `(f x ...)` -/
  | app {opening closing target : Token} {xs : List Token} : Parens opening closing →
      target.kind = .ident → Words xs →
      IsExpr ([opening, target] ++ xs ++ [closing])
        (form opening closing (.app target.ident (xs.map Token.ident)))
  /-- `(reset x)` -/
  | reset {opening closing word x : Token} : Parens opening closing →
      word.kind = .reset → x.kind = .ident →
      IsExpr [opening, word, x, closing] (form opening closing (.reset x.ident))
  /-- `(reuse w Tag x ...)` -/
  | reuse {opening closing word token tag : Token} {xs : List Token} : Parens opening closing →
      word.kind = .reuse → token.kind = .ident → tag.kind = .ident → Words xs →
      IsExpr ([opening, word, token, tag] ++ xs ++ [closing])
        (form opening closing (.reuse token.ident tag.ident (xs.map Token.ident)))

/-- Tokens that derive a body. -/
inductive IsBody : List Token → Spanned Body → Prop where
  /-- `(ret x)` -/
  | ret {opening closing word x : Token} : Parens opening closing →
      word.kind = .ret → x.kind = .ident →
      IsBody [opening, word, x, closing] (form opening closing (.ret x.ident))
  /-- `(let (x e ...) b)` -/
  | lets {opening closing word first last : Token} {parts : List (Part Expr)} {ts : List Token}
      {b : Spanned Body} : Parens opening closing → word.kind = .lets → Parens first last →
      (∀ part ∈ parts, part.word.kind = .ident) → (∀ part ∈ parts, IsExpr part.tokens part.tree) →
      IsBody ts b →
      IsBody ([opening, word, first] ++ parts.flatMap Part.all ++ [last] ++ ts ++ [closing])
        (form opening closing (.lets (parts.map Part.binding) b))
  /-- `(case x Tag b ...)` -/
  | case {opening closing word x : Token} {parts : List (Part Body)} : Parens opening closing →
      word.kind = .case → x.kind = .ident →
      (∀ part ∈ parts, part.word.kind = .ident) → (∀ part ∈ parts, IsBody part.tokens part.tree) →
      IsBody ([opening, word, x] ++ parts.flatMap Part.all ++ [closing])
        (form opening closing (.case x.ident (parts.map Part.arm)))
  /-- `(inc x b)` -/
  | inc {opening closing word x : Token} {ts : List Token} {b : Spanned Body} :
      Parens opening closing → word.kind = .inc → x.kind = .ident → IsBody ts b →
      IsBody ([opening, word, x] ++ ts ++ [closing]) (form opening closing (.inc x.ident b))
  /-- `(dec x b)` -/
  | dec {opening closing word x : Token} {ts : List Token} {b : Spanned Body} :
      Parens opening closing → word.kind = .dec → x.kind = .ident → IsBody ts b →
      IsBody ([opening, word, x] ++ ts ++ [closing]) (form opening closing (.dec x.ident b))

/-- Tokens that derive an item. -/
inductive IsItem : List Token → Spanned Item → Prop where
  /-- `(deftype Tag f ...)` -/
  | type {opening closing word tag : Token} {xs : List Token} : Parens opening closing →
      word.kind = .deftype → tag.kind = .ident → Words xs →
      IsItem ([opening, word, tag] ++ xs ++ [closing])
        (form opening closing (.type tag.ident (xs.map Token.ident)))
  /-- `(defn f (x ...) b)` -/
  | fn {opening closing word name first last : Token} {xs ts : List Token} {b : Spanned Body} :
      Parens opening closing → word.kind = .defn → name.kind = .ident → Parens first last →
      Words xs → IsBody ts b →
      IsItem ([opening, word, name, first] ++ xs ++ [last] ++ ts ++ [closing])
        (form opening closing (.fn name.ident (xs.map Token.ident) b))

/-- Tokens that derive a program text. -/
inductive IsTree : List Token → Tree → Prop where
  | nil : IsTree [] []
  | cons {ts us : List Token} {item : Spanned Item} {tree : Tree} : IsItem ts item → IsTree us tree →
      IsTree (ts ++ us) (item :: tree)

/-! ## The parser follows derivations -/

theorem State.advance_append {s s' : State} {ts us : List Token} (h : s.advance ts = some s') :
    s.advance (ts ++ us) = s'.advance us := by
  rw [advance] at h
  rw [advance, List.foldlM_append, h]
  rfl

theorem State.advance_cons {s s' : State} {t : Token} {us : List Token} (h : s.accept t = some s') :
    s.advance (t :: us) = s'.advance us := by
  rw [advance, List.foldlM_cons, h]
  rfl

/-- Within an item the tokens take the parser from one point to another. -/
def Moves (p : Position) (ts : List Token) (p' : Position) : Prop :=
  ∀ (items : Tree) (last : Span), ∃ last',
    State.advance ⟨items, p, last⟩ ts = some ⟨items, p', last'⟩

namespace Moves

variable {p p' p'' : Position} {t opening closing x : Token} {ts us : List Token}

theorem nil : Moves p [] p := fun _ last => ⟨last, rfl⟩

theorem token {kind : Kind} (hkind : t.kind = kind)
    (h : ∀ (items : Tree) (last : Span),
      State.accept ⟨items, p, last⟩ ⟨kind, t.text, t.span⟩ = some ⟨items, p', t.span⟩) :
    Moves p [t] p' := by
  subst hkind
  intro items last
  exact ⟨t.span, State.advance_cons (h items last)⟩

theorem append (h : Moves p ts p') (h' : Moves p' us p'') : Moves p (ts ++ us) p'' := by
  intro items last
  obtain ⟨mid, hmid⟩ := h items last
  obtain ⟨last', hlast⟩ := h' items mid
  exact ⟨last', (State.advance_append hmid).trans hlast⟩

theorem cons (h : Moves p [t] p') (h' : Moves p' ts p'') : Moves p (t :: ts) p'' := h.append h'

/-- A list whose parts can be added one after the other. -/
theorem flatMap {α β : Type} (point : List β → Position) {tokens : α → List Token} {part : α → β}
    {xs : List α} (h : ∀ x ∈ xs, ∀ before, Moves (point before) (tokens x) (point (before ++ [part x])))
    (before : List β) :
    Moves (point before) (xs.flatMap tokens) (point (before ++ xs.map part)) := by
  induction xs generalizing before with
  | nil =>
      rw [List.map_nil, List.append_nil]
      exact nil
  | cons x rest ih =>
      obtain ⟨hx, hrest⟩ := List.forall_mem_cons.1 h
      have hothers := ih hrest (before ++ [part x])
      rw [List.append_assoc, List.singleton_append] at hothers
      exact (hx before).append hothers

/-- A list of names. -/
theorem words (point : List Ident → Position)
    (h : ∀ (before : List Ident) (t : Token), t.kind = .ident →
      Moves (point before) [t] (point (before ++ [t.ident])))
    {xs : List Token} (hxs : Words xs) : Moves (point []) xs (point (xs.map Token.ident)) := by
  have hmoves : Moves (point []) (xs.flatMap fun t => [t]) (point ([] ++ xs.map Token.ident)) :=
    flatMap point (fun x hx before => h before x (hxs x hx)) []
  rwa [List.flatMap_singleton', List.nil_append] at hmoves

end Moves

/-! ## The parser accepts what is derived -/

section

variable {ts : List Token} {opening : Span} {bindings : List Binding} {context : BodyContext}

/-- An expression is read between its parentheses. -/
theorem moves_form {x o c : Token} {d : OpenExpr} {e : Expr} (hx : x.kind = .ident) (hp : Parens o c)
    (hd : d.complete? = some e)
    (h : Moves (.expr opening bindings x.ident o.span .head context) ts
      (.expr opening bindings x.ident o.span d context)) :
    Moves (.letsBinder opening bindings context) (x :: o :: (ts ++ [c]))
      (.letsBinder opening (bindings ++ [⟨x.ident, form o c e⟩]) context) := by
  have hbinder : Moves (.letsBinder opening bindings context) [x]
      (.letsExpr opening bindings x.ident context) := .token hx fun _ _ => rfl
  have hopen : Moves (.letsExpr opening bindings x.ident context) [o]
      (.expr opening bindings x.ident o.span .head context) := .token hp.opens fun _ _ => rfl
  have hclose : Moves (.expr opening bindings x.ident o.span d context) [c]
      (.letsBinder opening (bindings ++ [⟨x.ident, form o c e⟩]) context) := by
    refine .token hp.closes fun _ _ => ?_
    rw [State.accept_of_none fun _ => rfl, Position.accept_expr_rparen rfl, hd]
    rfl
  exact hbinder.cons (hopen.cons (h.append hclose))

/-- A binder and its expression are added to the bindings. -/
theorem moves_binding {part : Part Expr} (hword : part.word.kind = .ident)
    (h : IsExpr part.tokens part.tree) :
    Moves (.letsBinder opening bindings context) part.all
      (.letsBinder opening (bindings ++ [part.binding]) context) := by
  have hargs {x : Ident} {o : Span} (mk : List Ident → Expr)
      (hmk : ∀ xs x, OpenExpr.extend (mk xs) x = mk (xs ++ [x])) {xs : List Token} (hxs : Words xs) :
      Moves (.expr opening bindings x o (.args (mk [])) context) xs
        (.expr opening bindings x o (.args (mk (xs.map Token.ident))) context) := by
    refine .words (fun xs => .expr opening bindings x o (.args (mk xs)) context) ?_ hxs
    intro before t ht
    rw [← hmk]
    exact .token ht fun _ _ => rfl
  obtain ⟨x, ts, e⟩ := part
  cases h with
  | new hp hw htag hxs =>
      exact moves_form hword hp rfl (.cons (.token hw fun _ _ => rfl)
        (.cons (.token htag fun _ _ => rfl) (hargs (.new _) (fun _ _ => rfl) hxs)))
  | proj hp hw hfield hrecord =>
      exact moves_form hword hp rfl (.cons (.token hw fun _ _ => rfl)
        (.cons (.token hfield fun _ _ => rfl) (.token hrecord fun _ _ => rfl)))
  | pap hp hw htarget hxs =>
      exact moves_form hword hp rfl (.cons (.token hw fun _ _ => rfl)
        (.cons (.token htarget fun _ _ => rfl) (hargs (.pap _) (fun _ _ => rfl) hxs)))
  | app hp htarget hxs =>
      exact moves_form hword hp rfl
        (.cons (.token htarget fun _ _ => rfl) (hargs (.app _) (fun _ _ => rfl) hxs))
  | reset hp hw hx =>
      exact moves_form hword hp rfl (.cons (.token hw fun _ _ => rfl) (.token hx fun _ _ => rfl))
  | reuse hp hw htoken htag hxs =>
      exact moves_form hword hp rfl (.cons (.token hw fun _ _ => rfl)
        (.cons (.token htoken fun _ _ => rfl)
          (.cons (.token htag fun _ _ => rfl) (hargs (.reuse _ _) (fun _ _ => rfl) hxs))))

/-- A body is read in one go, whatever forms are open around it. -/
theorem moves_body {b : Spanned Body} (h : IsBody ts b) :
    Moves (.body context) ts (context.resume b) := by
  induction h generalizing context with
  | @ret o c w x hp hw hx =>
      exact .cons (.token hp.opens fun _ _ => rfl) (.cons (.token hw fun _ _ => rfl)
        (.cons (.token hx fun _ _ => rfl) (.token hp.closes fun _ _ => rfl)))
  | @lets o c w first last parts ts b hp hw hq hwords hparts _ ih =>
      have hopen : Moves (.body context) [o, w, first] (.letsBinder o.span [] context) :=
        .cons (.token hp.opens fun _ _ => rfl)
          (.cons (.token hw fun _ _ => rfl) (.token hq.opens fun _ _ => rfl))
      have hbindings : Moves (.letsBinder o.span [] context) (parts.flatMap Part.all)
          (.letsBinder o.span (parts.map Part.binding) context) :=
        .flatMap (fun bindings => .letsBinder o.span bindings context)
          (fun part hpart before => moves_binding (hwords part hpart) (hparts part hpart)) []
      have hmid : Moves (.letsBinder o.span (parts.map Part.binding) context) [last]
          (.body (.lets o.span (parts.map Part.binding) context)) := .token hq.closes fun _ _ => rfl
      exact (((hopen.append hbindings).append hmid).append ih).append
        (.token hp.closes fun _ _ => rfl)
  | @case o c w x parts hp hw hx hwords _ ih =>
      have hopen : Moves (.body context) [o, w, x] (.caseArms o.span x.ident [] context) :=
        .cons (.token hp.opens fun _ _ => rfl)
          (.cons (.token hw fun _ _ => rfl) (.token hx fun _ _ => rfl))
      have harms : Moves (.caseArms o.span x.ident [] context) (parts.flatMap Part.all)
          (.caseArms o.span x.ident (parts.map Part.arm) context) := by
        refine .flatMap (fun arms => .caseArms o.span x.ident arms context) ?_ []
        intro part hpart before
        exact .cons (.token (hwords part hpart) fun _ _ => rfl) (ih part hpart)
      exact (hopen.append harms).append (.token hp.closes fun _ _ => rfl)
  | @inc o c w x ts b hp hw hx _ ih | @dec o c w x ts b hp hw hx _ ih =>
      have hopen := Moves.cons (p := .body context) (.token hp.opens fun _ _ => rfl)
          (.cons (.token hw fun _ _ => rfl) (.token hx fun _ _ => rfl))
      exact (hopen.append ih).append (.token hp.closes fun _ _ => rfl)

/-- The closing parenthesis of an item adds it to the items. -/
theorem advance_item (items : Tree) (last : Span) {item : Spanned Item} {p : Position} {c : Token}
    (hc : c.kind = .rparen) (hp : p.complete? c.span = some item) (h : Moves .items ts p) :
    ∃ last', State.advance ⟨items, .items, last⟩ (ts ++ [c]) =
      some ⟨items ++ [item], .items, last'⟩ := by
  obtain ⟨mid, hmid⟩ := h items last
  have hclose : State.advance ⟨items, p, mid⟩ [c] = some ⟨items ++ [item], .items, c.span⟩ :=
    State.advance_cons (State.accept_of_item hc hp)
  exact ⟨c.span, (State.advance_append hmid).trans hclose⟩

theorem advance_of_isItem (items : Tree) (last : Span) {item : Spanned Item} (h : IsItem ts item) :
    ∃ last', State.advance ⟨items, .items, last⟩ ts = some ⟨items ++ [item], .items, last'⟩ := by
  cases h with
  | @type o c w tag xs hp hw htag hxs =>
      have hopen : Moves .items [o, w, tag] (.typeFields o.span tag.ident []) :=
        .cons (.token hp.opens fun _ _ => rfl)
          (.cons (.token hw fun _ _ => rfl) (.token htag fun _ _ => rfl))
      have hfields : Moves (.typeFields o.span tag.ident []) xs
          (.typeFields o.span tag.ident (xs.map Token.ident)) :=
        .words (fun xs => .typeFields o.span tag.ident xs)
          (fun _ _ ht => .token ht fun _ _ => rfl) hxs
      exact advance_item items last hp.closes rfl (hopen.append hfields)
  | @fn o c w name q d xs ts b hp hw hname hq hxs hb =>
      have hopen : Moves .items [o, w, name, q] (.fnParams o.span name.ident []) :=
        .cons (.token hp.opens fun _ _ => rfl) (.cons (.token hw fun _ _ => rfl)
          (.cons (.token hname fun _ _ => rfl) (.token hq.opens fun _ _ => rfl)))
      have hparams : Moves (.fnParams o.span name.ident []) xs
          (.fnParams o.span name.ident (xs.map Token.ident)) :=
        .words (fun xs => .fnParams o.span name.ident xs)
          (fun _ _ ht => .token ht fun _ _ => rfl) hxs
      have hmid : Moves (.fnParams o.span name.ident (xs.map Token.ident)) [d]
          (.body (.fn o.span name.ident (xs.map Token.ident))) := .token hq.closes fun _ _ => rfl
      have hhead := (hopen.append hparams).append hmid
      exact advance_item items last hp.closes rfl (hhead.append (moves_body hb))

theorem advance_of_isTree (items : Tree) (last : Span) {tree : Tree} (h : IsTree ts tree) :
    ∃ last', State.advance ⟨items, .items, last⟩ ts = some ⟨items ++ tree, .items, last'⟩ := by
  induction h generalizing items last with
  | nil => exact ⟨last, by rw [List.append_nil]; rfl⟩
  | @cons ts us item tree hitem _ ih =>
      obtain ⟨mid, hmid⟩ := advance_of_isItem items last hitem
      obtain ⟨last', hlast⟩ := ih (items ++ [item]) mid
      refine ⟨last', (State.advance_append hmid).trans ?_⟩
      rwa [List.append_assoc, List.singleton_append] at hlast

end

/-! ## What is accepted has a derivation -/

section

variable {t : Token} {ts : List Token} {kind : Kind} {x : String} {s : Shape} {ss tt : List Shape}

theorem Token.kind_of_shape (h : t.shape = .mark kind) : t.kind = kind := by
  by_cases hk : t.kind = .ident
  · rw [shape_of_ident hk] at h
    cases h
  · rw [shape_of_ne hk] at h
    exact Shape.mark.inj h

/-- The first of some tokens is a mark. -/
theorem exists_mark (h : ts.map Token.shape = .mark kind :: ss) :
    ∃ t us, ts = t :: us ∧ t.kind = kind ∧ us.map Token.shape = ss := by
  obtain ⟨t, us, rfl, ht, hus⟩ := List.map_eq_cons_iff.1 h
  exact ⟨t, us, rfl, Token.kind_of_shape ht, hus⟩

/-- The first of some tokens is a name. -/
theorem exists_name (h : ts.map Token.shape = .name x :: ss) :
    ∃ t us, ts = t :: us ∧ t.kind = .ident ∧ us.map Token.shape = ss := by
  obtain ⟨t, us, rfl, ht, hus⟩ := List.map_eq_cons_iff.1 h
  exact ⟨t, us, rfl, (Token.ident_of_shape ht).1, hus⟩

/-- The first of some tokens open a form with a keyword and a name. -/
theorem exists_opening (h : ts.map Token.shape = [.mark .lparen, .mark kind, .name x] ++ ss) :
    ∃ o w t us, ts = [o, w, t] ++ us ∧ o.kind = .lparen ∧ w.kind = kind ∧ t.kind = .ident ∧
      us.map Token.shape = ss := by
  obtain ⟨o, us, rfl, ho, hus⟩ := exists_mark h
  obtain ⟨w, us, rfl, hw, hus⟩ := exists_mark hus
  obtain ⟨t, us, rfl, ht, hus⟩ := exists_name hus
  exact ⟨o, w, t, us, rfl, ho, hw, ht, hus⟩

/-- The last of some tokens is a closing parenthesis. -/
theorem exists_closing (h : ts.map Token.shape = ss ++ [.mark .rparen]) :
    ∃ us c, ts = us ++ [c] ∧ c.kind = .rparen ∧ us.map Token.shape = ss := by
  obtain ⟨us, rest, rfl, hus, hrest⟩ := List.map_eq_append_iff.1 h
  obtain ⟨c, nothing, rfl, hc, hnothing⟩ := exists_mark hrest
  obtain rfl := List.map_eq_nil_iff.1 hnothing
  exact ⟨us, c, rfl, hc, hus⟩

theorem words_of_shapes {xs : List Ident} (h : ts.map Token.shape = namesOf xs) : Words ts := by
  intro t ht
  have hmem : t.shape ∈ namesOf xs := h ▸ List.mem_map_of_mem ht
  obtain ⟨x, -, hx⟩ := List.mem_map.1 hmem
  exact (Token.ident_of_shape hx.symm).1

/-- A list of names with forms is a list of parts. -/
theorem exists_parts {α β : Type} {P : List Token → Spanned α → Prop} {word : β → String}
    {shapes : β → List Shape} {xs : List β}
    (h : ts.map Token.shape = xs.flatMap fun x => .name (word x) :: shapes x)
    (hP : ∀ x ∈ xs, ∀ us, us.map Token.shape = shapes x → ∃ tree, P us tree) :
    ∃ parts : List (Part α), ts = parts.flatMap Part.all ∧
      (∀ part ∈ parts, part.word.kind = .ident) ∧ ∀ part ∈ parts, P part.tokens part.tree := by
  induction xs generalizing ts with
  | nil =>
      obtain rfl := List.map_eq_nil_iff.1 h
      exact ⟨[], rfl, List.forall_mem_nil _, List.forall_mem_nil _⟩
  | cons x rest ih =>
      obtain ⟨hx, hrest⟩ := List.forall_mem_cons.1 hP
      rw [List.flatMap_cons] at h
      obtain ⟨first, others, rfl, hfirst, hothers⟩ := List.map_eq_append_iff.1 h
      obtain ⟨t, us, rfl, ht, hus⟩ := exists_name hfirst
      obtain ⟨tree, htree⟩ := hx us hus
      obtain ⟨parts, rfl, hwords, hparts⟩ := ih hothers hrest
      exact ⟨⟨t, us, tree⟩ :: parts, rfl, List.forall_mem_cons.2 ⟨ht, hwords⟩,
        List.forall_mem_cons.2 ⟨htree, hparts⟩⟩

theorem exists_isExpr {e : Expr} (h : ts.map Token.shape = e.opened ++ [.mark .rparen]) :
    ∃ e', IsExpr ts e' := by
  obtain ⟨us, c, rfl, hc, hus⟩ := exists_closing h
  cases e with
  | new tag fields =>
      obtain ⟨o, w, t, us, rfl, ho, hw, ht, hus⟩ := exists_opening hus
      exact ⟨_, .new ⟨ho, hc⟩ hw ht (words_of_shapes hus)⟩
  | proj field record =>
      obtain ⟨o, w, f, us, rfl, ho, hw, hf, hus⟩ := exists_opening hus
      obtain ⟨r, us, rfl, hr, hus⟩ := exists_name hus
      obtain rfl := List.map_eq_nil_iff.1 hus
      exact ⟨_, .proj ⟨ho, hc⟩ hw hf hr⟩
  | pap target args =>
      obtain ⟨o, w, t, us, rfl, ho, hw, ht, hus⟩ := exists_opening hus
      exact ⟨_, .pap ⟨ho, hc⟩ hw ht (words_of_shapes hus)⟩
  | app target args =>
      obtain ⟨o, us, rfl, ho, hus⟩ := exists_mark hus
      obtain ⟨t, us, rfl, ht, hus⟩ := exists_name hus
      exact ⟨_, .app ⟨ho, hc⟩ ht (words_of_shapes hus)⟩
  | reset y =>
      obtain ⟨o, w, t, us, rfl, ho, hw, ht, hus⟩ := exists_opening hus
      obtain rfl := List.map_eq_nil_iff.1 hus
      exact ⟨_, .reset ⟨ho, hc⟩ hw ht⟩
  | reuse token tag fields =>
      obtain ⟨o, w, k, us, rfl, ho, hw, hk, hus⟩ := exists_opening hus
      obtain ⟨t, us, rfl, ht, hus⟩ := exists_name hus
      exact ⟨_, .reuse ⟨ho, hc⟩ hw hk ht (words_of_shapes hus)⟩

theorem exists_isBody {b : Body} (h : ts.map Token.shape = b.shapes) : ∃ b', IsBody ts b' := by
  induction b generalizing ts with
  | ret x =>
      obtain ⟨o, w, t, us, rfl, ho, hw, ht, hus⟩ := exists_opening h
      obtain ⟨c, us, rfl, hc, hus⟩ := exists_mark hus
      obtain rfl := List.map_eq_nil_iff.1 hus
      exact ⟨_, .ret ⟨ho, hc⟩ hw ht⟩
  | lets bindings s b ih =>
      obtain ⟨us, c, rfl, hc, hus⟩ := exists_closing h
      obtain ⟨front, body, rfl, hfront, hbody⟩ := List.map_eq_append_iff.1 hus
      obtain ⟨us, d, rfl, hd, hus⟩ := exists_closing hfront
      obtain ⟨o, us, rfl, ho, hus⟩ := exists_mark hus
      obtain ⟨w, us, rfl, hw, hus⟩ := exists_mark hus
      obtain ⟨q, us, rfl, hq, hus⟩ := exists_mark hus
      obtain ⟨parts, rfl, hwords, hparts⟩ :=
        exists_parts (P := IsExpr) hus fun _ _ _ hshapes => exists_isExpr hshapes
      obtain ⟨b', hb'⟩ := ih hbody
      exact ⟨_, .lets ⟨ho, hc⟩ hw ⟨hq, hd⟩ hwords hparts hb'⟩
  | case x arms ih =>
      obtain ⟨us, c, rfl, hc, hus⟩ := exists_closing h
      obtain ⟨o, w, t, us, rfl, ho, hw, ht, hus⟩ := exists_opening hus
      obtain ⟨parts, rfl, hwords, hparts⟩ :=
        exists_parts (P := IsBody) (hus.trans (shapesArms_eq arms)) fun arm harm _ hshapes =>
          ih arm harm hshapes
      exact ⟨_, .case ⟨ho, hc⟩ hw ht hwords hparts⟩
  | inc x s b ih =>
      obtain ⟨us, c, rfl, hc, hus⟩ := exists_closing h
      obtain ⟨o, w, t, us, rfl, ho, hw, ht, hus⟩ := exists_opening hus
      obtain ⟨b', hb'⟩ := ih hus
      exact ⟨_, .inc ⟨ho, hc⟩ hw ht hb'⟩
  | dec x s b ih =>
      obtain ⟨us, c, rfl, hc, hus⟩ := exists_closing h
      obtain ⟨o, w, t, us, rfl, ho, hw, ht, hus⟩ := exists_opening hus
      obtain ⟨b', hb'⟩ := ih hus
      exact ⟨_, .dec ⟨ho, hc⟩ hw ht hb'⟩

theorem exists_isItem {item : Item} (h : ts.map Token.shape = item.shapes) :
    ∃ item', IsItem ts item' := by
  cases item with
  | type tag fields =>
      obtain ⟨us, c, rfl, hc, hus⟩ := exists_closing h
      obtain ⟨o, w, t, us, rfl, ho, hw, ht, hus⟩ := exists_opening hus
      exact ⟨_, .type ⟨ho, hc⟩ hw ht (words_of_shapes hus)⟩
  | fn name params body =>
      obtain ⟨us, c, rfl, hc, hus⟩ := exists_closing h
      obtain ⟨front, ts, rfl, hfront, hts⟩ := List.map_eq_append_iff.1 hus
      obtain ⟨us, d, rfl, hd, hus⟩ := exists_closing hfront
      obtain ⟨o, w, t, us, rfl, ho, hw, ht, hus⟩ := exists_opening hus
      obtain ⟨q, us, rfl, hq, hus⟩ := exists_mark hus
      obtain ⟨b', hb'⟩ := exists_isBody hts
      exact ⟨_, .fn ⟨ho, hc⟩ hw ht ⟨hq, hd⟩ (words_of_shapes hus) hb'⟩

theorem exists_isTree {tree : Tree} (h : ts.map Token.shape = tree.shapes) :
    ∃ tree', IsTree ts tree' := by
  induction tree generalizing ts with
  | nil =>
      obtain rfl := List.map_eq_nil_iff.1 h
      exact ⟨[], .nil⟩
  | cons item rest ih =>
      rw [Tree.shapes, List.flatMap_cons] at h
      obtain ⟨first, others, rfl, hfirst, hothers⟩ := List.map_eq_append_iff.1 h
      obtain ⟨item', hitem'⟩ := exists_isItem hfirst
      obtain ⟨rest', hrest'⟩ := ih hothers
      exact ⟨item' :: rest', .cons hitem' hrest'⟩

end

theorem parse_of_isTree {source : String} {tree : Tree} (hstop : (lex source).stop = .finished)
    (h : IsTree (lex source).tokens tree) : parse source = .ok tree := by
  obtain ⟨last, hadvance⟩ := advance_of_isTree [] .none h
  have hrun : parse source = State.run (lex source).stop {} (lex source).tokens := rfl
  rw [hrun, hstop, State.run_of_advance hadvance]
  rfl

/-- The parser accepts exactly the grammar, and returns the tree that is derived. -/
theorem parse_eq_ok {source : String} {tree : Tree} (hstop : (lex source).stop = .finished) :
    parse source = .ok tree ↔ IsTree (lex source).tokens tree := by
  refine ⟨fun h => ?_, parse_of_isTree hstop⟩
  obtain ⟨-, hshapes⟩ := shapes_of_parse h
  obtain ⟨tree', htree'⟩ := exists_isTree hshapes
  have heq := parse_of_isTree hstop htree'
  obtain rfl : tree = tree' := Except.ok.inj (h.symm.trans heq)
  exact htree'

end Reclaim.Surface
