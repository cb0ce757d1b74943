import Reclaim.Surface.Spans
import Reclaim.Proofs.Surface.Slices

/-!
# The nodes of a syntax tree

Names, expressions, bodies and items are the nodes of a syntax tree (`Node`), and the children of a node
are listed in the order in which they are written.

A node is derived from tokens that stand next to each other.  Those of a form are a parenthesis, the one
that matches it, and what is between them; there the parts that the children are derived from follow each
other (`Encloses`, `formed_body`).  So every node of a text that parses is derived from a part of the
tokens of the text (`Tree.Has.exists_part`), and where nodes stand can be read off the order of tokens.
-/

namespace Reclaim.Surface

variable {t first last opening closing : Token} {ts us mid : List Token} {x : Ident} {xs : List Token}
  {s : Span}

/-! ## Nodes -/

/-- Something in a syntax tree that has a place. -/
inductive Node where
  /-- A name. -/
  | name (x : Ident)
  /-- An expression. -/
  | expr (e : Spanned Expr)
  /-- A body. -/
  | body (b : Spanned Body)
  /-- An item. -/
  | item (i : Spanned Item)

namespace Node

/-- Where a node is written. -/
def span : Node → Span
  | .name x => x.span
  | .expr e => e.span
  | .body b => b.span
  | .item i => i.span

/-- Items, bodies and expressions, which are written in parentheses. -/
def IsForm : Node → Prop
  | .name _ => False
  | _ => True

/-- What a body consists of. -/
def ofBody : Body → List Node
  | .ret x => [.name x]
  | .lets bindings b => bindings.flatMap (fun d => [.name d.binder, .expr d.expr]) ++ [.body b]
  | .case x arms => .name x :: arms.flatMap fun arm => [.name arm.1, .body arm.2]
  | .inc x b | .dec x b => [.name x, .body b]

/-- What a node consists of, in the order in which it is written. -/
def children : Node → List Node
  | .name _ => []
  | .expr e => e.val.idents.map .name
  | .body b => ofBody b.val
  | .item ⟨_, .type tag fields⟩ => (tag :: fields).map .name
  | .item ⟨_, .fn f params b⟩ => (f :: params).map .name ++ [.body b]

/-- Tokens that derive a node. -/
def Derived (ts : List Token) : Node → Prop
  | .name x => ∃ t, ts = [t] ∧ t.kind = .ident ∧ x = t.ident
  | .expr e => IsExpr ts e
  | .body b => IsBody ts b
  | .item i => IsItem ts i

end Node

variable {n m : Node} {ns ms : List Node} {tree : Tree}

/-- The nodes of a syntax tree. -/
inductive Tree.Has (tree : Tree) : Node → Prop where
  | item {i : Spanned Item} : i ∈ tree → tree.Has (.item i)
  | child {n m : Node} : tree.Has n → m ∈ n.children → tree.Has m

/-! ## Matching parentheses -/

/-- Tokens in which every parenthesis has a matching one. -/
inductive Matched : List Token → Prop where
  | nil : Matched []
  | word {t : Token} {ts : List Token} : t.kind.IsWord → Matched ts → Matched (t :: ts)
  | group {opening closing : Token} {ts us : List Token} : Parens opening closing → Matched ts →
      Matched us → Matched (opening :: (ts ++ closing :: us))

namespace Matched

theorem keyword {k : Kind} (hkind : t.kind = k) (hk : k.IsWord) (h : Matched ts) : Matched (t :: ts) :=
  .word (hkind ▸ hk) h

theorem ident (ht : t.kind = .ident) (h : Matched ts) : Matched (t :: ts) :=
  keyword ht ⟨nofun, nofun⟩ h

theorem append (h : Matched ts) (h' : Matched us) : Matched (ts ++ us) := by
  induction h with
  | nil => exact h'
  | word ht _ ih => exact .word ht ih
  | group hp hinner _ _ ih =>
      rw [List.cons_append, List.append_assoc, List.cons_append]
      exact .group hp hinner ih

theorem words (hxs : Words xs) : Matched xs := by
  induction xs with
  | nil => exact .nil
  | cons t ts ih =>
      obtain ⟨ht, hts⟩ := List.forall_mem_cons.1 hxs
      exact ident ht (ih hts)

theorem parts {α : Type} {parts : List (Part α)} (hwords : ∀ part ∈ parts, part.word.kind = .ident)
    (h : ∀ part ∈ parts, Matched part.tokens) : Matched (parts.flatMap Part.all) := by
  induction parts with
  | nil => exact .nil
  | cons part rest ih =>
      obtain ⟨hword, hwords⟩ := List.forall_mem_cons.1 hwords
      obtain ⟨hpart, hrest⟩ := List.forall_mem_cons.1 h
      exact (ident hword hpart).append (ih hwords hrest)

/-- The parenthesis that matches an opening one is the first one that closes what is open there. -/
theorem unique {us' ts' : List Token} {closing' : Token} (h : Matched ts) (h' : Matched ts')
    (hc : closing.kind = .rparen) (hc' : closing'.kind = .rparen)
    (heq : ts ++ closing :: us = ts' ++ closing' :: us') :
    ts = ts' ∧ closing = closing' ∧ us = us' := by
  have hne {t : Token} (ho : t.kind = .lparen) (hc : t.kind = .rparen) : False := by
    rw [ho] at hc
    cases hc
  induction h generalizing ts' closing closing' us us' with
  | nil =>
      cases h' with
      | nil => exact ⟨rfl, List.cons.inj heq⟩
      | word ht _ => exact absurd ((List.cons.inj heq).1 ▸ hc) ht.2
      | group hp _ _ => exact (hne ((List.cons.inj heq).1 ▸ hp.opens) hc).elim
  | word ht _ ih =>
      cases h' with
      | nil => exact absurd ((List.cons.inj heq).1 ▸ hc') ht.2
      | word ht' h' =>
          obtain ⟨rfl, htail⟩ := List.cons.inj heq
          obtain ⟨rfl, hrest⟩ := ih h' hc hc' htail
          exact ⟨rfl, hrest⟩
      | group hp _ _ => exact absurd ((List.cons.inj heq).1 ▸ hp.opens) ht.1
  | group hp _ _ ihinner ih =>
      cases h' with
      | nil => exact (hne hp.opens ((List.cons.inj heq).1 ▸ hc')).elim
      | word ht _ => exact absurd ((List.cons.inj heq).1 ▸ hp.opens) ht.1
      | group hp' hinner' h' =>
          simp only [List.cons_append, List.append_assoc] at heq
          obtain ⟨rfl, htail⟩ := List.cons.inj heq
          obtain ⟨rfl, rfl, hafter⟩ := ihinner hinner' hp.closes hp'.closes htail
          obtain ⟨rfl, hrest⟩ := ih h' hc hc' hafter
          exact ⟨rfl, hrest⟩

end Matched

/-! ## How the children of a node are laid out -/

/-- Nodes are derived from parts of some tokens that follow each other. -/
inductive Lays : List Token → List Node → Prop where
  | nil : Lays [] []
  | skip {t : Token} {ts : List Token} {ns : List Node} : Lays ts ns → Lays (t :: ts) ns
  | node {n : Node} {us ts : List Token} {ns : List Node} : n.Derived us → Lays ts ns →
      Lays (us ++ ts) (n :: ns)

namespace Lays

theorem append (h : Lays ts ns) (h' : Lays us ms) : Lays (ts ++ us) (ns ++ ms) := by
  induction h with
  | nil => exact h'
  | skip _ ih => exact .skip ih
  | node hn _ ih =>
      rw [List.append_assoc]
      exact .node hn ih

theorem single (h : n.Derived ts) : Lays ts [n] := by
  have hnode := Lays.node h .nil
  rwa [List.append_nil] at hnode

theorem name (ht : t.kind = .ident) (h : Lays ts ns) : Lays (t :: ts) (.name t.ident :: ns) := by
  have hderived : (Node.name t.ident).Derived [t] := ⟨t, rfl, ht, rfl⟩
  exact .node hderived h

theorem words (hxs : Words xs) : Lays xs ((xs.map Token.ident).map .name) := by
  induction xs with
  | nil => exact .nil
  | cons t ts ih =>
      obtain ⟨ht, hts⟩ := List.forall_mem_cons.1 hxs
      exact name ht (ih hts)

/-- A list of names with forms. -/
theorem parts {α : Type} {mk : Spanned α → Node} {parts : List (Part α)}
    (hwords : ∀ part ∈ parts, part.word.kind = .ident)
    (h : ∀ part ∈ parts, (mk part.tree).Derived part.tokens) :
    Lays (parts.flatMap Part.all) (parts.flatMap fun part => [.name part.word.ident, mk part.tree]) := by
  induction parts with
  | nil => exact .nil
  | cons part rest ih =>
      obtain ⟨hword, hwords⟩ := List.forall_mem_cons.1 hwords
      obtain ⟨hpart, hrest⟩ := List.forall_mem_cons.1 h
      exact (name hword (single hpart)).append (ih hwords hrest)

/-- What is laid out on some tokens is derived from parts of them. -/
theorem exists_part (h : Lays ts ns) (hn : n ∈ ns) : ∃ us, us <:+: ts ∧ n.Derived us := by
  induction h with
  | nil => cases hn
  | skip _ ih =>
      obtain ⟨us, hus, hderived⟩ := ih hn
      exact ⟨us, List.infix_cons hus, hderived⟩
  | @node m us ts ns hm _ ih =>
      rcases List.mem_cons.1 hn with rfl | hn
      · exact ⟨us, (List.prefix_append us ts).isInfix, hm⟩
      · obtain ⟨vs, hvs, hderived⟩ := ih hn
        exact ⟨vs, hvs.trans (List.suffix_append us ts).isInfix, hderived⟩

end Lays

/-! ## Forms -/

/-- A form stands between parentheses.  What is between them is matched, and its children are laid out
there. -/
structure Encloses (opening : Token) (mid : List Token) (closing : Token) (n : Node) : Prop where
  /-- A parenthesis opens the form, and one closes it. -/
  parens : Parens opening closing
  /-- They match. -/
  matched : Matched mid
  /-- The form extends from the one to the other. -/
  span : n.span = opening.span.through closing.span
  /-- Its children are between them. -/
  children : Lays mid n.children

/-- Some tokens are those of a form. -/
def Formed (ts : List Token) (n : Node) : Prop :=
  ∃ opening mid closing, ts = opening :: (mid ++ [closing]) ∧ Encloses opening mid closing n

theorem Formed.matched (h : Formed ts n) : Matched ts := by
  obtain ⟨o, mid, c, rfl, h⟩ := h
  exact .group h.parens h.matched .nil

theorem formed_expr {e : Spanned Expr} (h : IsExpr ts e) : Formed ts (.expr e) := by
  cases h with
  | @new o c w tag xs hp hw htag hxs =>
      exact ⟨o, w :: tag :: xs, c, rfl, hp, .keyword hw ⟨nofun, nofun⟩ (.ident htag (.words hxs)), rfl,
        .skip (.name htag (.words hxs))⟩
  | @proj o c w field record hp hw hfield hrecord =>
      exact ⟨o, [w, field, record], c, rfl, hp,
        .keyword hw ⟨nofun, nofun⟩ (.ident hfield (.ident hrecord .nil)), rfl,
        .skip (.name hfield (.name hrecord .nil))⟩
  | @pap o c w target xs hp hw htarget hxs =>
      exact ⟨o, w :: target :: xs, c, rfl, hp,
        .keyword hw ⟨nofun, nofun⟩ (.ident htarget (.words hxs)), rfl,
        .skip (.name htarget (.words hxs))⟩
  | @app o c target xs hp htarget hxs =>
      exact ⟨o, target :: xs, c, rfl, hp, .ident htarget (.words hxs), rfl,
        .name htarget (.words hxs)⟩
  | @reset o c w x hp hw hx =>
      exact ⟨o, [w, x], c, rfl, hp, .keyword hw ⟨nofun, nofun⟩ (.ident hx .nil), rfl,
        .skip (.name hx .nil)⟩
  | @reuse o c w token tag xs hp hw htoken htag hxs =>
      exact ⟨o, w :: token :: tag :: xs, c, rfl, hp,
        .keyword hw ⟨nofun, nofun⟩ (.ident htoken (.ident htag (.words hxs))), rfl,
        .skip (.name htoken (.name htag (.words hxs)))⟩

/-- A body is a form.  The induction carries that what its parts are derived from is matched. -/
theorem formed_body {b : Spanned Body} (h : IsBody ts b) : Formed ts (.body b) := by
  induction h with
  | @ret o c w x hp hw hx =>
      exact ⟨o, [w, x], c, rfl, hp, .keyword hw ⟨nofun, nofun⟩ (.ident hx .nil), rfl,
        .skip (.name hx .nil)⟩
  | @lets o c w first last parts ts b hp hw hq hwords hparts hb ih =>
      have hmatched : Matched (parts.flatMap Part.all) :=
        .parts hwords fun part hpart => (formed_expr (hparts part hpart)).matched
      have hlays : Lays (parts.flatMap Part.all)
          ((parts.map Part.binding).flatMap fun d => [.name d.binder, .expr d.expr]) := by
        rw [List.flatMap_map]
        exact .parts hwords hparts
      refine ⟨o, w :: first :: (parts.flatMap Part.all ++ last :: ts), c, ?_, hp, ?_, rfl, ?_⟩
      · simp
      · exact .keyword hw ⟨nofun, nofun⟩ (.group hq hmatched ih.matched)
      · exact .skip (.skip (hlays.append (.skip (.single hb))))
  | @case o c w x parts hp hw hx hwords hparts ih =>
      have hlays : Lays (parts.flatMap Part.all)
          ((parts.map Part.arm).flatMap fun arm => [.name arm.1, .body arm.2]) := by
        rw [List.flatMap_map]
        exact .parts hwords hparts
      refine ⟨o, w :: x :: parts.flatMap Part.all, c, rfl, hp, ?_, rfl, .skip (.name hx hlays)⟩
      exact .keyword hw ⟨nofun, nofun⟩
        (.ident hx (.parts hwords fun part hpart => (ih part hpart).matched))
  | @inc o c w x ts b hp hw hx hb ih | @dec o c w x ts b hp hw hx hb ih =>
      exact ⟨o, w :: x :: ts, c, rfl, hp, .keyword hw ⟨nofun, nofun⟩ (.ident hx ih.matched), rfl,
        .skip (.name hx (.single hb))⟩

theorem formed_item {i : Spanned Item} (h : IsItem ts i) : Formed ts (.item i) := by
  cases h with
  | @type o c w tag xs hp hw htag hxs =>
      exact ⟨o, w :: tag :: xs, c, rfl, hp, .keyword hw ⟨nofun, nofun⟩ (.ident htag (.words hxs)), rfl,
        .skip (.name htag (.words hxs))⟩
  | @fn o c w f q d xs ts b hp hw hf hq hxs hb =>
      refine ⟨o, w :: f :: q :: (xs ++ d :: ts), c, ?_, hp, ?_, rfl, ?_⟩
      · simp
      · exact .keyword hw ⟨nofun, nofun⟩
          (.ident hf (.group hq (.words hxs) (formed_body hb).matched))
      · exact .skip (.name hf (.skip ((Lays.words hxs).append (.skip (.single hb)))))

theorem Node.Derived.formed (h : n.Derived ts) (hn : n.IsForm) : Formed ts n := by
  cases n with
  | name x => exact hn.elim
  | expr e => exact formed_expr h
  | body b => exact formed_body h
  | item i => exact formed_item h

/-! ## Where nodes stand -/

/-- A span reaches from the first to the last of some tokens. -/
def Extent (ts : List Token) (s : Span) : Prop :=
  ∃ first ∈ ts.head?, ∃ last ∈ ts.getLast?, s = first.span.through last.span

theorem Node.Derived.extent (h : n.Derived ts) : Extent ts n.span := by
  have hform : Formed ts n → Extent ts n.span := by
    rintro ⟨o, mid, c, rfl, henc⟩
    exact ⟨o, rfl, c, List.getLast?_concat (l := o :: mid), henc.span⟩
  cases n with
  | name x =>
      obtain ⟨t, rfl, -, rfl⟩ := h
      exact ⟨t, rfl, t, rfl, rfl⟩
  | _ => exact hform (h.formed trivial)

theorem InOrder.part (h : InOrder ts) (hus : us <:+: ts) : InOrder us :=
  ⟨h.1.sublist hus.sublist, fun t ht => h.2 t (hus.subset ht)⟩

/-- From the first to the last of tokens in order there is something. -/
theorem Extent.lo_lt_hi (h : Extent ts s) (hts : InOrder ts) : s.lo < s.hi := by
  obtain ⟨first, hfirst, last, hlast, rfl⟩ := h
  obtain ⟨rest, rfl⟩ := List.head?_eq_some_iff.1 hfirst
  have hne := hts.2 first (.head _)
  rcases List.mem_cons.1 (List.mem_of_getLast? hlast) with rfl | hmem
  · exact hne
  · have hle := (List.pairwise_cons.1 hts.1).1 last hmem
    exact (hne.trans_le hle).trans (hts.2 last (.tail _ hmem))

/-- Children stand between the parentheses of a form. -/
theorem Encloses.inside (h : Encloses opening mid closing n)
    (hts : InOrder (opening :: (mid ++ [closing]))) (hm : m ∈ n.children) :
    n.span.lo < m.span.lo ∧ m.span.hi < n.span.hi := by
  obtain ⟨us, hus, hderived⟩ := h.children.exists_part hm
  obtain ⟨first, hfirst, last, hlast, hspan⟩ := hderived.extent
  obtain ⟨hopening, hrest⟩ := List.pairwise_cons.1 hts.1
  obtain ⟨-, -, hclosing⟩ := List.pairwise_append.1 hrest
  have hfirst := hus.subset (List.mem_of_head? hfirst)
  have hlast := hus.subset (List.mem_of_getLast? hlast)
  rw [h.span, hspan]
  refine ⟨?_, ?_⟩
  · exact (hts.2 opening (.head _)).trans_le (hopening first (List.mem_append_left _ hfirst))
  · have hmem : closing ∈ opening :: (mid ++ [closing]) := by simp
    exact (hclosing last hlast closing (.head _)).trans_lt (hts.2 closing hmem)

/-- Nodes that are laid out on tokens in order follow each other. -/
theorem Lays.pairwise (h : Lays ts ns) (hts : ts.Pairwise fun t u => t.span.hi ≤ u.span.lo) :
    ns.Pairwise fun n m => n.span.hi ≤ m.span.lo := by
  induction h with
  | nil => exact .nil
  | skip _ ih => exact ih (List.pairwise_cons.1 hts).2
  | @node n us ts ns hn hrest ih =>
      obtain ⟨-, hpair, hcross⟩ := List.pairwise_append.1 hts
      refine .cons (fun m hm => ?_) (ih hpair)
      -- The last token of `n` stands before the first one of `m`.
      obtain ⟨vs, hvs, hderived⟩ := hrest.exists_part hm
      obtain ⟨_, _, last, hlast, hspan⟩ := hn.extent
      obtain ⟨first, hfirst, _, _, hspan'⟩ := hderived.extent
      rw [hspan, hspan']
      exact hcross last (List.mem_of_getLast? hlast) first (hvs.subset (List.mem_of_head? hfirst))

/-! ## Trees -/

theorem lays_of_isTree (h : IsTree ts tree) : Lays ts (tree.map .item) := by
  induction h with
  | nil => exact .nil
  | @cons ts us i tree hi _ ih =>
      have hderived : (Node.item i).Derived ts := hi
      exact .node hderived ih

/-- A node of a tree is derived from a part of the tokens that the tree is derived from. -/
theorem Tree.Has.exists_part (h : IsTree ts tree) (hn : tree.Has n) :
    ∃ us, us <:+: ts ∧ n.Derived us := by
  induction hn with
  | item hi => exact (lays_of_isTree h).exists_part (List.mem_map_of_mem hi)
  | @child n m _ hm ih =>
      obtain ⟨us, hus, hderived⟩ := ih
      have hform : n.IsForm := by
        cases n with
        | name x => cases hm
        | _ => trivial
      obtain ⟨o, mid, c, rfl, henc⟩ := hderived.formed hform
      obtain ⟨vs, hvs, hchild⟩ := henc.children.exists_part hm
      have hmid : mid <:+: o :: (mid ++ [c]) := ⟨[o], [c], rfl⟩
      exact ⟨vs, hvs.trans (hmid.trans hus), hchild⟩

/-! ## The places of a tree -/

theorem spansArms_eq (arms : List Arm) : spansArms arms =
    arms.flatMap fun arm => arm.1.span :: arm.2.span :: arm.2.val.spans := by
  induction arms with
  | nil => rfl
  | cons arm rest ih =>
      obtain ⟨tag, span, b⟩ := arm
      rw [spansArms, ih, List.flatMap_cons, List.cons_append, List.cons_append]

namespace Tree

/-- Some node of the tree stands at a span. -/
def Covers (tree : Tree) (s : Span) : Prop := ∃ n, tree.Has n ∧ n.span = s

theorem covers_idents {xs : List Ident} (h : ∀ x ∈ xs, tree.Has (.name x)) :
    ∀ s ∈ xs.map (·.span), tree.Covers s :=
  List.forall_mem_map.2 fun x hx => ⟨.name x, h x hx, rfl⟩

theorem covers_body {b : Body} (h : ∀ n ∈ Node.ofBody b, tree.Has n) :
    ∀ s ∈ b.spans, tree.Covers s := by
  have hbody {s : Span} {b : Body} (hb : tree.Has (.body ⟨s, b⟩))
      (ih : (∀ n ∈ Node.ofBody b, tree.Has n) → ∀ s ∈ b.spans, tree.Covers s) :
      ∀ s' ∈ s :: b.spans, tree.Covers s' :=
    List.forall_mem_cons.2 ⟨⟨_, hb, rfl⟩, ih fun n hn => hb.child hn⟩
  induction b with
  | ret x => exact List.forall_mem_singleton.2 ⟨_, h _ (.head _), rfl⟩
  | lets bindings s b ih =>
      rw [Body.spans]
      refine List.forall_mem_append.2 ⟨?_, hbody (h _ (by simp [Node.ofBody])) ih⟩
      intro s' hs'
      obtain ⟨d, hd, hs'⟩ := List.mem_flatMap.1 hs'
      have hbinder : tree.Has (.name d.binder) :=
        h _ (List.mem_append_left _ (List.mem_flatMap.2 ⟨d, hd, .head _⟩))
      have hexpr : tree.Has (.expr d.expr) :=
        h _ (List.mem_append_left _ (List.mem_flatMap.2 ⟨d, hd, .tail _ (.head _)⟩))
      have hnames : ∀ x ∈ d.expr.val.idents, tree.Has (.name x) := fun x hx =>
        hexpr.child (List.mem_map_of_mem hx)
      exact List.forall_mem_cons.2 ⟨⟨_, hbinder, rfl⟩, List.forall_mem_cons.2
        ⟨⟨_, hexpr, rfl⟩, covers_idents hnames⟩⟩ s' hs'
  | case x arms ih =>
      rw [Body.spans, spansArms_eq]
      refine List.forall_mem_cons.2 ⟨⟨_, h _ (.head _), rfl⟩, ?_⟩
      intro s' hs'
      obtain ⟨arm, harm, hs'⟩ := List.mem_flatMap.1 hs'
      have hpart (n : Node) (hn : n ∈ [.name arm.1, .body arm.2]) : tree.Has n :=
        h n (.tail _ (List.mem_flatMap.2 ⟨arm, harm, hn⟩))
      exact List.forall_mem_cons.2 ⟨⟨_, hpart _ (.head _), rfl⟩,
        hbody (hpart _ (.tail _ (.head _))) (ih arm harm)⟩ s' hs'
  | inc x s b ih | dec x s b ih =>
      exact List.forall_mem_cons.2 ⟨⟨_, h _ (.head _), rfl⟩, hbody (h _ (.tail _ (.head _))) ih⟩

/-- The places of a tree are those of its nodes. -/
theorem covers_of_mem_spans (hs : s ∈ tree.spans) : tree.Covers s := by
  obtain ⟨i, hi, hs⟩ := List.mem_flatMap.1 hs
  have hitem : tree.Has (.item i) := .item hi
  refine List.forall_mem_cons.2 ⟨⟨_, hitem, rfl⟩, ?_⟩ s hs
  obtain ⟨span, item⟩ := i
  cases item with
  | type tag fields =>
      have hnames : ∀ x ∈ tag :: fields, tree.Has (.name x) := fun x hx =>
        hitem.child (List.mem_map_of_mem hx)
      exact covers_idents hnames
  | fn f params b =>
      have hnames : ∀ x ∈ f :: params, tree.Has (.name x) := fun x hx =>
        hitem.child (List.mem_append_left _ (List.mem_map_of_mem hx))
      have hbody : tree.Has (.body b) := hitem.child (List.mem_append_right _ (.head _))
      rw [Item.spans, ← List.cons_append, ← List.map_cons]
      exact List.forall_mem_append.2 ⟨covers_idents hnames, List.forall_mem_cons.2
        ⟨⟨_, hbody, rfl⟩, covers_body fun n hn => hbody.child hn⟩⟩

end Tree

end Reclaim.Surface
