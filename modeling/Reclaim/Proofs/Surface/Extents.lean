import Reclaim.Proofs.Surface.Nodes

/-!
# The text of a node

The tokens of a text can be read in parts: what has been read into the first of two sequences of tokens is
read into them when it stands alone (`Scans.split`), and what is read at some offset is read into the same
tokens, moved there, when it stands by itself (`Scans.exists_moved`).  So the text from the first to the
last of some tokens is read into exactly these (`delimits_of_extent`).

With the order of tokens this says where everything in a syntax tree stands (`tree_stands_in_source`).
-/

namespace Reclaim

variable {source t u : String} {s s' : Span}

/-- From one text to a later one. -/
theorem Slice.through (h : Slice source s t) (h' : Slice source s' u) (hle : s.hi ≤ s'.lo) :
    ∃ mid, Slice source (s.through s') (t ++ mid ++ u) := by
  obtain ⟨a, b, rfl, rfl⟩ := h
  obtain ⟨c, d, hcd, rfl⟩ := h'
  have heq : (a ++ t) ++ b = c ++ (u ++ d) := by rw [hcd, String.append_assoc]
  have hle : (a ++ t).utf8ByteSize ≤ c.utf8ByteSize := by rwa [String.utf8ByteSize_append]
  obtain ⟨mid, rfl, rfl⟩ := exists_append_of_utf8ByteSize_le heq hle
  refine ⟨mid, a, d, by simp only [String.append_assoc], ?_⟩
  simp only [Span.through, String.utf8ByteSize_append, Nat.add_assoc]

end Reclaim

namespace Reclaim.Surface

variable {source : String} {pos n : Nat} {cs : List Char} {ts us : List Token} {s : Span} {tree : Tree}

/-! ## Reading in parts -/

/-- A token behind as many bytes more. -/
def Token.moved (n : Nat) (t : Token) : Token := ⟨t.kind, t.text, ⟨n + t.span.lo, n + t.span.hi⟩⟩

/-- Where the last of some tokens ends, or where they start if there are none. -/
def endOf (pos : Nat) (ts : List Token) : Nat := ts.foldl (fun _ t => t.span.hi) pos

theorem endOf_of_getLast? {t : Token} (h : t ∈ ts.getLast?) (pos : Nat) : endOf pos ts = t.span.hi := by
  obtain ⟨before, rfl⟩ := List.getLast?_eq_some_iff.1 h
  rw [endOf, List.foldl_append]
  rfl

theorem scans_gap {gap : List Char} (hgap : Gap gap) (h : Scans (pos + byteSize gap) cs ts) :
    Scans pos (gap ++ cs) ts := by
  induction hgap generalizing pos with
  | nil => exact h
  | @blank c gap hc _ ih => exact .blank hc (ih (by rwa [Nat.add_assoc]))
  | @comment text gap htext _ ih =>
      have hsize : byteSize (';' :: text ++ '\n' :: gap) = byteSize (';' :: text) + (1 + byteSize gap) := by
        rw [byteSize_append]
        rfl
      rw [hsize, ← Nat.add_assoc, ← Nat.add_assoc] at h
      rw [List.append_assoc]
      refine .comment htext (fun c hc => ?_) (.blank (by decide) (ih h))
      exact (Option.some.inj hc).symm

/-- Tokens in two parts are read from a text in two parts. -/
theorem Scans.split (h : Scans pos cs (ts ++ us)) : ∃ a b, cs = a ++ b ∧ Scans pos a ts ∧
    Scans (pos + byteSize a) b us ∧ pos + byteSize a = endOf pos ts := by
  induction ts generalizing pos cs with
  | nil => exact ⟨[], cs, rfl, .nil, h, rfl⟩
  | cons t ts ih =>
      obtain ⟨gap, kind, w, after, rfl, hgap, hw, rfl, hafter⟩ := exists_gap_of_scans h
      obtain ⟨a, b, rfl, ha, hb, hend⟩ := ih hafter
      have hsize : pos + byteSize (gap ++ (w ++ a)) =
          pos + byteSize gap + byteSize w + byteSize a := by
        simp only [byteSize_append, Nat.add_assoc]
      refine ⟨gap ++ (w ++ a), b, by simp only [List.append_assoc], ?_, ?_, ?_⟩
      · exact scans_gap hgap (.token hw.of_append ha)
      · rwa [hsize]
      · rw [hsize, hend]
        rfl

/-- What stands behind other characters is read as it is when it stands alone. -/
theorem Scans.exists_moved {start : Nat} (h : Scans start cs ts) (hstart : start = n + pos) :
    ∃ us, Scans pos cs us ∧ us.map (Token.moved n) = ts := by
  induction h generalizing pos with
  | nil => exact ⟨[], .nil, rfl⟩
  | blank hc _ ih =>
      obtain ⟨us, hus, hmoved⟩ := ih (by rw [hstart, Nat.add_assoc])
      exact ⟨us, .blank hc hus, hmoved⟩
  | comment htext hcs _ ih =>
      obtain ⟨us, hus, hmoved⟩ := ih (by rw [hstart, Nat.add_assoc])
      exact ⟨us, .comment htext hcs hus, hmoved⟩
  | @token start kind w cs ts hw _ ih =>
      obtain ⟨us, hus, hmoved⟩ := ih (by rw [hstart, Nat.add_assoc])
      have htoken : (tokenAt kind pos w).moved n = tokenAt kind start w := by
        rw [hstart, tokenAt, tokenAt, Nat.add_assoc]
        rfl
      exact ⟨_, .token hw hus, by rw [List.map_cons, htoken, hmoved]⟩

/-! ## The text of some tokens -/

/-- The text at a span of a source is read into certain tokens of the source. -/
def Delimits (source : String) (s : Span) (ts : List Token) : Prop :=
  ∃ text us, Slice source s text ∧ lex text = ⟨us, .finished⟩ ∧ us.map (Token.moved s.lo) = ts

/-- From the first to the last of some tokens that follow each other, the source is read into these. -/
theorem delimits_of_extent (h : lex source = ⟨ts, .finished⟩) (hus : us <:+: ts) (hs : Extent us s) :
    Delimits source s us := by
  obtain ⟨before, after, rfl⟩ := hus
  obtain ⟨first, hfirst, last, hlast, rfl⟩ := hs
  obtain ⟨rest, rfl⟩ := List.head?_eq_some_iff.1 hfirst
  have hscans : Scans (byteSize []) source.toList (before ++ (first :: rest ++ after)) :=
    List.append_assoc .. ▸ lexFrom_eq_finished.1 h
  obtain ⟨a, b, hsource, -, hb, -⟩ := hscans.split
  -- What is left starts with the gap in front of the first token.
  obtain ⟨gap, kind, w, b', rfl, -, hw, rfl, hb'⟩ := exists_gap_of_scans hb
  rw [← byteSize_append, ← byteSize_append, List.nil_append] at hlast hb' ⊢
  have hfrom : Scans (byteSize (a ++ gap)) (w ++ b') (tokenAt kind _ w :: rest ++ after) :=
    .token hw hb'
  obtain ⟨m, r, hm, hus, -, hend⟩ := hfrom.split
  rw [hm] at hsource
  have hslice := slice_append (a := a ++ gap) (hsource.trans (List.append_assoc ..).symm)
  rw [hend, endOf_of_getLast? hlast] at hslice
  obtain ⟨us, hus, hmoved⟩ := hus.exists_moved (Nat.add_zero (byteSize (a ++ gap))).symm
  refine ⟨.ofList m, us, hslice, lexFrom_eq_finished.2 ?_, hmoved⟩
  rwa [String.toList_ofList]

/-! ## Where everything stands -/

/-- What the span of a form delimits: a parenthesis, the one that matches it, and what is between them.
Read alone this gives exactly the tokens that the form is derived from. -/
structure Delimited (source : String) (opening : Token) (mid : List Token) (closing : Token) (n : Node) :
    Prop where
  /-- The tokens follow each other in the source. -/
  part : opening :: (mid ++ [closing]) <:+: (lex source).tokens
  /-- The form is derived from them. -/
  derived : n.Derived (opening :: (mid ++ [closing]))
  /-- It extends from one parenthesis to the other, and they match. -/
  encloses : Encloses opening mid closing n
  /-- The text of the form starts with the one and ends with the other. -/
  text : ∃ inner, Slice source n.span ("(" ++ inner ++ ")")
  /-- It is read into the tokens. -/
  delimits : Delimits source n.span (opening :: (mid ++ [closing]))

theorem Token.Spelled.text_eq {t : Token} {kind : Kind} {spelling : String} (h : t.Spelled)
    (hkind : t.kind = kind) (hspelling : kind.spelling? = some spelling) : t.text = spelling := by
  subst hkind
  rcases h with h | ⟨hident, -⟩
  · exact Option.some.inj (h.symm.trans hspelling)
  · rw [hident] at hspelling
    cases hspelling

/-- A form between two parentheses of a source is delimited by its span. -/
theorem delimited_of_derived {m : Node} {o c : Token} {mid : List Token} (h : lex source = ⟨ts, .finished⟩)
    (hpart : o :: (mid ++ [c]) <:+: ts) (hderived : m.Derived (o :: (mid ++ [c])))
    (henc : Encloses o mid c m) : Delimited source o mid c m := by
  have htokens := tokenizes_of_lex h
  have ho : o ∈ ts := hpart.subset (.head _)
  have hc : c ∈ ts := hpart.subset (by simp)
  have hle : o.span.hi ≤ c.span.lo :=
    (List.pairwise_cons.1 (htokens.order.part hpart).1).1 c (by simp)
  obtain ⟨inner, hslice⟩ := (htokens.slices o ho).through (htokens.slices c hc) hle
  rw [(htokens.kinds o ho).text_eq henc.parens.opens rfl,
    (htokens.kinds c hc).text_eq henc.parens.closes rfl, ← henc.span] at hslice
  exact ⟨h ▸ hpart, hderived, henc, ⟨inner, hslice⟩, delimits_of_extent h hpart hderived.extent⟩

/-- The tree of a text is derived from its tokens, and the text is read to its end. -/
theorem derived_of_parse (h : parse source = .ok tree) :
    ∃ ts, lex source = ⟨ts, .finished⟩ ∧ IsTree ts tree := by
  obtain ⟨hstop, -⟩ := shapes_of_parse h
  have htree := (parse_eq_ok hstop).1 h
  generalize hl : lex source = l at hstop htree
  obtain ⟨ts, stop⟩ := l
  obtain rfl : stop = .finished := hstop
  exact ⟨ts, rfl, htree⟩

/-- The names of a text that parses are tokens of it. -/
theorem exists_token_of_has {x : Ident} (h : parse source = .ok tree) (hx : tree.Has (.name x)) :
    ∃ t ∈ (lex source).tokens, t.kind = .ident ∧ x = t.ident ∧ Slice source x.span x.val := by
  obtain ⟨ts, hl, htree⟩ := derived_of_parse h
  obtain ⟨us, hus, t, rfl, hkind, rfl⟩ := hx.exists_part htree
  have ht : t ∈ ts := hus.subset (.head _)
  exact ⟨t, hl ▸ ht, hkind, rfl, (tokenizes_of_lex hl).slices t ht⟩

/-- In a text that parses, the span of every item, body and expression goes from a parenthesis up to and
with the one that matches it, and reading the text there gives the tokens that it has been parsed from.
Every name stands at its span.  Children stand strictly inside of their parents, and siblings one after the
other.  The spans of the tree are those of its nodes. -/
theorem tree_stands_in_source (h : parse source = .ok tree) :
    (∀ n, tree.Has n → n.IsForm → ∃ opening mid closing, Delimited source opening mid closing n) ∧
    (∀ x, tree.Has (.name x) → Slice source x.span x.val) ∧
    (∀ n, tree.Has n → n.span.lo < n.span.hi ∧
      (∀ m ∈ n.children, n.span.lo < m.span.lo ∧ m.span.hi < n.span.hi) ∧
      n.children.Pairwise fun m m' => m.span.hi ≤ m'.span.lo) ∧
    (tree.Pairwise fun i j => i.span.hi ≤ j.span.lo) ∧
    ∀ s ∈ tree.spans, tree.Covers s := by
  obtain ⟨ts, hl, htree⟩ := derived_of_parse h
  have htokens := tokenizes_of_lex hl
  refine ⟨?_, ?_, ?_, ?_, ?_⟩
  · intro n hn hform
    obtain ⟨us, hus, hderived⟩ := hn.exists_part htree
    obtain ⟨o, mid, c, rfl, henc⟩ := hderived.formed hform
    exact ⟨o, mid, c, delimited_of_derived hl hus hderived henc⟩
  · intro x hx
    obtain ⟨t, -, -, -, hslice⟩ := exists_token_of_has h hx
    exact hslice
  · intro n hn
    obtain ⟨us, hus, hderived⟩ := hn.exists_part htree
    have horder := htokens.order.part hus
    refine ⟨hderived.extent.lo_lt_hi horder, ?_⟩
    cases hform : n with
    | name x => exact ⟨nofun, .nil⟩
    | _ =>
        subst hform
        obtain ⟨o, mid, c, rfl, henc⟩ := hderived.formed trivial
        have hmid : mid <:+: o :: (mid ++ [c]) := ⟨[o], [c], rfl⟩
        exact ⟨fun m hm => henc.inside horder hm, henc.children.pairwise (horder.part hmid).1⟩
  · exact List.pairwise_map.1 ((lays_of_isTree htree).pairwise htokens.order.1)
  · exact fun s hs => Tree.covers_of_mem_spans hs

/-- A function with a comment that looks as if it closed a parenthesis. -/
def commented : String := "(defn é (x) ; )\n  (case x Box (ret x)))"

/-- The item goes up to the last parenthesis, and there is a form around the arm. -/
theorem tree_stands_in_source_commented : ∃ i, parse commented = .ok [i] ∧ i.span = ⟨0, 40⟩ ∧
    (∃ opening mid closing, Delimited commented opening mid closing (.item i)) ∧
    Tree.Covers [i] ⟨31, 38⟩ := by
  have hcheck : (match parse commented with
      | .ok tree => tree.map (·.span)
      | .error _ => []) = [⟨0, 40⟩] := by decide +kernel
  have hspans : (match parse commented with
      | .ok tree => decide (⟨31, 38⟩ ∈ Tree.spans tree)
      | .error _ => false) = true := by decide +kernel
  cases hparse : parse commented with
  | error e =>
      rw [hparse] at hcheck
      cases hcheck
  | ok tree =>
      rw [hparse] at hcheck hspans
      obtain ⟨i, rfl, hi⟩ := List.map_eq_singleton_iff.1 hcheck
      obtain ⟨hforms, -, -, -, hcovers⟩ := tree_stands_in_source hparse
      exact ⟨i, rfl, hi, hforms _ (.item (.head _)) trivial, hcovers _ (of_decide_eq_true hspans)⟩

end Reclaim.Surface
