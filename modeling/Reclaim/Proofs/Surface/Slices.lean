import Mathlib.Data.List.Chain
import Reclaim.Proofs.Surface.Blame
import Reclaim.Proofs.Surface.Scanning

/-!
# Reading loses nothing

A text whose characters outside comments are all allowed is cut into tokens and gaps (`Tokenizes`).  The
span of a token delimits its text in the source, and what lies between neighbours is white space and
comments.  Any other text is refused at the first character that is not allowed (`lex_exactly`).

Texts are measured in bytes and characters have different sizes, so a text is a slice of a source where the
source is that text between two others (`Slice`).  The gap in front of a token is found by going through
what the source consists of (`Scans.skip`).
-/

namespace Reclaim

variable {source t u : String} {s : Span}

/-- A text stands at a span of a source, whose ends lie between characters. -/
def Slice (source : String) (s : Span) (text : String) : Prop :=
  ∃ before after, source = before ++ text ++ after ∧
    s = ⟨before.utf8ByteSize, before.utf8ByteSize + text.utf8ByteSize⟩

theorem utf8ByteSize_eq (t : String) : t.utf8ByteSize = Surface.byteSize t.toList := by
  rw [← String.ofList_toList (s := t), String.toList_ofList]
  induction t.toList with
  | nil => rfl
  | cons c cs ih =>
      rw [String.ofList_cons, String.utf8ByteSize_append, String.utf8ByteSize_singleton, ih]
      rfl

theorem eq_nil_of_byteSize {cs : List Char} (h : Surface.byteSize cs = 0) : cs = [] := by
  cases cs with
  | nil => rfl
  | cons c cs => exact absurd h (Surface.byteSize_pos c cs).ne'

/-- Of two texts that start a source, the longer one continues the shorter one. -/
theorem exists_append_of_utf8ByteSize_le {a b a' b' : String} (h : a ++ b = a' ++ b')
    (hle : a.utf8ByteSize ≤ a'.utf8ByteSize) : ∃ mid, a' = a ++ mid ∧ b = mid ++ b' := by
  simp only [← String.toList_inj, String.toList_append, utf8ByteSize_eq] at h hle ⊢
  rcases List.append_eq_append_iff.1 h with ⟨mid, ha, hb⟩ | ⟨mid, ha, hb⟩
  · exact ⟨.ofList mid, by rwa [String.toList_ofList], by rwa [String.toList_ofList]⟩
  · rw [ha, Surface.byteSize_append] at hle
    obtain rfl : mid = [] := eq_nil_of_byteSize (by omega)
    exact ⟨"", by simp [ha], by simp [hb]⟩

/-- Two texts that start a source are the same if they have the same size. -/
theorem append_inj_of_utf8ByteSize {a b a' b' : String} (h : a ++ b = a' ++ b')
    (hsize : a.utf8ByteSize = a'.utf8ByteSize) : a = a' ∧ b = b' := by
  obtain ⟨mid, rfl, rfl⟩ := exists_append_of_utf8ByteSize_le h hsize.le
  rw [String.utf8ByteSize_append] at hsize
  obtain rfl : mid = "" := String.utf8ByteSize_eq_zero_iff.1 (by omega)
  simp

/-- One text stands at a span. -/
theorem Slice.unique (h : Slice source s t) (h' : Slice source s u) : t = u := by
  obtain ⟨before, after, rfl, rfl⟩ := h
  obtain ⟨before', after', heq, hs⟩ := h'
  obtain ⟨hlo, hhi⟩ := Span.mk.inj hs
  rw [String.append_assoc, String.append_assoc] at heq
  obtain ⟨rfl, hrest⟩ := append_inj_of_utf8ByteSize heq hlo
  exact (append_inj_of_utf8ByteSize hrest (Nat.add_left_cancel hhi)).1

end Reclaim

namespace Reclaim.Surface

variable {pos : Nat} {cs : List Char} {ts : List Token} {source : String}

/-! ## Tokens and gaps -/

/-- The spelling of a parenthesis or a keyword. -/
def Kind.spelling? : Kind → Option String
  | .lparen => some "("
  | .rparen => some ")"
  | .ident => none
  | .defn => some "defn"
  | .deftype => some "deftype"
  | .lets => some "let"
  | .case => some "case"
  | .ret => some "ret"
  | .inc => some "inc"
  | .dec => some "dec"
  | .new => some "new"
  | .proj => some "proj"
  | .pap => some "pap"
  | .reset => some "reset"
  | .reuse => some "reuse"

/-- Keywords and identifiers. -/
def Kind.IsWord (k : Kind) : Prop := k ≠ .lparen ∧ k ≠ .rparen

/-- A token is spelled like its kind, or it is an identifier, which is spelled with the characters of words
and like no other kind. -/
def Token.Spelled (t : Token) : Prop :=
  t.kind.spelling? = some t.text ∨ t.kind = .ident ∧ t.text.toList ≠ [] ∧
    (∀ c ∈ t.text.toList, isWordChar c = true) ∧ ∀ k : Kind, k.spelling? ≠ some t.text

/-- White space and whole comments. -/
inductive Gap : List Char → Prop where
  | nil : Gap []
  | blank {c : Char} {cs : List Char} : Text.isBlank c = true → Gap cs → Gap (c :: cs)
  | comment {text cs : List Char} : '\n' ∉ text → Gap cs → Gap (';' :: text ++ '\n' :: cs)

/-- A gap at the end of a text.  The last comment need not be closed there. -/
def LastGap (cs : List Char) : Prop :=
  Gap cs ∨ ∃ gap text, cs = gap ++ ';' :: text ∧ Gap gap ∧ '\n' ∉ text

/-- Between an offset and the first token, between neighbours, and behind the last token there are gaps. -/
def Spaced (source : String) : Nat → List Token → Prop
  | start, [] => ∃ gap, Slice source ⟨start, source.utf8ByteSize⟩ gap ∧ LastGap gap.toList
  | start, t :: ts =>
    (∃ gap, Slice source ⟨start, t.span.lo⟩ gap ∧ Gap gap.toList) ∧ Spaced source t.span.hi ts

/-- A source is cut into tokens. -/
structure Tokenizes (source : String) (ts : List Token) : Prop where
  /-- Tokens are not empty and stand one after the other. -/
  order : InOrder ts
  /-- The span of a token delimits its text. -/
  slices : ∀ t ∈ ts, Slice source t.span t.text
  /-- A token has a kind that fits its text. -/
  kinds : ∀ t ∈ ts, t.Spelled
  /-- There is nothing but gaps around tokens. -/
  gaps : Spaced source 0 ts
  /-- There is a gap between words. -/
  apart : ts.IsChain fun t u => t.kind.IsWord → u.kind.IsWord → t.span.hi < u.span.lo

/-! ## The gap in front of a token -/

/-- What characters start with that do not start with a gap. -/
inductive Follows : Nat → List Char → List Token → Prop where
  | finished {pos : Nat} : Follows pos [] []
  | comment {pos : Nat} {text : List Char} : '\n' ∉ text → Follows pos (';' :: text) []
  | token {pos : Nat} {kind : Kind} {w cs : List Char} {ts : List Token} : Stands kind w cs →
      Scans (pos + byteSize w) cs ts → Follows pos (w ++ cs) (tokenAt kind pos w :: ts)

/-- A token does not start with a line break, and a word starts with one of its characters. -/
theorem Stands.head {kind : Kind} {w after : List Char} (h : Stands kind w after) :
    ∃ c rest, w = c :: rest ∧ c ≠ '\n' ∧ (kind.IsWord → isWordChar c = true) := by
  cases h with
  | lparen => exact ⟨'(', [], rfl, by decide, fun h => absurd rfl h.1⟩
  | rparen => exact ⟨')', [], rfl, by decide, fun h => absurd rfl h.2⟩
  | word hne hw _ =>
      obtain ⟨c, rest, rfl⟩ := List.exists_cons_of_ne_nil hne
      have hc := hw c (.head _)
      exact ⟨c, rest, rfl, ne_of_isWordChar hc (by decide), fun _ => hc⟩

theorem Stands.after {kind : Kind} {w rest : List Char} (h : Stands kind w rest) (hword : kind.IsWord) :
    ∀ c ∈ rest.head?, isWordChar c = false := by
  cases h with
  | lparen => exact absurd rfl hword.1
  | rparen => exact absurd rfl hword.2
  | word _ _ hrest => exact hrest

/-- In front of the first token, or of the end, there is a gap. -/
theorem Scans.skip (h : Scans pos cs ts) :
    ∃ gap after, cs = gap ++ after ∧ Gap gap ∧ Follows (pos + byteSize gap) after ts := by
  induction h with
  | nil => exact ⟨[], [], rfl, .nil, .finished⟩
  | @blank pos c cs ts hc _ ih =>
      obtain ⟨gap, after, rfl, hgap, hafter⟩ := ih
      refine ⟨c :: gap, after, rfl, .blank hc hgap, ?_⟩
      rwa [Nat.add_assoc] at hafter
  | @comment pos text cs ts htext hcs _ ih =>
      obtain ⟨gap, after, rfl, hgap, hafter⟩ := ih
      cases gap with
      | nil =>
          -- Behind a comment without a line break comes the end of the text.
          cases hafter with
          | finished => exact ⟨[], _, List.append_nil _, .nil, .comment htext⟩
          | comment _ => exact absurd (hcs ';' rfl) (by decide)
          | token hw _ =>
              obtain ⟨c, w, rfl, hc, -⟩ := hw.head
              exact absurd (hcs c rfl) hc
      | cons c gap =>
          obtain rfl : c = '\n' := hcs c rfl
          have hgap : Gap gap := by
            cases hgap with
            | blank _ hgap => exact hgap
          refine ⟨';' :: text ++ '\n' :: gap, after, by simp, .comment htext hgap, ?_⟩
          rwa [Nat.add_assoc, ← byteSize_append] at hafter
  | token hw h _ => exact ⟨[], _, rfl, .nil, .token hw h⟩

theorem lastGap_of_scans (h : Scans pos cs []) : LastGap cs := by
  obtain ⟨gap, after, rfl, hgap, hafter⟩ := h.skip
  cases hafter with
  | finished => exact .inl ((List.append_nil gap).symm ▸ hgap)
  | comment htext => exact .inr ⟨gap, _, rfl, hgap, htext⟩

theorem exists_gap_of_scans {t : Token} (h : Scans pos cs (t :: ts)) :
    ∃ gap kind w after, cs = gap ++ (w ++ after) ∧ Gap gap ∧ Stands kind w after ∧
      t = tokenAt kind (pos + byteSize gap) w ∧ Scans (pos + byteSize gap + byteSize w) after ts := by
  obtain ⟨gap, after, rfl, hgap, hafter⟩ := h.skip
  cases hafter with
  | token hw h => exact ⟨gap, _, _, _, rfl, hgap, hw, rfl, h⟩

/-- A word cannot start where another one has ended. -/
theorem lt_lo_of_scans {t : Token} (h : Scans pos cs (t :: ts))
    (hcs : ∀ c ∈ cs.head?, isWordChar c = false) (ht : t.kind.IsWord) : pos < t.span.lo := by
  obtain ⟨gap, kind, w, after, rfl, -, hw, rfl, -⟩ := exists_gap_of_scans h
  change pos < pos + byteSize gap
  cases gap with
  | nil =>
      obtain ⟨c, rest, rfl, -, hc⟩ := hw.head
      rw [hcs c rfl] at hc
      exact absurd (hc ht) Bool.false_ne_true
  | cons c gap => exact Nat.lt_add_of_pos_right (byteSize_pos c gap)

/-! ## Spelling -/

theorem mem_keywords_of_spelling {k : Kind} {w : String} (h : k.spelling? = some w) :
    w = "(" ∨ w = ")" ∨ (w, k) ∈ Kind.keywords := by
  cases k <;> simp_all [Kind.spelling?, Kind.keywords]

theorem spelling_ofWord {w : String} {k : Kind} (h : Kind.keywords.lookup w = some k) :
    k.spelling? = some w := by
  have hall : ∀ e ∈ Kind.keywords, e.2.spelling? = some e.1 := by decide
  obtain ⟨before, after, heq, -⟩ := List.lookup_eq_some_iff.1 h
  exact hall (w, k) (heq ▸ List.mem_append_right _ (.head _))

/-- A word is a keyword or spelled like none. -/
theorem spelled_word {w : List Char} (hne : w ≠ []) (hw : ∀ c ∈ w, isWordChar c = true) :
    (tokenAt (Kind.ofWord (String.ofList w)) pos w).Spelled := by
  cases hlookup : Kind.keywords.lookup (String.ofList w) with
  | some k =>
      rw [Kind.ofWord, hlookup]
      exact .inl (spelling_ofWord hlookup)
  | none =>
      rw [Kind.ofWord, hlookup]
      refine .inr ⟨rfl, by simpa [tokenAt] using hne, by simpa [tokenAt] using hw, fun k hk => ?_⟩
      have hparen (c : Char) (hc : isWordChar c = false) : String.ofList w ≠ String.ofList [c] := by
        intro heq
        rw [String.ofList_inj.1 heq] at hw
        rw [hw c (.head _)] at hc
        cases hc
      rcases mem_keywords_of_spelling hk with heq | heq | hmem
      · exact hparen '(' (by decide) heq
      · exact hparen ')' (by decide) heq
      · simpa [tokenAt] using List.lookup_eq_none_iff.1 hlookup _ hmem

theorem Stands.spelled {kind : Kind} {w after : List Char} (h : Stands kind w after) :
    (tokenAt kind pos w).Spelled := by
  cases h with
  | lparen | rparen => exact .inl rfl
  | word hne hw _ => exact spelled_word hne hw

/-! ## Cutting a source -/

theorem slice_append {a b c : List Char} (h : source.toList = a ++ (b ++ c)) :
    Slice source ⟨byteSize a, byteSize a + byteSize b⟩ (String.ofList b) := by
  refine ⟨.ofList a, .ofList c, ?_, ?_⟩
  · rw [← String.toList_inj, h]
    simp
  · simp only [utf8ByteSize_eq, String.toList_ofList]

/-- What is known about the tokens of a text from some place of a source on. -/
theorem cut_of_scans {before : List Char} (hsource : source.toList = before ++ cs)
    (h : Scans (byteSize before) cs ts) :
    Spaced source (byteSize before) ts ∧ (∀ t ∈ ts, Slice source t.span t.text ∧ t.Spelled) ∧
      ts.IsChain fun t u => t.kind.IsWord → u.kind.IsWord → t.span.hi < u.span.lo := by
  induction ts generalizing before cs with
  | nil =>
      refine ⟨⟨.ofList cs, ?_, ?_⟩, nofun, .nil⟩
      · have hslice := slice_append (c := []) ((List.append_nil cs).symm ▸ hsource)
        rwa [← byteSize_append, ← hsource, ← utf8ByteSize_eq] at hslice
      · rw [String.toList_ofList]
        exact lastGap_of_scans h
  | cons t ts ih =>
      obtain ⟨gap, kind, w, after, rfl, hgap, hw, rfl, hafter⟩ := exists_gap_of_scans h
      have hgapSource : source.toList = before ++ (gap ++ (w ++ after)) := hsource
      have hwordSource : source.toList = (before ++ gap) ++ (w ++ after) := by simpa using hsource
      have hslice := slice_append hwordSource
      rw [byteSize_append] at hslice
      rw [← byteSize_append, ← byteSize_append] at hafter
      obtain ⟨hspaced, htokens, hchain⟩ := ih (by simpa using hsource) hafter
      rw [byteSize_append, byteSize_append] at hspaced
      refine ⟨⟨⟨.ofList gap, slice_append hgapSource, by rwa [String.toList_ofList]⟩, hspaced⟩,
        List.forall_mem_cons.2 ⟨⟨hslice, hw.spelled⟩, htokens⟩,
        List.isChain_cons.2 ⟨fun u hu hword huword => ?_, hchain⟩⟩
      obtain ⟨rest, rfl⟩ := List.head?_eq_some_iff.1 hu
      have hlt := lt_lo_of_scans hafter (hw.after hword) huword
      rwa [byteSize_append, byteSize_append] at hlt

/-- A text that is read to its end is cut into what it is read into. -/
theorem tokenizes_of_lex (h : lex source = ⟨ts, .finished⟩) : Tokenizes source ts := by
  have hscans : Scans (byteSize []) source.toList ts := lexFrom_eq_finished.1 h
  obtain ⟨hspaced, htokens, hchain⟩ := cut_of_scans (List.nil_append _).symm hscans
  have horder := (inOrder_lexFrom 0 source.toList).1
  rw [← lex, h] at horder
  exact ⟨horder, fun t ht => (htokens t ht).1, fun t ht => (htokens t ht).2, hspaced, hchain⟩

/-- A text whose characters outside comments are all allowed is read to its end, and cut into tokens.  Any
other text is refused at the first character that is not allowed, with the tokens before it, which are those
of the text up to there. -/
theorem lex_exactly (source : String) :
    (Clean source.toList →
      (lex source).stop = .finished ∧ Tokenizes source (lex source).tokens) ∧
    (¬ Clean source.toList → ∃ before c after, source = before ++ String.singleton c ++ after ∧
      Clean before.toList ∧ ¬ Commented before.toList ∧ ¬ Allowed c ∧
      (lex source).stop = .stray c ⟨before.utf8ByteSize, before.utf8ByteSize + c.utf8Size⟩ ∧
      lex before = ⟨(lex source).tokens, .finished⟩ ∧ Tokenizes before (lex source).tokens) := by
  have hhalts := @halts_lexFrom 0 source.toList
  rw [← lex] at hhalts
  generalize hl : lex source = l at hhalts
  generalize hcs : source.toList = cs at hhalts
  cases hhalts with
  | finished h =>
      exact ⟨fun _ => ⟨rfl, tokenizes_of_lex hl⟩, fun hdirty => absurd h.clean hdirty⟩
  | @stray before after c ts h hopen hc =>
      have hclean := h.clean
      have hlex : lex (String.ofList before) = ⟨ts, .finished⟩ :=
        lexFrom_eq_finished.2 (by rwa [String.toList_ofList])
      refine ⟨fun hall => ((hall before c after rfl).elim hopen hc).elim, fun _ => ?_⟩
      refine ⟨.ofList before, c, .ofList after, ?_, ?_, ?_, hc, ?_, hlex, tokenizes_of_lex hlex⟩
      · rw [← String.toList_inj, hcs]
        simp
      · rwa [String.toList_ofList]
      · rwa [String.toList_ofList]
      · rw [utf8ByteSize_eq, String.toList_ofList, Nat.zero_add]

/-- Offsets count bytes, and a character in a comment is not refused. -/
example : lex "(é ;#\nlet#" = ⟨[⟨.lparen, "(", ⟨0, 1⟩⟩, ⟨.ident, "é", ⟨1, 3⟩⟩, ⟨.lets, "let", ⟨7, 10⟩⟩],
    .stray '#' ⟨10, 11⟩⟩ := by
  decide +kernel

end Reclaim.Surface
