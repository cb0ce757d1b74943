import Mathlib.Data.List.Basic
import Mathlib.Data.List.TakeWhile
import Reclaim.Proofs.Surface.Shapes

/-!
# Texts without comments

`Reads cs ss` says that characters are tokens of the shapes `ss`, with white space between them, and
that no two words touch.  Such a text is read to its end, into tokens of just these shapes
(`lexFrom_of_reads`), and texts of this kind can be put together (`Reads.append`).

In any text, what is read as a name is a word that is no keyword (`proper_of_mem_lex`).
-/

namespace Reclaim.Surface

/-- A spelling that a name can have. -/
structure Proper (x : String) : Prop where
  /-- There is something. -/
  nonempty : x.toList ≠ []
  /-- Each character may stand in a word. -/
  chars : ∀ c ∈ x.toList, isWordChar c = true
  /-- It is no keyword. -/
  free : Kind.ofWord x = .ident

instance (x : String) : Decidable (Proper x) :=
  decidable_of_iff
    (x.toList ≠ [] ∧ x.toList.all isWordChar = true ∧ Kind.ofWord x = .ident)
    ⟨fun ⟨h₁, h₂, h₃⟩ => ⟨h₁, List.all_eq_true.1 h₂, h₃⟩,
      fun h => ⟨h.nonempty, List.all_eq_true.2 h.chars, h.free⟩⟩

/-! ## Characters -/

/-- The code points of white space. -/
def blankPoints : List Nat :=
  [0x9, 0xA, 0xB, 0xC, 0xD, 0x20, 0x85, 0xA0, 0x1680, 0x2000, 0x2001, 0x2002, 0x2003, 0x2004, 0x2005,
    0x2006, 0x2007, 0x2008, 0x2009, 0x200A, 0x2028, 0x2029, 0x202F, 0x205F, 0x3000]

theorem mem_blankPoints {c : Char} (h : Text.isBlank c = true) : c.toNat ∈ blankPoints := by
  simp only [Text.isBlank, Text.Ranges.has, Text.blankRanges, Text.holds, Bool.and_eq_true,
    Bool.or_eq_true, decide_eq_true_eq, Bool.or_false] at h
  simp only [blankPoints, List.mem_cons, List.not_mem_nil, or_false]
  omega

/-- White space does not stand in words. -/
theorem isWordChar_of_isBlank {c : Char} (h : Text.isBlank c = true) : isWordChar c = false := by
  have hall : ∀ n ∈ blankPoints, isWordChar (Char.ofNat n) = false := by decide +kernel
  rw [← Char.ofNat_toNat c]
  exact hall _ (mem_blankPoints h)

theorem isBlank_of_isWordChar {c : Char} (h : isWordChar c = true) : Text.isBlank c = false := by
  rw [← Bool.not_eq_true]
  intro hb
  rw [isWordChar_of_isBlank hb] at h
  cases h

theorem ne_of_isWordChar {c d : Char} (h : isWordChar c = true) (hd : isWordChar d = false) :
    c ≠ d := by
  rintro rfl
  rw [h] at hd
  cases hd

/-! ## Tokens -/

/-- The shape of a word. -/
def wordShape (w : String) : Shape :=
  match Kind.ofWord w with
  | .ident => .name w
  | kind => .mark kind

theorem Proper.shape {x : String} (h : Proper x) : wordShape x = .name x := by
  rw [wordShape, h.free]

theorem shape_word (pos : Nat) (w : String) :
    (tokenAt (Kind.ofWord w) pos w.toList).shape = wordShape w := by
  rw [wordShape, tokenAt, String.ofList_toList]
  cases Kind.ofWord w <;> rfl

/-- Characters are tokens with white space between them. -/
inductive Reads : List Char → List Shape → Prop where
  | nil : Reads [] []
  | blank {c : Char} {cs : List Char} {ss : List Shape} : Text.isBlank c = true → Reads cs ss →
      Reads (c :: cs) ss
  | lparen {cs : List Char} {ss : List Shape} : Reads cs ss →
      Reads ('(' :: cs) (.mark .lparen :: ss)
  | rparen {cs : List Char} {ss : List Shape} : Reads cs ss →
      Reads (')' :: cs) (.mark .rparen :: ss)
  | word {w : String} {cs : List Char} {ss : List Shape} : w.toList ≠ [] →
      (∀ c ∈ w.toList, isWordChar c = true) → (∀ c ∈ cs.head?, isWordChar c = false) →
      Reads cs ss → Reads (w.toList ++ cs) (wordShape w :: ss)

theorem takeWhile_append_eq {p : Char → Bool} {w cs : List Char} (hw : ∀ c ∈ w, p c = true)
    (hcs : ∀ c ∈ cs.head?, p c = false) :
    (w ++ cs).takeWhile p = w ∧ (w ++ cs).dropWhile p = cs := by
  rw [List.takeWhile_append_of_pos hw, List.dropWhile_append_of_pos hw]
  cases cs with
  | nil => simp
  | cons c rest =>
      have hc := hcs c rfl
      simp [hc]

/-- A token of a kind is spelled `w` in front of `after`.  A word is not followed by a character of
words. -/
inductive Stands : Kind → List Char → List Char → Prop where
  | lparen {after : List Char} : Stands .lparen ['('] after
  | rparen {after : List Char} : Stands .rparen [')'] after
  | word {w after : List Char} : w ≠ [] → (∀ c ∈ w, isWordChar c = true) →
      (∀ c ∈ after.head?, isWordChar c = false) → Stands (Kind.ofWord (String.ofList w)) w after

/-- A token is read where it stands. -/
theorem lexFrom_token {pos : Nat} {kind : Kind} {w cs : List Char} (h : Stands kind w cs) :
    lexFrom pos (w ++ cs) = (lexFrom (pos + byteSize w) cs).cons (tokenAt kind pos w) := by
  cases h with
  | lparen =>
      have hb : Text.isBlank '(' = false := by decide
      rw [List.singleton_append, lexFrom]
      simp only [hb, Bool.false_eq_true, if_false, if_true]
      rfl
  | rparen =>
      have hb : Text.isBlank ')' = false := by decide
      rw [List.singleton_append, lexFrom]
      simp only [hb, Bool.false_eq_true, if_false, if_true]
      rfl
  | word hne hw hcs =>
      obtain ⟨c, w', rfl⟩ := List.exists_cons_of_ne_nil hne
      obtain ⟨hc, hw'⟩ := List.forall_mem_cons.1 hw
      have hb := isBlank_of_isWordChar hc
      have hsemi : c ≠ ';' := ne_of_isWordChar hc (by decide)
      have hopen : c ≠ '(' := ne_of_isWordChar hc (by decide)
      have hclose : c ≠ ')' := ne_of_isWordChar hc (by decide)
      obtain ⟨htake, hdrop⟩ := takeWhile_append_eq hw' hcs
      rw [List.cons_append, lexFrom]
      simp only [hb, hsemi, hopen, hclose, hc, if_true, if_false, Bool.false_eq_true, htake, hdrop]

/-- Such a text is read to its end. -/
theorem lexFrom_of_reads {cs : List Char} {ss : List Shape} (h : Reads cs ss) (pos : Nat) :
    (lexFrom pos cs).stop = .finished ∧ (lexFrom pos cs).tokens.map Token.shape = ss := by
  induction h generalizing pos with
  | nil => simp [lexFrom]
  | @blank c cs ss hc _ ih =>
      rw [lexFrom, if_pos hc]
      exact ih _
  | lparen _ ih =>
      obtain ⟨hstop, htokens⟩ := ih (pos + 1)
      rw [← List.singleton_append, lexFrom_token .lparen]
      exact ⟨hstop, congrArg _ htokens⟩
  | rparen _ ih =>
      obtain ⟨hstop, htokens⟩ := ih (pos + 1)
      rw [← List.singleton_append, lexFrom_token .rparen]
      exact ⟨hstop, congrArg _ htokens⟩
  | @word w cs ss hne hw hcs _ ih =>
      obtain ⟨hstop, htokens⟩ := ih (pos + byteSize w.toList)
      rw [lexFrom_token (.word hne hw hcs), String.ofList_toList]
      exact ⟨hstop, congrArg₂ _ (shape_word pos w) htokens⟩

theorem proper_ofList {w : List Char} (hne : w ≠ []) (hw : ∀ c ∈ w, isWordChar c = true)
    (hk : Kind.ofWord (String.ofList w) = .ident) : Proper (String.ofList w) :=
  ⟨by rwa [String.toList_ofList], by rwa [String.toList_ofList], hk⟩

/-- What is read as a name is a word that is no keyword. -/
theorem proper_of_mem_lexFrom {pos : Nat} {cs : List Char} {t : Token}
    (ht : t ∈ (lexFrom pos cs).tokens) (hk : t.kind = .ident) : Proper t.text := by
  fun_induction lexFrom pos cs with
  | case1 => cases ht
  | case2 pos c rest hb ih => exact ih ht
  | case3 pos rest hb ih => exact ih ht
  | case4 pos rest hb hsemi ih =>
      rcases List.mem_cons.1 ht with rfl | ht
      · cases hk
      · exact ih ht
  | case5 pos rest hb hsemi hopen ih =>
      rcases List.mem_cons.1 ht with rfl | ht
      · cases hk
      · exact ih ht
  | case6 pos c rest hb hsemi hopen hclose hc word ih =>
      rcases List.mem_cons.1 ht with ht | ht
      · have hchars : ∀ d ∈ c :: rest.takeWhile isWordChar, isWordChar d = true :=
          List.forall_mem_cons.2 ⟨hc, fun d hd => List.mem_takeWhile_imp hd⟩
        rw [ht] at hk ⊢
        exact proper_ofList (List.cons_ne_nil _ _) hchars hk
      · exact ih ht
  | case7 => cases ht

theorem proper_of_mem_lex {source : String} {t : Token} (ht : t ∈ (lex source).tokens)
    (hk : t.kind = .ident) : Proper t.text :=
  proper_of_mem_lexFrom ht hk

/-! ## Putting texts together -/

/-- No word of the first text goes on in the second. -/
def Apart (a b : List Char) : Prop :=
  ∀ c ∈ a.getLast?, isWordChar c = true → ∀ d ∈ b.head?, isWordChar d = false

theorem Apart.tail {a b : List Char} (c : Char) (h : Apart (c :: a) b) : Apart a b := by
  intro d hd
  cases a with
  | nil => cases hd
  | cons e rest => exact h d (by simpa using hd)

theorem Reads.append {a b : List Char} {ss tt : List Shape} (ha : Reads a ss) (hb : Reads b tt)
    (hab : Apart a b) : Reads (a ++ b) (ss ++ tt) := by
  induction ha with
  | nil => exact hb
  | @blank c cs ss hc _ ih => exact .blank hc (ih (hab.tail c))
  | @lparen cs ss _ ih => exact .lparen (ih (hab.tail '('))
  | @rparen cs ss _ ih => exact .rparen (ih (hab.tail ')'))
  | @word w cs ss hne hw hcs _ ih =>
      have hlast : ∃ c ∈ w.toList.getLast?, isWordChar c = true := by
        refine ⟨w.toList.getLast hne, List.getLast?_eq_some_getLast hne, hw _ ?_⟩
        exact List.getLast_mem hne
      cases cs with
      | nil =>
          obtain ⟨c, hc, hword⟩ := hlast
          rw [List.append_nil] at hab ⊢
          exact .word hne hw (hab c hc hword) (ih fun c hc => nomatch hc)
      | cons d rest =>
          rw [List.append_assoc, List.cons_append]
          refine .word hne hw hcs (ih fun c hc => hab c ?_)
          rw [List.getLast?_append_of_ne_nil _ (List.cons_ne_nil d rest)]
          exact hc

end Reclaim.Surface
