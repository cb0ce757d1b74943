import Reclaim.Proofs.Surface.Lexing

/-!
# What is read to its end

`Scans pos cs ts` says that characters from an offset on consist of white space, of comments, and of the
tokens `ts` at their places.  Characters are read to their end, into certain tokens, exactly if they consist
of these (`lexFrom_eq_finished`).  So the tokens of a text are determined by what it consists of.

Reading stops at the first character that stands in no comment and starts no token (`Clean`,
`halts_lexFrom`).  The characters before it are read into the same tokens when they stand alone.
-/

namespace Reclaim.Surface

variable {pos : Nat} {cs before : List Char} {ts : List Token} {c : Char}

/-! ## Characters that can be read -/

/-- What comes behind some characters is in a comment: there is a semicolon, and no line break behind it. -/
def Commented (before : List Char) : Prop :=
  ∃ earlier comment, before = earlier ++ ';' :: comment ∧ '\n' ∉ comment

/-- White space, semicolons, parentheses and the characters of words. -/
def Allowed (c : Char) : Prop :=
  Text.isBlank c = true ∨ c = ';' ∨ c = '(' ∨ c = ')' ∨ isWordChar c = true

/-- All characters are allowed, except in comments. -/
def Clean (cs : List Char) : Prop :=
  ∀ before c after, cs = before ++ c :: after → Commented before ∨ Allowed c

theorem Commented.prepend (h : Commented cs) (w : List Char) : Commented (w ++ cs) := by
  obtain ⟨earlier, comment, rfl, hcomment⟩ := h
  exact ⟨w ++ earlier, comment, by rw [List.append_assoc], hcomment⟩

/-- A comment that is open in the second of two texts has started in it, or it has started in the first one
and there is no line break in the second. -/
theorem commented_append {a b : List Char} :
    Commented (a ++ b) ↔ Commented b ∨ (Commented a ∧ '\n' ∉ b) := by
  constructor
  · rintro ⟨earlier, comment, heq, hcomment⟩
    rcases List.append_eq_append_iff.1 heq with ⟨mid, rfl, rfl⟩ | ⟨mid, rfl, hmid⟩
    · exact .inl ⟨mid, comment, rfl, hcomment⟩
    · rcases List.cons_eq_append_iff.1 hmid with ⟨rfl, rfl⟩ | ⟨mid', rfl, rfl⟩
      · exact .inl ⟨[], comment, rfl, hcomment⟩
      · rw [List.mem_append, not_or] at hcomment
        exact .inr ⟨⟨earlier, mid', rfl, hcomment.1⟩, hcomment.2⟩
  · rintro (h | ⟨⟨earlier, comment, rfl, hcomment⟩, hb⟩)
    · exact h.prepend a
    · refine ⟨earlier, comment ++ b, by rw [List.append_assoc, List.cons_append], ?_⟩
      rw [List.mem_append, not_or]
      exact ⟨hcomment, hb⟩

theorem not_commented_of_not_mem (h : ';' ∉ cs) : ¬ Commented cs := by
  rintro ⟨earlier, comment, rfl, -⟩
  exact h (List.mem_append_right _ (.head _))

theorem Clean.append {w : List Char} (hw : Clean w) (hcs : Clean cs) : Clean (w ++ cs) := by
  intro before c after heq
  rcases List.append_eq_append_iff.1 heq with ⟨mid, rfl, hmid⟩ | ⟨mid, rfl, hmid⟩
  · exact (hcs mid c after hmid).imp_left fun h => h.prepend w
  · rcases List.cons_eq_append_iff.1 hmid with ⟨rfl, rfl⟩ | ⟨mid', rfl, rfl⟩
    · refine (hcs [] c after rfl).imp_left fun h => ?_
      exact absurd h (not_commented_of_not_mem List.not_mem_nil)
    · exact hw before c mid' rfl

theorem clean_of_allowed {w : List Char} (hw : ∀ c ∈ w, Allowed c) : Clean w := by
  rintro before c after rfl
  exact .inr (hw c (List.mem_append_right _ (.head _)))

theorem clean_comment {comment : List Char} (h : '\n' ∉ comment) : Clean (';' :: comment) := by
  intro before c after heq
  rcases List.cons_eq_append_iff.1 heq with ⟨rfl, hc⟩ | ⟨before', rfl, rfl⟩
  · obtain ⟨rfl, -⟩ := List.cons.inj hc
    exact .inr (.inr (.inl rfl))
  · rw [List.mem_append, not_or] at h
    exact .inl ⟨[], before', rfl, h.1⟩

/-! ## What a text consists of -/

/-- Characters consist of white space, comments and tokens.  A comment goes up to a line break or to the end
of the text. -/
inductive Scans : Nat → List Char → List Token → Prop where
  | nil {pos : Nat} : Scans pos [] []
  | blank {pos : Nat} {c : Char} {cs : List Char} {ts : List Token} : Text.isBlank c = true →
      Scans (pos + c.utf8Size) cs ts → Scans pos (c :: cs) ts
  | comment {pos : Nat} {text cs : List Char} {ts : List Token} : '\n' ∉ text →
      (∀ c ∈ cs.head?, c = '\n') → Scans (pos + byteSize (';' :: text)) cs ts →
      Scans pos (';' :: text ++ cs) ts
  | token {pos : Nat} {kind : Kind} {w cs : List Char} {ts : List Token} : Stands kind w cs →
      Scans (pos + byteSize w) cs ts → Scans pos (w ++ cs) (tokenAt kind pos w :: ts)

theorem Stands.allowed {kind : Kind} {w after : List Char} (h : Stands kind w after) :
    ∀ c ∈ w, Allowed c := by
  cases h with
  | lparen => exact List.forall_mem_singleton.2 (.inr (.inr (.inl rfl)))
  | rparen => exact List.forall_mem_singleton.2 (.inr (.inr (.inr (.inl rfl))))
  | word _ hw _ => exact fun c hc => .inr (.inr (.inr (.inr (hw c hc))))

theorem Stands.not_mem {kind : Kind} {w after : List Char} (h : Stands kind w after) : ';' ∉ w := by
  cases h with
  | lparen | rparen => decide
  | word _ hw _ => exact fun hmem => ne_of_isWordChar (hw _ hmem) (by decide) rfl

/-- A token also stands in front of a part of what follows it. -/
theorem Stands.of_append {kind : Kind} {w after : List Char} (h : Stands kind w (before ++ after)) :
    Stands kind w before := by
  cases h with
  | lparen => exact .lparen
  | rparen => exact .rparen
  | word hne hw hafter =>
      exact .word hne hw fun c hc => hafter c (List.mem_head?_append_of_mem_head? hc)

theorem Scans.clean (h : Scans pos cs ts) : Clean cs := by
  induction h with
  | nil => exact clean_of_allowed nofun
  | blank hc _ ih => exact (clean_of_allowed (List.forall_mem_singleton.2 (.inl hc))).append ih
  | comment htext _ _ ih => exact (clean_comment htext).append ih
  | token hw _ ih => exact (clean_of_allowed hw.allowed).append ih

/-! ## Reading what consists of tokens -/

theorem lexFrom_comment {text : List Char} (htext : '\n' ∉ text) (hcs : ∀ c ∈ cs.head?, c = '\n') :
    lexFrom pos (';' :: text ++ cs) = lexFrom (pos + byteSize (';' :: text)) cs := by
  have hb : Text.isBlank ';' = false := by decide
  have htext : ∀ c ∈ text, (c != '\n') = true := fun c hc => bne_iff_ne.2 fun heq => htext (heq ▸ hc)
  have hcs : ∀ c ∈ cs.head?, (c != '\n') = false := fun c hc => by simp [hcs c hc]
  obtain ⟨htake, hdrop⟩ := takeWhile_append_eq htext hcs
  rw [List.cons_append, lexFrom]
  simp only [hb, Bool.false_eq_true, if_false, if_true, htake, hdrop]

theorem Scans.lexFrom_eq (h : Scans pos cs ts) : lexFrom pos cs = ⟨ts, .finished⟩ := by
  induction h with
  | nil => rw [lexFrom]
  | blank hc _ ih => rw [lexFrom, if_pos hc, ih]
  | comment htext hcs _ ih => rw [lexFrom_comment htext hcs, ih]
  | token hw _ ih => rw [lexFrom_token hw, ih, Lexed.cons]

/-! ## Where reading stops -/

/-- What characters are read into.  Either they consist of the tokens that come out, or those before a
character that cannot be read do. -/
inductive Halts : Nat → List Char → Lexed → Prop where
  | finished {pos : Nat} {cs : List Char} {ts : List Token} : Scans pos cs ts →
      Halts pos cs ⟨ts, .finished⟩
  | stray {pos : Nat} {before after : List Char} {c : Char} {ts : List Token} : Scans pos before ts →
      ¬ Commented before → ¬ Allowed c →
      Halts pos (before ++ c :: after)
        ⟨ts, .stray c ⟨pos + byteSize before, pos + byteSize before + c.utf8Size⟩⟩

theorem byteSize_append {a b : List Char} : byteSize (a ++ b) = byteSize a + byteSize b := by
  induction a with
  | nil => exact (Nat.zero_add _).symm
  | cons c a ih =>
      change c.utf8Size + byteSize (a ++ b) = c.utf8Size + byteSize a + byteSize b
      rw [ih, Nat.add_assoc]

/-- What is read before a stray character may stand behind other characters. -/
theorem Halts.stray_append {w after : List Char} (h : Scans pos (w ++ before) ts)
    (hopen : ¬ Commented (w ++ before)) (hc : ¬ Allowed c) : Halts pos (w ++ (before ++ c :: after))
      ⟨ts, .stray c ⟨pos + byteSize w + byteSize before,
        pos + byteSize w + byteSize before + c.utf8Size⟩⟩ := by
  rw [← List.append_assoc, Nat.add_assoc pos, ← byteSize_append]
  exact .stray h hopen hc

theorem Halts.blank {l : Lexed} (hc : Text.isBlank c = true) (h : Halts (pos + c.utf8Size) cs l) :
    Halts pos (c :: cs) l := by
  cases h with
  | finished h => exact .finished (.blank hc h)
  | @stray before after d ts h hopen hd =>
      refine Halts.stray_append (w := [c]) (.blank hc h) (fun hcomm => ?_) hd
      rcases commented_append.1 hcomm with hcomm | ⟨hcomm, -⟩
      · exact hopen hcomm
      · refine not_commented_of_not_mem (fun hmem => ?_) hcomm
        have hsemi : Text.isBlank ';' = false := by decide
        rw [List.mem_singleton.1 hmem, hc] at hsemi
        cases hsemi

theorem Halts.token {l : Lexed} {kind : Kind} {w : List Char} (hw : Stands kind w cs)
    (h : Halts (pos + byteSize w) cs l) : Halts pos (w ++ cs) (l.cons (tokenAt kind pos w)) := by
  cases h with
  | finished h => exact .finished (.token hw h)
  | stray h hopen hd =>
      refine Halts.stray_append (.token hw.of_append h) (fun hcomm => ?_) hd
      rcases commented_append.1 hcomm with hcomm | ⟨hcomm, -⟩
      · exact hopen hcomm
      · exact not_commented_of_not_mem hw.not_mem hcomm

theorem Halts.comment {l : Lexed} {text : List Char} (htext : '\n' ∉ text)
    (hcs : ∀ c ∈ cs.head?, c = '\n') (h : Halts (pos + byteSize (';' :: text)) cs l) :
    Halts pos (';' :: text ++ cs) l := by
  cases h with
  | finished h => exact .finished (.comment htext hcs h)
  | @stray before after d ts h hopen hd =>
      refine Halts.stray_append (.comment htext (fun c hc => hcs c ?_) h) (fun hcomm => ?_) hd
      · exact List.mem_head?_append_of_mem_head? hc
      · rcases commented_append.1 hcomm with hcomm | ⟨-, hbreak⟩
        · exact hopen hcomm
        · -- The comment has ended before the stray character, which is no line break.
          cases before with
          | nil => exact hd (.inl (hcs d rfl ▸ by decide))
          | cons e before => exact hbreak (hcs e rfl ▸ .head _)

theorem of_mem_head?_dropWhile {p : Char → Bool} (hc : c ∈ (cs.dropWhile p).head?) : p c = false := by
  have h := List.head?_dropWhile_not p cs
  rwa [Option.mem_def.1 hc] at h

/-- The result of reading says what the characters consist of. -/
theorem halts_lexFrom : Halts pos cs (lexFrom pos cs) := by
  fun_induction lexFrom pos cs with
  | case1 pos => exact .finished .nil
  | case2 pos c rest hb ih => exact ih.blank hb
  | case3 pos rest hb ih =>
      have htext : '\n' ∉ rest.takeWhile (· != '\n') := fun hmem => by
        simpa using List.mem_takeWhile_imp hmem
      have hcs (c : Char) (hc : c ∈ (rest.dropWhile (· != '\n')).head?) : c = '\n' := by
        simpa using of_mem_head?_dropWhile hc
      have hhalts := Halts.comment htext hcs ih
      rwa [List.cons_append, List.takeWhile_append_dropWhile] at hhalts
  | case4 pos rest hb hsemi ih => exact ih.token .lparen
  | case5 pos rest hb hsemi hopen ih => exact ih.token .rparen
  | case6 pos c rest hb hsemi hopen hclose hc word ih =>
      have hword : ∀ d ∈ word, isWordChar d = true :=
        List.forall_mem_cons.2 ⟨hc, fun d hd => List.mem_takeWhile_imp hd⟩
      have hhalts := ih.token (.word (List.cons_ne_nil _ _) hword fun d hd => of_mem_head?_dropWhile hd)
      rwa [List.cons_append, List.takeWhile_append_dropWhile] at hhalts
  | case7 pos c rest hb hsemi hopen hclose hc =>
      refine Halts.stray .nil (not_commented_of_not_mem List.not_mem_nil) ?_
      rintro (h | h | h | h | h) <;> contradiction

/-- Characters are read to their end, into certain tokens, exactly if they consist of these. -/
theorem lexFrom_eq_finished : lexFrom pos cs = ⟨ts, .finished⟩ ↔ Scans pos cs ts := by
  refine ⟨fun h => ?_, Scans.lexFrom_eq⟩
  have hhalts := @halts_lexFrom pos cs
  rw [h] at hhalts
  cases hhalts with
  | finished h => exact h

end Reclaim.Surface
