import Reclaim.Proofs.Surface.Lexing
import Reclaim.Surface.Printer

/-!
# Printed trees

Layout never separates what belongs together nor joins what does not: steps that write tokens of some
shapes leave a text that reads as these shapes (`Spells`).  The steps that print a tree write its
shapes, provided that its names are words (`spells_item`).
-/

namespace Reclaim.Surface

open Layout (Step Page blanks spaced)

variable {cs : List Char} {ss tt : List Shape} {s : String} {a b : List Step} {p : Page}

/-! ## Texts -/

/-- No text starts with a word. -/
def Free (cs : List Char) : Prop := ∀ c ∈ cs.head?, isWordChar c = false

theorem free_nil : Free [] := nofun

theorem free_cons {c : Char} (h : isWordChar c = false) : Free (c :: cs) := by
  intro d hd
  cases hd
  exact h

theorem Reads.space (h : Reads cs ss) : Reads (' ' :: cs) ss := .blank (by decide) h

theorem Reads.name {x : String} (hx : Proper x) (hcs : Free cs) (h : Reads cs ss) :
    Reads (x.toList ++ cs) (.name x :: ss) :=
  hx.shape ▸ .word hx.nonempty hx.chars hcs h

theorem Reads.keyword (word : String) (kind : Kind) (hmem : (word, kind) ∈ Kind.keywords)
    (hcs : Free cs) (h : Reads cs ss) : Reads (word.toList ++ cs) (.mark kind :: ss) := by
  have hall : ∀ entry ∈ Kind.keywords, wordShape entry.1 = .mark entry.2 ∧ entry.1.toList ≠ [] ∧
      entry.1.toList.all isWordChar = true := by decide
  obtain ⟨hshape, hne, hchars⟩ := hall (word, kind) hmem
  exact hshape ▸ .word hne (List.all_eq_true.1 hchars) hcs h

theorem free_trailing {xs : List Ident} (h : Free cs) : Free ((trailing xs).toList ++ cs) := by
  cases xs with
  | nil => exact h
  | cons x rest =>
      have : (trailing (x :: rest)).toList ++ cs =
          ' ' :: (x.val.toList ++ ((trailing rest).toList ++ cs)) := by simp [trailing]
      rw [this]
      exact free_cons (by decide)

theorem reads_trailing {xs : List Ident} (hxs : ∀ x ∈ xs, Proper x.val) (hcs : Free cs)
    (h : Reads cs ss) : Reads ((trailing xs).toList ++ cs) (namesOf xs ++ ss) := by
  induction xs with
  | nil => exact h
  | cons x rest ih =>
      have : (trailing (x :: rest)).toList ++ cs =
          ' ' :: (x.val.toList ++ ((trailing rest).toList ++ cs)) := by simp [trailing]
      rw [this]
      obtain ⟨hx, hrest⟩ := List.forall_mem_cons.1 hxs
      exact .space (.name hx (free_trailing hcs) (ih hrest))

/-! ## Pages -/

/-- A word that is written next starts a new token. -/
def Loose (p : Page) : Prop := ∀ c ∈ (p.text ++ blanks p.owed).toList.getLast?, isWordChar c = false

/-- A text that ends with a token by itself. -/
def Closed (s : String) : Prop := ∀ c ∈ s.toList.getLast?, isWordChar c = false

/-- A text that ends with a parenthesis or a blank. -/
theorem closed_of_last {c : Char} (h : s.toList.getLast? = some c) (hc : isWordChar c = false) :
    Closed s := by
  intro d hd
  obtain rfl : c = d := Option.some.inj (h.symm.trans hd)
  exact hc

/-- On a page that reads as tokens and on which a word can be written next, the steps add the shapes
`ss` and leave such a page. -/
def Spells (steps : List Step) (ss : List Shape) : Prop :=
  ∀ (p : Page) (before : List Shape), Reads p.text.toList before → Loose p →
    Reads (p.run steps).text.toList (before ++ ss) ∧ Loose (p.run steps)

theorem reads_blanks (n : Nat) : Reads (blanks n).toList [] := by
  induction n with
  | zero => exact .nil
  | succ n ih =>
      have : (blanks (n + 1)).toList = ' ' :: ' ' :: ' ' :: ' ' :: (blanks n).toList := by
        simp [blanks]
      rw [this]
      exact .space (.space (.space (.space ih)))

theorem closed_blanks (n : Nat) : Closed (blanks n) := by
  induction n with
  | zero => exact nofun
  | succ n ih =>
      intro c hc
      rw [blanks, String.toList_append, List.getLast?_append] at hc
      cases h : (blanks n).toList.getLast? with
      | none =>
          rw [h] at hc
          obtain rfl : c = ' ' := by simpa using hc.symm
          decide
      | some d =>
          rw [h] at hc
          obtain rfl : d = c := by simpa using hc
          exact ih d h

theorem Closed.append {s t : String} (hs : Closed s) (ht : Closed t) : Closed (s ++ t) := by
  intro c hc
  rw [String.toList_append, List.getLast?_append] at hc
  cases h : t.toList.getLast? with
  | none =>
      rw [h] at hc
      exact hs c (by simpa using hc)
  | some d =>
      rw [h] at hc
      obtain rfl : d = c := by simpa using hc
      exact ht d h

theorem reads_write (hp : Reads p.text.toList tt) (hloose : Loose p) (hs : Reads s.toList ss) :
    Reads (p.write s).text.toList (tt ++ ss) := by
  have happart : Apart p.text.toList (blanks p.owed).toList := by
    intro c _ _ d hd
    cases h : p.owed with
    | zero =>
        rw [h] at hd
        cases hd
    | succ n =>
        rw [h, blanks, String.toList_append] at hd
        obtain rfl : ' ' = d := Option.some.inj hd
        decide
  have hpaid : Reads (p.text ++ blanks p.owed).toList tt := by
    rw [String.toList_append]
    simpa using hp.append (reads_blanks p.owed) happart
  have : (p.write s).text = p.text ++ blanks p.owed ++ s := rfl
  rw [this, String.toList_append]
  refine hpaid.append hs fun c hc hword => ?_
  rw [hloose c hc] at hword
  cases hword

theorem reads_newline (hs : Reads s.toList ss) : Reads (s ++ "\n").toList ss := by
  have happart : Apart s.toList "\n".toList := by
    intro c _ _ d hd
    obtain rfl : '\n' = d := Option.some.inj hd
    decide
  rw [String.toList_append]
  simpa using hs.append (.blank (c := '\n') (by decide) .nil) happart

theorem closed_newline : Closed (s ++ "\n") := by
  intro c hc
  rw [String.toList_append, List.getLast?_append] at hc
  obtain rfl : '\n' = c := Option.some.inj hc
  decide

namespace Spells

theorem nil : Spells [] [] := by
  intro p before hp hloose
  rw [List.append_nil]
  exact ⟨hp, hloose⟩

theorem append (ha : Spells a ss) (hb : Spells b tt) : Spells (a ++ b) (ss ++ tt) := by
  intro p before hp hloose
  obtain ⟨hp', hloose'⟩ := ha p before hp hloose
  obtain ⟨hp'', hloose''⟩ := hb _ _ hp' hloose'
  rw [Page.run_append, ← List.append_assoc]
  exact ⟨hp'', hloose''⟩

/-- A text that ends with a token by itself. -/
theorem write (hs : Reads s.toList ss) (hclosed : Closed s) : Spells [.write s] ss := by
  intro p before hp hloose
  refine ⟨reads_write hp hloose hs, ?_⟩
  have : Closed (p.text ++ blanks p.owed ++ s) := Closed.append hloose hclosed
  have hpage : (p.write s).text ++ blanks 0 = p.text ++ blanks p.owed ++ s := String.append_empty
  rw [Page.run_cons, Page.run_nil, Page.step, Loose]
  exact hpage ▸ this

/-- A text that ends its line. -/
theorem line (hs : Reads s.toList ss) : Spells [.write s, .indent] ss := by
  intro p before hp hloose
  have hwritten := reads_write hp hloose hs
  have hpage : p.run [.write s, .indent] = ⟨(p.write s).text ++ "\n", p.depth + 1, p.depth + 1⟩ := rfl
  rw [hpage]
  exact ⟨reads_newline hwritten, closed_newline.append (closed_blanks _)⟩

theorem newline : Spells [.newline] [] := by
  intro p before hp hloose
  have hpage : p.run [.newline] = ⟨p.text ++ "\n", p.depth, p.depth⟩ := rfl
  rw [hpage, List.append_nil]
  exact ⟨reads_newline hp, closed_newline.append (closed_blanks _)⟩

theorem dedent : Spells [.dedent] [] := by
  intro p before hp hloose
  rw [List.append_nil]
  exact ⟨hp, hloose⟩

/-- Two texts on one line are as good as one. -/
theorem joined {t : String} (h : Spells (.write (s ++ t) :: a) ss) :
    Spells (.write s :: .write t :: a) ss := by
  intro p before hp hloose
  have hpage : (p.write s).write t = p.write (s ++ t) := by
    simp [Page.write, blanks, String.append_assoc]
  have hrun : p.run (.write s :: .write t :: a) = p.run (.write (s ++ t) :: a) :=
    congrArg (Page.run · a) hpage
  rw [hrun]
  exact h p before hp hloose

/-- The end of a form. -/
theorem close : Spells [.write ")", .dedent] [.mark .rparen] :=
  (write (s := ")") (.rparen .nil) (closed_of_last rfl (by decide))).append dedent

theorem blank : Spells [.write " "] [] :=
  write (s := " ") (.space .nil) (closed_of_last rfl (by decide))

theorem flatMap {α : Type} {parts : List α} {steps : α → List Step} {shapes : α → List Shape}
    (h : ∀ part ∈ parts, Spells (steps part) (shapes part)) :
    Spells (parts.flatMap steps) (parts.flatMap shapes) := by
  induction parts with
  | nil => exact nil
  | cons part rest ih =>
      obtain ⟨hpart, hrest⟩ := List.forall_mem_cons.1 h
      rw [List.flatMap_cons, List.flatMap_cons]
      exact hpart.append (ih hrest)

/-- Parts with something between any two that writes no token. -/
theorem intercalate {α : Type} {sep : List Step} {parts : List α} {steps : α → List Step}
    {shapes : α → List Shape} (hsep : Spells sep [])
    (h : ∀ part ∈ parts, Spells (steps part) (shapes part)) :
    Spells (List.intercalate sep (parts.map steps)) (parts.flatMap shapes) := by
  induction parts with
  | nil => exact nil
  | cons part rest ih =>
      obtain ⟨hpart, hrest⟩ := List.forall_mem_cons.1 h
      cases rest with
      | nil => simpa [List.intercalate] using hpart
      | cons next others =>
          have hsteps : List.intercalate sep ((part :: next :: others).map steps) =
              steps part ++ (sep ++ List.intercalate sep ((next :: others).map steps)) := by
            simp [List.intercalate]
          rw [hsteps, List.flatMap_cons]
          exact hpart.append (hsep.append (ih hrest))

end Spells

/-- A printed text reads as the shapes that its steps write. -/
theorem lex_of_spells (h : Spells a ss) : (lex (Layout.print a)).stop = .finished ∧
    (lex (Layout.print a)).tokens.map Token.shape = ss := by
  obtain ⟨hreads, -⟩ := h {} [] .nil nofun
  exact lexFrom_of_reads hreads 0

/-! ## Trees -/

/-- All names among the shapes are words. -/
def Named (ss : List Shape) : Prop := ∀ x, .name x ∈ ss → Proper x

@[simp] theorem named_nil : Named [] := nofun

@[simp] theorem named_mark {kind : Kind} : Named (.mark kind :: ss) ↔ Named ss := by
  simp [Named]

@[simp] theorem named_name {x : String} : Named (.name x :: ss) ↔ Proper x ∧ Named ss := by
  simp [Named]

@[simp] theorem named_append : Named (ss ++ tt) ↔ Named ss ∧ Named tt := by
  simp [Named, or_imp, forall_and]

@[simp] theorem named_namesOf {xs : List Ident} : Named (namesOf xs) ↔ ∀ x ∈ xs, Proper x.val := by
  simp [Named, namesOf]

theorem named_flatMap {α : Type} {xs : List α} {f : α → List Shape} :
    Named (xs.flatMap f) ↔ ∀ x ∈ xs, Named (f x) := by
  simp only [Named, List.mem_flatMap]
  exact ⟨fun h x hx y hy => h y ⟨x, hx, hy⟩, fun h y ⟨x, hx, hy⟩ => h x hx y hy⟩

theorem free_rparen : Free [')'] := free_cons (by decide)

theorem free_space : Free (' ' :: cs) := free_cons (by decide)

/-- The text of an expression reads as its shapes, whatever follows. -/
theorem reads_expr {e : Expr} (h : Named e.opened) (hr : Reads cs ss) :
    Reads (e.text.toList ++ cs) (e.opened ++ .mark .rparen :: ss) := by
  have close : Reads (')' :: cs) (.mark .rparen :: ss) := .rparen hr
  have free : Free (')' :: cs) := free_cons (by decide)
  have rest {xs : List Ident} (hxs : ∀ x ∈ xs, Proper x.val) :
      Free ((trailing xs).toList ++ ')' :: cs) ∧
        Reads ((trailing xs).toList ++ ')' :: cs) (namesOf xs ++ .mark .rparen :: ss) :=
    ⟨free_trailing free, reads_trailing hxs free close⟩
  cases e with
  | new tag fields =>
      simp only [Expr.opened, List.cons_append, List.nil_append, named_mark, named_name,
        named_namesOf] at h
      obtain ⟨hfree, hrest⟩ := rest h.2
      have := Reads.lparen (.keyword "new" .new (by decide) free_space
        (.space (.name h.1 hfree hrest)))
      simpa [Expr.text, Expr.opened] using this
  | proj field record =>
      simp only [Expr.opened, named_mark, named_name] at h
      have := Reads.lparen (.keyword "proj" .proj (by decide) free_space
        (.space (.name h.1 free_space (.space (.name h.2.1 free close)))))
      simpa [Expr.text, Expr.opened] using this
  | pap target args =>
      simp only [Expr.opened, List.cons_append, List.nil_append, named_mark, named_name,
        named_namesOf] at h
      obtain ⟨hfree, hrest⟩ := rest h.2
      have := Reads.lparen (.keyword "pap" .pap (by decide) free_space
        (.space (.name h.1 hfree hrest)))
      simpa [Expr.text, Expr.opened] using this
  | app target args =>
      simp only [Expr.opened, List.cons_append, List.nil_append, named_mark, named_name,
        named_namesOf] at h
      obtain ⟨hfree, hrest⟩ := rest h.2
      have := Reads.lparen (.name h.1 hfree hrest)
      simpa [Expr.text, Expr.opened] using this
  | reset x =>
      simp only [Expr.opened, named_mark, named_name] at h
      have := Reads.lparen (.keyword "reset" .reset (by decide) free_space
        (.space (.name h.1 free close)))
      simpa [Expr.text, Expr.opened] using this
  | reuse token tag fields =>
      simp only [Expr.opened, List.cons_append, List.nil_append, named_mark, named_name,
        named_namesOf] at h
      obtain ⟨hfree, hrest⟩ := rest h.2.2
      have := Reads.lparen (.keyword "reuse" .reuse (by decide) free_space
        (.space (.name h.1 free_space (.space (.name h.2.1 hfree hrest)))))
      simpa [Expr.text, Expr.opened] using this

theorem closed_rparen (s : String) : Closed (s ++ ")") :=
  closed_of_last (c := ')') (by simp) (by decide)

theorem closed_expr (e : Expr) : Closed e.text := by
  cases e <;> exact closed_rparen _

theorem spells_binding {b : Binding} (h : Named b.shapes) : Spells [.write b.text] b.shapes := by
  simp only [Binding.shapes, named_name, named_append] at h
  have hread := Reads.name h.1 free_space (.space (reads_expr h.2.1 .nil))
  refine .write ?_ (Closed.append (s := b.binder.val ++ " ") ?_ (closed_expr b.expr.val))
  · simpa [Binding.text, Binding.shapes] using hread
  · exact closed_of_last (c := ' ') (by simp) (by decide)

/-- A form that starts with a keyword and a name, and goes on in the next line. -/
theorem spells_opening (word : String) (kind : Kind) (hmem : (word, kind) ∈ Kind.keywords)
    {x : String} (hx : Proper x) : Spells [.write ("(" ++ word ++ " " ++ x), .indent]
      [.mark .lparen, .mark kind, .name x] := by
  have := Reads.lparen (.keyword word kind hmem free_space (.space (.name hx free_nil .nil)))
  exact .line (by simpa using this)

/-- Arms are laid out with a new line between any two. -/
theorem layoutArms_eq (arms : List Arm) : layoutArms arms = List.intercalate [.newline]
    (arms.map fun arm => [.write arm.1.val, .indent] ++ arm.2.val.layout ++ [.dedent]) := by
  induction arms with
  | nil => rfl
  | cons arm rest ih =>
      obtain ⟨tag, s, b⟩ := arm
      cases rest with
      | nil => simp [layoutArms, List.intercalate]
      | cons next others =>
          rw [layoutArms, ih]
          · simp [List.intercalate]
          · simp

theorem spells_arms {arms : List Arm} (h : Named (shapesArms arms))
    (hb : ∀ arm ∈ arms, Named arm.2.val.shapes → Spells arm.2.val.layout arm.2.val.shapes) :
    Spells (layoutArms arms) (shapesArms arms) := by
  rw [shapesArms_eq, named_flatMap] at h
  rw [layoutArms_eq, shapesArms_eq]
  refine .intercalate .newline fun arm harm => ?_
  obtain ⟨hx, hshapes⟩ := named_name.1 (h arm harm)
  have htag : Spells [.write arm.1.val, .indent] [.name arm.1.val] :=
    .line (by simpa using Reads.name hx free_nil .nil)
  simpa using (htag.append (hb arm harm hshapes)).append .dedent

theorem spells_body {b : Body} (h : Named b.shapes) : Spells b.layout b.shapes := by
  induction b with
  | ret x =>
      simp only [Body.shapes, named_mark, named_name] at h
      have := Reads.lparen (.keyword "ret" .ret (by decide) free_space
        (.space (.name h.1 free_rparen (.rparen .nil))))
      exact .write (by simpa [Body.shapes] using this) (closed_rparen _)
  | lets bindings s b ih =>
      simp only [Body.shapes, List.cons_append, List.nil_append, named_mark, named_append,
        named_flatMap] at h
      have hopen : Spells [.write "(let ("] [.mark .lparen, .mark .lets, .mark .lparen] := by
        have := Reads.lparen (.keyword "let" .lets (by decide) free_space
          (.space (.lparen .nil)))
        exact .write this (closed_of_last rfl (by decide))
      have hmid : Spells [.write ")", .indent] [.mark .rparen] := .line (s := ")") (.rparen .nil)
      rw [Body.layout, Body.shapes]
      exact ((((hopen.append (.intercalate .blank fun b hb => spells_binding (h.1.1.1 b hb))).append hmid).append
        (ih h.1.2)).append .close)
  | case x arms ih =>
      simp only [Body.shapes, List.cons_append, List.nil_append, named_mark, named_name, named_append]
        at h
      have harms := spells_arms h.2.1 ih
      rw [Body.layout, Body.shapes]
      exact ((spells_opening "case" .case (by decide) h.1).append harms).append .close
  | inc x s b ih =>
      simp only [Body.shapes, List.cons_append, List.nil_append, named_mark, named_name, named_append]
        at h
      rw [Body.layout, Body.shapes]
      exact ((spells_opening "inc" .inc (by decide) h.1).append (ih h.2.1)).append .close
  | dec x s b ih =>
      simp only [Body.shapes, List.cons_append, List.nil_append, named_mark, named_name, named_append]
        at h
      rw [Body.layout, Body.shapes]
      exact ((spells_opening "dec" .dec (by decide) h.1).append (ih h.2.1)).append .close

/-- Parameters up to the parenthesis that closes their list. -/
theorem spells_params {params : List Ident} (h : ∀ x ∈ params, Proper x.val) :
    Spells (spaced (params.map fun x => [.write x.val]) ++ [.write ")", .indent])
      (namesOf params ++ [.mark .rparen]) := by
  induction params with
  | nil => exact .line (s := ")") (.rparen .nil)
  | cons x rest ih =>
      obtain ⟨hx, hrest⟩ := List.forall_mem_cons.1 h
      cases rest with
      | nil =>
          have := Reads.name hx free_rparen (.rparen .nil)
          exact .joined (.line (by simpa [namesOf] using this))
      | cons next others =>
          have hsteps : spaced ((x :: next :: others).map fun x => [.write x.val]) =
              [.write x.val, .write " "] ++ spaced ((next :: others).map fun x => [.write x.val]) := by
            simp [spaced, List.intercalate]
          have hname : Spells [.write x.val, .write " "] [.name x.val] := by
            have := Reads.name hx free_space (.space .nil)
            exact .joined (.write (by simpa using this) (closed_of_last (c := ' ') (by simp) (by decide)))
          rw [hsteps, List.append_assoc]
          exact hname.append (ih hrest)

/-- The steps that print an item write its shapes. -/
theorem spells_item {item : Item} (h : Named item.shapes) : Spells item.layout item.shapes := by
  cases item with
  | type tag fields =>
      simp only [Item.shapes, List.cons_append, List.nil_append, named_mark, named_name,
        named_append, named_namesOf] at h
      have := Reads.lparen (.keyword "deftype" .deftype (by decide) free_space (.space
        (.name h.1 (free_trailing free_rparen) (reads_trailing h.2.1 free_rparen (.rparen .nil)))))
      exact .write (by simpa [Item.shapes] using this) (closed_rparen _)
  | fn name params body =>
      simp only [Item.shapes, List.cons_append, List.nil_append, named_mark, named_name,
        named_append, named_namesOf] at h
      have hopen : Spells [.write ("(defn " ++ name.val ++ " (")]
          [.mark .lparen, .mark .defn, .name name.val, .mark .lparen] := by
        have := Reads.lparen (.keyword "defn" .defn (by decide) free_space (.space
          (.name h.1 free_space (.space (.lparen .nil)))))
        refine .write (by simpa using this) (closed_of_last (c := '(') ?_ (by decide))
        rw [String.toList_append, List.getLast?_append]
        rfl
      have := ((hopen.append (spells_params h.2.1.1.1)).append (spells_body h.2.1.2)).append .close
      simpa [Item.layout, Item.shapes] using this

end Reclaim.Surface
