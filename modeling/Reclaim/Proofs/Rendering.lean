import Reclaim.Heap.Datum
import Reclaim.Proofs.Programs
import Reclaim.Proofs.Surface.Printing

/-!
# Data are read off their texts

The text of a datum shows the tag of each record but not the names of its fields, and a record without
fields is shown without parentheses.  If tags are words, each tag ends where the text stops being a word,
so the tags and the nesting of records can be read off from left to right, whatever follows
(`Datum.Recognizable`).  If in addition the tag of a record determines the names of its fields, the text
determines the datum (`render_faithful`).

Closures are left out: their text does not show what they have captured.
-/

namespace Reclaim

open Reclaim.Core Reclaim.Surface

variable {p p' table : Program} {d e : Datum} {fields fields' : List (Field × Datum)} {tag : Tag}
  {x y : String} {r s : List Char}

/-- A spelling of at least one character, all of which may stand in words. -/
structure IsWord (x : String) : Prop where
  /-- There is something. -/
  nonempty : x.toList ≠ []
  /-- Each character may stand in a word. -/
  chars : ∀ c ∈ x.toList, isWordChar c = true

/-- A datum of records only.  Their tags are words, and each record has the fields that a table of types
declares for its tag. -/
inductive Datum.Declared (table : Program) : Datum → Prop where
  | record {tag : Tag} {fields : List (Field × Datum)} {d : TypeDef} : IsWord tag.text →
      table.type? tag = some d → fields.map (·.1.text) = d.fields.map (·.text) →
      (∀ field ∈ fields, Declared table field.2) → Declared table (.record tag fields)

/-! ## Words -/

theorem IsWord.of_proper (h : Proper x) : IsWord x := ⟨h.nonempty, h.chars⟩

/-- A word ends where the text stops being one. -/
theorem IsWord.append_inj (hx : IsWord x) (hy : IsWord y) (hr : Free r) (hs : Free s)
    (h : x.toList ++ r = y.toList ++ s) : x = y ∧ r = s := by
  obtain ⟨hword, hrest⟩ := takeWhile_append_eq hx.chars hr
  obtain ⟨hword', hrest'⟩ := takeWhile_append_eq hy.chars hs
  rw [h, hword'] at hword
  rw [h, hrest'] at hrest
  exact ⟨String.toList_inj.1 hword.symm, hrest.symm⟩

/-- A word does not start with a parenthesis. -/
theorem IsWord.append_ne (hx : IsWord x) : x.toList ++ r ≠ '(' :: s := by
  obtain ⟨c, cs, hcs⟩ := List.exists_cons_of_ne_nil hx.nonempty
  have hc : c ≠ '(' := ne_of_isWordChar (hx.chars c (hcs ▸ .head _)) (by decide)
  rw [hcs, List.cons_append]
  exact fun h => hc (List.cons.inj h).1

/-! ## Texts -/

/-- The texts of fields, each after a blank. -/
def fieldChars (p : Program) (fields : List (Field × Datum)) : List Char :=
  fields.flatMap fun field => ' ' :: (field.2.render p).toList

theorem fieldChars_cons (field : Field × Datum) (rest : List (Field × Datum)) :
    fieldChars p (field :: rest) = ' ' :: ((field.2.render p).toList ++ fieldChars p rest) := by
  simp [fieldChars]

mutual

/-- What is written before a datum stays in front of its text. -/
theorem toList_renderAfter (p : Program) (text : String) : ∀ d : Datum,
    (d.renderAfter p text).toList = text.toList ++ (d.render p).toList
  | .record tag [] => by simp [Datum.render, Datum.renderAfter]
  | .record tag (field :: rest) => by
      have hfields := toList_renderFieldsAfter p (text ++ "(" ++ tag.text) (field :: rest)
      have hfields' := toList_renderFieldsAfter p ("" ++ "(" ++ tag.text) (field :: rest)
      rw [Datum.render, Datum.renderAfter, Datum.renderAfter]
      simp only [String.toList_append, hfields, hfields', List.append_assoc]
      rfl
  | .closure target args => by simp [Datum.render, Datum.renderAfter, String.append_assoc]

theorem toList_renderFieldsAfter (p : Program) (text : String) : ∀ fields : List (Field × Datum),
    (Datum.renderFieldsAfter p text fields).toList = text.toList ++ fieldChars p fields
  | [] => by simp [Datum.renderFieldsAfter, fieldChars]
  | (field, d) :: rest => by
      have hd := toList_renderAfter p (text ++ " ") d
      rw [Datum.renderFieldsAfter, toList_renderFieldsAfter p _ rest, hd, fieldChars_cons]
      simp

end

theorem toList_render_constant (p : Program) (tag : Tag) :
    ((Datum.record tag []).render p).toList = tag.text.toList := by
  simp [Datum.render, Datum.renderAfter]

theorem toList_render_record (p : Program) (tag : Tag) (field : Field × Datum)
    (rest : List (Field × Datum)) : ((Datum.record tag (field :: rest)).render p).toList =
      '(' :: (tag.text.toList ++ (fieldChars p (field :: rest) ++ [')'])) := by
  rw [Datum.render, Datum.renderAfter, String.toList_append, toList_renderFieldsAfter]
  simp

/-- The texts of fields do not go on with a word. -/
theorem free_fieldChars : Free (fieldChars p fields ++ ')' :: r) := by
  cases fields with
  | nil => exact free_cons (by decide)
  | cons field rest =>
      rw [fieldChars_cons]
      exact free_cons (by decide)

/-! ## Reading from left to right -/

/-- A datum is told from all others that a table declares by what it writes, whatever follows. -/
def Datum.Recognizable (table p p' : Program) (d : Datum) : Prop :=
  ∀ ⦃e : Datum⦄ ⦃r s : List Char⦄, e.Declared table → Free r → Free s →
    (d.render p).toList ++ r = (e.render p').toList ++ s → d.same e = true ∧ r = s

/-- The fields of a record can be told one by one up to the parenthesis. -/
theorem fieldChars_append_inj (hfields : ∀ field ∈ fields, field.2.Recognizable table p p')
    (hfields' : ∀ field ∈ fields', field.2.Declared table)
    (h : fieldChars p fields ++ ')' :: r = fieldChars p' fields' ++ ')' :: s) :
    List.Forall₂ (fun field field' => field.2.same field'.2 = true) fields fields' ∧ r = s := by
  induction fields generalizing fields' with
  | nil =>
      cases fields' with
      | nil => exact ⟨.nil, (List.cons.inj h).2⟩
      | cons field' rest' =>
          rw [fieldChars_cons] at h
          exact absurd (List.cons.inj h).1 (by decide)
  | cons field rest ih =>
      cases fields' with
      | nil =>
          rw [fieldChars_cons] at h
          exact absurd (List.cons.inj h).1 (by decide)
      | cons field' rest' =>
          obtain ⟨hfield, hrest⟩ := List.forall_mem_cons.1 hfields
          obtain ⟨hfield', hrest'⟩ := List.forall_mem_cons.1 hfields'
          rw [fieldChars_cons, fieldChars_cons, List.cons_append, List.cons_append,
            List.append_assoc, List.append_assoc] at h
          obtain ⟨hsame, h⟩ := hfield hfield' free_fieldChars free_fieldChars (List.cons.inj h).2
          obtain ⟨hall, hrs⟩ := ih hrest hrest' h
          exact ⟨.cons hsame hall, hrs⟩

theorem sameFields_of_forall₂ (hnames : fields.map (·.1.text) = fields'.map (·.1.text))
    (h : List.Forall₂ (fun field field' => field.2.same field'.2 = true) fields fields') :
    Datum.sameFields fields fields' = true := by
  induction h with
  | nil => rfl
  | @cons field field' rest rest' hsame _ ih =>
      obtain ⟨f, d⟩ := field
      obtain ⟨f', d'⟩ := field'
      obtain ⟨hname, hnames⟩ := List.cons.inj hnames
      rw [Datum.sameFields, Name.beq_iff.2 hname, hsame, ih hnames]
      rfl

/-- What a table declares can be recognized. -/
theorem Datum.Declared.recognizable (hd : d.Declared table) : d.Recognizable table p p' := by
  induction hd with
  | @record tag fields def' htag hdef hnames _ ih =>
      rintro _ r s (@⟨tag', fields', def'', htag', hdef', hnames', hfields'⟩) hr hs h
      -- Once the tags are found to be the same, so are the names of the fields.
      have same_of_tag (heq : tag.text = tag'.text)
          (hall : List.Forall₂ (fun field field' => field.2.same field'.2 = true) fields fields') :
          (Datum.record tag fields).same (.record tag' fields') = true := by
        have hlookup : table.type? tag = table.type? tag' := findRev?_eq_of_text heq
        obtain rfl : def' = def'' := Option.some.inj (hdef.symm.trans (hlookup.trans hdef'))
        rw [Datum.same, Name.beq_iff.2 heq, Bool.true_and]
        exact sameFields_of_forall₂ (hnames.trans hnames'.symm) hall
      cases fields with
      | nil =>
          rw [toList_render_constant] at h
          cases fields' with
          | nil =>
              rw [toList_render_constant] at h
              obtain ⟨heq, hrs⟩ := htag.append_inj htag' hr hs h
              exact ⟨same_of_tag heq .nil, hrs⟩
          | cons field' rest' =>
              rw [toList_render_record] at h
              exact absurd h htag.append_ne
      | cons field rest =>
          rw [toList_render_record] at h
          cases fields' with
          | nil =>
              rw [toList_render_constant] at h
              exact absurd h.symm htag'.append_ne
          | cons field' rest' =>
              rw [toList_render_record, List.cons_append, List.cons_append] at h
              simp only [List.append_assoc, List.singleton_append] at h
              obtain ⟨heq, h⟩ :=
                htag.append_inj htag' free_fieldChars free_fieldChars (List.cons.inj h).2
              obtain ⟨hall, hrs⟩ := fieldChars_append_inj ih hfields' h
              exact ⟨same_of_tag heq hall, hrs⟩

/-! ## Equal data -/

/-- Fields that are the same are written alike. -/
theorem fieldChars_congr (hfields : ∀ field ∈ fields, ∀ e, field.2.same e = true →
      (field.2.render p).toList = (e.render p').toList)
    (h : Datum.sameFields fields fields' = true) : fieldChars p fields = fieldChars p' fields' := by
  induction fields generalizing fields' with
  | nil =>
      cases fields' with
      | nil => rfl
      | cons field' rest' => cases h
  | cons field rest ih =>
      cases fields' with
      | nil => cases h
      | cons field' rest' =>
          rw [Datum.sameFields, Bool.and_eq_true, Bool.and_eq_true] at h
          obtain ⟨hfield, hrest⟩ := List.forall_mem_cons.1 hfields
          rw [fieldChars_cons, fieldChars_cons, hfield _ h.1.2, ih hrest h.2]

/-- Records that are the same are written alike, for whatever programs. -/
theorem Datum.Declared.toList_render_congr (hd : d.Declared table) (h : d.same e = true) :
    (d.render p).toList = (e.render p').toList := by
  induction hd generalizing e with
  | @record tag fields def' _ _ _ _ ih =>
      cases e with
      | closure target args => cases h
      | record tag' fields' =>
          rw [Datum.same, Bool.and_eq_true, Name.beq_iff] at h
          obtain ⟨htag, hsame⟩ := h
          have hchars : fieldChars p fields = fieldChars p' fields' :=
            fieldChars_congr (fun field hmem e => ih field hmem) hsame
          cases fields with
          | nil =>
              cases fields' with
              | nil => rw [toList_render_constant, toList_render_constant, htag]
              | cons field' rest' => cases hsame
          | cons field rest =>
              cases fields' with
              | nil => cases hsame
              | cons field' rest' =>
                  rw [toList_render_record, toList_render_record, htag, hchars]

/-- Data of records that one table declares have the same text if and only if they are equal, whatever
programs they are rendered for. -/
theorem render_faithful (hd : d.Declared table) (he : e.Declared table) :
    d.render p = e.render p' ↔ (d == e) = true := by
  constructor
  · intro h
    have htexts : (d.render p).toList ++ [] = (e.render p').toList ++ [] := by rw [h]
    exact (hd.recognizable he free_nil free_nil htexts).1
  · intro h
    exact String.toList_inj.1 (hd.toList_render_congr h)

/-- The types of lists. -/
def listTable : Program where
  types := [⟨⟨"Nil", .none⟩, []⟩, ⟨⟨"Cons", .none⟩, [⟨"head", .none⟩, ⟨"tail", .none⟩]⟩]
  fns := []

/-- A list that holds a list of two empty ones, with all names at one place. -/
def nestedList (span : Span) : Datum :=
  let nil : Datum := .record ⟨"Nil", span⟩ []
  let cons (head tail : Datum) : Datum :=
    .record ⟨"Cons", span⟩ [(⟨"head", span⟩, head), (⟨"tail", span⟩, tail)]
  cons (cons nil (cons nil nil)) nil

example : (nestedList .none).render listTable = "(Cons (Cons Nil (Cons Nil Nil)) Nil)" := by
  decide +kernel

theorem declared_nestedList (span : Span) : (nestedList span).Declared listTable := by
  have hnil : IsWord "Nil" := .of_proper (by decide)
  have hcons : IsWord "Cons" := .of_proper (by decide)
  have nil : (Datum.record ⟨"Nil", span⟩ []).Declared listTable := .record hnil rfl rfl nofun
  have cons {head tail : Datum} (hhead : head.Declared listTable) (htail : tail.Declared listTable) :
      (Datum.record ⟨"Cons", span⟩ [(⟨"head", span⟩, head), (⟨"tail", span⟩, tail)]).Declared
        listTable :=
    .record hcons rfl rfl (by simpa using ⟨hhead, htail⟩)
  exact cons (cons nil (cons nil nil)) nil

/-- Two lists whose names stand at different places have the same text and are equal, although their
texts are made for different programs. -/
theorem render_faithful_places : (nestedList .none).Declared listTable ∧
    (nestedList ⟨3, 7⟩).Declared listTable ∧
    (nestedList .none).render listTable = (nestedList ⟨3, 7⟩).render ⟨[], []⟩ ∧
    (nestedList .none == nestedList ⟨3, 7⟩) = true := by
  have hd := declared_nestedList .none
  have he := declared_nestedList ⟨3, 7⟩
  have htext : (nestedList .none).render listTable = (nestedList ⟨3, 7⟩).render ⟨[], []⟩ := by
    decide +kernel
  exact ⟨hd, he, htext, (render_faithful hd he).1 htext⟩

end Reclaim
