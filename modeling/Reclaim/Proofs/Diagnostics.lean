import Reclaim.Eval.Result
import Reclaim.Proofs.Eval.Labels
import Reclaim.Proofs.Places

/-!
# Diagnostics point at text

A label of a diagnostic goes with a piece of one line of the source, from one place between characters to
another one (`WithinLine`).  Tokens are such pieces, since no character of a token is white space, and so are
the end of a token, a single character that starts no token, and nothing at the start of the text.

A syntax error points at the token that is to blame, or at the end of it (`Blames`).  If reading stops at a
stray character, the error is that character, or it is the error of the text before it.  The errors of later
stages point at names (`reports_resolve`, `reports_validate`, `points_of_run`), and names are tokens.  The
tokens that are made up for a transformed program have no place, so they point at nothing.

This makes up all diagnostics that a text can lead to (`diagnostics_point_at_text`).
-/

namespace Reclaim

variable {source t : String} {s : Span}

/-! ## Pieces of lines -/

/-- The characters that end a line. -/
def lineBreaks : List Char := ['\n', '\x0b', '\x0c', '\r', '\u0085', '\u2028', '\u2029']

/-- A span is a piece of one line of a source, and its ends lie between characters. -/
structure WithinLine (source : String) (s : Span) : Prop where
  /-- It does not end before it starts. -/
  ordered : s.lo ≤ s.hi
  /-- It ends in the source. -/
  inside : s.hi ≤ source.utf8ByteSize
  /-- There is a text at the span, and no line ends in it. -/
  text : ∃ text, Slice source s text ∧ ∀ c ∈ text.toList, c ∉ lineBreaks

theorem Slice.append (h : Slice source s t) (more : String) : Slice (source ++ more) s t := by
  obtain ⟨before, after, rfl, rfl⟩ := h
  exact ⟨before, after ++ more, by simp only [String.append_assoc], rfl⟩

/-- At the end of a text stands nothing. -/
theorem Slice.clip (h : Slice source s t) : Slice source s.clip "" := by
  obtain ⟨before, after, rfl, rfl⟩ := h
  refine ⟨before ++ t, after, by rw [String.append_empty], ?_⟩
  rw [Span.clip, String.utf8ByteSize_append]
  rfl

/-- A text without white space is a piece of one line. -/
theorem Slice.withinLine (h : Slice source s t) (ht : ∀ c ∈ t.toList, Text.isBlank c = false) :
    WithinLine source s := by
  refine ⟨?_, ?_, t, h, fun c hc hbreak => ?_⟩
  · obtain ⟨before, after, rfl, rfl⟩ := h
    exact Nat.le_add_right _ _
  · obtain ⟨before, after, rfl, rfl⟩ := h
    simp only [String.utf8ByteSize_append]
    omega
  · have hblank : ∀ c ∈ lineBreaks, Text.isBlank c = true := List.all_eq_true.1 (by decide)
    exact Bool.false_ne_true ((ht c hc).symm.trans (hblank c hbreak))

/-- A piece of a line stays one if the text goes on. -/
theorem WithinLine.append (h : WithinLine source s) (more : String) : WithinLine (source ++ more) s := by
  obtain ⟨text, hslice, hbreaks⟩ := h.text
  refine ⟨h.ordered, ?_, text, hslice.append more, hbreaks⟩
  rw [String.utf8ByteSize_append]
  exact h.inside.trans (Nat.le_add_right _ _)

theorem withinLine_none (source : String) : WithinLine source .none := by
  have hslice : Slice source .none "" := ⟨"", source, by simp, rfl⟩
  exact hslice.withinLine (List.forall_mem_nil _)

end Reclaim

namespace Reclaim.Surface

variable {source : String} {span : Span} {c : Char} {ts : List Token}

/-! ## Tokens -/

theorem Token.Spelled.isBlank_eq_false {t : Token} (h : t.Spelled) :
    ∀ c ∈ t.text.toList, Text.isBlank c = false := by
  rcases h with hkind | ⟨-, -, hword, -⟩
  · have hall (k : Kind) (w : String) (hw : k.spelling? = some w) :
        (w.toList.all fun c => !Text.isBlank c) = true := by
      cases k <;> cases hw <;> decide
    simpa using hall t.kind t.text hkind
  · exact fun c hc => isBlank_of_isWordChar (hword c hc)

/-- In a text that is read to its end, the place that is to blame for an error is a piece of a line. -/
theorem withinLine_of_blames (h : Tokenizes source ts) (hblames : Blames ts span) :
    WithinLine source span := by
  rcases hblames with ⟨before, t, after, rfl, rfl, -, -⟩ | ⟨t, more, hlast, rfl, -, -⟩
  · have ht : t ∈ before ++ t :: after := List.mem_append_right _ (.head _)
    exact (h.slices t ht).withinLine (h.kinds t ht).isBlank_eq_false
  · exact (h.slices t (List.mem_of_getLast? hlast)).clip.withinLine (List.forall_mem_nil _)

/-! ## Syntax errors -/

/-- Where reading stops at a stray character, the parser finds this out or fails before. -/
theorem State.run_stray {s : State} {e : SyntaxError} (h : State.run (.stray c span) s ts = .error e) :
    e = .stray c span ∨ State.run .finished s ts = .error e := by
  induction ts generalizing s with
  | nil => exact .inl (Except.error.inj h).symm
  | cons t rest ih =>
      rw [State.run] at h ⊢
      cases haccept : s.accept t with
      | none =>
          rw [haccept] at h
          exact .inr h
      | some s' =>
          rw [haccept] at h
          exact ih h

/-- What stands before a stray character is read to its end. -/
theorem exists_of_stray (h : (lex source).stop = .stray c span) :
    ∃ before after, source = before ++ String.singleton c ++ after ∧ ¬ Allowed c ∧
      Slice source span (String.singleton c) ∧ lex before = ⟨(lex source).tokens, .finished⟩ := by
  have hhalts := @halts_lexFrom 0 source.toList
  rw [← lex] at hhalts
  generalize hcs : source.toList = cs at hhalts
  generalize lex source = l at h hhalts
  cases hhalts with
  | finished _ => cases h
  | @stray before after c' ts hscans _ hc =>
      cases h
      have hsource : source = .ofList before ++ String.singleton c ++ .ofList after := by
        rw [← String.toList_inj, hcs]
        simp
      refine ⟨.ofList before, .ofList after, hsource, hc, ⟨_, _, hsource, ?_⟩, ?_⟩
      · rw [utf8ByteSize_eq, String.toList_ofList, Nat.zero_add, String.utf8ByteSize_singleton]
      · exact lexFrom_eq_finished.2 (by rwa [String.toList_ofList])

theorem withinLine_of_lexed {e : SyntaxError} (hlex : lex source = ⟨ts, .finished⟩)
    (h : State.run .finished {} ts = .error e) : WithinLine source e.diagnostic.label.span := by
  have hparse : parse source = .error e := by rwa [parse, hlex]
  have hblames := blames_of_error (congrArg Lexed.stop hlex) hparse
  rw [hlex] at hblames
  exact withinLine_of_blames (tokenizes_of_lex hlex) hblames

theorem withinLine_of_parse_error {e : SyntaxError} (h : parse source = .error e) :
    WithinLine source e.diagnostic.label.span := by
  cases hstop : (lex source).stop with
  | finished =>
      rw [parse, hstop] at h
      exact withinLine_of_lexed (by rw [← hstop]) h
  | stray c span =>
      obtain ⟨before, after, hsource, hc, hslice, hbefore⟩ := exists_of_stray hstop
      rw [parse, hstop] at h
      rcases State.run_stray h with rfl | h
      · refine hslice.withinLine fun d hd => ?_
        obtain rfl : d = c := by simpa using hd
        exact Bool.eq_false_iff.2 fun hblank => hc (.inl hblank)
      · rw [hsource, String.append_assoc]
        exact (withinLine_of_lexed hbefore h).append _

/-- A syntax error has one label. -/
theorem SyntaxError.points {P : Span → Prop} {e : SyntaxError} (h : P e.diagnostic.label.span) :
    e.diagnostic.Points P := by
  have hsecondary : e.diagnostic.secondary = [] := by
    cases e with
    | mismatch expected got | unfinished expected last => cases expected <;> rfl
    | _ => rfl
  rw [Diagnostic.Points, Source.labelsOf, hsecondary]
  exact List.forall_mem_singleton.2 h

end Reclaim.Surface

namespace Reclaim

open Reclaim.Core Reclaim.Counting Reclaim.Surface

variable {source : String} {tree : Tree} {p q : Program} {d : Diagnostic}

/-! ## Names -/

/-- The names of a text that parses are pieces of lines. -/
theorem withinLine_of_has (hparse : parse source = .ok tree) :
    ∀ x, tree.Has (.name x) → WithinLine source x.span := by
  intro x hx
  obtain ⟨t, ht, hkind, rfl, hslice⟩ := exists_token_of_has hparse hx
  exact hslice.withinLine fun c hc => isBlank_of_isWordChar ((proper_of_mem_lex ht hkind).chars c hc)

theorem withinLine_of_resolve (hparse : parse source = .ok tree) (hresolve : resolve tree = .ok p) :
    ∀ o ∈ p.names, WithinLine source o.span := by
  obtain ⟨-, rfl⟩ := resolve_eq_ok_iff.1 hresolve
  exact fun o ho => withinLine_of_has hparse _ (has_of_mem_names tree o ho)

/-- What a transformed function names is at places where the function names something, or at none. -/
theorem KeepsPlaces.forall_span {P : Span → Prop} {r : Reserved} {d d' : FnDef}
    (h : KeepsPlaces source r d d') (hd : ∀ o ∈ d.names, P o.span) (hnone : P .none) :
    ∀ o ∈ d'.names, P o.span := by
  intro o ho
  by_cases htoken : ∃ x, o = .token x
  · obtain ⟨x, rfl⟩ := htoken
    cases hm : d.body.isManaged with
    | true => exact hd _ (h.managed hm ▸ ho)
    | false =>
        obtain ⟨n, -, -, hspan⟩ := h.tokens hm x ho
        exact (congrArg P hspan).mpr hnone
  · exact hd o (h.others o ho fun x heq => htoken ⟨x, heq⟩).1

theorem withinLine_insertCounts (hplaced : ∀ o ∈ p.names, Slice source o.span o.text)
    (hp : ∀ o ∈ p.names, WithinLine source o.span) :
    ∀ o ∈ (insertCounts p).names, WithinLine source o.span := by
  obtain ⟨htypes, hfns⟩ := Program.forall_names.1 hp
  obtain ⟨-, hslices⟩ := Program.forall_names.1 hplaced
  refine Program.forall_names.2 ⟨htypes, List.forall_mem_map.2 fun d hd => ?_⟩
  exact (keepsPlaces_managedBody (hslices d hd)).forall_span (hfns d hd) (withinLine_none source)

/-! ## The main statement -/

/-- A text stands for a program to run: the one that is loaded from it, or this program with its memory
management made explicit. -/
def Runnable (source : String) (q : Program) : Prop :=
  ∃ p, load source = .ok p ∧ (q = p ∨ insertCounts? p = .ok q)

/-- The diagnostics that a text can lead to.  A run may have any entry, and start on any heap with any
depth of calls allowed; its result is shown, or given up in order to find cells that are left. -/
inductive Reported (source : String) : Diagnostic → Prop where
  | load {e : LoadError} : load source = .error e → Reported source e.diagnostic
  | manage {p : Program} {e : ValidityError} : Reclaim.load source = .ok p → insertCounts? p = .error e →
      Reported source e.diagnostic
  | run {q : Program} {depth : Nat} {entry : String} {h h' : Heap} {halt : Halt} : Runnable source q →
      run q depth entry h = (.error halt, h') → Reported source halt.diagnostic
  | render {q : Program} {depth : Nat} {entry : String} {h h' : Heap} {l : Location} {d : Diagnostic} :
      Runnable source q → Reclaim.run q depth entry h = (.ok l, h') → renderAt q h' l = .error d →
      Reported source d
  | leaks {q : Program} {depth : Nat} {entry : String} {h h' : Heap} {l : Location} {d : Diagnostic} :
      Runnable source q → Reclaim.run q depth entry h = (.ok l, h') → checkLeaks h' l = .error d →
      Reported source d

theorem points_of_load_error {e : LoadError} (h : load source = .error e) :
    e.diagnostic.Points (WithinLine source) := by
  rcases load_eq_error.1 h with ⟨s, hparse, rfl⟩ | ⟨tree, s, hparse, hresolve, rfl⟩ |
    ⟨tree, p, s, hparse, hresolve, hvalid, rfl⟩
  · exact SyntaxError.points (withinLine_of_parse_error hparse)
  · exact reports_resolve (withinLine_of_has hparse) s hresolve
  · exact reports_validate (withinLine_of_resolve hparse hresolve) s hvalid

theorem withinLine_of_load (h : load source = .ok p) :
    (∀ o ∈ p.names, WithinLine source o.span) ∧
      ∀ o ∈ (insertCounts p).names, WithinLine source o.span := by
  obtain ⟨tree, hparse, hresolve, -⟩ := load_eq_ok.1 h
  have hp := withinLine_of_resolve hparse hresolve
  refine ⟨hp, withinLine_insertCounts (fun o ho => ?_) hp⟩
  obtain ⟨t, -, -, -, hslice⟩ := exists_token_of_load h o ho
  exact hslice

theorem Runnable.withinLine (h : Runnable source q) : ∀ o ∈ q.names, WithinLine source o.span := by
  obtain ⟨p, hload, rfl | hinsert⟩ := h
  · exact (withinLine_of_load hload).1
  · obtain ⟨-, -, hq⟩ := bind_eq_ok.1 hinsert
    obtain rfl := pure_eq_ok.1 hq
    exact (withinLine_of_load hload).2

/-- Every label of a diagnostic that a text leads to, when it is loaded, when its memory management is made
explicit, and when it is run, is a piece of one line of the text. -/
theorem diagnostics_point_at_text (h : Reported source d) :
    ∀ l ∈ Source.labelsOf d, WithinLine source l.span := by
  have hnone := withinLine_none source
  cases h with
  | load h => exact points_of_load_error h
  | manage hload hinsert => exact (reports_validate (withinLine_of_load hload).2).map _ hinsert
  | run hq hfail => exact points_of_run hq.withinLine hnone hfail
  | render _ _ hfail =>
      unfold renderAt at hfail
      split at hfail
      · cases hfail
      · cases hfail
        exact points_bug hnone
  | leaks _ _ hfail =>
      unfold checkLeaks at hfail
      split at hfail
      · cases hfail
        exact points_bug hnone
      · split at hfail
        · cases hfail
        · cases hfail
          exact points_error hnone

/-- A type that is defined twice. -/
def redefined : String := "(deftype é) ; (\n(deftype é)"

/-- The second definition is reported, and the first one next to it. -/
theorem diagnostics_point_at_text_redefined : ∃ d, Reported redefined d ∧
    (Source.labelsOf d).map (·.span) = [⟨26, 28⟩, ⟨9, 11⟩] ∧
    ∀ l ∈ Source.labelsOf d, WithinLine redefined l.span := by
  have hcheck : (match load redefined with
      | .ok _ => []
      | .error e => (Source.labelsOf e.diagnostic).map (·.span)) = [⟨26, 28⟩, ⟨9, 11⟩] := by
    decide +kernel
  cases hload : load redefined with
  | ok p =>
      rw [hload] at hcheck
      cases hcheck
  | error e =>
      rw [hload] at hcheck
      have hreported : Reported redefined e.diagnostic := .load hload
      exact ⟨_, hreported, hcheck, diagnostics_point_at_text hreported⟩

end Reclaim
