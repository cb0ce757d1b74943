import Reclaim.Proofs.Counting.Provenance
import Reclaim.Proofs.Counting.Validity
import Reclaim.Proofs.Resolution.Exactness
import Reclaim.Proofs.Surface.Extents

/-!
# Names keep their places

Every name of a program that a tree stands for is a name of the tree (`has_of_mem_names`), and in a text
that parses such a name stands at its span.  When memory management is made explicit, the inserted
operations name variables at places where the function names them, and the tokens that are made up stand
nowhere.  So through the whole pipeline every other name can be found in the text (`names_keep_places`).
-/

namespace Reclaim.Core

open Reclaim.Surface (Ident Tree Node)

variable {tree : Tree} {S : List String}

/-- A name as it stands in a syntax tree. -/
def Occurrence.ident (o : Occurrence) : Ident := ⟨o.span, o.text⟩

/-! ## Trees and programs -/

theorem map_ident_occurrencesOf (xs : List Ident) :
    (occurrencesOf (xs.map nameOf)).map Occurrence.ident = xs := by
  rw [occurrencesOf, List.map_map, List.map_map]
  exact List.map_id xs

theorem map_ident_names_expr (e : Surface.Expr) :
    (e.meaning S).names.map Occurrence.ident = e.idents := by
  cases e with
  | pap f xs | app f xs =>
      rw [Surface.Expr.meaning]
      split <;> exact congrArg (f :: ·) (map_ident_occurrencesOf xs)
  | new tag xs => exact congrArg (tag :: ·) (map_ident_occurrencesOf xs)
  | proj f x | reset x => rfl
  | reuse w tag xs => exact congrArg ([w, tag] ++ ·) (map_ident_occurrencesOf xs)

theorem ident_binder (e : Expr) (x : Ident) : (e.binder (nameOf x)).ident = x := by
  unfold Expr.binder
  split <;> rfl

/-- The names of what a body stands for are names of the tree in which it is. -/
theorem has_of_mem_body_names {T : Surface.Body} (h : ∀ n ∈ Node.ofBody T, tree.Has n) :
    ∀ o ∈ (T.meaning S).names, tree.Has (.name o.ident) := by
  induction T generalizing S with
  | ret x => exact List.forall_mem_singleton.2 (h _ (.head _))
  | lets bindings s T ih =>
      have hbody : tree.Has (.body ⟨s, T⟩) := h _ (List.mem_append_right _ (.head _))
      induction bindings generalizing S with
      | nil => exact ih fun n hn => hbody.child hn
      | cons d rest hrest =>
          have hexpr : tree.Has (.expr d.expr) := h _ (.tail _ (.head _))
          rw [Surface.meaning_lets_cons]
          refine Body.forall_names_bind.2 ⟨?_, fun o ho => ?_, hrest fun n hn => h n ?_⟩
          · rw [ident_binder]
            exact h _ (.head _)
          · have hident : o.ident ∈ d.expr.val.idents :=
              map_ident_names_expr d.expr.val ▸ List.mem_map_of_mem ho
            exact hexpr.child (List.mem_map_of_mem hident)
          · exact .tail _ (.tail _ hn)
  | case x arms ih =>
      rw [Surface.Body.meaning, Surface.armsMeaning_eq]
      refine Body.forall_names_case.2 ⟨h _ (.head _), List.forall_mem_map.2 fun arm harm => ?_⟩
      have hpart (n : Node) (hn : n ∈ [.name arm.1, .body arm.2]) : tree.Has n :=
        h n (.tail _ (List.mem_flatMap.2 ⟨arm, harm, hn⟩))
      exact ⟨hpart _ (.head _), ih arm harm fun n hn => (hpart _ (.tail _ (.head _))).child hn⟩
  | inc x s T ih =>
      exact Body.forall_names_inc.2
        ⟨h _ (.head _), ih fun n hn => (h (.body ⟨s, T⟩) (.tail _ (.head _))).child hn⟩
  | dec x s T ih =>
      exact Body.forall_names_dec.2
        ⟨h _ (.head _), ih fun n hn => (h (.body ⟨s, T⟩) (.tail _ (.head _))).child hn⟩

/-- The names of a program that a tree stands for are names of the tree. -/
theorem has_of_mem_names (tree : Tree) : ∀ o ∈ tree.meaning.names, tree.Has (.name o.ident) := by
  refine Program.forall_names.2 ⟨List.forall_mem_map.2 ?_, List.forall_mem_map.2 ?_⟩
  · rintro ⟨tag, fields⟩ hmem
    obtain ⟨s, hitem⟩ := mem_declarationsOf.1 hmem
    have hnames : ∀ x ∈ tag :: fields, tree.Has (.name x) := fun x hx =>
      (Surface.Tree.Has.item hitem).child (List.mem_map_of_mem hx)
    obtain ⟨htag, hfields⟩ := List.forall_mem_cons.1 hnames
    exact TypeDef.forall_names.2 ⟨htag, List.forall_mem_map.2 hfields⟩
  · rintro ⟨f, params, T⟩ hmem
    obtain ⟨s, s', hitem⟩ := mem_functionsOf hmem
    have hhas := Surface.Tree.Has.item hitem
    have hnames : ∀ x ∈ f :: params, tree.Has (.name x) := fun x hx =>
      hhas.child (List.mem_append_left _ (List.mem_map_of_mem hx))
    have hbody : tree.Has (.body ⟨s', T⟩) := hhas.child (List.mem_append_right _ (.head _))
    obtain ⟨hf, hparams⟩ := List.forall_mem_cons.1 hnames
    exact FnDef.forall_names.2 ⟨hf, List.forall_mem_map.2 hparams,
      has_of_mem_body_names fun n hn => hbody.child hn⟩

end Reclaim.Core

namespace Reclaim

open Reclaim.Core Reclaim.Counting Reclaim.Surface

variable {source : String} {p : Program}

/-- The names of a loaded program are tokens of its text. -/
theorem exists_token_of_load (h : load source = .ok p) : ∀ o ∈ p.names,
    ∃ t ∈ (lex source).tokens, t.kind = .ident ∧ o.ident = t.ident ∧ Slice source o.span o.text := by
  obtain ⟨tree, hparse, hresolve, -⟩ := load_eq_ok.1 h
  obtain ⟨-, rfl⟩ := resolve_eq_ok_iff.1 hresolve
  exact fun o ho => exists_token_of_has hparse (has_of_mem_names tree o ho)

/-! ## Through the pipeline -/

/-- A transformed function names what the function names, at places where this is written.  Only the
tokens that are made up for it are new, and they have no place. -/
structure KeepsPlaces (source : String) (r : Reserved) (d d' : FnDef) : Prop where
  /-- A function that manages memory itself is left as it is. -/
  managed : d.body.isManaged = true → d' = d
  /-- In any other function all tokens are made up. -/
  tokens : d.body.isManaged = false → ∀ x, .token x ∈ d'.names →
    ∃ n, r.permits n = true ∧ x = candidate n ∧ x.span = .none
  /-- All other names are those of the function, and stand where they are written. -/
  others : ∀ o ∈ d'.names, (∀ x, o ≠ .token x) → o ∈ d.names ∧ Slice source o.span o.text

theorem keepsPlaces_managedBody {d : FnDef} (h : ∀ o ∈ d.names, Slice source o.span o.text) :
    KeepsPlaces source (reservedOf p d) d { d with body := managedBody p d } := by
  by_cases hm : d.body.isManaged = true
  · have heq : managedBody p d = d.body := if_pos hm
    rw [heq]
    exact ⟨fun _ => rfl, fun hm' => absurd (hm.symm.trans hm') (by decide), fun o ho _ => ⟨ho, h o ho⟩⟩
  · rw [Bool.not_eq_true] at hm
    have hknown : ∀ o ∈ ({ d with body := managedBody p d } : FnDef).names, Known p d o := by
      obtain ⟨hname, hparams, -⟩ := FnDef.forall_names.1 fun o => known_of_mem_names (p := p) hm
      exact FnDef.forall_names.2 ⟨hname, hparams, names_managedBody p hm⟩
    refine ⟨fun hm' => absurd (hm.symm.trans hm') (by decide), fun _ x hx => ?_, fun o ho hne => ?_⟩
    · obtain ⟨n, hn, rfl⟩ := hknown _ hx
      exact ⟨n, hn, rfl, rfl⟩
    · have hold : o ∈ d.names := by
        have hknown := hknown o ho
        cases o with
        | token x => exact absurd rfl (hne x)
        | _ => exact hknown
      exact ⟨hold, h o hold⟩

/-- Every name of a loaded program stands at its span.  So does every name of the transformed program,
except the tokens that were made up, which have no span. -/
theorem names_keep_places (h : load source = .ok p) :
    (∀ o ∈ p.names, Slice source o.span o.text) ∧
    ∃ q, insertCounts? p = .ok q ∧ q.types = p.types ∧
      List.Forall₂ (fun d d' => KeepsPlaces source (reservedOf p d) d d') p.fns q.fns := by
  have hplaced : ∀ o ∈ p.names, Slice source o.span o.text := by
    intro o ho
    obtain ⟨t, -, -, -, hslice⟩ := exists_token_of_load h o ho
    exact hslice
  obtain ⟨-, -, -, hvalid⟩ := load_eq_ok.1 h
  refine ⟨hplaced, insertCounts p, insertCounts?_eq_ok hvalid, rfl, ?_⟩
  refine List.forall₂_map_right_iff.2 (List.forall₂_same.2 fun d hd => ?_)
  exact keepsPlaces_managedBody ((Program.forall_names.1 hplaced).2 d hd)

/-- A function that takes a box apart and makes another one. -/
def reboxed : String :=
  "(deftype Box v) (defn f (b) (case b Box (let (x (proj v b) y (new Box x)) (ret y))))"

/-- The field is counted at the place where it is bound, and the record is reset at the place where it is
matched.  The token stands nowhere. -/
theorem names_keep_places_reboxed : ∃ p, load reboxed = .ok p ∧
    ((insertCounts p).fns.flatMap fun d : FnDef => d.body.names.map fun o => (o.text, o.span.lo)) =
      [("b", 34), ("Box", 36), ("x", 46), ("v", 54), ("b", 56), ("x", 46), ("_r0", 0), ("b", 34),
        ("y", 59), ("_r0", 0), ("Box", 66), ("x", 70), ("y", 79)] ∧
    (∀ o ∈ p.names, Slice reboxed o.span o.text) ∧
    ∃ q, insertCounts? p = .ok q ∧ q.types = p.types ∧
      List.Forall₂ (fun d d' => KeepsPlaces reboxed (reservedOf p d) d d') p.fns q.fns := by
  obtain ⟨p, hload, hcheck⟩ : ∃ p, load reboxed = .ok p ∧
      (((insertCounts p).fns.flatMap fun d : FnDef => d.body.names.map fun o => (o.text, o.span.lo)) ==
        [("b", 34), ("Box", 36), ("x", 46), ("v", 54), ("b", 56), ("x", 46), ("_r0", 0), ("b", 34),
          ("y", 59), ("_r0", 0), ("Box", 66), ("x", 70), ("y", 79)]) = true :=
    exists_load rfl (by decide +kernel)
  exact ⟨p, hload, eq_of_beq hcheck, names_keep_places hload⟩

end Reclaim
