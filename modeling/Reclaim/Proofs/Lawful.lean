import Reclaim.Proofs.Trails

/-!
# Which programs are valid

The check of a program goes through each body once, with the variables in scope at hand.  What it accepts
is described here by the trails through a body, which know nothing of scopes: what is read at the end of a
trail was bound on it or is a parameter, and what is bound there was neither (`FnDef.Lawful`).  Trails take
one arm at each `case`, so arms do not see what other arms bind.

The check succeeds exactly if every function of the program is lawful (`validate_iff_lawful`).  One
direction follows a trail down from the start (`Bound.trail`, `Body.Fits.trail`), the other one puts the
trails of a body together from those of its parts (`Orderly.bound`, `fits_of_trails`).
-/

namespace Reclaim.Core

variable {p : Program} {b b' : Body} {t : List Waypoint} {S : List String}

/-- The variables that an expression reads, from left to right. -/
def Expr.operands : Expr → List Var
  | .call _ xs | .close _ xs => xs
  | .apply f xs | .extend f xs => f :: xs
  | .new c => c.fields
  | .proj _ record => [record]
  | .reset x => [x]
  | .reuse token c => token :: c.fields

/-- The variables that a body reads in its first step. -/
def Body.operands : Body → List Var
  | .bind _ e _ => e.operands
  | .ret x | .case x _ | .inc x _ | .dec x _ => [x]

/-- A function that respects the definitions of a program and uses its variables as it should. -/
structure FnDef.Lawful (p : Program) (d : FnDef) : Prop where
  /-- The parameters are spelled differently. -/
  params : (d.params.map (·.text)).Nodup
  /-- A binder is no parameter and was not bound on the way. -/
  binders : ∀ t x e b, d.body.Trail t (some (.bind x e b)) →
    x.text ∉ d.params.map (·.text) ∧ x.text ∉ boundOn t
  /-- A variable that is read is a parameter or was bound on the way. -/
  reads : ∀ t b, d.body.Trail t (some b) → ∀ x ∈ b.operands,
    x.text ∈ d.params.map (·.text) ∨ x.text ∈ boundOn t
  /-- Functions, constructors and fields are defined, with as many parameters or fields. -/
  exprs : ∀ t x e b, d.body.Trail t (some (.bind x e b)) → e.Fits p
  /-- The tags of arms are those of constructors. -/
  tags : ∀ t x arms, d.body.Trail t (some (.case x arms)) →
    ∀ arm ∈ arms, ∃ d, p.type? arm.1 = some d

/-! ## Variables that are read -/

theorem Expr.mem_freeVars_iff {e : Expr} {u : String} :
    u ∈ e.freeVars.texts ↔ ∃ x ∈ e.operands, x.text = u := by
  cases e with
  | call f xs | close f xs => simp [freeVars, operands, OrderedSet.mem_texts_ofList]
  | apply f xs | extend f xs =>
      simp [freeVars, operands, OrderedSet.mem_texts_union, OrderedSet.mem_texts_singleton,
        OrderedSet.mem_texts_ofList, eq_comm]
  | new c => simp [freeVars, operands, OrderedSet.mem_texts_ofList]
  | proj field record | reset x =>
      simp [freeVars, operands, OrderedSet.mem_texts_singleton, eq_comm]
  | reuse token c =>
      simp [freeVars, operands, OrderedSet.mem_texts_union, OrderedSet.mem_texts_singleton,
        OrderedSet.mem_texts_ofList, eq_comm]

theorem Body.mem_reads_iff {u : String} : u ∈ b.reads ↔ ∃ x ∈ b.operands, x.text = u := by
  cases b with
  | bind x e b => exact Expr.mem_freeVars_iff
  | ret x | case x arms | inc x b | dec x b => simp [reads, operands, eq_comm]

/-! ## From bodies to trails -/

theorem Body.Fits.trail (h : b.Fits p) (ht : b.Trail t (some b')) : b'.Fits p := by
  generalize hend : some b' = o at ht
  induction ht with
  | here => exact Option.some.inj hend ▸ h
  | ret => cases hend
  | bind _ ih => exact ih (fits_bind.1 h).2 hend
  | case harm _ ih => exact ih ((fits_case.1 h).2 _ harm) hend
  | inc _ ih => exact ih (fits_inc.1 h) hend
  | dec _ ih => exact ih (fits_dec.1 h) hend

/-! ## From trails to bodies -/

/-- On the trails from a body, what is read was bound on the way or is in `S`, and what is bound was
neither. -/
structure Orderly (S : List String) (b : Body) : Prop where
  /-- What is read. -/
  reads : ∀ t b', b.Trail t (some b') → ∀ u ∈ b'.reads, u ∈ boundOn t ++ S
  /-- What is bound. -/
  binders : ∀ t x e b', b.Trail t (some (.bind x e b')) → x.text ∉ boundOn t ++ S

/-- Behind a step it is the same, with what the step binds. -/
theorem Orderly.behind {q : Waypoint} (h : Orderly S b)
    (step : ∀ {t o}, b'.Trail t o → b.Trail (q :: t) o) :
    Orderly (q.step.binder?.toList.map (·.text) ++ S) b' := by
  refine ⟨fun t c ht => ?_, fun t x e c ht => ?_⟩
  · have hreads := h.reads _ _ (step ht)
    rwa [boundOn, List.append_assoc] at hreads
  · have hbinders := h.binders _ _ _ _ (step ht)
    rwa [boundOn, List.append_assoc] at hbinders

theorem Orderly.bound (h : Orderly S b) : Bound (fun _ => True) S b := by
  have here : ∀ u ∈ b.reads, u ∈ S := h.reads [] _ .here
  induction b generalizing S with
  | ret x => exact .ret (here _ (.head _))
  | bind x e b ih =>
      have rest : Orderly (x.text :: S) b := h.behind .bind
      exact .bind here (h.binders [] _ _ _ .here) trivial (ih rest (rest.reads [] _ .here))
  | case x arms ih =>
      refine .case (here _ (.head _)) fun arm harm => ?_
      have rest : Orderly S arm.2 := h.behind (.case harm)
      exact ih arm harm rest (rest.reads [] _ .here)
  | inc x b ih =>
      have rest : Orderly S b := h.behind .inc
      exact .inc (here _ (.head _)) (ih rest (rest.reads [] _ .here))
  | dec x b ih =>
      have rest : Orderly S b := h.behind .dec
      exact .dec (here _ (.head _)) (ih rest (rest.reads [] _ .here))

theorem fits_of_trails (hexprs : ∀ t x e b', b.Trail t (some (.bind x e b')) → e.Fits p)
    (htags : ∀ t x arms, b.Trail t (some (.case x arms)) → ∀ arm ∈ arms, ∃ d, p.type? arm.1 = some d) :
    b.Fits p := by
  induction b with
  | ret x => exact .ret
  | bind x e b ih =>
      exact .bind (hexprs [] _ _ _ .here)
        (ih (fun _ _ _ _ ht => hexprs _ _ _ _ (.bind ht)) fun _ _ _ ht => htags _ _ _ (.bind ht))
  | case x arms ih =>
      exact .case (htags [] _ _ .here) fun arm harm =>
        ih arm harm (fun _ _ _ _ ht => hexprs _ _ _ _ (.case harm ht))
          fun _ _ _ ht => htags _ _ _ (.case harm ht)
  | inc x b ih =>
      exact .inc (ih (fun _ _ _ _ ht => hexprs _ _ _ _ (.inc ht)) fun _ _ _ ht => htags _ _ _ (.inc ht))
  | dec x b ih =>
      exact .dec (ih (fun _ _ _ _ ht => hexprs _ _ _ _ (.dec ht)) fun _ _ _ ht => htags _ _ _ (.dec ht))

/-! ## Functions and programs -/

theorem checkFn_iff_lawful {d : FnDef} : checkFn p d = .ok () ↔ d.Lawful p := by
  have hscope {t : List Waypoint} {u : String} : u ∈ boundOn t ++ d.params.reverse.map (·.text) ↔
      u ∈ d.params.map (·.text) ∨ u ∈ boundOn t := by
    rw [List.mem_append, List.map_reverse, List.mem_reverse, or_comm]
  rw [checkFn_eq_ok, checkParams_eq_ok]
  constructor
  · rintro ⟨⟨hparams, -⟩, hbound, hfits⟩
    refine ⟨hparams, fun t x e b ht => ?_, fun t b ht x hx => ?_, fun t x e b ht => ?_,
      fun t x arms ht => ?_⟩
    · rw [← not_or, ← hscope]
      exact (bound_bind.1 (hbound.trail ht)).2.1
    · exact hscope.1 ((hbound.trail ht).reads _ (Body.mem_reads_iff.2 ⟨x, hx, rfl⟩))
    · exact (Body.fits_bind.1 (hfits.trail ht)).1
    · exact (Body.fits_case.1 (hfits.trail ht)).1
  · intro h
    have orderly : Orderly (d.params.reverse.map (·.text)) d.body := by
      refine ⟨fun t b ht u hu => ?_, fun t x e b ht => ?_⟩
      · obtain ⟨x, hx, rfl⟩ := Body.mem_reads_iff.1 hu
        exact hscope.2 (h.reads t b ht x hx)
      · rw [hscope, not_or]
        exact h.binders t x e b ht
    exact ⟨⟨h.params, fun _ _ => List.not_mem_nil⟩, orderly.bound, fits_of_trails h.exprs h.tags⟩

/-- The check accepts a program exactly if its functions are lawful: their parameters are different,
variables are bound once on a path and before they are read, calls and records have the arity of what they
name, closures have less, and all tags and fields are declared. -/
theorem validate_iff_lawful : p.validate = .ok () ↔ ∀ d ∈ p.fns, d.Lawful p := by
  rw [validate_eq_ok]
  exact forall₂_congr fun d _ => checkFn_iff_lawful

/-- Two arms may bind the same variable. -/
example : (Program.validate ⟨[⟨⟨"A", .none⟩, []⟩, ⟨⟨"B", .none⟩, []⟩], [⟨⟨"f", .none⟩, [⟨"x", .none⟩],
    .case ⟨"x", .none⟩ [
      (⟨"A", .none⟩, .bind ⟨"y", .none⟩ (.new ⟨⟨"B", .none⟩, []⟩) (.ret ⟨"y", .none⟩)),
      (⟨"B", .none⟩, .bind ⟨"y", .none⟩ (.new ⟨⟨"A", .none⟩, []⟩) (.ret ⟨"y", .none⟩))]⟩]⟩).isOk =
        true := by
  decide

/-- A binder is not in scope in its own expression. -/
example : (Program.validate ⟨[⟨⟨"A", .none⟩, [⟨"a", .none⟩]⟩], [⟨⟨"f", .none⟩, [],
    .bind ⟨"y", .none⟩ (.new ⟨⟨"A", .none⟩, [⟨"y", .none⟩]⟩) (.ret ⟨"y", .none⟩)⟩]⟩).isOk = false := by
  decide

end Reclaim.Core
