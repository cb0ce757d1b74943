import Mathlib.Algebra.Order.Group.Multiset
import Mathlib.Data.Multiset.Replicate
import Reclaim.Counting.Retains
import Reclaim.Proofs.Counting.Holdings
import Reclaim.Proofs.Counting.Scoped

/-!
# Holdings and ledgers

The walk that makes counts explicit keeps its holdings in step with a ledger: the owners are the
variables that hold a reference, one each, and the borrowers are read out of records that the ledger
knows (`Tracks`).  In front of a step some references have been taken that the step is about to hand
on; these are kept apart from those of the owners.

One lemma for each change of the holdings says that they are in step with the ledger after the
adjustments that go with the change.
-/

namespace Reclaim.Counting

open Reclaim.Core Holdings

variable {N : String → Prop} {Γ : Context} {given : Multiset String} {h : Holdings} {σ σ' : Ledger}
  {live : VarSet} {x owner : Var} {e : Expr} {b : Body} {t : String} {ops ops' : List Adjustment}

/-! ## Adjustments -/

/-- The ledger with further references. -/
def Ledger.takeAll (σ : Ledger) (xs : Multiset String) : Ledger := { σ with held := xs + σ.held }

theorem Ledger.Supported.takeAll (s : σ.Supported t) (xs : Multiset String) :
    (σ.takeAll xs).Supported t :=
  s.mono (fun _ hy => .held (Multiset.mem_add.2 (.inr hy))) id

theorem Ledger.takeAll_takeAll (σ : Ledger) (xs ys : Multiset String) :
    (σ.takeAll xs).takeAll ys = σ.takeAll (ys + xs) := by
  simp [Ledger.takeAll, add_assoc]

/-- Adjustments lead from one ledger to another. -/
inductive Adjusts : Ledger → List Adjustment → Ledger → Prop where
  | nil {σ : Ledger} : Adjusts σ [] σ
  | inc {σ σ' : Ledger} {x : Var} {ops : List Adjustment} :
      σ.Supported x.text → Adjusts (σ.take x.text) ops σ' → Adjusts σ (.inc x :: ops) σ'
  | dec {σ σ' : Ledger} {x : Var} {ops : List Adjustment} :
      x.text ∈ σ.held → Adjusts (σ.drop x.text) ops σ' → Adjusts σ (.dec x :: ops) σ'

theorem Adjusts.append {σ'' : Ledger} (a : Adjusts σ ops σ') (a' : Adjusts σ' ops' σ'') :
    Adjusts σ (ops ++ ops') σ'' := by
  induction a with
  | nil => exact a'
  | inc hx _ ih => exact .inc hx (ih a')
  | dec hx _ ih => exact .dec hx (ih a')

/-- A body may be adjusted to what it needs. -/
theorem Adjusts.balanced (a : Adjusts σ ops σ') (hb : Balanced σ' b) :
    Balanced σ (adjusting ops b) := by
  induction a with
  | nil => exact hb
  | inc hx _ ih => exact .inc hx (ih hb)
  | dec hx _ ih => exact .dec hx (ih hb)

theorem Adjusts.incs {xs : List Var} (hxs : ∀ x ∈ xs, σ.Supported x.text) :
    Adjusts σ (xs.map .inc) (σ.takeAll (spellings xs)) := by
  induction xs generalizing σ with
  | nil =>
      have : σ.takeAll (spellings []) = σ := by simp [Ledger.takeAll, spellings]
      rw [this]
      exact .nil
  | cons x rest ih =>
      have : σ.takeAll (spellings (x :: rest)) = (σ.take x.text).takeAll (spellings rest) := by
        simp [Ledger.takeAll, Ledger.take, spellings, ← Multiset.cons_coe]
      rw [this]
      exact .inc (hxs x (.head _)) (ih fun y hy => (hxs y (.tail _ hy)).take)

/-- Several references to one variable are taken. -/
theorem Adjusts.replicate (hx : σ.Supported x.text) (n : Nat) :
    Adjusts σ (List.replicate n (.inc x)) (σ.takeAll (Multiset.replicate n x.text)) := by
  have hspellings : spellings (List.replicate n x) = Multiset.replicate n x.text := by
    simp [spellings, Multiset.coe_replicate]
  have hall : ∀ y ∈ List.replicate n x, σ.Supported y.text := fun y hy => by
    rw [List.eq_of_mem_replicate hy]
    exact hx
  have := Adjusts.incs hall
  rwa [List.map_replicate, hspellings] at this

/-! ## Uses -/

/-- The references that variables with their numbers of uses stand for. -/
def usesOf (es : List (Var × Nat)) : Multiset String :=
  (es.map fun e => Multiset.replicate e.2 e.1.text).sum

/-- One more use of a variable. -/
theorem usesOf_putEntry (x : Var) (es : List (Var × Nat)) :
    usesOf (putEntry x (((es.find? fun e => e.1 == x).map (·.2)).getD 0 + 1) es)
      = x.text ::ₘ usesOf es := by
  induction es with
  | nil => simp [putEntry, usesOf]
  | cons e rest ih =>
      by_cases he : (e.1 == x) = true
      · simp [putEntry, usesOf, he, Name.beq_iff.1 he, Multiset.replicate_succ]
      · have hfind : (e :: rest).find? (fun e => e.1 == x) = rest.find? fun e => e.1 == x :=
          List.find?_cons_of_neg he
        rw [hfind, putEntry, if_neg he]
        simp only [usesOf, List.map_cons, List.sum_cons] at ih ⊢
        rw [ih, Multiset.add_cons]

theorem pos_of_mem_putEntry {x : Var} {n : Nat} {es : List (Var × Nat)} (hn : 0 < n)
    (hes : ∀ e ∈ es, 0 < e.2) : ∀ e ∈ putEntry x n es, 0 < e.2 := by
  induction es with
  | nil => simpa [putEntry] using hn
  | cons d rest ih =>
      rw [putEntry]
      split
      · exact List.forall_mem_cons.2 ⟨hn, fun e he => hes e (.tail _ he)⟩
      · exact List.forall_mem_cons.2 ⟨hes d (.head _), ih fun e he => hes e (.tail _ he)⟩

/-- The tally of a list counts each of its elements. -/
theorem tally_spec (xs : List Var) :
    usesOf (Holdings.tally xs).entries = spellings xs ∧
      ∀ e ∈ (Holdings.tally xs).entries, 0 < e.2 := by
  suffices ∀ m : OrderedMap Var Nat, (∀ e ∈ m.entries, 0 < e.2) →
      usesOf (xs.foldl (fun m x => m.insert x ((m.get? x).getD 0 + 1)) m).entries
        = usesOf m.entries + spellings xs ∧
      ∀ e ∈ (xs.foldl (fun m x => m.insert x ((m.get? x).getD 0 + 1)) m).entries, 0 < e.2 by
    obtain ⟨huses, hpos⟩ := this .empty (by simp)
    exact ⟨huses.trans (by simp [usesOf]), hpos⟩
  induction xs with
  | nil => exact fun m hm => ⟨by simp [spellings], hm⟩
  | cons x rest ih =>
      intro m hm
      obtain ⟨huses, hpos⟩ := ih (m.insert x ((m.get? x).getD 0 + 1))
        (pos_of_mem_putEntry (Nat.succ_pos _) hm)
      refine ⟨?_, hpos⟩
      rw [List.foldl_cons, huses, OrderedMap.entries_insert, OrderedMap.get?, usesOf_putEntry]
      simp [spellings, ← Multiset.cons_coe]

theorem mem_usesOf {es : List (Var × Nat)} {e : Var × Nat} (he : e ∈ es) (hpos : 0 < e.2) :
    e.1.text ∈ usesOf es := by
  induction es with
  | nil => cases he
  | cons d rest ih =>
      rw [usesOf, List.map_cons, List.sum_cons, Multiset.mem_add]
      rcases List.mem_cons.1 he with rfl | he
      · exact .inl (Multiset.mem_replicate.2 ⟨hpos.ne', rfl⟩)
      · exact .inr (ih he)

/-! ## Holdings in step with a ledger -/

/-- The holdings of a walk agree with a ledger in which the references in `given` are about to be
handed on. -/
structure Tracks (Γ : Context) (given : Multiset String) (h : Holdings) (σ : Ledger) : Prop where
  /-- Owners hold one reference each. -/
  held : σ.held = given + h.owned.texts
  /-- Borrowers were read out of their records. -/
  links : ∀ {x r}, (x, r) ∈ h.borrowed.links → σ.source x = some r
  /-- No owner is a borrower. -/
  apart : ∀ x ∈ h.owned.texts, x ∉ h.borrowed.keyTexts
  /-- Records were bound before their borrowers. -/
  ordered : Ordered h.borrowed.links
  /-- Owners and borrowers are bound. -/
  bound : ∀ {x}, h.Knows x → x ∈ Γ.vars
  /-- The tokens are those in scope. -/
  tokens : σ.tokens = Γ.tokens
  /-- Whatever was read out of something is bound, and so is the record. -/
  source : ∀ {x r}, σ.source x = some r → x ∈ Γ.vars ∧ r ∈ Γ.vars

namespace Tracks

theorem supported_of_backs (tr : Tracks Γ given h σ) (hb : h.Backs t) : σ.Supported t := by
  induction hb with
  | owned ht => exact .held (tr.held ▸ Multiset.mem_add.2 (.inr ht))
  | read hr _ ih => exact .read (tr.links hr) ih

theorem supported_of_hangs (tr : Tracks Γ given h σ) {owner : String} (ho : owner ∈ h.owned.texts)
    (g : h.Hangs live owner t) : σ.Supported t := by
  induction g with
  | direct hr => exact .read (tr.links hr) (tr.supported_of_backs (.owned ho))
  | dead hr _ _ ih => exact .read (tr.links hr) ih

/-- Before an owner lets go, its dependents take references. -/
theorem release (tr : Tracks Γ given h σ) (ho : owner.text ∈ h.owned.texts) (live : VarSet) :
    ∃ xs, Adjusts σ (h.release owner live).1 (σ.takeAll xs) ∧
      Tracks Γ (owner.text ::ₘ given) (h.released owner live) (σ.takeAll xs) := by
  refine ⟨spellings (h.dependents owner live), .incs fun x hx => ?_, ?_⟩
  · have hdep : x.text ∈ h.dependentTexts owner live := List.mem_map_of_mem hx
    exact tr.supported_of_hangs ho ((mem_dependentTexts tr.ordered).1 hdep).2
  · have hlinks : (h.released owner live).borrowed.links.Sublist h.borrowed.links := by
      rw [links_released]
      exact List.filter_sublist
    constructor
    case held =>
      -- The owner's reference goes over to the caller, and each dependent brings its own.
      have hmem : owner.text ∈ h.owned.texts ++ h.dependentTexts owner live :=
        List.mem_append_left _ ho
      have hcons := Multiset.cons_erase (Multiset.mem_coe.2 hmem)
      rw [owned_released tr.apart, Ledger.takeAll, tr.held, Multiset.cons_add, ← Multiset.add_cons,
        ← Multiset.coe_erase, hcons, ← Multiset.coe_add]
      change (h.dependentTexts owner live : Multiset String) + _ = _
      ac_rfl
    case links =>
      intro y r hl
      exact tr.links (hlinks.subset hl)
    case apart =>
      intro y hy hkey
      obtain ⟨u, hu⟩ := OrderedMap.mem_keyTexts.1 hkey
      rw [links_released, List.mem_filter] at hu
      rw [owned_released tr.apart] at hy
      rcases List.mem_append.1 (List.mem_of_mem_erase hy) with hy | hy
      · exact tr.apart y hy (OrderedMap.mem_keyTexts_of_link hu.1)
      · simp [hy] at hu
    case ordered => exact tr.ordered.sublist hlinks
    case bound =>
      intro y hk
      exact tr.bound ((knows_released tr.apart ho).1 hk).1
    case tokens => exact tr.tokens
    case source => exact tr.source

/-- A reference that was taken can be given up. -/
theorem drop (tr : Tracks Γ (t ::ₘ given) h σ) : t ∈ σ.held ∧ Tracks Γ given h (σ.drop t) := by
  refine ⟨?_, ?_, tr.links, tr.apart, tr.ordered, tr.bound, tr.tokens, tr.source⟩
  · rw [tr.held]
    exact Multiset.mem_add.2 (.inl (Multiset.mem_cons_self _ _))
  · rw [Ledger.drop, tr.held, Multiset.cons_add, Multiset.erase_cons_head]

/-- Dead owners are dropped one after the other; what is live is still backed. -/
theorem dropAll {xs : List Var} (tr : Tracks Γ 0 h σ) (live : VarSet)
    (hxs : (xs.map (·.text)).Nodup)
    (dead : ∀ x ∈ xs, x.text ∈ h.owned.texts ∧ x.text ∉ live.texts) :
    ∃ σ', Adjusts σ (Holdings.dropAll live h xs).1 σ' ∧
      Tracks Γ 0 (Holdings.dropAll live h xs).2 σ' ∧
      (∀ y ∈ live.texts, h.Backs y → (Holdings.dropAll live h xs).2.Backs y) ∧
      ∀ y ∈ (Holdings.dropAll live h xs).2.owned.texts,
        y ∈ live.texts ∨ y ∈ h.owned.texts ∧ y ∉ xs.map (·.text) := by
  induction xs generalizing h σ with
  | nil => exact ⟨σ, .nil, tr, fun _ _ hb => hb, fun y hy => .inr ⟨hy, by simp⟩⟩
  | cons x rest ih =>
      rw [List.map_cons, List.nodup_cons] at hxs
      obtain ⟨ho, hdead⟩ := dead x (.head _)
      obtain ⟨ys, hadj, tr₁⟩ := tr.release ho live
      obtain ⟨hx, tr₂⟩ := tr₁.drop
      have howned (y : String) : y ∈ (h.released x live).owned.texts ↔
          y ≠ x.text ∧ (y ∈ h.owned.texts ∨ y ∈ h.dependentTexts x live) := by
        rw [owned_released tr.apart, (nodup_owned_dependents tr.apart).mem_erase_iff,
          List.mem_append]
      obtain ⟨σ', hadj', tr', hback, howned'⟩ := ih tr₂ hxs.2 fun y hy => by
        obtain ⟨hyo, hyd⟩ := dead y (.tail _ hy)
        have hyx : y.text ≠ x.text := fun e => hxs.1 (e ▸ List.mem_map_of_mem hy)
        exact ⟨(howned _).2 ⟨hyx, .inl hyo⟩, hyd⟩
      refine ⟨σ', ?_, tr', fun y hy hb => hback y hy ?_, fun y hy => ?_⟩
      · exact (hadj.append (.dec hx .nil)).append hadj'
      · exact hb.released tr.ordered tr.apart (fun e => hdead (e ▸ hy)) (.inl hy)
      · rcases howned' y hy with hlive | ⟨hown, hrest⟩
        · exact .inl hlive
        · obtain ⟨hyx, hyo | hyd⟩ := (howned y).1 hown
          · refine .inr ⟨hyo, ?_⟩
            simp only [List.map_cons, List.mem_cons, not_or]
            exact ⟨hyx, hrest⟩
          · exact .inl ((mem_dependentTexts tr.ordered).1 hyd).1

/-- After the dead owners have been dropped every owner is live. -/
theorem dropDead (tr : Tracks Γ 0 h σ) (live : VarSet) :
    ∃ σ', Adjusts σ (h.dropDead live).1 σ' ∧ Tracks Γ 0 (h.dropDead live).2 σ' ∧
      (∀ y ∈ live.texts, h.Backs y → (h.dropDead live).2.Backs y) ∧
      ∀ y ∈ (h.dropDead live).2.owned.texts, y ∈ live.texts := by
  have hsub : (h.owned.toList.filter fun x => !live.contains x).Sublist h.owned.toList :=
    List.filter_sublist
  obtain ⟨σ', hadj, tr', hback, howned⟩ := tr.dropAll live
    (h.owned.nodup_texts.sublist (hsub.map _)) fun x hx => by
      refine ⟨List.mem_map_of_mem (hsub.subset hx), fun hlive => ?_⟩
      have := (List.mem_filter.1 hx).2
      rw [OrderedSet.contains_iff.2 hlive] at this
      cases this
  refine ⟨σ', hadj, tr', hback, fun y hy => ?_⟩
  rcases howned y hy with hlive | ⟨hown, hnot⟩
  · exact hlive
  · obtain ⟨v, hv, rfl⟩ := List.mem_map.1 hown
    by_contra hdead
    refine hnot (List.mem_map_of_mem (List.mem_filter.2 ⟨hv, ?_⟩))
    simpa [← Bool.not_eq_true, OrderedSet.contains_iff] using hdead

/-- The references to be handed on to one variable are taken, unless it gives its own away. -/
theorem handOn {count : Nat} (tr : Tracks Γ given h σ) (hk : h.Knows x.text)
    (hs : σ.Supported x.text) (hpos : 0 < count) (live : VarSet) :
    ∃ xs, Adjusts σ (h.handOn live x count).1 (σ.takeAll xs) ∧
      Tracks Γ (Multiset.replicate count x.text + given) (h.handOn live x count).2 (σ.takeAll xs) ∧
      (∀ y, y ≠ x.text → h.Knows y → (h.handOn live x count).2.Knows y) ∧
      ∀ y ∈ live.texts, h.Backs y → (h.handOn live x count).2.Backs y := by
  -- Without letting go, all references are taken.
  have stay : ∃ xs, Adjusts σ (List.replicate count (.inc x)) (σ.takeAll xs) ∧
      Tracks Γ (Multiset.replicate count x.text + given) h (σ.takeAll xs) := by
    refine ⟨Multiset.replicate count x.text, .replicate hs count, ?_, tr.links, tr.apart,
      tr.ordered, tr.bound, tr.tokens, tr.source⟩
    rw [Ledger.takeAll, tr.held, add_assoc]
  unfold Holdings.handOn
  by_cases hb : h.borrowed.contains x
  · rw [if_pos hb]
    obtain ⟨xs, hadj, tr'⟩ := stay
    exact ⟨xs, hadj, tr', fun _ _ hy => hy, fun _ _ hy => hy⟩
  · have hown : x.text ∈ h.owned.texts :=
      hk.resolve_right fun hkey => hb (OrderedMap.contains_iff.2 hkey)
    rw [if_neg hb, if_pos (OrderedSet.contains_iff.2 hown)]
    by_cases hl : live.contains x
    · rw [if_pos hl]
      obtain ⟨xs, hadj, tr'⟩ := stay
      exact ⟨xs, hadj, tr', fun _ _ hy => hy, fun _ _ hy => hy⟩
    · rw [if_neg hl]
      obtain ⟨xs, hadj, tr₁⟩ := tr.release hown live
      obtain ⟨n, rfl⟩ : ∃ n, count = n + 1 := ⟨count - 1, by omega⟩
      have hadj₁ := Adjusts.replicate (hs.takeAll xs) n
      rw [Ledger.takeAll_takeAll] at hadj₁
      refine ⟨_, hadj.append hadj₁, ⟨?_, tr₁.links, tr₁.apart, tr₁.ordered, tr₁.bound, tr₁.tokens,
        tr₁.source⟩, fun y hy hky => (knows_released tr.apart hown).2 ⟨hky, hy⟩, fun y hy hby => ?_⟩
      · rw [← Ledger.takeAll_takeAll, Ledger.takeAll, tr₁.held, Multiset.replicate_succ]
        simp only [Multiset.cons_add, Multiset.add_cons, add_assoc]
        rfl
      · refine hby.released tr.ordered tr.apart (fun e => hl ?_) (.inl hy)
        exact OrderedSet.contains_iff.2 (e ▸ hy)

/-- The references to be handed on to several variables are taken. -/
theorem handOnAll {es : List (Var × Nat)} (tr : Tracks Γ given h σ) (distinct : es.Pairwise Apart)
    (hes : ∀ e ∈ es, h.Knows e.1.text ∧ σ.Supported e.1.text ∧ 0 < e.2) (live : VarSet) :
    ∃ xs, Adjusts σ (Holdings.handOnAll live h es).1 (σ.takeAll xs) ∧
      Tracks Γ (usesOf es + given) (Holdings.handOnAll live h es).2 (σ.takeAll xs) ∧
      ∀ y ∈ live.texts, h.Backs y → (Holdings.handOnAll live h es).2.Backs y := by
  induction es generalizing given h σ with
  | nil =>
      refine ⟨0, ?_, ?_, fun _ _ hy => hy⟩
      · rw [Ledger.takeAll, zero_add]
        exact .nil
      · rw [Ledger.takeAll, zero_add, usesOf, List.map_nil, List.sum_nil, zero_add]
        exact tr
  | cons e rest ih =>
      obtain ⟨x, count⟩ := e
      obtain ⟨hx, distinct⟩ := List.pairwise_cons.1 distinct
      obtain ⟨hk, hs, hpos⟩ := hes _ (.head _)
      obtain ⟨xs, hadj, tr₁, hknows, hback⟩ := tr.handOn hk hs hpos live
      obtain ⟨ys, hadj', tr', hback'⟩ := ih tr₁ distinct fun d hd => by
        obtain ⟨hkd, hsd, hposd⟩ := hes d (.tail _ hd)
        have hne : d.1.text ≠ x.text := fun e => Name.beq_eq_false_iff.1 (hx d hd) e.symm
        exact ⟨hknows _ hne hkd, hsd.takeAll _, hposd⟩
      refine ⟨ys + xs, ?_, ?_, fun y hy hb => hback' y hy (hback y hy hb)⟩
      · rw [← Ledger.takeAll_takeAll]
        exact hadj.append hadj'
      · rw [← Ledger.takeAll_takeAll, usesOf, List.map_cons, List.sum_cons,
          add_comm (Multiset.replicate _ _), add_assoc]
        exact tr'

/-- Before a step hands on references they are there, apart from those that owners keep. -/
theorem handOver {uses : List Var} (tr : Tracks Γ 0 h σ) (hu : ∀ x ∈ uses, h.Backs x.text)
    (live : VarSet) :
    ∃ xs, Adjusts σ (h.handOver uses live).1 (σ.takeAll xs) ∧
      Tracks Γ (spellings uses) (h.handOver uses live).2 (σ.takeAll xs) ∧
      ∀ y ∈ live.texts, h.Backs y → (h.handOver uses live).2.Backs y := by
  obtain ⟨huses, hpos⟩ := tally_spec uses
  have hes : ∀ e ∈ (Holdings.tally uses).entries,
      h.Knows e.1.text ∧ σ.Supported e.1.text ∧ 0 < e.2 := by
    intro e he
    have hmem := mem_usesOf he (hpos e he)
    rw [huses] at hmem
    obtain ⟨x, hx, hxe⟩ := List.mem_map.1 (Multiset.mem_coe.1 hmem)
    have hb : h.Backs e.1.text := hxe ▸ hu x hx
    exact ⟨hb.knows, tr.supported_of_backs hb, hpos e he⟩
  have := tr.handOnAll (Holdings.tally uses).distinct hes live
  rwa [huses, add_zero] at this

/-- What an expression needs is there once its references have been taken. -/
theorem admits (tr : Tracks Γ (spellings e.consumed) h σ) (hadm : Γ.Admits e)
    (hi : ∀ x ∈ e.inspected, σ.Supported x.text) : σ.Admits e := by
  refine ⟨?_, hi, ?_⟩
  · rw [tr.held]
    exact Multiset.le_add_right _ _
  · rw [tr.tokens]
    exact hadm.spent

/-- An expression uses up the references that have been taken for it. -/
theorem spend (tr : Tracks Γ (spellings e.consumed) h σ) :
    Tracks (Γ.spend e) 0 h (σ.spend e) := by
  refine ⟨?_, tr.links, tr.apart, tr.ordered, tr.bound, ?_, tr.source⟩
  · rw [Ledger.spend, tr.held, add_tsub_cancel_left, zero_add]
  · rw [Ledger.spend, Context.spend, tr.tokens]

/-- A new owner comes in. -/
theorem own (tr : Tracks Γ 0 h σ) (free : Γ.Free x.text) :
    Tracks (Γ.gain x.text .owned) 0 { h with owned := h.owned.insert x }
      (σ.gain x.text .owned) := by
  have hnew : x.text ∉ h.owned.texts := fun hx => free.var (tr.bound (.inl hx))
  have howned {y : String} : y ∈ (h.owned.insert x).texts → y ∈ h.owned.texts ∨ y = x.text :=
    OrderedSet.mem_texts_insert.1
  constructor
  case held =>
    simp only [Ledger.gain, OrderedSet.texts_insert, if_neg hnew, tr.held, zero_add,
      ← Multiset.coe_add]
    rw [add_comm, Multiset.coe_singleton, Multiset.singleton_add]
  case links => exact tr.links
  case apart =>
    intro y hy hx
    rcases howned hy with hy | rfl
    · exact tr.apart y hy hx
    · exact free.var (tr.bound (.inr hx))
  case ordered => exact tr.ordered
  case bound =>
    rintro y (hy | hy)
    · rcases howned hy with hy | rfl
      · exact .tail _ (tr.bound (.inl hy))
      · exact .head _
    · exact .tail _ (tr.bound (.inr hy))
  case tokens => exact tr.tokens
  case source =>
    intro y r hs
    exact ⟨.tail _ (tr.source hs).1, .tail _ (tr.source hs).2⟩

/-- A new borrower comes in. -/
theorem borrow {record : Var} (tr : Tracks Γ 0 h σ) (free : Γ.Free x.text)
    (hr : record.text ∈ Γ.vars) :
    Tracks (Γ.gain x.text (.borrowed record)) 0 { h with borrowed := h.borrowed.insert x record }
      (σ.gain x.text (.borrowed record)) := by
  have hnew : x.text ∉ h.borrowed.keyTexts := fun hx => free.var (tr.bound (.inr hx))
  have hlink {y u : String} (hl : (y, u) ∈ (h.borrowed.insert x record).links) :
      (y, u) ∈ h.borrowed.links ∨ y = x.text ∧ u = record.text := by
    rw [OrderedMap.links_insert hnew, List.mem_append, List.mem_singleton] at hl
    exact hl.imp_right Prod.mk.inj
  have hkey {y : String} (hy : y ∈ (h.borrowed.insert x record).keyTexts) :
      y ∈ h.borrowed.keyTexts ∨ y = x.text := by
    obtain ⟨u, hu⟩ := OrderedMap.mem_keyTexts.1 hy
    exact (hlink hu).imp OrderedMap.mem_keyTexts_of_link And.left
  constructor
  case held => exact tr.held
  case links =>
    intro y r hl
    rcases hlink hl with hl | ⟨rfl, rfl⟩
    · have hy : y ≠ x.text := fun e => hnew (e ▸ OrderedMap.mem_keyTexts_of_link hl)
      rw [Ledger.source_gain_of_ne hy]
      exact tr.links hl
    · exact Function.update_self _ _ _
  case apart =>
    intro y hy hx
    rcases hkey hx with hx | rfl
    · exact tr.apart y hy hx
    · exact free.var (tr.bound (.inl hy))
  case ordered =>
    -- The new link comes last: nothing was read out of a variable that was not bound.
    rw [OrderedMap.links_insert hnew]
    refine tr.ordered.append (fun a ha e => free.var ?_) fun e => free.var (e ▸ hr)
    exact e ▸ (tr.source (tr.links ha)).2
  case bound =>
    rintro y (hy | hy)
    · exact .tail _ (tr.bound (.inl hy))
    · rcases hkey hy with hy | rfl
      · exact .tail _ (tr.bound (.inr hy))
      · exact .head _
  case tokens => exact tr.tokens
  case source =>
    intro y r hs
    by_cases hy : y = x.text
    · subst hy
      have heq : some record.text = some r := (Function.update_self x.text _ _).symm.trans hs
      cases heq
      exact ⟨.head _, .tail _ hr⟩
    · rw [Ledger.source_gain_of_ne hy] at hs
      exact ⟨.tail _ (tr.source hs).1, .tail _ (tr.source hs).2⟩

/-- A new variable comes in with what it is bound to. -/
theorem bind (tr : Tracks Γ 0 h σ) (free : Γ.Free x.text)
    (hrec : ∀ record, e.holding = .borrowed record → record.text ∈ Γ.vars) :
    Tracks (Γ.gain x.text e.holding) 0 (h.bind x e) (σ.gain x.text e.holding) := by
  unfold Holdings.bind
  cases hk : e.holding with
  | owned => exact tr.own free
  | borrowed record => exact tr.borrow free (hrec record hk)
  | token => exact ⟨tr.held, tr.links, tr.apart, tr.ordered, tr.bound,
      by rw [Ledger.gain, Context.gain, tr.tokens], tr.source⟩

/-- A name that is free in the context is new to the ledger. -/
theorem new (tr : Tracks Γ given h σ) (free : Γ.Free t) (hg : t ∉ given) : σ.New t := by
  constructor
  case held =>
    intro ht
    rw [tr.held, Multiset.mem_add] at ht
    exact free.var (tr.bound (.inl (ht.resolve_left hg)))
  case token => exact tr.tokens ▸ free.token
  case source =>
    cases hs : σ.source t with
    | none => rfl
    | some r => exact absurd (tr.source hs).1 free.var
  case record =>
    intro y hy
    exact free.var (tr.source hy).2

end Tracks

end Reclaim.Counting
