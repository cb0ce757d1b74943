import Mathlib.Logic.Relation
import Reclaim.Proofs.Counting.Coverage
import Reclaim.Proofs.Counting.Validity

/-!
# Making counts explicit comes to an end

Three recursions on the way to explicit counts have no measure of their own, and each is given a bound:
the walk from a borrower to its record and on (`Holdings.hangsOff`), the search for a token
(`Reserved.fresh`) and the rounds that insert drops (`insertDrops`).  The bounds are never met.

The search always ends (`Reserved.exists_finds`), and so does the walk where records come before their
borrowers (`Holdings.exists_walks`); then there is no cycle either (`Ordered.acyclic`).  While counts are
inserted along a trail, every borrower was read out of its record on that trail, and the record was bound
strictly before (`ReadOn`).  Nothing but a new binding adds a borrower, so borrowers stay listed in the
order of their bindings (`Holdings.Traced`).

All walks that are made while counts are inserted into a body are enumerated by `Holdings.Asks`.
-/

namespace Reclaim.Counting

open Reclaim.Core

/-! ## Chains of records -/

namespace Holdings

variable {h g : Holdings} {live : VarSet} {owner : Var} {links : List (String × String)}
  {u v w : String}

theorem exists_link_of_chain (chain : Relation.TransGen (fun x r => (x, r) ∈ links) v u) :
    ∃ r, (v, r) ∈ links := by
  cases chain using Relation.TransGen.head_induction_on with
  | single hlink | head hlink => exact ⟨_, hlink⟩

/-- Along a chain of records one comes to entries further and further ahead in the list. -/
theorem Ordered.mem_take_of_chain (ord : Ordered links)
    (chain : Relation.TransGen (fun x r => (x, r) ∈ links) v u) (hu : (u, w) ∈ links) {n : Nat}
    (hv : ∀ r, (v, r) ∈ links → (v, r) ∈ links.take (n + 1)) : (u, w) ∈ links.take n := by
  induction chain using Relation.TransGen.head_induction_on generalizing n with
  | single hlink => exact ord.mem_take (hv _ hlink) hu
  | @head v r hlink chain ih =>
      have hr : ∀ s, (r, s) ∈ links → (r, s) ∈ links.take n := fun s hs =>
        ord.mem_take (hv _ hlink) hs
      cases n with
      | zero =>
          obtain ⟨s, hs⟩ := exists_link_of_chain chain
          cases hr s hs
      | succ n => exact List.take_subset_take_left _ (Nat.le_succ n) (ih hr)

/-- Where records come before their borrowers there is no cycle. -/
theorem Ordered.acyclic (ord : Ordered links) (hkeys : (links.map (·.1)).Nodup) :
    ¬ Relation.TransGen (fun x r => (x, r) ∈ links) u u := by
  intro cycle
  obtain ⟨w, hw⟩ := exists_link_of_chain cycle
  have never : ∀ n, (u, w) ∉ links.take n := by
    intro n
    induction n with
    | zero => exact List.not_mem_nil
    | succ n ih =>
        intro hn
        refine ih (ord.mem_take_of_chain cycle hw fun r hr => ?_)
        have := List.inj_on_of_nodup_map hkeys hr hw rfl
        rwa [this]
  exact never links.length (by rwa [List.take_length])

/-! ## Borrowers go out when owners let go -/

/-- The borrowers of `g` are borrowers of `h`, in their order. -/
def Sheds (h g : Holdings) : Prop := g.borrowed.entries.Sublist h.borrowed.entries

theorem Sheds.trans {k : Holdings} (hg : h.Sheds g) (hk : g.Sheds k) : h.Sheds k :=
  List.Sublist.trans hk hg

theorem sheds_release (h : Holdings) (owner : Var) (live : VarSet) :
    h.Sheds (h.release owner live).2 := by
  change ((h.dependents owner live).foldl OrderedMap.erase h.borrowed).entries.Sublist _
  generalize h.borrowed = m
  induction h.dependents owner live generalizing m with
  | nil => exact .refl _
  | cons x rest ih => exact (ih (m.erase x)).trans List.eraseP_sublist

theorem sheds_dropAll (live : VarSet) (h : Holdings) (xs : List Var) :
    h.Sheds (h.dropAll live xs).2 := by
  induction xs generalizing h with
  | nil => exact .refl _
  | cons x rest ih => exact (h.sheds_release x live).trans (ih _)

theorem sheds_dropDead (h : Holdings) (live : VarSet) : h.Sheds (h.dropDead live).2 :=
  sheds_dropAll live h _

theorem sheds_handOn (h : Holdings) (live : VarSet) (x : Var) (count : Nat) :
    h.Sheds (h.handOn live x count).2 := by
  rw [handOn]
  split
  · exact .refl _
  · split
    · split
      · exact .refl _
      · exact h.sheds_release x live
    · exact .refl _

theorem sheds_handOnAll (live : VarSet) (h : Holdings) (es : List (Var × Nat)) :
    h.Sheds (h.handOnAll live es).2 := by
  induction es generalizing h with
  | nil => exact .refl _
  | cons e rest ih => exact (h.sheds_handOn live e.1 e.2).trans (ih _)

theorem sheds_handOver (h : Holdings) (uses : List Var) (live : VarSet) :
    h.Sheds (h.handOver uses live).2 :=
  sheds_handOnAll live h _

/-! ## The walks that are made -/

/-- While the owners in a list are dropped, `owner` is released from the holdings `g`. -/
inductive DropsAt (live : VarSet) : Holdings → List Var → Holdings → Var → Prop where
  | first {h : Holdings} {x : Var} {rest : List Var} : DropsAt live h (x :: rest) h x
  | later {h g : Holdings} {x owner : Var} {rest : List Var} :
      DropsAt live (h.release x live).2 rest g owner → DropsAt live h (x :: rest) g owner

/-- While references are handed on, `owner` is released from the holdings `g`. -/
inductive HandsAt (live : VarSet) : Holdings → List (Var × Nat) → Holdings → Var → Prop where
  | first {h : Holdings} {x : Var} {count : Nat} {rest : List (Var × Nat)} :
      h.borrowed.contains x = false → h.owned.contains x = true → live.contains x = false →
      HandsAt live h ((x, count) :: rest) h x
  | later {h g : Holdings} {x owner : Var} {count : Nat} {rest : List (Var × Nat)} :
      HandsAt live (h.handOn live x count).2 rest g owner → HandsAt live h ((x, count) :: rest) g owner

/-- The holdings when a body is reached and what is dead in front of it has been dropped. -/
abbrev before (h : Holdings) (b : Body) : Holdings := (h.dropDead b.freeVars).2

/-- `ReleasesAt h b t g owner live`: while counts are inserted into `b` from the holdings `h`, behind the
steps of the trail `t` the holdings `g` release `owner`, and `live` is needed afterwards. -/
inductive ReleasesAt : Holdings → Body → List Waypoint → Holdings → Var → VarSet → Prop where
  | drop {h g : Holdings} {b : Body} {owner : Var} :
      DropsAt b.freeVars h (h.owned.toList.filter fun x => !b.freeVars.contains x) g owner →
      ReleasesAt h b [] g owner b.freeVars
  | useBind {h g : Holdings} {x owner : Var} {e : Expr} {b : Body} :
      HandsAt b.freeVars (h.before (.bind x e b)) (tally e.consumed).entries g owner →
      ReleasesAt h (.bind x e b) [] g owner b.freeVars
  | useDec {h g : Holdings} {x owner : Var} {b : Body} :
      HandsAt b.freeVars (h.before (.dec x b)) (tally [x]).entries g owner →
      ReleasesAt h (.dec x b) [] g owner b.freeVars
  | bind {h g : Holdings} {x owner : Var} {e : Expr} {b : Body} {t : List Waypoint} {live : VarSet} :
      ReleasesAt (((h.before (.bind x e b)).handOver e.consumed b.freeVars).2.bind x e) b t g owner live →
      ReleasesAt h (.bind x e b) (⟨.bind x e b, .bind x e⟩ :: t) g owner live
  | case {h g : Holdings} {x owner : Var} {arms : List Arm} {arm : Arm} {t : List Waypoint}
      {live : VarSet} : arm ∈ arms → ReleasesAt (h.before (.case x arms)) arm.2 t g owner live →
      ReleasesAt h (.case x arms) (⟨.case x arms, .enter x arm.1⟩ :: t) g owner live
  | inc {h g : Holdings} {x owner : Var} {b : Body} {t : List Waypoint} {live : VarSet} :
      ReleasesAt (h.before (.inc x b)) b t g owner live →
      ReleasesAt h (.inc x b) (⟨.inc x b, .inc x⟩ :: t) g owner live
  | dec {h g : Holdings} {x owner : Var} {b : Body} {t : List Waypoint} {live : VarSet} :
      ReleasesAt ((h.before (.dec x b)).handOver [x] b.freeVars).2 b t g owner live →
      ReleasesAt h (.dec x b) (⟨.dec x b, .dec x⟩ :: t) g owner live

/-- While counts are inserted into `b` from the holdings `h`, behind the trail `t` it is asked whether
the borrower `x` of `g` hangs off `owner`: a release asks this of all borrowers that are live. -/
structure Asks (h : Holdings) (b : Body) (t : List Waypoint) (g : Holdings) (x owner : Var)
    (live : VarSet) : Prop where
  release : h.ReleasesAt b t g owner live
  borrower : x ∈ g.borrowed.keys
  live : live.contains x = true

theorem DropsAt.sheds {xs : List Var} (hat : DropsAt live h xs g owner) : h.Sheds g := by
  induction hat with
  | first => exact .refl _
  | later _ ih => exact (sheds_release _ _ _).trans ih

theorem HandsAt.sheds {es : List (Var × Nat)} (hat : HandsAt live h es g owner) : h.Sheds g := by
  induction hat with
  | first => exact .refl _
  | later _ ih => exact (sheds_handOn _ _ _ _).trans ih

end Holdings

/-! ## Borrowers on a trail -/

/-- On the trail `t` the variable `x` was read out of `record`, which was bound strictly before; `x` was
not.  The variables in `S` are bound from the start. -/
def ReadOn (S : List String) (t : List Waypoint) (x record : Var) : Prop :=
  ∃ before q after field, t = before ++ q :: after ∧ q.step = .bind x (.proj field record) ∧
    record.text ∈ boundOn before ++ S ∧ x.text ∉ boundOn before ++ S

variable {N : String → Prop} {S : List String} {t t' : List Waypoint} {q : Waypoint} {b root : Body}
  {h g : Holdings} {x owner record : Var} {e : Expr} {live : VarSet} {p : Program} {d : FnDef}
  {r : Reserved} {c : Counter}

theorem boundOn_append (t t' : List Waypoint) : boundOn (t ++ t') = boundOn t' ++ boundOn t := by
  induction t with
  | nil => simp [boundOn]
  | cons q t ih => simp [boundOn, ih]

namespace ReadOn

theorem append (hread : ReadOn S t x record) (t' : List Waypoint) : ReadOn S (t ++ t') x record := by
  obtain ⟨before, q, after, field, rfl, hstep, hrecord, hx⟩ := hread
  exact ⟨before, q, after ++ t', field, by simp, hstep, hrecord, hx⟩

/-- The record is in scope behind the trail, and so is what was read out of it. -/
theorem inScope (hread : ReadOn S t x record) :
    x.text ∈ boundOn t ++ S ∧ record.text ∈ boundOn t ++ S := by
  obtain ⟨before, q, after, field, rfl, hstep, hrecord, -⟩ := hread
  have hq : boundOn (before ++ q :: after) = boundOn after ++ (x.text :: boundOn before) := by
    simp [boundOn_append, boundOn, hstep, PathStep.binder?]
  rw [hq]
  constructor
  · simp
  · rcases List.mem_append.1 hrecord with hrecord | hrecord <;> simp [hrecord]

end ReadOn

/-- Behind a trail the borrowers were read on it, and they are listed in the order of their bindings. -/
structure Holdings.Traced (S : List String) (t : List Waypoint) (h : Holdings) : Prop where
  /-- Each borrower was read out of its record on the trail. -/
  read : ∀ e ∈ h.borrowed.entries, ReadOn S t e.1 e.2
  /-- Records come before their borrowers. -/
  ordered : Ordered h.borrowed.links

namespace Holdings.Traced

theorem sheds (tr : Traced S t h) (hg : h.Sheds g) : Traced S t g :=
  ⟨fun e he => tr.read e (hg.subset he), tr.ordered.sublist (hg.map _)⟩

theorem append (tr : Traced S t h) (t' : List Waypoint) : Traced S (t ++ t') h :=
  ⟨fun e he => (tr.read e he).append t', tr.ordered⟩

/-- A new binding is traced to itself. -/
theorem bind (tr : Traced S t h) (hreads : ∀ u ∈ e.freeVars.texts, u ∈ boundOn t ++ S)
    (hx : x.text ∉ boundOn t ++ S) :
    Traced S (t ++ [⟨.bind x e b, .bind x e⟩]) (h.bind x e) := by
  cases e with
  | proj field record =>
      have hrecord : record.text ∈ boundOn t ++ S :=
        hreads _ (OrderedSet.mem_texts_singleton.2 rfl)
      have hnew : ∀ d ∈ h.borrowed.entries, (d.1 == x) = false := fun d hd =>
        Name.beq_eq_false_iff.2 fun heq => hx (heq ▸ (tr.read d hd).inScope.1)
      have hentries : (h.borrowed.insert x record).entries = h.borrowed.entries ++ [(x, record)] :=
        OrderedMap.putEntry_of_apart hnew
      constructor
      case read =>
        intro d hd
        change d ∈ (h.borrowed.insert x record).entries at hd
        rw [hentries] at hd
        rcases List.mem_append.1 hd with hd | hd
        · exact (tr.read d hd).append _
        · rw [List.mem_singleton.1 hd]
          exact ⟨t, _, [], field, rfl, rfl, hrecord, hx⟩
      case ordered =>
        change Ordered (h.borrowed.insert x record).links
        have hlinks : (h.borrowed.insert x record).links
            = h.borrowed.links ++ [(x.text, record.text)] := by
          simp [OrderedMap.links, OrderedMap.putEntry_of_apart hnew]
        rw [hlinks]
        refine tr.ordered.append (fun a ha heq => ?_) fun heq => hx (heq ▸ hrecord)
        obtain ⟨d, hd, rfl⟩ := List.mem_map.1 ha
        exact hx (heq ▸ (tr.read d hd).inScope.2)
  | _ => exact (tr.append _).sheds (List.Sublist.refl _)

/-- Whatever is released on the way through a body, the borrowers are traced there. -/
theorem releasesAt (tr : Traced S t h) (hroot : Bound N S root) (ht : root.Trail t (some b))
    (hat : h.ReleasesAt b t' g owner live) :
    Traced S (t ++ t') g ∧ ∃ rest, root.Trail (t ++ t') (some rest) := by
  induction hat generalizing t with
  | drop hat =>
      rw [List.append_nil]
      exact ⟨tr.sheds hat.sheds, _, ht⟩
  | useBind hat | useDec hat =>
      rw [List.append_nil]
      exact ⟨(tr.sheds (sheds_dropDead _ _)).sheds hat.sheds, _, ht⟩
  | @bind h g x owner e b t' live _ ih =>
      obtain ⟨hreads, hx, -⟩ := bound_bind.1 (hroot.trail ht)
      have used := (tr.sheds (h.sheds_dropDead (Body.bind x e b).freeVars)).sheds
        (sheds_handOver _ e.consumed b.freeVars)
      have next := ih (used.bind hreads hx) (ht.append (.bind .here))
      rwa [List.append_assoc] at next
  | @case h g x owner arms arm t' live harm _ ih =>
      have next := ih ((tr.sheds (sheds_dropDead _ _)).append _) (ht.append (.case harm .here))
      rwa [List.append_assoc] at next
  | inc _ ih =>
      have next := ih ((tr.sheds (sheds_dropDead _ _)).append _) (ht.append (.inc .here))
      rwa [List.append_assoc] at next
  | @dec h g x owner b t' live _ ih =>
      have used := (tr.sheds (h.sheds_dropDead (Body.dec x b).freeVars)).sheds
        (sheds_handOver _ [x] b.freeVars)
      have next := ih (used.append _) (ht.append (.dec .here))
      rwa [List.append_assoc] at next

end Holdings.Traced

theorem traced_ofParams (S : List String) (xs : List Var) : (Holdings.ofParams xs).Traced S [] :=
  ⟨nofun, .nil, nofun⟩

/-! ## Rounds -/

/-- Arms that are computed alike are alike. -/
theorem mapArms_congr {f f' : Tag → Body → StateM Counter Body} {arms : List Arm}
    (hf : ∀ arm ∈ arms, ∀ c, f arm.1 arm.2 c = f' arm.1 arm.2 c) : mapArms f arms c = mapArms f' arms c := by
  induction arms generalizing c with
  | nil => rfl
  | cons arm rest ih =>
      obtain ⟨hfirst, hrest⟩ := List.forall_mem_cons.1 hf
      rw [mapArms_cons_run, mapArms_cons_run, hfirst, ih hrest]

section Rounds

variable {owners : VarSet} {rounds : Nat}

theorem insertDrops_bind : insertDrops r owners (rounds + 1) (.bind x e b) c =
    (.bind x e (insertDrops r owners (rounds + 1) b c).1,
      (insertDrops r owners (rounds + 1) b c).2) := rfl

theorem insertDrops_inc : insertDrops r owners (rounds + 1) (.inc x b) c =
    (.inc x (insertDrops r owners (rounds + 1) b c).1,
      (insertDrops r owners (rounds + 1) b c).2) := rfl

theorem insertDrops_dec : insertDrops r owners (rounds + 1) (.dec x b) c =
    (.dec x (insertDrops r owners (rounds + 1) b c).1,
      (insertDrops r owners (rounds + 1) b c).2) := rfl

/-- In a body without cases there is nothing to do. -/
theorem insertDrops_of_flat (hflat : caseDepth b.plain = 0) (rounds : Nat) :
    insertDrops r owners rounds b c = (b, c) := by
  cases rounds with
  | zero => rfl
  | succ rounds =>
      induction b with
      | ret x => rfl
      | bind x e b ih => rw [insertDrops_bind, ih (caseDepth_plain_bind x e b ▸ hflat)]
      | case x arms => cases hflat
      | inc x b ih => rw [insertDrops_inc, ih hflat]
      | dec x b ih => rw [insertDrops_dec, ih hflat]

/-- More rounds than there are nested cases have nothing to do. -/
theorem insertDrops_of_caseDepth_le (hdepth : caseDepth b.plain ≤ rounds) (more : Nat) :
    insertDrops r owners (rounds + more) b c = insertDrops r owners rounds b c := by
  induction rounds generalizing b c with
  | zero =>
      rw [Nat.zero_add]
      exact insertDrops_of_flat (Nat.le_zero.1 hdepth) more
  | succ rounds ihr =>
      rw [Nat.succ_add]
      induction b generalizing c with
      | ret x => rfl
      | bind x e b ih =>
          rw [caseDepth_plain_bind] at hdepth
          rw [insertDrops_bind, insertDrops_bind, ih hdepth]
      | case x arms _ =>
          rw [Body.plain] at hdepth
          rw [insertDrops_case, insertDrops_case, mapArms_congr fun arm harm c => ?_]
          have hle : caseDepth arm.2.plain ≤ caseDepthIn (plainArms arms) :=
            caseDepth_le_of_mem (mem_plainArms harm)
          have harmDepth : caseDepth arm.2.plain ≤ rounds := by
            rw [caseDepth] at hdepth
            omega
          rw [visitArm_run, visitArm_run]
          split
          · refine ihr ?_
            rwa [dropDead_plain]
          · exact ihr harmDepth
      | inc x b ih => rw [insertDrops_inc, insertDrops_inc, ih hdepth]
      | dec x b ih => rw [insertDrops_dec, insertDrops_dec, ih hdepth]

end Rounds

/-! ## All that is done for a function -/

/-- For a function of a valid program that does not manage memory itself, making counts explicit comes
to an end: further rounds would insert no more drops; whatever tokens were issued before, the search for
the next one looks at no more than one candidate more than the function has variables and the program
functions; and wherever it is asked whether a borrower hangs off an owner, each borrower was read out of
its record on the way, with the record bound strictly before, so that borrowers have no cycle and the
answer is found after looking at no more records than there are borrowers. -/
theorem managedBody_terminates (hvalid : p.validate = .ok ()) (hd : d ∈ p.fns)
    (hm : d.body.isManaged = false) :
    managedBody p d = withCounts (.ofParams d.params) (withDrops p d) ∧
      (∀ more c, insertDrops (reservedOf p d) d.owners (caseDepth d.body + more) d.body c
        = insertDrops (reservedOf p d) d.owners (caseDepth d.body) d.body c) ∧
      (∀ c, ∃ n ≤ d.allVars.size + p.fns.length + 1,
        (reservedOf p d).Finds c n ((reservedOf p d).fresh c).1 ((reservedOf p d).fresh c).2) ∧
      ∀ t g x owner live, (Holdings.ofParams d.params).Asks (withDrops p d) t g x owner live →
        (∃ rest, (withDrops p d).Trail t (some rest)) ∧
        (∀ e ∈ g.borrowed.entries, ReadOn (d.params.map (·.text)) t e.1 e.2) ∧
        (∀ u, ¬ Relation.TransGen (fun x r => (x, r) ∈ g.borrowed.links) u u) ∧
        ∃ n ≤ g.borrowed.size, g.Walks owner live x n (g.hangsOff x owner live) := by
  refine ⟨if_neg (by simp [hm]), fun more c => ?_, fun c => ?_, fun t g x owner live hasks => ?_⟩
  · exact insertDrops_of_caseDepth_le (by rw [Body.plain_of_unmanaged hm]) more
  · have := (reservedOf p d).exists_finds c
    rwa [List.length_map] at this
  · obtain ⟨-, hbound, -⟩ := checkFn_eq_ok.1 (checkFn_of_mem hvalid hd)
    obtain ⟨c, hdrops⟩ := bound_withDrops p hbound
    have tr := traced_ofParams (d.params.reverse.map (·.text)) d.params
    obtain ⟨traced, htrail⟩ := tr.releasesAt hdrops .here hasks.release
    refine ⟨htrail, fun e he => ?_, ?_, ?_⟩
    · obtain ⟨before, q, after, field, ht, hstep, hrecord, hx⟩ := traced.read e he
      have hperm : ∀ u, u ∈ d.params.reverse.map (·.text) ↔ u ∈ d.params.map (·.text) := by simp
      rw [List.mem_append, hperm, ← List.mem_append] at hrecord hx
      exact ⟨before, q, after, field, ht, hstep, hrecord, hx⟩
    · exact fun u => traced.ordered.acyclic g.borrowed.nodup_keyTexts
    · exact Holdings.exists_walks traced.ordered x owner live

/-- A function that reads a field of a field and then gives its parameter away. -/
def pickFn : FnDef where
  name := ⟨"pick", .none⟩
  params := [⟨"xs", .none⟩]
  body := .bind ⟨"t", .none⟩ (.proj ⟨"tail", .none⟩ ⟨"xs", .none⟩)
    (.bind ⟨"h", .none⟩ (.proj ⟨"head", .none⟩ ⟨"t", .none⟩)
      (.bind ⟨"k", .none⟩ (.call ⟨"keep", .none⟩ [⟨"xs", .none⟩]) (.ret ⟨"h", .none⟩)))

/-- The function with the one that it calls. -/
def pickProgram : Program where
  types := [⟨⟨"Cons", .none⟩, [⟨"head", .none⟩, ⟨"tail", .none⟩]⟩]
  fns := [⟨⟨"keep", .none⟩, [⟨"xs", .none⟩], .ret ⟨"xs", .none⟩⟩, pickFn]

/-- When the parameter is given away, the walk from the inner field goes through the outer one, which is
dead, to the parameter. -/
theorem managedBody_terminates_pick : pickProgram.validate = .ok () ∧ pickFn ∈ pickProgram.fns ∧
    pickFn.body.isManaged = false ∧ ∃ t g live,
      (Holdings.ofParams pickFn.params).Asks (withDrops pickProgram pickFn) t g
        ⟨"h", .none⟩ ⟨"xs", .none⟩ live ∧
      g.borrowed.links = [("t", "xs"), ("h", "t")] ∧
      (∀ e ∈ g.borrowed.entries, ReadOn (pickFn.params.map (·.text)) t e.1 e.2) ∧
      ∃ n ≤ 2, g.Walks ⟨"xs", .none⟩ live ⟨"h", .none⟩ n true := by
  have hmem : pickFn ∈ pickProgram.fns := .tail _ (.head _)
  have asks : (Holdings.ofParams pickFn.params).Asks (withDrops pickProgram pickFn) _ _
      ⟨"h", .none⟩ ⟨"xs", .none⟩ _ :=
    ⟨.bind (.bind (.useBind (.first rfl rfl rfl))), .tail _ (.head _), rfl⟩
  obtain ⟨-, -, -, hasks⟩ := managedBody_terminates (p := pickProgram) rfl hmem rfl
  obtain ⟨-, hread, -, hwalks⟩ := hasks _ _ _ _ _ asks
  exact ⟨rfl, hmem, rfl, _, _, _, asks, rfl, hread, hwalks⟩

end Reclaim.Counting
