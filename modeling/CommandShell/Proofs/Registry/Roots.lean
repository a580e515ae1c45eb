import CommandShell.Proofs.Processor.Tree
import CommandShell.Proofs.Registry.Calls
import CommandShell.Shell.Script
import Mathlib.Data.Set.Function
import Mathlib.Logic.Relation

/-!
# The root that a processor hangs from

Registering a processor links all that stand below it to what stands directly above them.  Links are
written before it is known whether the processor is accepted, and they stay when it leaves.  A
processor with the tree of another one below it therefore takes this tree along, even if it is
refused, and does not give it back.  So links lead from below the current processor of a slot to
that processor just where the last to be linked above each of these stands in its own tree.

## Main definitions

* `Registry.linked`: the processors of a sequence of calls whose trees were linked.
* `Registry.Up`: links lead from one processor to another.
* `LinkedBy`: the links of a registry are those of some trees.
* `LastAbove`: the last one of some processors that another one stands below.

## Main results

* `rootOf_eq_iff`: the root of a processor is where links upward end.
* `up_of_lastAbove`: links lead to the last processor that was linked above another one.
* `rootOf_eq_current_iff`: when all that stands below the current processor of a slot has this
  processor for its root, and so shares its bucket.
-/

namespace CommandShell

variable {α : Type}

namespace Processor

variable {d p q : Processor α}

/-- A processor with one more subordinate one. -/
def withChild (p c : Processor α) : Processor α :=
  { p with children := c :: p.children }

/-! ### Links -/

/-- The links between a processor and all below it, in the order in which they are found: the latest
stands first. -/
def upLinks (q : Processor α) : List (Nat × Processor α) :=
  q.links.reverse.map fun l => (l.1.key, l.2)

theorem mem_upLinks_iff {e : Nat × Processor α} :
    e ∈ q.upLinks ↔ ∃ d p, d.key = e.1 ∧ p = e.2 ∧ p ∈ q.tree ∧ d ∈ p.children := by
  obtain ⟨k, p⟩ := e
  unfold upLinks
  simp only [List.mem_map, List.mem_reverse, Prod.exists, Prod.mk.injEq, mem_links_iff]
  constructor
  · rintro ⟨d, q, ⟨hq, hd⟩, hkey, hp⟩
    exact ⟨d, q, hkey, hp, hq, hd⟩
  · rintro ⟨d, q, hkey, hp, hq, hd⟩
    exact ⟨d, q, ⟨hq, hd⟩, hkey, hp⟩

theorem exists_mem_upLinks_of_mem_descendants (h : d ∈ q.descendants) :
    ∃ e ∈ q.upLinks, e.1 = d.key := by
  obtain ⟨p, hl⟩ := mem_descendants_iff_exists_link.mp h
  obtain ⟨hp, hd⟩ := mem_links_iff.mp hl
  exact ⟨(d.key, p), mem_upLinks_iff.mpr ⟨d, p, rfl, rfl, hp, hd⟩, rfl⟩

/-- A processor stands in one of some trees. -/
def Among (ps : List (Processor α)) (d : Processor α) : Prop :=
  ∃ p ∈ ps, d ∈ p.tree

/-- A key tells each processor that stands in one of some trees from the others. -/
def KeysTell (ps : List (Processor α)) : Prop :=
  Set.InjOn key {d | Among ps d}

theorem KeysTell.of_among {ps qs : List (Processor α)} (h : KeysTell ps)
    (hqs : ∀ q ∈ qs, Among ps q) : KeysTell qs := by
  refine Set.InjOn.mono ?_ h
  rintro d ⟨q, hq, hd⟩
  obtain ⟨p, hp, htree⟩ := hqs q hq
  exact ⟨p, hp, mem_tree_trans hd htree⟩

theorem keysTell_of_nodup {ps : List (Processor α)} (h : ((ps.flatMap tree).map key).Nodup) :
    KeysTell ps := by
  intro d hd d' hd' hkey
  exact List.inj_on_of_nodup_map h (List.mem_flatMap.mpr hd) (List.mem_flatMap.mpr hd') hkey

/-- Processors that were given fresh keys are told by them, and so are parts of these that stand for
themselves. -/
theorem keysTell_of_adopted {n : Nat} {ps qs : List (Processor α)}
    (h : ∀ q ∈ qs, Among (adoptAll n ps).1 q) : KeysTell qs :=
  (keysTell_of_nodup (nodup_keys_adoptAll n ps)).of_among h

/-- A processor is the last one of some that another one stands below. -/
def LastAbove (ps : List (Processor α)) (d q : Processor α) : Prop :=
  ∃ earlier later, ps = earlier ++ q :: later ∧ d ∈ q.descendants ∧ ∀ p ∈ later, d ∉ p.descendants

theorem LastAbove.mem {ps : List (Processor α)} (h : LastAbove ps d q) : q ∈ ps := by
  obtain ⟨earlier, later, rfl, -⟩ := h
  exact List.mem_append_right _ List.mem_cons_self

theorem LastAbove.mem_descendants {ps : List (Processor α)} (h : LastAbove ps d q) :
    d ∈ q.descendants := by
  obtain ⟨_, _, -, hd, -⟩ := h
  exact hd

theorem exists_lastAbove {ps : List (Processor α)} (hp : p ∈ ps) (hd : d ∈ p.descendants) :
    ∃ q, LastAbove ps d q := by
  induction ps generalizing p with
  | nil => cases hp
  | cons q ps ih =>
    by_cases hlater : ∃ p ∈ ps, d ∈ p.descendants
    · obtain ⟨p, hp, hd⟩ := hlater
      obtain ⟨q', earlier, later, rfl, h⟩ := ih hp hd
      exact ⟨q', q :: earlier, later, rfl, h⟩
    · have hnone : ∀ p ∈ ps, d ∉ p.descendants := fun p hp hd => hlater ⟨p, hp, hd⟩
      rcases List.mem_cons.mp hp with rfl | hp
      · exact ⟨p, [], ps, rfl, hd, hnone⟩
      · exact absurd hd (hnone p hp)

/-- The last processor above a child is also the last one above the parent of the child, if the
parent stands below it. -/
theorem LastAbove.of_mem_children {ps : List (Processor α)} (h : LastAbove ps d q)
    (hp : p ∈ q.descendants) (hd : d ∈ p.children) : LastAbove ps p q := by
  obtain ⟨earlier, later, hps, -, hlater⟩ := h
  refine ⟨earlier, later, hps, hp, fun l hl hpl => hlater l hl ?_⟩
  exact mem_descendants_trans (mem_descendants_of_mem_children hd) (mem_tree_of_mem_descendants hpl)

end Processor

/-- Whether a processor is linked with all below it: this is done before a sealed one refuses it. -/
def Registration.linksTree : Registration → Bool
  | .collides _ => false
  | _ => true

theorem Registration.linksTree_of_accepted {o : Registration} (h : o.accepted = true) :
    o.linksTree = true := by
  cases o with
  | collides => cases h
  | _ => rfl

namespace Registry

open Processor

variable {r : Registry α} {W : List (Processor α)} {d p q : Processor α}

theorem link_parents (r : Registry α) (q : Processor α) :
    (r.link q).parents = q.upLinks ++ r.parents :=
  rfl

/-- The processor whose tree a call links. -/
def linking (r : Registry α) : Call α → List (Processor α)
  | .register q => if (r.register q).2.linksTree then [q] else []
  | .unregister _ => []

/-- The processors of a sequence of calls whose trees were linked, the latest last. -/
def linked (r : Registry α) : List (Call α) → List (Processor α)
  | [] => []
  | c :: cs => r.linking c ++ (r.call c).linked cs

theorem linking_of_accepted (h : (r.register q).2.accepted = true) :
    r.linking (.register q) = [q] :=
  if_pos (Registration.linksTree_of_accepted h)

theorem parents_call (r : Registry α) (c : Call α) :
    (r.call c).parents = (r.linking c).reverse.flatMap upLinks ++ r.parents := by
  cases c with
  | register q =>
    obtain ⟨o, r', hreg, h⟩ := r.exists_registers q
    have ho : (r.register q).2 = o := by rw [hreg]
    show (r.register q).1.parents = _
    rw [linking, ho, hreg]
    cases h with
    | collides => rfl
    | _ => simp [Registration.linksTree, link_parents]
  | unregister name =>
    obtain ⟨o, r', hun, h⟩ := r.exists_unregisters name
    show (r.unregister name).1.parents = _
    rw [hun]
    cases h <;> rfl

theorem parents_after (r : Registry α) (cs : List (Call α)) :
    (r.after cs).parents = (r.linked cs).reverse.flatMap upLinks ++ r.parents := by
  induction cs generalizing r with
  | nil => rfl
  | cons c cs ih =>
    rw [after_cons, ih, parents_call, linked, List.reverse_append, List.flatMap_append,
      List.append_assoc]

/-! ### Following links upward -/

/-- Links lead from one processor up to another. -/
def Up (r : Registry α) : Processor α → Processor α → Prop :=
  Relation.ReflTransGen fun d q => r.parent? d = some q

/-- Links lead one way. -/
theorem up_or_up (h : r.Up d p) (h' : r.Up d q) : r.Up p q ∨ r.Up q p := by
  refine Relation.ReflTransGen.total_of_right_unique ?_ h h'
  intro a b c hb hc
  exact Option.some.inj (hb.symm.trans hc)

theorem Up.eq_of_parent?_eq_none (h : r.Up p q) (hp : r.parent? p = none) : p = q := by
  rcases Relation.ReflTransGen.cases_head h with rfl | ⟨c, hc, -⟩
  · rfl
  · rw [hp] at hc
    cases hc

theorem up_climb (r : Registry α) (fuel : Nat) (d : Processor α) : r.Up d (r.climb fuel d) := by
  induction fuel generalizing d with
  | zero => exact .refl
  | succ fuel ih =>
    unfold climb
    cases hd : r.parent? d with
    | none => exact .refl
    | some q => exact .head hd (ih q)

/-- The links of a registry are those of some trees, the latest last, in which keys tell processors
apart. -/
structure LinkedBy (r : Registry α) (W : List (Processor α)) : Prop where
  /-- The links are those of the trees. -/
  parents : r.parents = W.reverse.flatMap upLinks
  /-- Keys tell the processors of the trees apart. -/
  keys : KeysTell W

/-- A link from a processor leads to one in the same tree that has it as a child. -/
theorem LinkedBy.exists_of_mem_upLinks (h : r.LinkedBy W) (hd : Among W d) (hq : q ∈ W)
    {e : Nat × Processor α} (he : e ∈ q.upLinks) (hkey : e.1 = d.key) :
    e.2 ∈ q.tree ∧ d ∈ e.2.children := by
  obtain ⟨c, p, hc, rfl, hp, hchild⟩ := mem_upLinks_iff.mp he
  have hamong : Among W c :=
    ⟨q, hq, mem_tree_trans (mem_tree_of_mem_children hchild) hp⟩
  obtain rfl : c = d := h.keys hamong hd (hc.trans hkey)
  exact ⟨hp, hchild⟩

/-- No link leads up from a processor just where it was linked below none. -/
theorem LinkedBy.find?_eq_none_iff (h : r.LinkedBy W) (hd : Among W d) {V : List (Processor α)}
    (hV : V ⊆ W) :
    (V.reverse.flatMap upLinks).find? (·.1 == d.key) = none ↔ ∀ q ∈ V, d ∉ q.descendants := by
  rw [List.find?_eq_none]
  simp only [List.mem_flatMap, List.mem_reverse, beq_iff_eq, forall_exists_index, and_imp]
  constructor
  · intro hnone q hq hbelow
    obtain ⟨e, he, hkey⟩ := exists_mem_upLinks_of_mem_descendants hbelow
    exact hnone e q hq he hkey
  · intro hnone e q hq he hkey
    obtain ⟨hp, hchild⟩ := h.exists_of_mem_upLinks hd (hV hq) he hkey
    exact hnone q hq (mem_descendants_trans (mem_descendants_of_mem_children hchild) hp)

theorem LinkedBy.parent?_eq_none_iff (h : r.LinkedBy W) (hd : Among W d) :
    r.parent? d = none ↔ ∀ q ∈ W, d ∉ q.descendants := by
  unfold parent?
  rw [Option.map_eq_none_iff, h.parents, h.find?_eq_none_iff hd (List.Subset.refl W)]

/-- The link from a processor was written with the last tree that it stands below the root of. -/
theorem LinkedBy.exists_parent?_eq_some (h : r.LinkedBy W) (hlast : LastAbove W d q) :
    ∃ p ∈ q.tree, d ∈ p.children ∧ r.parent? d = some p := by
  have hd : Among W d := ⟨q, hlast.mem, mem_tree_of_mem_descendants hlast.mem_descendants⟩
  obtain ⟨earlier, later, rfl, hbelow, hlater⟩ := hlast
  have hq : q ∈ earlier ++ q :: later := List.mem_append_right _ List.mem_cons_self
  have hsub : later ⊆ earlier ++ q :: later := fun p hp =>
    List.mem_append_right _ (List.mem_cons_of_mem q hp)
  obtain ⟨l, hl, hkey⟩ := exists_mem_upLinks_of_mem_descendants hbelow
  have hfound : (q.upLinks.find? (·.1 == d.key)).isSome = true := by
    rw [List.find?_isSome]
    exact ⟨l, hl, beq_iff_eq.mpr hkey⟩
  obtain ⟨e, he⟩ := Option.isSome_iff_exists.mp hfound
  obtain ⟨hp, hchild⟩ := h.exists_of_mem_upLinks hd hq (List.mem_of_find?_eq_some he)
    (by simpa using List.find?_some he)
  refine ⟨e.2, hp, hchild, ?_⟩
  unfold parent?
  rw [h.parents]
  -- The links of what came later lead from elsewhere, so the first one that fits is among these.
  simp only [List.reverse_append, List.reverse_cons, List.append_assoc, List.flatMap_append,
    List.find?_append, (h.find?_eq_none_iff hd hsub).mpr hlater, List.flatMap_cons,
    List.flatMap_nil, List.append_nil, he, Option.none_or, Option.some_or, Option.map_some]

theorem LinkedBy.mem_children_of_parent?_eq_some (h : r.LinkedBy W) (hd : Among W d)
    (hp : r.parent? d = some p) : Among W p ∧ d ∈ p.children := by
  have hsome : ¬ ∀ q ∈ W, d ∉ q.descendants := by
    rw [← h.parent?_eq_none_iff hd, hp]
    exact Option.some_ne_none p
  push Not at hsome
  obtain ⟨l, hl, hbelow⟩ := hsome
  obtain ⟨q, hlast⟩ := exists_lastAbove hl hbelow
  obtain ⟨p', hp', hchild, hparent⟩ := h.exists_parent?_eq_some hlast
  obtain rfl : p' = p := Option.some.inj (hparent.symm.trans hp)
  exact ⟨⟨q, hlast.mem, hp'⟩, hchild⟩

/-- The processors on a way upward have the one where it starts in their trees. -/
theorem LinkedBy.mem_tree_of_up (h : r.LinkedBy W) (hd : Among W d) (hup : r.Up d p) :
    Among W p ∧ d ∈ p.tree := by
  induction hup with
  | refl => exact ⟨hd, d.mem_tree_self⟩
  | tail _ hstep ih =>
    obtain ⟨hamong, htree⟩ := ih
    obtain ⟨hp, hchild⟩ := h.mem_children_of_parent?_eq_some hamong hstep
    exact ⟨hp, mem_tree_trans htree (mem_tree_of_mem_children hchild)⟩

/-- How many links lead to something larger than a processor. -/
noncomputable def linksAbove (r : Registry α) (d : Processor α) : Nat :=
  r.parents.countP fun e => sizeOf d < sizeOf e.2

/-- There are fewer links that lead to something larger than the processor above. -/
theorem linksAbove_lt (hp : r.parent? d = some p) (hlt : sizeOf d < sizeOf p) :
    r.linksAbove p < r.linksAbove d := by
  obtain ⟨e, he, rfl⟩ := Option.map_eq_some_iff.mp hp
  obtain ⟨before, behind, hparents⟩ := List.append_of_mem (List.mem_of_find?_eq_some he)
  have hmono : ∀ es : List (Nat × Processor α),
      (es.countP fun l => sizeOf e.2 < sizeOf l.2) ≤ es.countP fun l => sizeOf d < sizeOf l.2 := by
    intro es
    refine List.countP_mono_left fun l _ hl => ?_
    simp only [decide_eq_true_eq] at hl ⊢
    exact Nat.lt_trans hlt hl
  have hbefore := hmono before
  have hbehind := hmono behind
  -- The link that leads to the processor above is counted below it, but not above.
  unfold linksAbove
  rw [hparents]
  simp only [List.countP_append, List.countP_cons, decide_eq_true_eq, Nat.lt_irrefl, if_false,
    hlt, if_true]
  omega

/-- A climb that is as long as there are links upward comes to an end. -/
theorem LinkedBy.parent?_climb_eq_none (h : r.LinkedBy W) (hd : Among W d) {fuel : Nat}
    (hfuel : r.linksAbove d ≤ fuel) : r.parent? (r.climb fuel d) = none := by
  induction fuel generalizing d with
  | zero =>
    cases hp : r.parent? d with
    | none => exact hp
    | some p =>
      obtain ⟨-, hchild⟩ := h.mem_children_of_parent?_eq_some hd hp
      have hfewer := linksAbove_lt hp (sizeOf_lt_of_mem_children hchild)
      omega
  | succ fuel ih =>
    cases hp : r.parent? d with
    | none => simp only [climb, hp]
    | some p =>
      obtain ⟨hamong, hchild⟩ := h.mem_children_of_parent?_eq_some hd hp
      have hfewer := linksAbove_lt hp (sizeOf_lt_of_mem_children hchild)
      simpa only [climb, hp] using ih hamong (by omega)

/-- The root of a processor is where links upward end. -/
theorem LinkedBy.rootOf_eq_iff (h : r.LinkedBy W) (hd : Among W d) :
    r.rootOf d = p ↔ r.Up d p ∧ r.parent? p = none := by
  have hup : r.Up d (r.rootOf d) := r.up_climb _ d
  have hend : r.parent? (r.rootOf d) = none := h.parent?_climb_eq_none hd List.countP_le_length
  constructor
  · rintro rfl
    exact ⟨hup, hend⟩
  · rintro ⟨hup', hend'⟩
    rcases up_or_up hup hup' with hle | hle
    · exact hle.eq_of_parent?_eq_none hend
    · exact (hle.eq_of_parent?_eq_none hend').symm

/-- Links lead to the last processor that was linked above another one. -/
theorem LinkedBy.up_of_lastAbove (h : r.LinkedBy W) (hlast : LastAbove W d q) : r.Up d q := by
  have hd : d ∈ q.tree := mem_tree_of_mem_descendants hlast.mem_descendants
  induction d, hd using induction_from_root with
  | step d _ ih =>
    obtain ⟨p, hp, hchild, hparent⟩ := h.exists_parent?_eq_some hlast
    rcases mem_tree_iff.mp hp with rfl | hbelow
    · exact .single hparent
    · have hup : r.Up p q := ih p hp (mem_descendants_of_mem_children hchild)
        (hlast.of_mem_children hbelow hchild)
      exact .head hparent hup

/-- Links lead from all over the tree of a processor to it just where the last to be linked above
anything below it stand in that tree. -/
theorem LinkedBy.up_tree_iff (h : r.LinkedBy W) (hp : p ∈ W) (hend : r.parent? p = none) :
    (∀ d ∈ p.tree, r.Up d p) ↔ ∀ d ∈ p.descendants, ∀ q, LastAbove W d q → q ∈ p.tree := by
  constructor
  · intro hup d hd q hlast
    have hq : Among W q := ⟨q, hlast.mem, q.mem_tree_self⟩
    have hdp : r.Up d p := hup d (mem_tree_of_mem_descendants hd)
    -- Both ways start from the same processor, and the one to the end passes the other.
    have hqp : r.Up q p := by
      rcases up_or_up (h.up_of_lastAbove hlast) hdp with hle | hle
      · exact hle
      · obtain rfl : p = q := hle.eq_of_parent?_eq_none hend
        exact .refl
    exact (h.mem_tree_of_up hq hqp).2
  · intro hlast d hd
    induction d, hd using induction_from_root with
    | step d hd ih =>
      rcases mem_tree_iff.mp hd with rfl | hbelow
      · exact .refl
      · -- The way leads over the last to be linked above, which stands higher in the same tree.
        obtain ⟨q, hq⟩ := exists_lastAbove hp hbelow
        exact (h.up_of_lastAbove hq).trans (ih q (hlast d hbelow q hq) hq.mem_descendants)

/-- All in the tree of a processor that was linked have it for their root just where it was linked
below none, and the last to be linked above anything below it stand in its tree. -/
theorem LinkedBy.rootOf_tree_iff (h : r.LinkedBy W) (hp : p ∈ W) :
    (∀ d ∈ p.tree, r.rootOf d = p) ↔
      (∀ q ∈ W, p ∉ q.descendants) ∧
        ∀ d ∈ p.descendants, ∀ q, LastAbove W d q → q ∈ p.tree := by
  have hroot : ∀ d ∈ p.tree, (r.rootOf d = p ↔ r.Up d p ∧ r.parent? p = none) :=
    fun d hd => h.rootOf_eq_iff ⟨p, hp, hd⟩
  rw [← h.parent?_eq_none_iff ⟨p, hp, p.mem_tree_self⟩]
  constructor
  · intro hall
    obtain ⟨-, hend⟩ := (hroot p p.mem_tree_self).mp (hall p p.mem_tree_self)
    exact ⟨hend, (h.up_tree_iff hp hend).mp fun d hd => ((hroot d hd).mp (hall d hd)).1⟩
  · rintro ⟨hend, hlast⟩ d hd
    exact (hroot d hd).mpr ⟨(h.up_tree_iff hp hend).mpr hlast d hd, hend⟩

/-! ### Sequences of calls -/

/-- The processor that a call registers. -/
def Call.registered? : Call α → Option (Processor α)
  | .register q => some q
  | .unregister _ => none

theorem linked_subset (r : Registry α) (cs : List (Call α)) :
    r.linked cs ⊆ cs.filterMap Call.registered? := by
  induction cs generalizing r with
  | nil => exact List.Subset.refl _
  | cons c cs ih =>
    intro q hq
    rw [linked, List.mem_append] at hq
    rcases hq with hq | hq
    · cases c with
      | register p =>
        rw [linking] at hq
        split at hq
        · obtain rfl := List.mem_singleton.mp hq
          exact List.mem_cons_self
        · cases hq
      | unregister name => cases hq
    · obtain ⟨c', hc', hq'⟩ := List.mem_filterMap.mp (ih (r.call c) hq)
      exact List.mem_filterMap.mpr ⟨c', List.mem_cons_of_mem c hc', hq'⟩

/-- What stands in a slot was linked. -/
theorem chain_subset_linked {cs : List (Call α)} {done : List (Processor α)}
    (hr : ∀ s ∈ r.slots, s.chain ⊆ done) :
    ∀ s ∈ (r.after cs).slots, s.chain ⊆ done ++ r.linked cs := by
  induction cs generalizing r done with
  | nil => simpa [linked] using hr
  | cons c cs ih =>
    rw [after_cons, linked, ← List.append_assoc]
    refine ih (forall_slots_call c ?_ ?_ ?_ fun s hs => ?_)
    · rintro q rfl haccepted
      rw [linking_of_accepted haccepted]
      exact List.subset_append_right done [q]
    · rintro q s rfl haccepted - hs
      rw [linking_of_accepted haccepted] at hs ⊢
      exact List.cons_subset.mpr ⟨List.mem_append_right _ List.mem_cons_self, hs⟩
    · intro e b rest hs
      exact (List.cons_subset.mp hs).2
    · exact List.Subset.trans (hr s hs) (List.subset_append_left _ _)

theorem linkedBy_after {cs : List (Call α)} (hkeys : KeysTell (cs.filterMap Call.registered?)) :
    (after {} cs).LinkedBy (linked {} cs) where
  parents := by rw [parents_after, List.append_nil]
  keys := hkeys.of_among fun q hq => ⟨q, linked_subset {} cs hq, q.mem_tree_self⟩

end Registry

/-- The bucket that a processor declares, by its name and the state at first. -/
def Processor.declaredBucket (p : Processor α) : String × Value :=
  (((p.decl.bucket.bind (·.name)).filter (· ≠ "")).getD p.command,
    (p.decl.bucket.map (·.initial)).getD .null)

namespace Registry

open Processor

/-- The bucket of a processor is the one that its root declares. -/
theorem bucketOf_eq (r : Registry α) (p : Processor α) :
    r.bucketOf p = (r.rootOf p).declaredBucket :=
  rfl

/-- All in the tree of the current processor of a slot have it for their root, and with it the
bucket that it declares, just where it was linked below none, and the last to be linked above
anything below it stand in its tree.  Keys are what tells processors apart, as those do that
processors are given (`keysTell_of_adopted`). -/
theorem rootOf_eq_current_iff {cs : List (Call α)} {s : Slot α}
    (hkeys : KeysTell (cs.filterMap Call.registered?)) (hs : s ∈ (after {} cs).slots) :
    (∀ d ∈ s.current.tree, (after {} cs).rootOf d = s.current ∧
        (after {} cs).bucketOf d = s.current.declaredBucket) ↔
      (∀ q ∈ linked {} cs, s.current ∉ q.descendants) ∧
        ∀ d ∈ s.current.descendants, ∀ q, LastAbove (linked {} cs) d q → q ∈ s.current.tree := by
  have hnone : ∀ s ∈ ({} : Registry α).slots, s.chain ⊆ [] := fun s hs => absurd hs List.not_mem_nil
  have hchain : s.chain ⊆ linked {} cs := chain_subset_linked hnone s hs
  rw [← (linkedBy_after hkeys).rootOf_tree_iff (hchain List.mem_cons_self)]
  constructor
  · intro h d hd
    exact (h d hd).1
  · intro h d hd
    refine ⟨h d hd, ?_⟩
    rw [bucketOf_eq, h d hd]

/-- A command that may be part of others. -/
def part : Processor Unit :=
  .bare 0 "add"

/-- A command with a subordinate one. -/
def package : Processor Unit :=
  (Processor.bare 1 "pkg").withChild part

/-- An extension of the command with a subordinate one of its own. -/
def extendedPackage : Processor Unit :=
  (Processor.bare 2 "pkg").asExtension.withChild (.bare 3 "drop")

/-- An extension that shares no processor with what it extends knows its root, and nothing else was
linked above its parts. -/
theorem extended_package_knows_its_root :
    let cs : List (Call Unit) := [.register package, .register extendedPackage]
    (after {} cs).slots = [⟨extendedPackage, [package]⟩] ∧
      (∀ d ∈ extendedPackage.tree, (after {} cs).rootOf d = extendedPackage ∧
        (after {} cs).bucketOf d = extendedPackage.declaredBucket) ∧
      ∀ d ∈ extendedPackage.descendants, ∀ q, LastAbove (linked {} cs) d q →
        q ∈ extendedPackage.tree := by
  intro cs
  have hslots : (after {} cs).slots = [⟨extendedPackage, [package]⟩] := rfl
  have hkeys : KeysTell (cs.filterMap Call.registered?) := keysTell_of_nodup (by decide)
  have hroots : ∀ d ∈ extendedPackage.tree, (after {} cs).rootOf d = extendedPackage ∧
      (after {} cs).bucketOf d = extendedPackage.declaredBucket := by
    intro d hd
    rcases List.mem_pair.mp hd with rfl | rfl
    · exact ⟨rfl, rfl⟩
    · exact ⟨rfl, rfl⟩
  have hs : ⟨extendedPackage, [package]⟩ ∈ (after {} cs).slots := by
    rw [hslots]
    exact List.mem_cons_self
  exact ⟨hslots, hroots, ((rootOf_eq_current_iff hkeys hs).mp hroots).2⟩

/-- A sealed command with a subordinate one. -/
def core : Processor Unit :=
  (Processor.bare 1 "core").asSealed.withChild part

/-- A command that answers to the name of the sealed one, and has the same subordinate one. -/
def rival : Processor Unit :=
  ((Processor.bare 2 "rival").withAlias "core").withChild part

/-- An extension that has the same subordinate command as what it extends. -/
def wrapper : Processor Unit :=
  ((Processor.bare 2 "wrapper").withAlias "pkg").asExtension.withChild part

/-- A command that others share is taken along by one that is refused, by an extension that is
unregistered again, and by one that was unregistered before the command got a slot of its own. -/
theorem shared_part_follows_another_root :
    let refused := after {} [.register core, .register rival]
    let popped := after {} [.register package, .register wrapper, .unregister "wrapper"]
    let former := after {} [.register package, .unregister "pkg", .register part]
    (refused.slots = [⟨core, []⟩] ∧ part ∈ core.tree ∧
        refused.rootOf part = rival ∧ refused.bucketOf part = ("rival", .null)) ∧
      (popped.slots = [⟨package, []⟩] ∧ part ∈ package.tree ∧
        popped.rootOf part = wrapper ∧ popped.bucketOf part = ("wrapper", .null)) ∧
      former.slots = [⟨part, []⟩] ∧ part ∈ part.tree ∧
        former.rootOf part = package ∧ former.bucketOf part = ("pkg", .null) := by
  have hpart : ∀ p : Processor Unit, p.children = [part] → part ∈ p.tree := fun p hp =>
    mem_tree_of_mem_children (hp ▸ List.mem_cons_self)
  exact ⟨⟨rfl, hpart core rfl, rfl, rfl⟩, ⟨rfl, hpart package rfl, rfl, rfl⟩,
    rfl, part.mem_tree_self, rfl, rfl⟩

end Registry

end CommandShell
