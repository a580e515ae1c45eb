import CommandShell.Proofs.Registry.Roots
import Mathlib.Data.List.Flatten
import Mathlib.Data.List.Pairwise
import Mathlib.Data.List.Perm.Subperm

/-!
# Registries of distinct trees

Where no processor is registered twice, and none stands in the trees of two others, every processor
in a tree that is registered has the root of this tree for its own.

## Main definitions

* `Registry.chains`: the processors of all slots.
* `Processor.DistinctKeys`: no two processors in some trees have the same key.
* `Registry.emptyAt`: an empty registry.

## Main results

* `chains_call_subperm`: a call adds at most the processor that it registers.
* `distinctKeys_processors`: no two processors in the trees of the roots have the same key.
* `rootOf_eq_of_mem_tree`, `bucketOf_eq_of_mem_tree`: a processor in the tree of a root has this
  root, and the bucket that this root declares.
-/

namespace CommandShell

variable {α : Type}

namespace Processor

variable {ps qs : List (Processor α)} {p q d : Processor α}

/-- No two processors in the trees of some processors have the same key. -/
def DistinctKeys (ps : List (Processor α)) : Prop :=
  ((ps.flatMap tree).map key).Nodup

theorem distinctKeys_adoptAll (n : Nat) (ps : List (Processor α)) :
    DistinctKeys (adoptAll n ps).1 :=
  nodup_keys_adoptAll n ps

theorem DistinctKeys.of_subperm (h : DistinctKeys ps) (hsub : qs.Subperm ps) : DistinctKeys qs := by
  obtain ⟨l, hperm, hl⟩ := hsub
  have hkeys : ((l.flatMap tree).map key).Nodup := List.Nodup.sublist ((hl.flatMap tree).map key) h
  exact ((hperm.flatMap_right tree).map key).nodup_iff.mp hkeys

/-- A processor stands in one of the trees only. -/
theorem DistinctKeys.eq_of_mem_tree (h : DistinctKeys ps) (hp : p ∈ ps) (hq : q ∈ ps)
    (hdp : d ∈ p.tree) (hdq : d ∈ q.tree) : p = q := by
  have hsymm : Std.Symm (Function.onFun List.Disjoint (tree (α := α))) := 
    ⟨fun _ _ hdisjoint => List.disjoint_symm hdisjoint⟩
  have hdisjoint := (List.nodup_flatMap.mp (List.Nodup.of_map key h)).2
  by_contra hne
  exact hdisjoint.forall hp hq hne hdp hdq

/-- A processor that is among those stands below none of them. -/
theorem DistinctKeys.not_mem_descendants (h : DistinctKeys ps) (hp : p ∈ ps) (hq : q ∈ ps) :
    p ∉ q.descendants := by
  intro hbelow
  obtain rfl := h.eq_of_mem_tree hp hq p.mem_tree_self (mem_tree_of_mem_descendants hbelow)
  exact Nat.lt_irrefl _ (sizeOf_lt_of_mem_descendants hbelow)

end Processor

open Processor

namespace Registry

variable {r : Registry α} {cs : List (Call α)} {p d : Processor α}

/-- The processors of all slots, current or not. -/
def chains (r : Registry α) : List (Processor α) :=
  r.slots.flatMap Slot.chain

theorem processors_sublist_chains (r : Registry α) : r.processors.Sublist r.chains := by
  unfold processors chains
  induction r.slots with
  | nil => exact List.Sublist.refl []
  | cons s slots ih =>
    rw [List.map_cons, List.flatMap_cons, Slot.chain, List.cons_append]
    exact (ih.trans (List.sublist_append_right s.below _)).cons_cons s.current

/-- A call adds at most the processor that it registers. -/
theorem chains_call_subperm (r : Registry α) (c : Call α) :
    (r.call c).chains.Subperm (c.registered?.toList ++ r.chains) := by
  cases c with
  | register q =>
    obtain ⟨o, r', hreg, h⟩ := r.exists_registers q
    show (r.register q).1.chains.Subperm (q :: r.chains)
    unfold chains
    rw [hreg]
    -- A processor comes last, in place of a slot, or on top of one.
    cases h with
    | added =>
      rw [List.flatMap_append]
      exact (List.perm_append_singleton q _).subperm
    | replaced h =>
      rw [h.slots, List.flatMap_append, List.flatMap_append]
      refine List.perm_middle.subperm.trans (List.Sublist.subperm ?_)
      exact (List.Sublist.append_left (List.sublist_append_right _ _) _).cons_cons q
    | extended h =>
      rw [h.slots, List.flatMap_append, List.flatMap_append]
      exact List.perm_middle.subperm
    | refused => exact (List.sublist_cons_self q _).subperm
    | collides => exact (List.sublist_cons_self q _).subperm
  | unregister name =>
    obtain ⟨o, r', hun, h⟩ := r.exists_unregisters name
    show (r.unregister name).1.chains.Subperm r.chains
    unfold chains
    rw [hun]
    cases h with
    | absent => exact .refl _
    | restored h =>
      rw [h.slots, List.flatMap_append, List.flatMap_append]
      exact (List.Sublist.append_left (List.sublist_cons_self _ _) _).subperm
    | refused => exact .refl _
    | removed h =>
      rw [h.slots, List.flatMap_append, List.flatMap_append]
      exact (List.Sublist.append_left (List.sublist_append_right _ _) _).subperm

/-- The processors that some calls register. -/
def registered (cs : List (Call α)) : List (Processor α) :=
  cs.filterMap Call.registered?

theorem registered_cons (c : Call α) (cs : List (Call α)) :
    registered (c :: cs) = c.registered?.toList ++ registered cs := by
  unfold registered
  rw [List.filterMap_cons]
  cases c.registered? with
  | none => rfl
  | some q => rfl

/-- In the slots nothing stands after some calls but what did before, and what was registered. -/
theorem chains_after_subperm (r : Registry α) (cs : List (Call α)) :
    (r.after cs).chains.Subperm (registered cs ++ r.chains) := by
  induction cs generalizing r with
  | nil => exact .refl _
  | cons c cs ih =>
    rw [after_cons, registered_cons, List.append_assoc]
    have hcall : (registered cs ++ (r.call c).chains).Subperm
        (registered cs ++ (c.registered?.toList ++ r.chains)) :=
      (List.Subperm.refl _).append (chains_call_subperm r c)
    exact (ih (r.call c)).trans (hcall.trans (List.perm_append_comm_assoc _ _ _).subperm)

/-- A tree is linked only when it is registered, and once at most. -/
theorem linked_sublist_registered (r : Registry α) (cs : List (Call α)) :
    (r.linked cs).Sublist (registered cs) := by
  induction cs generalizing r with
  | nil => exact .refl []
  | cons c cs ih =>
    rw [linked, registered_cons]
    refine List.Sublist.append ?_ (ih (r.call c))
    cases c with
    | register q =>
      rw [linking]
      split
      · exact .refl [q]
      · exact List.nil_sublist [q]
    | unregister name => exact .refl []

/-! ### Calls on an empty registry -/

/-- An empty registry, some of whose keys are taken. -/
abbrev emptyAt (n : Nat) : Registry α :=
  { nextKey := n }

/-- The registry with another first key that was not given. -/
def withKey (r : Registry α) (n : Nat) : Registry α :=
  { r with nextKey := n }

theorem register_withKey (r : Registry α) (n : Nat) (q : Processor α) :
    (r.withKey n).register q = ((r.register q).1.withKey n, (r.register q).2) := by
  have hpositions : (r.withKey n).positions q.names = r.positions q.names := rfl
  have hslots : ((r.withKey n).link q).slots = (r.link q).slots := rfl
  unfold register
  simp only [hpositions, hslots]
  split
  · rfl
  · split
    · rfl
    · split_ifs
      · rfl
      · rfl
      · rfl
  · rfl

theorem unregister_withKey (r : Registry α) (n : Nat) (name : String) :
    (r.withKey n).unregister name = ((r.unregister name).1.withKey n, (r.unregister name).2) := by
  have hpositions : (r.withKey n).positions [lowerCase name] = r.positions [lowerCase name] := rfl
  have hslots : (r.withKey n).slots = r.slots := rfl
  unfold unregister
  simp only [hpositions, hslots]
  split
  · rfl
  · split
    · rfl
    · split
      · rfl
      · split_ifs
        · rfl
        · rfl

/-- Calls neither look at the keys that were not given nor give one. -/
theorem after_withKey (r : Registry α) (n : Nat) (cs : List (Call α)) :
    (r.withKey n).after cs = (r.after cs).withKey n := by
  induction cs generalizing r with
  | nil => rfl
  | cons c cs ih =>
    rw [after_cons, after_cons, ← ih]
    cases c with
    | register q => rw [call, register_withKey, call]
    | unregister name => rw [call, unregister_withKey, call]

theorem emptyAt_after (n : Nat) (cs : List (Call α)) :
    (emptyAt n).after cs = ((emptyAt 0).after cs).withKey n :=
  after_withKey (emptyAt 0) n cs

variable {n : Nat} (h : DistinctKeys (registered cs))

include h

/-- No two processors in the trees of the roots have the same key. -/
theorem distinctKeys_processors : DistinctKeys ((emptyAt n).after cs).processors := by
  have hchains := (emptyAt n).chains_after_subperm cs
  rw [show (emptyAt n : Registry α).chains = [] from rfl, List.append_nil] at hchains
  exact h.of_subperm ((processors_sublist_chains _).subperm.trans hchains)

/-- A processor in the tree of a root has this root. -/
theorem rootOf_eq_of_mem_tree (hp : p ∈ ((emptyAt n).after cs).processors) (hd : d ∈ p.tree) :
    ((emptyAt n).after cs).rootOf d = p := by
  set W := (emptyAt n).linked cs with hW
  have hdistinct : DistinctKeys W := h.of_subperm (linked_sublist_registered _ cs).subperm
  have hlinked : ((emptyAt n).after cs).LinkedBy W :=
    ⟨by rw [parents_after, List.append_nil], keysTell_of_nodup hdistinct⟩
  obtain ⟨s, hs, rfl⟩ := List.mem_map.mp hp
  have hnone : ∀ s ∈ (emptyAt n : Registry α).slots, s.chain ⊆ [] :=
    fun s hs => absurd hs List.not_mem_nil
  have hroot : s.current ∈ W := chain_subset_linked hnone s hs List.mem_cons_self
  refine (hlinked.rootOf_tree_iff hroot).mpr ⟨?_, ?_⟩ d hd
  · exact fun q hq => hdistinct.not_mem_descendants hroot hq
  · intro d hd q hlast
    have hdq := mem_tree_of_mem_descendants hlast.mem_descendants
    obtain rfl := hdistinct.eq_of_mem_tree hroot hlast.mem (mem_tree_of_mem_descendants hd) hdq
    exact s.current.mem_tree_self

/-- A processor in the tree of a root has the bucket that this root declares. -/
theorem bucketOf_eq_of_mem_tree (hp : p ∈ ((emptyAt n).after cs).processors) (hd : d ∈ p.tree) :
    ((emptyAt n).after cs).bucketOf d = p.declaredBucket := by
  rw [bucketOf_eq, rootOf_eq_of_mem_tree h hp hd]

end Registry

end CommandShell
