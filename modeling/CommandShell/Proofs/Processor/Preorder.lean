import CommandShell.Proofs.Registry.Roots
import CommandShell.Shell.SetUp

/-!
# Processors in pre-order

The processors of some trees, each before all that stand below it, and siblings in their order.

## Main definitions

* `Processor.IsRow`: some processors are all roots, or all children of a processor.
* `Processor.Before`: one processor comes before another one in pre-order.

## Main results

* `preorderAll_eq_flatMap`: the processors in pre-order are those of the trees.
* `pairwise_before_preorderAll`: they stand in pre-order.
-/

namespace CommandShell

namespace Processor

variable {α : Type} {roots ps : List (Processor α)} {p q : Processor α}

/-- Some processors are siblings: the roots, or the children of a processor below them. -/
def IsRow (roots ps : List (Processor α)) : Prop :=
  ps = roots ∨ ∃ p, Among roots p ∧ ps = p.children

/-- One processor comes before another one in pre-order: it stands above it, or stands in the tree
of an earlier sibling. -/
inductive Before (roots : List (Processor α)) (p q : Processor α) : Prop
  | above : q ∈ p.descendants → Before roots p q
  | beside {ps : List (Processor α)} {c d : Processor α} : IsRow roots ps → [c, d].Sublist ps →
      p ∈ c.tree → q ∈ d.tree → Before roots p q

theorem preorderAll_eq_flatMap_of_forall (h : ∀ p ∈ ps, p.preorder = p.tree) :
    preorderAll ps = ps.flatMap tree := by
  induction ps with
  | nil => rfl
  | cons p ps ih =>
    rw [List.forall_mem_cons] at h
    rw [preorderAll, h.1, ih h.2, List.flatMap_cons]

theorem preorder_eq_tree (p : Processor α) : p.preorder = p.tree := by
  induction p using induction_on_children with
  | step p ih =>
    obtain ⟨key, decl, children⟩ := p
    rw [preorder, preorderAll_eq_flatMap_of_forall ih, tree, descendants_eq_flatMap]

/-- In pre-order stand the processors of all trees. -/
theorem preorderAll_eq_flatMap (ps : List (Processor α)) : preorderAll ps = ps.flatMap tree :=
  preorderAll_eq_flatMap_of_forall fun p _ => p.preorder_eq_tree

theorem mem_preorderAll_iff : p ∈ preorderAll ps ↔ Among ps p := by
  rw [preorderAll_eq_flatMap, List.mem_flatMap]
  exact Iff.rfl

/-- The trees of siblings are in pre-order if each of them is. -/
theorem IsRow.pairwise_before (h : IsRow roots ps)
    (htrees : ∀ p ∈ ps, p.tree.Pairwise (Before roots)) :
    (ps.flatMap tree).Pairwise (Before roots) := by
  rw [List.pairwise_flatMap]
  refine ⟨htrees, List.pairwise_iff_forall_sublist.mpr fun hsub => ?_⟩
  exact fun p hp q hq => .beside h hsub hp hq

/-- A tree is in pre-order. -/
theorem pairwise_before_tree (hp : Among roots p) : p.tree.Pairwise (Before roots) := by
  induction p using induction_on_children with
  | step p ih =>
    rw [tree, List.pairwise_cons]
    refine ⟨fun q hq => .above hq, ?_⟩
    rw [descendants_eq_flatMap]
    have hrow : IsRow roots p.children := Or.inr ⟨p, hp, rfl⟩
    refine hrow.pairwise_before fun c hc => ih c hc ?_
    obtain ⟨root, hroot, htree⟩ := hp
    exact ⟨root, hroot, mem_tree_trans (mem_tree_of_mem_children hc) htree⟩

/-- What comes earlier in pre-order comes before what comes later. -/
theorem pairwise_before_preorderAll (roots : List (Processor α)) :
    (preorderAll roots).Pairwise (Before roots) := by
  rw [preorderAll_eq_flatMap]
  have hrow : IsRow roots roots := Or.inl rfl
  exact hrow.pairwise_before fun p hp => pairwise_before_tree ⟨p, hp, p.mem_tree_self⟩

end Processor

end CommandShell
