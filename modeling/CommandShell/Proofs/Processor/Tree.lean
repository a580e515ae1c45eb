import CommandShell.Processor.Basic
import Mathlib.Data.List.Nodup

/-!
# Trees of processors

What stands in the tree of a processor, and which processor stands directly above another one.

## Main definitions

* `Processor.descendants`, `Processor.tree`: the processors under a processor, without it and with
  it.
* `Processor.KeysFill`: some trees have the keys of a range.

## Main results

* `mem_links_iff`: the links of a tree lead from each child in it to the processor that has it.
* `mem_tree_trans`, `mem_descendants_trans`: trees stand in trees.
* `sizeOf_lt_of_mem_descendants`: what stands below is smaller.
* `nodup_keys_adoptAll`: no two processors in trees under fresh keys have the same key.
-/

namespace CommandShell

namespace Processor

variable {α : Type} {p q c d : Processor α}

/-- The subordinate processors of a processor at all levels. -/
def descendants (p : Processor α) : List (Processor α) :=
  p.links.map (·.1)

/-- A processor and all that stand below it. -/
def tree (p : Processor α) : List (Processor α) :=
  p :: p.descendants

theorem mem_tree_iff : d ∈ p.tree ↔ d = p ∨ d ∈ p.descendants :=
  List.mem_cons

theorem mem_tree_self (p : Processor α) : p ∈ p.tree :=
  List.mem_cons_self

theorem mem_tree_of_mem_descendants (h : d ∈ p.descendants) : d ∈ p.tree :=
  List.mem_cons_of_mem _ h

theorem sizeOf_lt_of_mem_children (h : c ∈ p.children) : sizeOf c < sizeOf p := by
  obtain ⟨key, decl, children⟩ := p
  have hlt : sizeOf c < sizeOf children := List.sizeOf_lt_of_mem h
  rw [Processor.mk.sizeOf_spec]
  omega

/-- What holds of a processor if it holds of its children holds of every processor. -/
theorem induction_on_children {motive : Processor α → Prop}
    (step : ∀ p, (∀ c ∈ p.children, motive c) → motive p) (p : Processor α) : motive p :=
  step p fun c _ => induction_on_children step c
termination_by sizeOf p
decreasing_by exact sizeOf_lt_of_mem_children ‹_›

/-- The links under some processors are those to the one above them, and those of their trees. -/
theorem mem_linksUnder_iff {parent : Processor α} {ps : List (Processor α)} :
    (d, q) ∈ linksUnder parent ps ↔ q = parent ∧ d ∈ ps ∨ ∃ c ∈ ps, (d, q) ∈ c.links := by
  induction ps with
  | nil => simp [linksUnder]
  | cons p ps ih =>
    rw [linksUnder, List.cons_append, List.mem_cons, List.mem_append, ih]
    simp only [List.mem_cons, Prod.mk.injEq, exists_eq_or_imp]
    constructor
    · rintro (⟨rfl, rfl⟩ | h | ⟨rfl, h⟩ | h)
      · exact Or.inl ⟨rfl, Or.inl rfl⟩
      · exact Or.inr (Or.inl h)
      · exact Or.inl ⟨rfl, Or.inr h⟩
      · exact Or.inr (Or.inr h)
    · rintro (⟨rfl, rfl | h⟩ | h | h)
      · exact Or.inl ⟨rfl, rfl⟩
      · exact Or.inr (Or.inr (Or.inl ⟨rfl, h⟩))
      · exact Or.inr (Or.inl h)
      · exact Or.inr (Or.inr (Or.inr h))

theorem mem_links_iff_children :
    (d, q) ∈ p.links ↔ q = p ∧ d ∈ p.children ∨ ∃ c ∈ p.children, (d, q) ∈ c.links := by
  obtain ⟨key, decl, children⟩ := p
  rw [links]
  exact mem_linksUnder_iff

theorem mem_descendants_iff_exists_link : d ∈ p.descendants ↔ ∃ q, (d, q) ∈ p.links := by
  unfold descendants
  simp

/-- Under some processors stand these and all below them. -/
theorem map_fst_linksUnder (parent : Processor α) (ps : List (Processor α)) :
    (linksUnder parent ps).map (·.1) = ps.flatMap tree := by
  induction ps with
  | nil => rfl
  | cons p ps ih =>
    rw [linksUnder, List.cons_append, List.map_cons, List.map_append, ih, List.flatMap_cons]
    rfl

/-- Below a processor stand the trees of its children. -/
theorem descendants_eq_flatMap (p : Processor α) : p.descendants = p.children.flatMap tree := by
  obtain ⟨key, decl, children⟩ := p
  unfold descendants
  rw [links]
  exact map_fst_linksUnder _ children

theorem mem_descendants_iff : d ∈ p.descendants ↔ ∃ c ∈ p.children, d ∈ c.tree := by
  rw [descendants_eq_flatMap, List.mem_flatMap]

theorem mem_descendants_of_mem_children (h : d ∈ p.children) : d ∈ p.descendants :=
  mem_descendants_iff.mpr ⟨d, h, d.mem_tree_self⟩

theorem mem_tree_of_mem_children (h : d ∈ p.children) : d ∈ p.tree :=
  mem_tree_of_mem_descendants (mem_descendants_of_mem_children h)

/-- What stands below a processor in a tree stands below the root of the tree. -/
theorem mem_descendants_trans (hd : d ∈ q.descendants) (hq : q ∈ p.tree) : d ∈ p.descendants := by
  induction p using induction_on_children with
  | step p ih =>
    rcases mem_tree_iff.mp hq with rfl | hq
    · exact hd
    · obtain ⟨c, hc, hq⟩ := mem_descendants_iff.mp hq
      exact mem_descendants_iff.mpr ⟨c, hc, mem_tree_of_mem_descendants (ih c hc hq)⟩

theorem mem_tree_trans (hd : d ∈ q.tree) (hq : q ∈ p.tree) : d ∈ p.tree := by
  rcases mem_tree_iff.mp hd with rfl | hd
  · exact hq
  · exact mem_tree_of_mem_descendants (mem_descendants_trans hd hq)

/-- The links of a tree lead from each child in it to the processor that has it. -/
theorem mem_links_iff : (d, q) ∈ p.links ↔ q ∈ p.tree ∧ d ∈ q.children := by
  induction p using induction_on_children with
  | step p ih =>
    rw [mem_links_iff_children, mem_tree_iff]
    constructor
    · rintro (⟨rfl, h⟩ | ⟨c, hc, h⟩)
      · exact ⟨Or.inl rfl, h⟩
      · obtain ⟨hq, hd⟩ := (ih c hc).mp h
        exact ⟨Or.inr (mem_descendants_iff.mpr ⟨c, hc, hq⟩), hd⟩
    · rintro ⟨rfl | hq, hd⟩
      · exact Or.inl ⟨rfl, hd⟩
      · obtain ⟨c, hc, hq⟩ := mem_descendants_iff.mp hq
        exact Or.inr ⟨c, hc, (ih c hc).mpr ⟨hq, hd⟩⟩

theorem sizeOf_lt_of_mem_descendants (h : d ∈ p.descendants) : sizeOf d < sizeOf p := by
  induction p using induction_on_children with
  | step p ih =>
    obtain ⟨c, hc, hd⟩ := mem_descendants_iff.mp h
    have hlt := sizeOf_lt_of_mem_children hc
    rcases mem_tree_iff.mp hd with rfl | hd
    · exact hlt
    · exact Nat.lt_trans (ih c hc hd) hlt

/-- What holds all over a tree if it holds of a processor whenever it holds of those above it. -/
theorem induction_from_root {motive : ∀ d, d ∈ p.tree → Prop}
    (step : ∀ d hd, (∀ q hq, d ∈ q.descendants → motive q hq) → motive d hd) (d : Processor α)
    (hd : d ∈ p.tree) : motive d hd := by
  -- What stands above is larger, but no larger than the root.
  induction hn : sizeOf p - sizeOf d using Nat.strongRecOn generalizing d with
  | ind n ih =>
    refine step d hd fun q hq hbelow => ih (sizeOf p - sizeOf q) ?_ q hq rfl
    have hlt := sizeOf_lt_of_mem_descendants hbelow
    have hlt' := sizeOf_lt_of_mem_descendants (mem_descendants_trans hbelow hq)
    omega

/-! ### Fresh keys -/

/-- What stands in some trees has the keys from `n` up to `m`, each once. -/
structure KeysFill (n m : Nat) (ps : List (Processor α)) : Prop where
  /-- The range is one. -/
  le : n ≤ m
  /-- The keys are those of the range. -/
  keys : ((ps.flatMap tree).map key).Perm (List.range' n (m - n))

theorem keysFill_nil (n : Nat) : KeysFill n n ([] : List (Processor α)) where
  le := Nat.le_refl n
  keys := by rw [Nat.sub_self]; exact List.Perm.nil

theorem KeysFill.cons {n k m : Nat} {ps : List (Processor α)} (hp : KeysFill n k [p])
    (hps : KeysFill k m ps) : KeysFill n m (p :: ps) where
  le := Nat.le_trans hp.le hps.le
  keys := by
    obtain ⟨i, rfl⟩ := Nat.exists_eq_add_of_le hp.le
    obtain ⟨j, rfl⟩ := Nat.exists_eq_add_of_le hps.le
    have hroot := hp.keys
    have hrest := hps.keys
    rw [Nat.add_sub_cancel_left] at hroot hrest
    rw [List.flatMap_singleton] at hroot
    rw [List.flatMap_cons, List.map_append, Nat.add_assoc, Nat.add_sub_cancel_left,
      ← List.range'_append_1]
    exact hroot.append hrest

/-- A root comes after all that stand below it. -/
theorem KeysFill.root {n m : Nat} {decl : Declaration α} {children : List (Processor α)}
    (h : KeysFill n m children) : KeysFill n (m + 1) [⟨m, decl, children⟩] where
  le := Nat.le_succ_of_le h.le
  keys := by
    have hrange : List.range' n (m + 1 - n) = List.range' n (m - n) ++ [m] := by
      rw [Nat.sub_add_comm h.le, List.range'_1_concat, Nat.add_sub_cancel' h.le]
    rw [hrange, List.flatMap_singleton, tree, List.map_cons, descendants_eq_flatMap]
    exact (h.keys.cons m).trans (List.perm_append_singleton m _).symm

/-- Trees under fresh keys have these keys, if each of them has. -/
theorem keysFill_adoptAll_of_forall {ps : List (Processor α)}
    (h : ∀ p ∈ ps, ∀ n, KeysFill n (p.adopt n).2 [(p.adopt n).1]) (n : Nat) :
    KeysFill n (adoptAll n ps).2 (adoptAll n ps).1 := by
  induction ps generalizing n with
  | nil => exact keysFill_nil n
  | cons p ps ih =>
    rw [List.forall_mem_cons] at h
    rw [adoptAll]
    exact (h.1 n).cons (ih h.2 _)

/-- A tree under fresh keys has the fresh keys up to the next one. -/
theorem keysFill_adopt (n : Nat) (p : Processor α) :
    KeysFill n (p.adopt n).2 [(p.adopt n).1] := by
  induction p using induction_on_children generalizing n with
  | step p ih =>
    obtain ⟨key, decl, children⟩ := p
    rw [adopt]
    exact (keysFill_adoptAll_of_forall ih n).root

/-- Nothing in trees under fresh keys has the key of another. -/
theorem nodup_keys_adoptAll (n : Nat) (ps : List (Processor α)) :
    (((adoptAll n ps).1.flatMap tree).map key).Nodup := by
  have h : KeysFill n (adoptAll n ps).2 (adoptAll n ps).1 :=
    keysFill_adoptAll_of_forall (fun p _ n => keysFill_adopt n p) n
  exact h.keys.nodup_iff.mpr List.nodup_range'

end Processor

end CommandShell
