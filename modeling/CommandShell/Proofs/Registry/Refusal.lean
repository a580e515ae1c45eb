import CommandShell.Proofs.Registry.Roots

/-!
# What a refusal changes

A registration is refused if it meets several slots, and then nothing was done yet; or if it meets a
sealed processor, and then the tree of the candidate has been linked already.  Slots stay in both
cases, and so does what processors extend.  But a candidate that is refused by a sealed processor
has become the parent of its children, and they do not get back the parent that they had if they
stand in the tree of a registered processor as well.

## Main definitions

* `Registry.Reaches`: a processor stands in the tree of one that is registered.
* `Processor.LinkedLast`: where the last link leads that a tree makes from a processor.

## Main results

* `parent?_link_eq_iff`: which parents stay when a tree is linked.
* `refusal_keeps_parents_iff`: when a refusal changes nothing.
* `refused_candidate_takes_part`: refusals that change the parent of a registered processor.
-/

namespace CommandShell

variable {α : Type}

namespace Processor

variable {d p q : Processor α}

/-- Of the links that the tree of `q` makes, the last one from `d` leads to `p`. -/
def LinkedLast (q d p : Processor α) : Prop :=
  ∃ earlier c later, q.links = earlier ++ (c, p) :: later ∧ c.key = d.key ∧
    ∀ l ∈ later, l.1.key ≠ d.key

/-- The last link is the one that is found first among the latest ones. -/
theorem linkedLast_iff :
    q.LinkedLast d p ↔ (q.upLinks.find? (·.1 == d.key)).map (·.2) = some p := by
  unfold upLinks
  rw [List.find?_map, Option.map_map, Option.map_eq_some_iff]
  constructor
  · rintro ⟨earlier, c, later, hlinks, hkey, hlater⟩
    refine ⟨(c, p), List.find?_eq_some_iff_append.mpr ⟨by simp [hkey], later.reverse,
      earlier.reverse, ?_, fun l hl => ?_⟩, rfl⟩
    · rw [hlinks, List.reverse_append, List.reverse_cons, List.append_assoc]
      rfl
    · simpa using hlater l (List.mem_reverse.mp hl)
  · rintro ⟨⟨c, p'⟩, hfind, rfl⟩
    obtain ⟨hkey, later, earlier, hlinks, hlater⟩ := List.find?_eq_some_iff_append.mp hfind
    refine ⟨earlier.reverse, c, later.reverse, ?_, by simpa using hkey, fun l hl => ?_⟩
    · rw [← List.reverse_reverse q.links, hlinks, List.reverse_append, List.reverse_cons,
        List.append_assoc]
      rfl
    · simpa using hlater l (List.mem_reverse.mp hl)

/-- A link leads from a child to the processor in the tree that has it. -/
theorem LinkedLast.exists_child (h : q.LinkedLast d p) :
    p ∈ q.tree ∧ ∃ c ∈ p.children, c.key = d.key := by
  obtain ⟨earlier, c, later, hlinks, hkey, -⟩ := h
  have hmem : (c, p) ∈ q.links := by
    rw [hlinks]
    exact List.mem_append_right _ List.mem_cons_self
  obtain ⟨hp, hchild⟩ := mem_links_iff.mp hmem
  exact ⟨hp, c, hchild, hkey⟩

end Processor

namespace Registry

open Processor

variable {r : Registry α} {d p q : Processor α}

/-- A processor stands in the tree of one that is in a slot, on top or below. -/
def Reaches (r : Registry α) (d : Processor α) : Prop :=
  ∃ s ∈ r.slots, ∃ p ∈ s.chain, d ∈ p.tree

theorem parent?_link (r : Registry α) (q d : Processor α) :
    (r.link q).parent? d = ((q.upLinks.find? (·.1 == d.key)).map (·.2)).or (r.parent? d) := by
  unfold parent?
  rw [link_parents, List.find?_append, Option.map_or]

/-- A processor keeps its parent when a tree is linked just where the last link that the tree makes
from it, if there is one, leads there. -/
theorem parent?_link_eq_iff :
    (r.link q).parent? d = r.parent? d ↔ ∀ p, q.LinkedLast d p → r.parent? d = some p := by
  simp only [linkedLast_iff]
  rw [parent?_link]
  cases (q.upLinks.find? (·.1 == d.key)).map (·.2) with
  | none => simp
  | some p => simp [eq_comm]

/-- When a refusal changes nothing.  A registration that is refused leaves the slots as they are,
with their order and what stands below, and also what each processor extends.  A parent changes only
if a sealed processor refuses the candidate, and then to where the last link leads that the tree of
the candidate makes.  So the processors that are registered keep their parents just where a
collision is the reason, or each of them that stands in the tree of the candidate is linked there to
the parent that it has; and this is so if the candidate shares no part with them. -/
theorem refusal_keeps_parents_iff (h : (r.register q).2.accepted = false) :
    (r.register q).1.slots = r.slots ∧
    (∀ d, (r.register q).1.base? d = r.base? d) ∧
    (∀ d, (r.register q).1.parent? d ≠ r.parent? d → (r.register q).2 = .sealed ∧
      ∃ p, q.LinkedLast d p ∧ (r.register q).1.parent? d = some p) ∧
    ((∀ d, r.Reaches d → (r.register q).1.parent? d = r.parent? d) ↔
      ((r.register q).2 = .sealed →
        ∀ d p, r.Reaches d → q.LinkedLast d p → r.parent? d = some p)) ∧
    ((∀ d, r.Reaches d → ∀ c ∈ q.descendants, c.key ≠ d.key) →
      ∀ d, r.Reaches d → (r.register q).1.parent? d = r.parent? d) := by
  obtain ⟨o, r', hreg, hr⟩ := r.exists_registers q
  rw [hreg] at h ⊢
  dsimp only at h ⊢
  cases hr with
  | added => cases h
  | replaced => cases h
  | extended => cases h
  | collides =>
    refine ⟨rfl, fun _ => rfl, fun d hd => absurd rfl hd, ?_, fun _ _ _ => rfl⟩
    exact ⟨fun _ hsealed => (by cases hsealed), fun _ _ _ => rfl⟩
  | refused =>
    refine ⟨rfl, fun _ => rfl, fun d hd => ⟨rfl, ?_⟩, ?_, fun hfresh d hd => ?_⟩
    · -- A parent that changes does so by a link that the tree makes.
      rw [Ne, parent?_link_eq_iff] at hd
      push Not at hd
      obtain ⟨p, hlast, -⟩ := hd
      refine ⟨p, hlast, ?_⟩
      rw [parent?_link, linkedLast_iff.mp hlast, Option.some_or]
    · simp only [parent?_link_eq_iff, forall_const]
      exact ⟨fun h d p hd => h d hd p, fun h d hd p => h d p hd⟩
    · refine parent?_link_eq_iff.mpr fun p hlast => ?_
      obtain ⟨hp, c, hchild, hkey⟩ := hlast.exists_child
      exact absurd hkey
        (hfresh d hd c (mem_descendants_trans (mem_descendants_of_mem_children hchild) hp))

theorem core_reaches_part : (after {} [.register core]).Reaches part :=
  ⟨⟨core, []⟩, List.mem_cons_self, core, List.mem_cons_self,
    mem_tree_of_mem_children List.mem_cons_self⟩

/-- A sealed command that is registered once more is refused, and its own part keeps its parent. -/
theorem refused_again_keeps_part :
    ((after {} [.register core]).register core).2.accepted = false ∧
      (∀ p, core.LinkedLast part p → (after {} [.register core]).parent? part = some p) ∧
      ((after {} [.register core]).register core).1.parent? part =
        (after {} [.register core]).parent? part := by
  have hrefused : ((after {} [.register core]).register core).2.accepted = false := by
    decide +kernel
  have hlast : ∀ d p, (after {} [.register core]).Reaches d → core.LinkedLast d p →
      (after {} [.register core]).parent? d = some p := by
    intro d p _ hlast
    -- The only links there are were made by the same tree.
    exact linkedLast_iff.mp hlast
  obtain ⟨-, -, -, hkeeps, -⟩ := refusal_keeps_parents_iff hrefused
  exact ⟨hrefused, fun p => hlast part p core_reaches_part,
    hkeeps.mpr (fun _ => hlast) part core_reaches_part⟩

/-- A sealed command without parts. -/
def sealedRoot : Processor Unit :=
  (Processor.bare 1 "core").asSealed

/-- A command that answers to the names of two others, and has a part. -/
def candidate : Processor Unit :=
  ((Processor.bare 2 "core").withAlias "other").withChild part

/-- The candidate is refused first by both of these commands.  Then its part is registered, and one
of the two unregistered, so that it is the other one, which is sealed, that refuses it. -/
def refusedTwice : List (Call Unit) :=
  [.register sealedRoot, .register (.bare 3 "other"), .register candidate, .register part,
    .unregister "other"]

/-- Refusals that change the parent of a processor in the tree of a registered one: that of a
candidate which shares a part with the sealed processor, and that of one whose part has a slot of
its own, and had no parent. -/
theorem refused_candidate_takes_part :
    let shared := after {} [.register core]
    let apart := after {} refusedTwice
    ((shared.register rival).2 = .sealed ∧ shared.Reaches part ∧
        shared.parent? part = some core ∧ (shared.register rival).1.parent? part = some rival) ∧
      (apart.register candidate).2 = .sealed ∧ apart.Reaches part ∧
        apart.parent? part = none ∧
        (apart.register candidate).1.parent? part = some candidate := by
  have hslots : (after {} refusedTwice).slots = [⟨sealedRoot, []⟩, ⟨part, []⟩] := rfl
  have hreaches : (after {} refusedTwice).Reaches part := by
    refine ⟨⟨part, []⟩, ?_, part, List.mem_cons_self, part.mem_tree_self⟩
    rw [hslots]
    exact List.mem_cons_of_mem _ List.mem_cons_self
  exact ⟨⟨by decide +kernel, core_reaches_part, rfl, rfl⟩, by decide +kernel, hreaches, rfl, rfl⟩

end Registry

end CommandShell
