import CommandShell.Proofs.Registry.Sealing

/-!
# Unwinding extensions

An extension is accepted where its names meet one slot and no other.  It may bring names of its own
and let go of those of what it extends, but as long as it stands on top, its slot answers to its
command and the other slots, which stay as they are, do not.  So it is unregistered from the slot
that it was put on, and extensions of a slot come off in the reverse order in which they were put
on.

## Main definitions

* `Slot.extendBy`: a slot with some extensions on top.
* `Registry.Extends`: a call puts an extension on the slot at a position.
* `Registry.takingOff`: the calls that unregister some processors, the last one first.

## Main results

* `slots_after_extending`: what putting extensions on a slot does, and where they are met.
* `extensions_unwind`: the slots while extensions are put on, and while they are taken off again.
-/

namespace CommandShell

variable {α : Type}

/-- A slot with some extensions on top, which are put on one after another. -/
def Slot.extendBy (s : Slot α) (es : List (Processor α)) : Slot α :=
  es.foldl (fun s e => ⟨e, s.chain⟩) s

@[simp] theorem Slot.extendBy_nil (s : Slot α) : s.extendBy [] = s := rfl

@[simp] theorem Slot.extendBy_cons (s : Slot α) (e : Processor α) (es : List (Processor α)) :
    s.extendBy (e :: es) = Slot.extendBy ⟨e, s.chain⟩ es := rfl

theorem Slot.extendBy_concat (s : Slot α) (es : List (Processor α)) (e : Processor α) :
    s.extendBy (es ++ [e]) = ⟨e, (s.extendBy es).chain⟩ :=
  List.foldl_append

/-- The last extension stands highest. -/
theorem Slot.chain_extendBy (s : Slot α) (es : List (Processor α)) :
    (s.extendBy es).chain = es.reverse ++ s.chain := by
  induction es generalizing s with
  | nil => rfl
  | cons e es ih =>
    rw [extendBy_cons, ih, List.reverse_cons, List.append_assoc]
    rfl

/-- A slot that answers to none of the names of a processor does not answer to its command. -/
theorem Slot.not_meets_command {s : Slot α} {e : Processor α} (h : s.meets e.names = false) :
    s.meets [lowerCase e.command] = false := by
  refine meets_eq_false_iff.mpr fun name hname hcommand => ?_
  obtain rfl := List.mem_singleton.mp hcommand
  exact meets_eq_false_iff.mp h _ hname e.lowerCase_command_mem_names

namespace Registry

variable {r : Registry α} {pre post : List (Slot α)} {s : Slot α} {e : Processor α}
  {es kept undone : List (Processor α)}

/-- A call puts an extension on the slot at a position. -/
def Extends (i : Nat) (r : Registry α) : Call α → Prop
  | .register q => (r.register q).2 = .extended ∧ r.positions q.names = [i]
  | .unregister _ => False

/-- The calls that unregister some processors by their commands, the last one first. -/
def takingOff (es : List (Processor α)) : List (Call α) :=
  es.reverse.map fun e => .unregister e.command

/-- An extension is put on top of the slot at its position, and no other slot answers to its
names. -/
theorem register_of_extends (hslots : r.slots = pre ++ s :: post)
    (h : Extends pre.length r (.register e)) :
    (r.register e).1.slots = pre ++ ⟨e, s.chain⟩ :: post ∧
      ∀ t ∈ pre ++ post, t.meets e.names = false := by
  obtain ⟨houtcome, hposition⟩ := h
  obtain ⟨o, r', hreg, hr⟩ := r.exists_registers e
  rw [hreg] at houtcome ⊢
  cases houtcome
  cases hr with
  | @extended pre' post' s' hm _ =>
    -- The slots are cut at the same position, and so in the same place.
    have hlength : pre'.length = pre.length := by
      rw [hm.positions_eq] at hposition
      exact (List.cons.inj hposition).1
    obtain ⟨rfl, hrest⟩ := List.append_inj (hm.slots.symm.trans hslots) hlength
    obtain ⟨rfl, rfl⟩ := List.cons.inj hrest
    refine ⟨rfl, fun t ht => ?_⟩
    rcases List.mem_append.mp ht with ht | ht
    · exact hm.before t ht
    · exact hm.behind t ht

/-- Extensions that are put on a slot stand on it, no other slot has changed, and none answers to
their names. -/
theorem slots_after_extending (hslots : r.slots = pre ++ s :: post)
    (h : EachCall (Extends pre.length) r (es.map .register)) :
    (r.after (es.map .register)).slots = pre ++ s.extendBy es :: post ∧
      ∀ e ∈ es, ∀ t ∈ pre ++ post, t.meets e.names = false := by
  induction es generalizing r s with
  | nil => exact ⟨hslots, fun e he => absurd he List.not_mem_nil⟩
  | cons e es ih =>
    obtain ⟨hfirst, hrest⟩ := h
    obtain ⟨hput, hfree⟩ := register_of_extends hslots hfirst
    obtain ⟨hend, hothers⟩ := ih (r := r.call (.register e)) hput hrest
    exact ⟨hend, List.forall_mem_cons.mpr ⟨hfree, hothers⟩⟩

theorem EachCall.of_append {P : Registry α → Call α → Prop} {cs ds : List (Call α)}
    (h : EachCall P r (cs ++ ds)) : EachCall P r cs := by
  induction cs generalizing r with
  | nil => exact trivial
  | cons c cs ih => exact ⟨h.1, ih h.2⟩

/-- Extensions of a slot that are taken off, the last one first, leave the others on it. -/
theorem slots_after_takingOff (hslots : r.slots = pre ++ s.extendBy (kept ++ undone) :: post)
    (hfree : ∀ e ∈ undone, ∀ t ∈ pre ++ post, t.meets e.names = false) :
    (r.after (takingOff undone)).slots = pre ++ s.extendBy kept :: post := by
  have hchain : (s.extendBy (kept ++ undone)).chain =
      undone.reverse ++ (s.extendBy kept).current :: (s.extendBy kept).below := by
    rw [Slot.chain_extendBy, List.reverse_append, List.append_assoc, ← Slot.chain_extendBy]
    rfl
  refine after_unregister_above hslots hchain fun e he t ht => ?_
  exact Slot.not_meets_command (hfree e (List.mem_reverse.mp he) t (List.mem_append_left post ht))

/-- The extension on top of a slot is unregistered by its command. -/
theorem unregister_extension (hslots : r.slots = pre ++ s.extendBy (kept ++ [e]) :: post)
    (hfree : ∀ t ∈ pre ++ post, t.meets e.names = false) :
    (r.unregister e.command).2 = .restored := by
  rw [Slot.extendBy_concat] at hslots
  have hm : r.MeetsFirst [lowerCase e.command] pre ⟨e, (s.extendBy kept).chain⟩ post := by
    refine ⟨hslots, ?_, fun t ht => ?_⟩
    · exact Slot.meets_eq_true_iff.mpr
        ⟨_, e.lowerCase_command_mem_names, List.mem_singleton.mpr rfl⟩
    · exact Slot.not_meets_command (hfree t (List.mem_append_left post ht))
  rw [unregister_of_below hm]

/-- Extensions unwind in the reverse order.  Let some processors be registered one after another, so
that each is accepted as an extension of one and the same slot.  While they are put on, and while
they are taken off again by their commands, the last one first, those that are on the slot stand on
what was there before, and all other slots stay; each of them is taken off when its turn comes,
which uncovers the one before it; and once all are off, the slots are what they were. -/
theorem extensions_unwind (hslots : r.slots = pre ++ s :: post)
    (h : EachCall (Extends pre.length) r (es.map .register)) :
    (∀ kept undone, es = kept ++ undone →
      (r.after (kept.map .register)).slots = pre ++ s.extendBy kept :: post ∧
      (r.after (es.map .register ++ takingOff undone)).slots = pre ++ s.extendBy kept :: post) ∧
    (∀ kept e undone, es = kept ++ e :: undone →
      ((r.after (es.map .register ++ takingOff undone)).unregister e.command).2 = .restored) ∧
    (r.after (es.map .register ++ takingOff es)).slots = r.slots := by
  obtain ⟨hend, hfree⟩ := slots_after_extending hslots h
  have hoff : ∀ kept undone, es = kept ++ undone →
      (r.after (es.map .register ++ takingOff undone)).slots = pre ++ s.extendBy kept :: post := by
    rintro kept undone rfl
    rw [after_append]
    exact slots_after_takingOff hend fun e he => hfree e (List.mem_append_right kept he)
  refine ⟨fun kept undone hes => ⟨?_, hoff kept undone hes⟩, fun kept e undone hes => ?_, ?_⟩
  · rw [hes, List.map_append] at h
    exact (slots_after_extending hslots h.of_append).1
  · have hes' : es = (kept ++ [e]) ++ undone := by rw [hes, List.append_assoc]; rfl
    refine unregister_extension (hoff _ _ hes') (hfree e ?_)
    rw [hes]
    exact List.mem_append_right _ List.mem_cons_self
  · rw [hoff [] es rfl, hslots]
    rfl

/-- A sealed command beside another one. -/
def storeAndCore : Registry Unit :=
  after {} [.register (.bare 0 "store"), .register sealedCore]

/-- An extension of it under a name of its own, and one of that extension. -/
def renamingExtensions : List (Processor Unit) :=
  [((Processor.bare 1 "kernel").withAlias "core").asExtension,
    (Processor.bare 2 "Kernel").asExtension]

/-- Two extensions that change the names of a slot, the last of which leaves only one. -/
theorem renaming_extensions_unwind :
    storeAndCore.slots = [⟨.bare 0 "store", []⟩] ++ ⟨sealedCore, []⟩ :: [] ∧
      EachCall (Extends 1) storeAndCore (renamingExtensions.map .register) ∧
      (storeAndCore.after (renamingExtensions.map .register)).positions ["core"] = [] ∧
      (storeAndCore.after
        (renamingExtensions.map .register ++ takingOff renamingExtensions)).slots =
          storeAndCore.slots := by
  have hslots : storeAndCore.slots = [⟨.bare 0 "store", []⟩] ++ ⟨sealedCore, []⟩ :: [] := rfl
  have hextends : EachCall (Extends 1) storeAndCore (renamingExtensions.map .register) :=
    ⟨⟨by decide +kernel, by decide +kernel⟩, ⟨by decide +kernel, by decide +kernel⟩, trivial⟩
  exact ⟨hslots, hextends, by decide +kernel, (extensions_unwind hslots hextends).2.2⟩

end Registry

end CommandShell
