import CommandShell.Proofs.Registry.Calls

/-!
# Sealed processors

A sealed processor that was registered stays in its slot while other calls come and go, and only
extensions are put above it.  It leaves only as an extension does, by being unregistered while it
stands on top of what it extends.  Nothing is said about a plain registration in place of an
extension, which takes all that stands below it along.

## Main definitions

* `Registry.Holds`: a processor stands in a slot.
* `Registry.Pops`, `Registry.Overwrites`: a call unregisters an extension, or replaces what stands
  above a processor.

## Main results

* `holds_call`: a call that does neither leaves a sealed processor where it is.
* `after_unregister_above`: what stands above a processor can be unregistered from the top.
* `sealed_stays`: a sealed processor stays, and comes back once the extensions above it are gone.
-/

namespace CommandShell

variable {α : Type}

/-- Whatever stands above another processor in a slot is an extension. -/
def Slot.Layered (s : Slot α) : Prop :=
  s.chain.Pairwise fun e _ => e.decl.isExtension = true

theorem Slot.Layered.isExtension_of_above {s : Slot α} {above below : List (Processor α)}
    {p e : Processor α} (h : s.Layered) (hchain : s.chain = above ++ p :: below) (he : e ∈ above) :
    e.decl.isExtension = true := by
  unfold Layered at h
  rw [hchain, List.pairwise_append] at h
  exact h.2.2 e he p List.mem_cons_self

namespace Registry

variable {r : Registry α} {p : Processor α} {c : Call α}

/-- A processor stands in a slot, on top or below. -/
def Holds (r : Registry α) (p : Processor α) : Prop :=
  ∃ s ∈ r.slots, p ∈ s.chain

/-- A call unregisters a processor that stands on top of the one that it extends. -/
def Pops (r : Registry α) (p : Processor α) : Call α → Prop
  | .register _ => False
  | .unregister name =>
    ∃ pre below post, r.MeetsFirst [lowerCase name] pre ⟨p, below⟩ post ∧ below ≠ []

/-- A call replaces the processor that stands above another one. -/
def Overwrites (r : Registry α) (p : Processor α) : Call α → Prop
  | .register q =>
    (r.register q).2 = .replaced ∧ ∃ pre s post, r.MeetsFirst q.names pre s post ∧ p ∈ s.below
  | .unregister _ => False

theorem holds_of_slots {pre post : List (Slot α)} {s : Slot α}
    (hslots : r.slots = pre ++ s :: post) :
    r.Holds p ↔ p ∈ s.chain ∨ ∃ t ∈ pre ++ post, p ∈ t.chain := by
  unfold Holds
  rw [hslots]
  simp only [mem_cut_iff, or_and_right, exists_or, exists_eq_left]

/-- A registration that is accepted puts the processor into a slot. -/
theorem holds_register (h : (r.register p).2.accepted = true) : (r.register p).1.Holds p := by
  obtain ⟨o, r', hreg, hr⟩ := r.exists_registers p
  rw [hreg] at h ⊢
  cases hr with
  | added => exact ⟨⟨p, []⟩, by simp, List.mem_cons_self⟩
  | replaced => exact (holds_of_slots rfl).mpr (Or.inl List.mem_cons_self)
  | extended => exact (holds_of_slots rfl).mpr (Or.inl List.mem_cons_self)
  | refused => cases h
  | collides => cases h

/-- A sealed processor stays through every call that neither unregisters it as an extension nor
replaces what stands above it. -/
theorem holds_call (hsealed : p.isSealed = true) (hpops : ¬ r.Pops p c)
    (hover : ¬ r.Overwrites p c) (h : r.Holds p) : (r.call c).Holds p := by
  cases c with
  | register q =>
    obtain ⟨o, r', hreg, hr⟩ := r.exists_registers q
    show (r.register q).1.Holds p
    rw [hreg]
    cases hr with
    | added =>
      obtain ⟨s, hs, hp⟩ := h
      exact ⟨s, List.mem_append_left _ hs, hp⟩
    | @replaced pre post s hm _ hopen =>
      rcases (holds_of_slots hm.slots).mp h with hp | hothers
      · rcases List.mem_cons.mp hp with rfl | hbelow
        · rw [hsealed] at hopen
          cases hopen
        · exact absurd ⟨by rw [hreg], pre, s, post, hm.toMeetsFirst, hbelow⟩ hover
      · exact (holds_of_slots rfl).mpr (Or.inr hothers)
    | extended hm _ =>
      rcases (holds_of_slots hm.slots).mp h with hp | hothers
      · exact (holds_of_slots rfl).mpr (Or.inl (List.mem_cons_of_mem _ hp))
      · exact (holds_of_slots rfl).mpr (Or.inr hothers)
    | refused => exact h
    | collides => exact h
  | unregister name =>
    obtain ⟨o, r', hun, hr⟩ := r.exists_unregisters name
    show (r.unregister name).1.Holds p
    rw [hun]
    cases hr with
    | absent => exact h
    | @restored pre post e b rest hm =>
      rcases (holds_of_slots hm.slots).mp h with hp | hothers
      · rcases List.mem_cons.mp hp with rfl | hbelow
        · exact absurd ⟨pre, b :: rest, post, hm, List.cons_ne_nil b rest⟩ hpops
        · have hchain : p ∈ Slot.chain ⟨b, rest⟩ := hbelow
          exact (holds_of_slots rfl).mpr (Or.inl hchain)
      · exact (holds_of_slots rfl).mpr (Or.inr hothers)
    | refused => exact h
    | removed hm hopen =>
      rcases (holds_of_slots hm.slots).mp h with hp | hothers
      -- A sealed processor that extends none is not removed.
      · obtain rfl := List.mem_singleton.mp hp
        rw [hsealed] at hopen
        cases hopen
      · exact hothers

/-- Unregistering what stands above a processor, from the top, brings it back, if no slot before
answers to one of these commands; all other slots stay. -/
theorem after_unregister_above {pre post : List (Slot α)} {s : Slot α}
    {above below : List (Processor α)} (hslots : r.slots = pre ++ s :: post)
    (hchain : s.chain = above ++ p :: below)
    (hfree : ∀ e ∈ above, ∀ t ∈ pre, t.meets [lowerCase e.command] = false) :
    (r.after (above.map fun e => .unregister e.command)).slots = pre ++ ⟨p, below⟩ :: post := by
  induction above generalizing r s with
  | nil =>
    obtain ⟨current, below'⟩ := s
    obtain ⟨rfl, rfl⟩ := List.cons.inj hchain
    exact hslots
  | cons e above ih =>
    obtain ⟨current, below'⟩ := s
    obtain ⟨rfl, hbelow⟩ := List.cons.inj hchain
    obtain ⟨b, rest, hrest⟩ : ∃ b rest, below' = b :: rest := by
      cases above with
      | nil => exact ⟨p, below, hbelow⟩
      | cons b above => exact ⟨b, above ++ p :: below, hbelow⟩
    subst hrest
    -- The extension answers to its own command, and is the first to do so.
    have hm : r.MeetsFirst [lowerCase current.command] pre ⟨current, b :: rest⟩ post := by
      refine ⟨hslots, ?_, hfree current List.mem_cons_self⟩
      exact Slot.meets_eq_true_iff.mpr
        ⟨_, current.lowerCase_command_mem_names, List.mem_singleton.mpr rfl⟩
    have hcall : r.call (.unregister current.command) =
        { r with slots := pre ++ ⟨b, rest⟩ :: post } := by
      show (r.unregister current.command).1 = _
      rw [unregister_of_below hm]
    rw [List.map_cons, after_cons, hcall]
    exact ih rfl hbelow fun e he => hfree e (List.mem_cons_of_mem _ he)

/-- After every sequence of calls on a new registry, only extensions stand above others. -/
theorem layered_after (cs : List (Call α)) :
    ∀ s ∈ (after ({} : Registry α) cs).slots, s.Layered := by
  refine after_induction (Q := fun r => ∀ s ∈ r.slots, s.Layered) ?_ ?_ cs
  · intro r c hr
    refine forall_slots_call c ?_ ?_ ?_ hr
    · intro q _ _
      exact List.pairwise_singleton _ q
    · intro q s _ _ hext hs
      exact List.pairwise_cons.mpr ⟨fun _ _ => hext, hs⟩
    · intro e b rest h
      exact (List.pairwise_cons.mp h).2
  · intro s hs
    exact absurd hs List.not_mem_nil

/-- A sealed processor that was accepted stays in the registry through all calls that come later,
unless it is itself unregistered as an extension.  (That an extension above it is replaced by a
plain registration is left out.)  Only extensions stand above it, and unregistering them from the
top brings it back, if no slot before answers to the command of one of them. -/
theorem sealed_stays {done cs : List (Call α)} (hsealed : p.isSealed = true)
    (haccepted : ((after {} done).register p).2.accepted = true)
    (hcalls : EachCall (fun r c => ¬ r.Pops p c ∧ ¬ r.Overwrites p c)
      (after {} (done ++ [.register p])) cs) :
    (after {} (done ++ .register p :: cs)).Holds p ∧
      ∀ pre s post above below,
        (after {} (done ++ .register p :: cs)).slots = pre ++ s :: post →
        s.chain = above ++ p :: below →
        (∀ e ∈ above, e.decl.isExtension = true) ∧
          ((∀ e ∈ above, ∀ t ∈ pre, t.meets [lowerCase e.command] = false) →
            (after {} (done ++ .register p :: cs ++
                above.map fun e => .unregister e.command)).slots = pre ++ ⟨p, below⟩ :: post) := by
  constructor
  · have hstart : (after {} (done ++ [.register p])).Holds p := by
      rw [after_append]
      exact holds_register haccepted
    have hend := hcalls.after (Q := fun r => r.Holds p)
      (fun r c hc h => holds_call hsealed hc.1 hc.2 h) hstart
    rwa [← after_append, List.append_assoc] at hend
  · intro pre s post above below hslots hchain
    have hlayered : s.Layered := layered_after _ s (by rw [hslots]; simp)
    refine ⟨fun e he => hlayered.isExtension_of_above hchain he, fun hfree => ?_⟩
    rw [after_append]
    exact after_unregister_above hslots hchain hfree

/-- A sealed command. -/
def sealedCore : Processor Unit :=
  (Processor.bare 0 "core").asSealed

/-- An extension of it. -/
def coreExtension : Processor Unit :=
  (Processor.bare 1 "core").asExtension

/-- A sealed command under an extension, which is unregistered. -/
theorem sealed_stays_under_extension :
    (after {} [.register sealedCore, .register coreExtension]).Holds sealedCore ∧
      (after {} [.register sealedCore, .register coreExtension, .unregister "core"]).slots =
        [⟨sealedCore, []⟩] := by
  have haccepted : ((after {} []).register sealedCore).2.accepted = true := by decide +kernel
  have hextended : ((after {} [.register sealedCore]).register coreExtension).2 = .extended := by
    decide +kernel
  have hcalls : EachCall (fun r c => ¬ r.Pops sealedCore c ∧ ¬ r.Overwrites sealedCore c)
      (after {} ([] ++ [.register sealedCore])) [.register coreExtension] := by
    refine ⟨⟨id, fun h => ?_⟩, trivial⟩
    have hreplaced : Registration.extended = .replaced := hextended.symm.trans h.1
    cases hreplaced
  obtain ⟨hholds, hback⟩ := sealed_stays rfl haccepted hcalls
  obtain ⟨-, hrestore⟩ := hback [] ⟨coreExtension, [sealedCore]⟩ [] [coreExtension] [] rfl rfl
  exact ⟨hholds, hrestore fun _ _ t ht => absurd ht List.not_mem_nil⟩

/-- A command that is not sealed. -/
def plainCore : Processor Unit :=
  .bare 0 "core"

/-- A sealed extension of it. -/
def sealedExtension : Processor Unit :=
  (Processor.bare 1 "core").asExtension.asSealed

/-- A sealed processor that extends another one is unregistered like any extension. -/
theorem sealed_extension_leaves :
    sealedExtension.isSealed = true ∧
      ((after {} [.register plainCore]).register sealedExtension).2.accepted = true ∧
      ¬ (after {} [.register plainCore, .register sealedExtension, .unregister "core"]).Holds
        sealedExtension := by
  refine ⟨rfl, by decide +kernel, ?_⟩
  rintro ⟨s, hs, hp⟩
  -- The only key that is left is that of the command below.
  have hkeys : ∀ s ∈ (after {} [.register plainCore, .register sealedExtension,
      .unregister "core"]).slots, ∀ p ∈ s.chain, p.key = plainCore.key := by decide +kernel
  have hkey : sealedExtension.key = plainCore.key := hkeys s hs _ hp
  cases hkey

end Registry

end CommandShell
