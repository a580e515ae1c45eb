import CommandShell.Proofs.Registry.Calls

/-!
# Names of root processors

Registering keeps the names of the root processors apart: a processor is refused if it meets several
of them, and takes the place of the one that it meets.  An extension need not answer to all names of
what it extends, and these names are free meanwhile.  So unregistering it may bring back a name that
another root has taken, and this is the only way for two roots to come by the same name.

## Main definitions

* `Registry.Unambiguous`: no two root processors answer to the same name.
* `Registry.RestoresTaken`: a call brings back a name that another root has taken.

## Main results

* `Unambiguous.length_positions_le_one`: a word leads to one root at most.
* `unambiguous_call_iff`: names stay apart through a call unless it brings back a taken name.
* `unambiguous_iff_never_restoresTaken`: the same for sequences of calls.
-/

namespace CommandShell

variable {α : Type}

namespace Registry

variable {r r' : Registry α} {names : List String} {pre post : List (Slot α)} {s : Slot α}

/-- No two root processors answer to the same name. -/
def Unambiguous (r : Registry α) : Prop :=
  r.slots.Pairwise fun s t => ∀ name ∈ s.current.names, name ∉ t.current.names

/-- A call brings back a processor that answers to a name of another root. -/
def RestoresTaken (r : Registry α) : Call α → Prop
  | .register _ => False
  | .unregister name =>
    ∃ pre e b rest post, r.MeetsFirst [lowerCase name] pre ⟨e, b :: rest⟩ post ∧
      ∃ t ∈ pre ++ post, ∃ n ∈ b.names, n ∈ t.current.names

theorem names_disjoint_symm {s t : Slot α} (h : ∀ name ∈ s.current.names, name ∉ t.current.names) :
    ∀ name ∈ t.current.names, name ∉ s.current.names :=
  fun name ht hs => h name hs ht

/-- Names are unambiguous if those at a cut are, and the others among themselves. -/
theorem unambiguous_iff_of_slots (hslots : r.slots = pre ++ s :: post) :
    r.Unambiguous ↔
      (∀ t ∈ pre ++ post, ∀ name ∈ s.current.names, name ∉ t.current.names) ∧
        (pre ++ post).Pairwise fun s t => ∀ name ∈ s.current.names, name ∉ t.current.names := by
  unfold Unambiguous
  rw [hslots, List.pairwise_middle names_disjoint_symm, List.pairwise_cons]

theorem names_disjoint_of_not_meets {q : Processor α} {slots : List (Slot α)}
    (h : ∀ t ∈ slots, t.meets q.names = false) :
    ∀ t ∈ slots, ∀ name ∈ q.names, name ∉ t.current.names :=
  fun t ht name hq hn => Slot.meets_eq_false_iff.mp (h t ht) name hn hq

/-- A processor can be put in place of the only one that it meets. -/
theorem Unambiguous.put {q : Processor α} {below : List (Processor α)} (h : r.Unambiguous)
    (hm : r.MeetsOnly q.names pre s post) (hslots : r'.slots = pre ++ ⟨q, below⟩ :: post) :
    r'.Unambiguous := by
  obtain ⟨-, hothers⟩ := (unambiguous_iff_of_slots hm.slots).mp h
  refine (unambiguous_iff_of_slots hslots).mpr ⟨?_, hothers⟩
  apply names_disjoint_of_not_meets
  intro t ht
  rcases List.mem_append.mp ht with ht | ht
  · exact hm.before t ht
  · exact hm.behind t ht

/-- Where names are unambiguous, a word leads to one root at most. -/
theorem Unambiguous.length_positions_le_one (h : r.Unambiguous) (name : String) :
    (r.positions [name]).length ≤ 1 := by
  rcases r.meets_none_or_first [name] with hfree | ⟨pre, s, post, hm⟩
  · rw [positions_eq_nil_iff.mpr hfree]
    exact Nat.zero_le 1
  · obtain ⟨hs, -⟩ := (unambiguous_iff_of_slots hm.slots).mp h
    obtain ⟨n, hn, hname⟩ := Slot.meets_eq_true_iff.mp hm.meets
    obtain rfl := List.mem_singleton.mp hname
    -- What stands behind the first slot that answers shares no name with it.
    have hpost : ∀ t ∈ post, t.meets [n] = false := by
      intro t ht
      refine Slot.meets_eq_false_iff.mpr fun m hmem hm' => ?_
      obtain rfl := List.mem_singleton.mp hm'
      exact hs t (List.mem_append_right pre ht) m hn hmem
    rw [hm.positions_eq, positionsFrom_eq_nil_iff.mpr hpost]
    exact Nat.le_refl 1

theorem Unambiguous.register (h : r.Unambiguous) (q : Processor α) :
    (r.register q).1.Unambiguous := by
  obtain ⟨o, r', hreg, hr⟩ := r.exists_registers q
  rw [hreg]
  cases hr with
  | added hfree =>
    refine List.pairwise_append.mpr ⟨h, List.pairwise_singleton _ _, fun t ht u hu => ?_⟩
    obtain rfl := List.mem_singleton.mp hu
    exact names_disjoint_symm (s := ⟨q, []⟩) (names_disjoint_of_not_meets hfree t ht)
  | replaced hm => exact h.put hm rfl
  | extended hm => exact h.put hm rfl
  | refused => exact h
  | collides => exact h

/-- Where names are unambiguous, they stay so through a call just where it brings back no name that
another root has taken. -/
theorem unambiguous_call_iff (c : Call α) (h : r.Unambiguous) :
    (r.call c).Unambiguous ↔ ¬ r.RestoresTaken c := by
  cases c with
  | register q => exact ⟨fun _ => id, fun _ => h.register q⟩
  | unregister name =>
    constructor
    · rintro hcall ⟨pre, e, b, rest, post, hm, t, ht, n, hb, hn⟩
      have hslots : (r.call (.unregister name)).slots = pre ++ ⟨b, rest⟩ :: post := by
        show (r.unregister name).1.slots = _
        rw [unregister_of_below hm]
      exact ((unambiguous_iff_of_slots hslots).mp hcall).1 t ht n hb hn
    · intro htaken
      obtain ⟨o, r', hun, hr⟩ := r.exists_unregisters name
      show (r.unregister name).1.Unambiguous
      rw [hun]
      cases hr with
      | absent => exact h
      | @restored pre post e b rest hm =>
        obtain ⟨-, hothers⟩ := (unambiguous_iff_of_slots hm.slots).mp h
        refine (unambiguous_iff_of_slots rfl).mpr ⟨fun t ht n hb hn => ?_, hothers⟩
        exact htaken ⟨pre, e, b, rest, post, hm, t, ht, n, hb, hn⟩
      | refused => exact h
      | removed hm _ => exact ((unambiguous_iff_of_slots hm.slots).mp h).2

/-- The names of the roots are unambiguous all along a sequence of calls, and then every word leads
to one root at most, just where none of the calls brings back a name that another root has taken. -/
theorem unambiguous_iff_never_restoresTaken (cs : List (Call α)) :
    (∀ done, done <+: cs → (after {} done).Unambiguous ∧
        ∀ word, ((after {} done).positions [lowerCase word]).length ≤ 1) ↔
      EachCall (fun r c => ¬ r.RestoresTaken c) {} cs := by
  have hstart : ({} : Registry α).Unambiguous := List.Pairwise.nil
  rw [← eachCall_iff_forall_prefix (fun r c h => unambiguous_call_iff c h) hstart]
  constructor
  · intro h done hdone
    exact (h done hdone).1
  · intro h done hdone
    exact ⟨h done hdone, fun word => (h done hdone).length_positions_le_one _⟩

/-- A command with another name, an extension without that name, and a command that takes the name
before the extension is unregistered. -/
def takenMeanwhile : List (Call Unit) :=
  [.register ((Processor.bare 0 "x").withAlias "b"),
    .register (Processor.bare 1 "x").asExtension, .register (.bare 2 "b"), .unregister "x"]

/-- Two roots come to answer to a name that was taken meanwhile. -/
theorem taken_name_is_ambiguous :
    ¬ (after {} takenMeanwhile).Unambiguous ∧
      (after {} takenMeanwhile).positions [lowerCase "b"] = [0, 1] := by
  unfold Unambiguous
  decide +kernel

end Registry

end CommandShell
