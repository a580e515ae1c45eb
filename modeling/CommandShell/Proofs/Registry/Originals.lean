import CommandShell.Proofs.Ending
import CommandShell.Proofs.Registry.Calls
import CommandShell.Shell.Description
import Mathlib.Data.List.Perm.Subperm

/-!
# What processors extend

A registry keeps twice what an extension stands on: in its slot, and as a link from the extension to
the processor that it extends.  A slot forgets an extension when it is unregistered, a link does
not.  So the two agree until a processor is registered again that was an extension before, or that
stands in a slot as one; then links may be left over, and even lead back to where they started.

## Main definitions

* `Registry.Leads`: following the links from a processor leads through some others and ends.
* `Registry.Reuses`: a call registers a processor whose links do not fit where it comes to stand.

## Main results

* `Leads.length_le`: a walk along links that ends is no longer than the list of links.
* `returns_basesOf`: a description lists what the links lead through.
* `agrees_call_iff`: links and slots agree after a call just where it reuses no processor.
* `bases_follow_slots_iff`: the same for sequences of calls.
-/

namespace CommandShell

variable {α : Type}

namespace Registry

variable {r r' : Registry α} {p q : Processor α} {l : List (Processor α)}

/-! ### Walks along links -/

/-- Following the links from a processor leads through some others, in order, and ends. -/
def Leads (r : Registry α) (p : Processor α) (l : List (Processor α)) : Prop :=
  ∀ count, r.basesOf count p = l.take count

theorem basesOf_succ_of_some {count : Nat} (h : r.base? p = some q) :
    r.basesOf (count + 1) p = q :: r.basesOf count q := by
  simp only [basesOf, h]

theorem basesOf_succ_of_none {count : Nat} (h : r.base? p = none) :
    r.basesOf (count + 1) p = [] := by
  simp only [basesOf, h]

/-- A walk without a step ends at once. -/
theorem leads_nil_iff : r.Leads p [] ↔ r.base? p = none := by
  constructor
  · intro h
    cases hb : r.base? p with
    | none => rfl
    | some q =>
      have hone := h 1
      rw [basesOf_succ_of_some hb] at hone
      cases hone
  · intro hb count
    cases count with
    | zero => rfl
    | succ count => rw [basesOf_succ_of_none hb, List.take_nil]

/-- A walk starts with the link of the processor. -/
theorem leads_cons_iff : r.Leads p (q :: l) ↔ r.base? p = some q ∧ r.Leads q l := by
  constructor
  · intro h
    cases hb : r.base? p with
    | none =>
      have hone := h 1
      rw [basesOf_succ_of_none hb] at hone
      cases hone
    | some b =>
      have hstep : ∀ count, b :: r.basesOf count b = q :: l.take count := by
        intro count
        rw [← basesOf_succ_of_some hb, h (count + 1), List.take_succ_cons]
      obtain ⟨rfl, -⟩ := List.cons.inj (hstep 0)
      exact ⟨rfl, fun count => (List.cons.inj (hstep count)).2⟩
  · rintro ⟨hb, h⟩ count
    cases count with
    | zero => rfl
    | succ count => rw [basesOf_succ_of_some hb, h count, List.take_succ_cons]

theorem base?_eq_of_key_eq (r : Registry α) (h : p.key = q.key) : r.base? p = r.base? q := by
  unfold base?
  rw [h]

theorem Leads.of_key_eq (h : r.Leads p l) (hkey : p.key = q.key) : r.Leads q l := by
  have hbase := r.base?_eq_of_key_eq hkey
  cases l with
  | nil => exact leads_nil_iff.mpr (hbase.symm.trans (leads_nil_iff.mp h))
  | cons b l =>
    obtain ⟨hb, hl⟩ := leads_cons_iff.mp h
    exact leads_cons_iff.mpr ⟨hbase.symm.trans hb, hl⟩

/-- A walk leads one way. -/
theorem Leads.unique {l' : List (Processor α)} (h : r.Leads p l) (h' : r.Leads p l') : l = l' := by
  have hlong := h (max l.length l'.length)
  rw [h' (max l.length l'.length), List.take_of_length_le (Nat.le_max_right ..),
    List.take_of_length_le (Nat.le_max_left ..)] at hlong
  exact hlong.symm

theorem Leads.of_append {above below : List (Processor α)} (h : r.Leads p (above ++ q :: below)) :
    r.Leads q below := by
  induction above generalizing p with
  | nil => exact (leads_cons_iff.mp h).2
  | cons b above ih => exact ih (leads_cons_iff.mp h).2

/-- A walk that ends never comes back to where it started. -/
theorem Leads.key_not_mem (h : r.Leads p l) : p.key ∉ l.map (·.key) := by
  intro hmem
  obtain ⟨q, hq, hkey⟩ := List.mem_map.mp hmem
  obtain ⟨above, below, rfl⟩ := List.append_of_mem hq
  -- From there it would go on as from the start, and be shorter than itself.
  have hagain : above ++ q :: below = below := h.unique (h.of_append.of_key_eq hkey)
  have hlength := congrArg List.length hagain
  simp only [List.length_append, List.length_cons] at hlength
  omega

theorem Leads.nodup_keys (h : r.Leads p l) : ((p :: l).map (·.key)).Nodup := by
  induction l generalizing p with
  | nil => exact List.nodup_cons.mpr ⟨List.not_mem_nil, List.nodup_nil⟩
  | cons q l ih =>
    rw [List.map_cons, List.nodup_cons]
    exact ⟨h.key_not_mem, ih (leads_cons_iff.mp h).2⟩

theorem mem_keys_of_base?_eq_some (h : r.base? p = some q) : p.key ∈ r.bases.map (·.1) := by
  obtain ⟨e, he, -⟩ := Option.map_eq_some_iff.mp h
  have hkey : e.1 = p.key := by simpa using List.find?_some he
  rw [← hkey]
  exact List.mem_map_of_mem (List.mem_of_find?_eq_some he)

/-- Every processor of a walk but the last one has a link. -/
theorem Leads.keys_subset (h : r.Leads p l) :
    (p :: l).dropLast.map (·.key) ⊆ r.bases.map (·.1) := by
  induction l generalizing p with
  | nil => exact List.nil_subset _
  | cons q l ih =>
    obtain ⟨hb, hl⟩ := leads_cons_iff.mp h
    rw [List.dropLast_cons_cons, List.map_cons]
    exact List.cons_subset.mpr ⟨mem_keys_of_base?_eq_some hb, ih hl⟩

/-- A walk that ends takes each link once at most. -/
theorem Leads.length_le (h : r.Leads p l) : l.length ≤ r.bases.length := by
  have hnodup : ((p :: l).dropLast.map (·.key)).Nodup :=
    h.nodup_keys.sublist ((List.dropLast_sublist _).map _)
  have hle := (List.subperm_of_subset hnodup h.keys_subset).length_le
  simpa using hle

/-- A walk along links that does not end goes on for as long as one likes. -/
theorem length_basesOf (h : ¬ ∃ l, r.Leads p l) (count : Nat) :
    (r.basesOf count p).length = count := by
  induction count generalizing p with
  | zero => rfl
  | succ count ih =>
    cases hb : r.base? p with
    | none => exact absurd ⟨[], leads_nil_iff.mpr hb⟩ h
    | some q =>
      have hq : ¬ ∃ l, r.Leads q l := fun ⟨l, hl⟩ => h ⟨q :: l, leads_cons_iff.mpr ⟨hb, hl⟩⟩
      rw [basesOf_succ_of_some hb, List.length_cons, ih hq]

/-- A description lists what the links lead through. -/
theorem returns_basesOf {r : Registry Action} {p : ShellProcessor} {l : List ShellProcessor}
    {s : Session} (h : r.Leads p l) (hs : s.registry = r) :
    Returns (Run.basesOf p) s l s := by
  subst hs
  have hall : s.registry.basesOf (s.registry.bases.length + 1) p = l := by
    rw [h, List.take_of_length_le (Nat.le_succ_of_le h.length_le)]
  show (if (s.registry.basesOf (s.registry.bases.length + 1) p).length ≤ s.registry.bases.length
    then (pure _ : Run _) else _) s = _
  rw [hall, if_pos h.length_le]
  rfl

/-! ### Links and slots -/

/-- Links and slots agree: the links from the current processor of a slot lead through the
processors below it, and the links from every processor come to an end. -/
structure Agrees (r : Registry α) : Prop where
  /-- What the links from a current processor lead through. -/
  slots : ∀ s ∈ r.slots, r.Leads s.current s.below
  /-- All walks end. -/
  ends : ∀ p, ∃ l, r.Leads p l

/-- A call registers a processor whose links do not fit where it comes to stand. -/
inductive Reuses (r : Registry α) : Call α → Prop where
  /-- It extends nothing there, but was an extension before. -/
  | asBottom {q : Processor α} :
      (r.register q).2 = .added ∨ (r.register q).2 = .replaced → r.base? q ≠ none →
      Reuses r (.register q)
  /-- It stands in the slot already that it extends. -/
  | onItself {q : Processor α} {pre post : List (Slot α)} {s : Slot α} :
      (r.register q).2 = .extended → r.MeetsFirst q.names pre s post →
      q.key ∈ s.chain.map (·.key) → Reuses r (.register q)
  /-- It stands in another slot, and does not extend the same processor there. -/
  | elsewhere {q : Processor α} {pre post : List (Slot α)} {s t : Slot α} :
      (r.register q).2 = .extended → r.MeetsFirst q.names pre s post → t ∈ pre ++ post →
      q.key ∈ t.chain.map (·.key) → r.base? q ≠ some s.current → Reuses r (.register q)

/-- Walks depend on links only. -/
theorem leads_congr (h : ∀ p, r'.base? p = r.base? p) : r'.Leads p l ↔ r.Leads p l := by
  induction l generalizing p with
  | nil => rw [leads_nil_iff, leads_nil_iff, h]
  | cons q l ih => rw [leads_cons_iff, leads_cons_iff, h, ih]

theorem base?_eq_of_bases_eq (h : r'.bases = r.bases) (p : Processor α) :
    r'.base? p = r.base? p := by
  unfold base?
  rw [h]

theorem base?_of_bases_cons {k : Nat} {b : Processor α} (h : r'.bases = (k, b) :: r.bases)
    (p : Processor α) : r'.base? p = if k = p.key then some b else r.base? p := by
  unfold base?
  rw [h, List.find?_cons]
  by_cases hk : k = p.key
  · simp [hk]
  · simp [hk, beq_eq_false_iff_ne.mpr hk]

/-- A walk that does not pass a new link stays. -/
theorem leads_of_bases_cons {k : Nat} {b : Processor α} (h : r'.bases = (k, b) :: r.bases)
    (hk : k ∉ (p :: l).map (·.key)) : r'.Leads p l ↔ r.Leads p l := by
  induction l generalizing p with
  | nil =>
    have hp : k ≠ p.key := by simpa using hk
    rw [leads_nil_iff, leads_nil_iff, base?_of_bases_cons h, if_neg hp]
  | cons q l ih =>
    rw [List.map_cons, List.mem_cons, not_or] at hk
    rw [leads_cons_iff, leads_cons_iff, base?_of_bases_cons h, if_neg hk.1, ih hk.2]

/-- A walk that comes to a new link goes on as that does. -/
theorem exists_leads_of_bases_cons {b : Processor α} {below : List (Processor α)}
    (h : r'.bases = (q.key, b) :: r.bases) (hq : r'.Leads q below) (hp : r.Leads p l) :
    ∃ l', r'.Leads p l' := by
  induction l generalizing p with
  | nil =>
    by_cases hk : q.key = p.key
    · exact ⟨below, hq.of_key_eq hk⟩
    · refine ⟨[], leads_nil_iff.mpr ?_⟩
      rw [base?_of_bases_cons h, if_neg hk]
      exact leads_nil_iff.mp hp
  | cons x l ih =>
    by_cases hk : q.key = p.key
    · exact ⟨below, hq.of_key_eq hk⟩
    · obtain ⟨hx, hl⟩ := leads_cons_iff.mp hp
      obtain ⟨l', hl'⟩ := ih hl
      refine ⟨x :: l', leads_cons_iff.mpr ⟨?_, hl'⟩⟩
      rw [base?_of_bases_cons h, if_neg hk]
      exact hx

/-- Links and slots agree in a registry with the same links whose slots lead as their links do. -/
theorem Agrees.of_bases_eq (h : r.Agrees) (hbases : r'.bases = r.bases)
    (hslots : ∀ s ∈ r'.slots, r.Leads s.current s.below) : r'.Agrees := by
  have hbase := base?_eq_of_bases_eq hbases
  refine ⟨fun s hs => (leads_congr hbase).mpr (hslots s hs), fun p => ?_⟩
  obtain ⟨l, hl⟩ := h.ends p
  exact ⟨l, (leads_congr hbase).mpr hl⟩

/-- A processor at the bottom of a new slot has no link. -/
theorem Agrees.base?_eq_none (h : r'.Agrees) (hs : ⟨q, []⟩ ∈ r'.slots)
    (hbases : r'.bases = r.bases) : r.base? q = none := by
  rw [← base?_eq_of_bases_eq hbases]
  exact leads_nil_iff.mp (h.slots _ hs)

section Extended

variable {pre post : List (Slot α)} {s t : Slot α}

/-- An extension that stands in the slot already that it extends leads back to itself. -/
theorem Agrees.key_not_mem_chain (h : r'.Agrees) (hslots : r'.slots = pre ++ ⟨q, s.chain⟩ :: post) :
    q.key ∉ s.chain.map (·.key) := by
  have hmem : (⟨q, s.chain⟩ : Slot α) ∈ r'.slots := by
    rw [hslots]
    exact List.mem_append_right _ List.mem_cons_self
  exact (h.slots _ hmem).key_not_mem

/-- Where an extension stands in another slot as well, both have to agree with its one link. -/
theorem Agrees.base?_eq_some (h : r.Agrees) (h' : r'.Agrees) (ht : t ∈ r.slots) (ht' : t ∈ r'.slots)
    (hbases : r'.bases = (q.key, s.current) :: r.bases) (hk : q.key ∈ t.chain.map (·.key)) :
    r.base? q = some s.current := by
  obtain ⟨x, hx, hkey⟩ := List.mem_map.mp hk
  -- The walk from the place of the extension in that slot is the same before and after.
  have hsame : ∃ l, r.Leads x l ∧ r'.Leads x l := by
    rcases List.mem_cons.mp hx with rfl | hbelow
    · exact ⟨t.below, h.slots t ht, h'.slots t ht'⟩
    · obtain ⟨above, below, habove⟩ := List.append_of_mem hbelow
      have hl := h.slots t ht
      have hl' := h'.slots t ht'
      rw [habove] at hl hl'
      exact ⟨below, hl.of_append, hl'.of_append⟩
  obtain ⟨l, hl, hl'⟩ := hsame
  have hlink : r'.base? q = some s.current := by rw [base?_of_bases_cons hbases, if_pos rfl]
  cases l with
  | nil =>
    have hnone := leads_nil_iff.mp (hl'.of_key_eq hkey)
    rw [hlink] at hnone
    cases hnone
  | cons b l =>
    have hb := (leads_cons_iff.mp (hl.of_key_eq hkey)).1
    have hb' := (leads_cons_iff.mp (hl'.of_key_eq hkey)).1
    rw [hlink] at hb'
    rw [hb, hb']

/-- An extension that stands nowhere in its slot, and extends the same processor wherever else it
stands, keeps links and slots in agreement. -/
theorem Agrees.extend (h : r.Agrees) (hslots : r.slots = pre ++ s :: post)
    (hslots' : r'.slots = pre ++ ⟨q, s.chain⟩ :: post)
    (hbases : r'.bases = (q.key, s.current) :: r.bases) (hself : q.key ∉ s.chain.map (·.key))
    (hothers : ∀ t ∈ pre ++ post, q.key ∈ t.chain.map (·.key) → r.base? q = some s.current) :
    r'.Agrees := by
  have hs : r.Leads s.current s.below := h.slots s (by rw [hslots]; simp)
  have hq : r'.Leads q s.chain := by
    refine leads_cons_iff.mpr ⟨?_, (leads_of_bases_cons hbases hself).mpr hs⟩
    rw [base?_of_bases_cons hbases, if_pos rfl]
  refine ⟨fun t ht => ?_, fun p => ?_⟩
  · rw [hslots', mem_cut_iff] at ht
    rcases ht with rfl | ht
    · exact hq
    · have hl : r.Leads t.current t.below := by
        refine h.slots t ?_
        rw [hslots]
        exact mem_cut_iff.mpr (Or.inr ht)
      by_cases hk : q.key ∈ t.chain.map (·.key)
      -- The new link says what the old one said, so all walks stay.
      · have hbase : ∀ p, r'.base? p = r.base? p := by
          intro p
          rw [base?_of_bases_cons hbases]
          by_cases hp : q.key = p.key
          · rw [if_pos hp, ← r.base?_eq_of_key_eq hp, hothers t ht hk]
          · rw [if_neg hp]
        exact (leads_congr hbase).mpr hl
      · exact (leads_of_bases_cons hbases hk).mpr hl
  · obtain ⟨l, hl⟩ := h.ends p
    exact exists_leads_of_bases_cons hbases hq hl

end Extended

theorem reuses_bottom_iff (ho : (r.register q).2 = .added ∨ (r.register q).2 = .replaced) :
    r.Reuses (.register q) ↔ r.base? q ≠ none := by
  constructor
  · intro h
    cases h with
    | asBottom _ hb => exact hb
    | onItself hext => rw [hext] at ho; rcases ho with ho | ho <;> cases ho
    | elsewhere hext => rw [hext] at ho; rcases ho with ho | ho <;> cases ho
  · exact .asBottom ho

/-- An extension is reused if it stands in its slot already, or in another one where it extends
another processor. -/
theorem reuses_extended_iff {pre post : List (Slot α)} {s : Slot α}
    (ho : (r.register q).2 = .extended) (hm : r.MeetsFirst q.names pre s post) :
    r.Reuses (.register q) ↔ q.key ∈ s.chain.map (·.key) ∨
      ∃ t ∈ pre ++ post, q.key ∈ t.chain.map (·.key) ∧ r.base? q ≠ some s.current := by
  constructor
  · intro h
    cases h with
    | asBottom hbottom => rw [ho] at hbottom; rcases hbottom with hb | hb <;> cases hb
    | onItself _ hm' hself =>
      obtain ⟨rfl, rfl, rfl⟩ := hm.unique hm'
      exact Or.inl hself
    | elsewhere _ hm' ht hk hb =>
      obtain ⟨rfl, rfl, rfl⟩ := hm.unique hm'
      exact Or.inr ⟨_, ht, hk, hb⟩
  · rintro (hself | ⟨t, ht, hk, hb⟩)
    · exact .onItself ho hm hself
    · exact .elsewhere ho hm ht hk hb

theorem not_reuses_of_not_accepted (ho : (r.register q).2.accepted = false) :
    ¬ r.Reuses (.register q) := by
  intro h
  cases h with
  | asBottom hbottom => rcases hbottom with hb | hb <;> rw [hb] at ho <;> cases ho
  | onItself hext => rw [hext] at ho; cases ho
  | elsewhere hext => rw [hext] at ho; cases ho

/-- Where links and slots agree, they do so after a registration just where it reuses nothing. -/
theorem agrees_register_iff (h : r.Agrees) (q : Processor α) :
    (r.register q).1.Agrees ↔ ¬ r.Reuses (.register q) := by
  obtain ⟨o, r', hreg, hr⟩ := r.exists_registers q
  have ho : (r.register q).2 = o := by rw [hreg]
  have hslots := h.slots
  rw [hreg]
  -- What is reused depends on where the processor comes to stand: at the bottom of a slot, or on
  -- top of one.
  cases hr with
  | added hfree =>
    rw [reuses_bottom_iff (Or.inl ho), not_not]
    constructor
    · intro h'
      exact h'.base?_eq_none (by simp) rfl
    · intro hnone
      refine h.of_bases_eq rfl ?_
      rw [List.forall_mem_append, List.forall_mem_singleton]
      exact ⟨hslots, leads_nil_iff.mpr hnone⟩
  | replaced hm =>
    rw [reuses_bottom_iff (Or.inr ho), not_not]
    constructor
    · intro h'
      exact h'.base?_eq_none (by simp) rfl
    · intro hnone
      rw [hm.slots, List.forall_mem_append, List.forall_mem_cons] at hslots
      refine h.of_bases_eq rfl ?_
      rw [List.forall_mem_append, List.forall_mem_cons]
      exact ⟨hslots.1, leads_nil_iff.mpr hnone, hslots.2.2⟩
  | @extended pre post s hm =>
    rw [reuses_extended_iff ho hm.toMeetsFirst]
    constructor
    · rintro h' (hself | ⟨t, ht, hk, hb⟩)
      · exact h'.key_not_mem_chain rfl hself
      · have hbefore : t ∈ r.slots := by
          rw [hm.slots]
          exact mem_cut_iff.mpr (Or.inr ht)
        exact hb (h.base?_eq_some h' hbefore (mem_cut_iff.mpr (Or.inr ht)) rfl hk)
    · intro hreuse
      rw [not_or] at hreuse
      refine h.extend hm.slots rfl rfl hreuse.1 fun t ht hk => ?_
      by_contra hb
      exact hreuse.2 ⟨t, ht, hk, hb⟩
  | refused =>
    have hnot := not_reuses_of_not_accepted (r := r) (q := q) (by rw [ho]; rfl)
    exact ⟨fun _ => hnot, fun _ => h.of_bases_eq rfl hslots⟩
  | collides =>
    have hnot := not_reuses_of_not_accepted (r := r) (q := q) (by rw [ho]; rfl)
    exact ⟨fun _ => hnot, fun _ => h⟩

theorem Agrees.unregister (h : r.Agrees) (name : String) : (r.unregister name).1.Agrees := by
  obtain ⟨o, r', hun, hr⟩ := r.exists_unregisters name
  have hslots := h.slots
  rw [hun]
  cases hr with
  | absent => exact h
  | restored hm =>
    rw [hm.slots, List.forall_mem_append, List.forall_mem_cons] at hslots
    refine h.of_bases_eq rfl ?_
    rw [List.forall_mem_append, List.forall_mem_cons]
    exact ⟨hslots.1, (leads_cons_iff.mp hslots.2.1).2, hslots.2.2⟩
  | refused => exact h
  | removed hm =>
    rw [hm.slots, List.forall_mem_append, List.forall_mem_cons] at hslots
    refine h.of_bases_eq rfl ?_
    rw [List.forall_mem_append]
    exact ⟨hslots.1, hslots.2.2⟩

theorem agrees_call_iff (c : Call α) (h : r.Agrees) : (r.call c).Agrees ↔ ¬ r.Reuses c := by
  cases c with
  | register q => exact agrees_register_iff h q
  | unregister name =>
    constructor
    · intro _ hreuse
      cases hreuse
    · intro _
      exact h.unregister name

theorem agrees_empty : ({} : Registry α).Agrees where
  slots := fun _ hs => absurd hs List.not_mem_nil
  ends := fun _ => ⟨[], leads_nil_iff.mpr rfl⟩

/-- All along a sequence of calls, what the current processor of a slot extends are the processors
below it, and a description of any processor lists what it extends and comes to an end, just where
none of the calls reuses a processor. -/
theorem bases_follow_slots_iff (cs : List (Call Action)) :
    (∀ done, done <+: cs →
        (∀ s ∈ (after {} done).slots, (after {} done).Leads s.current s.below) ∧
          ∀ p session, session.registry = after {} done →
            ∃ l, (after {} done).Leads p l ∧ Returns (Run.basesOf p) session l session) ↔
      EachCall (fun r c => ¬ r.Reuses c) {} cs := by
  rw [← eachCall_iff_forall_prefix (fun r c h => agrees_call_iff c h) agrees_empty]
  constructor
  · intro h done hdone
    obtain ⟨hslots, hends⟩ := h done hdone
    refine ⟨hslots, fun p => ?_⟩
    obtain ⟨l, hl, -⟩ := hends p
      { registry := after {} done, locations := { home := [], working := [] } } rfl
    exact ⟨l, hl⟩
  · intro h done hdone
    refine ⟨(h done hdone).slots, fun p session hsession => ?_⟩
    obtain ⟨l, hl⟩ := (h done hdone).ends p
    exact ⟨l, hl, returns_basesOf hl hsession⟩

/-- Two extensions of a command. -/
def firstExtension : ShellProcessor :=
  (Processor.bare 0 "x").asExtension

/-- The other one of the two. -/
def secondExtension : ShellProcessor :=
  (Processor.bare 1 "x").asExtension

/-- Two extensions that are registered, unregistered, and registered in the other order. -/
def swappedExtensions : List (Call Action) :=
  [.register firstExtension, .register secondExtension, .unregister "x", .unregister "x",
    .register secondExtension, .register firstExtension]

/-- The links of the two extensions lead from each to the other, though one stands on the other in
the slot, and a description of them does not end. -/
theorem swapped_extensions_never_end :
    (after {} swappedExtensions).slots = [⟨firstExtension, [secondExtension]⟩] ∧
      (∀ l, ¬ (after {} swappedExtensions).Leads firstExtension l) ∧
      ∀ session, session.registry = after {} swappedExtensions →
        Stops (Run.basesOf firstExtension) session .unfinished session := by
  have hfirst : (after {} swappedExtensions).base? firstExtension = some secondExtension := rfl
  have hsecond : (after {} swappedExtensions).base? secondExtension = some firstExtension := rfl
  refine ⟨rfl, fun l hl => ?_, fun session hsession => ?_⟩
  · cases l with
    | nil =>
      rw [leads_nil_iff.mp hl] at hfirst
      cases hfirst
    | cons b l =>
      obtain ⟨hb, hl'⟩ := leads_cons_iff.mp hl
      obtain rfl : secondExtension = b := Option.some.inj (hfirst.symm.trans hb)
      cases l with
      | nil =>
        rw [leads_nil_iff.mp hl'] at hsecond
        cases hsecond
      | cons c l =>
        obtain ⟨hc, -⟩ := leads_cons_iff.mp hl'
        obtain rfl : firstExtension = c := Option.some.inj (hsecond.symm.trans hc)
        -- The walk comes back to where it started.
        exact hl.key_not_mem (by simp)
  · obtain ⟨⟩ := session
    cases hsession
    rfl

end Registry

end CommandShell
