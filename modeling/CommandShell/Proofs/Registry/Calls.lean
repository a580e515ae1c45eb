import CommandShell.Processor.Registry

/-!
# Calls on a registry

A registry is changed by registering and unregistering processors.  Here each change is taken apart
by what it meets: the slots are cut at the slot that answers to the names, and every outcome says
what becomes of that slot, while all others stay.

## Main definitions

* `Registry.MeetsFirst`, `Registry.MeetsOnly`: where the slots are cut.
* `Registry.Registers`, `Registry.Unregisters`: what a change does, one case for each outcome.
* `Registry.Call`, `Registry.after`: changes, and the registry after a sequence of them.
* `Registry.EachCall`: what holds of every call in the registry that it meets.

## Main results

* `exists_registers`, `exists_unregisters`: a change does what one of the cases says.
* `unregister_of_below`: unregistering an extension brings back what it extends.
* `eachCall_iff_forall_prefix`: a property of registries that only some calls break holds all along
  a sequence just where none of these calls is in it.
-/

namespace CommandShell

variable {α : Type}

/-- Whether the current processor of a slot answers to one of some names, which are in lower
case. -/
def Slot.meets (names : List String) (s : Slot α) : Bool :=
  s.current.names.any names.contains

theorem Slot.meets_eq_true_iff {names : List String} {s : Slot α} :
    s.meets names = true ↔ ∃ name ∈ s.current.names, name ∈ names := by
  unfold meets
  rw [List.any_eq_true]
  simp only [List.contains_iff_mem]

theorem Slot.meets_eq_false_iff {names : List String} {s : Slot α} :
    s.meets names = false ↔ ∀ name ∈ s.current.names, name ∉ names := by
  rw [Bool.eq_false_iff, Ne, meets_eq_true_iff]
  exact ⟨fun h name hs hn => h ⟨name, hs, hn⟩, fun h ⟨name, hs, hn⟩ => h name hs hn⟩

theorem Processor.lowerCase_command_mem_names (p : Processor α) :
    lowerCase p.command ∈ p.names :=
  List.mem_cons_self

/-- A processor that declares nothing but a command. -/
def Processor.bare (key : Nat) (command : String) : Processor α where
  key := key
  decl := { command := command, label := command, handler := .help }
  children := []

/-- A processor that answers to one more name. -/
def Processor.withAlias (p : Processor α) (name : String) : Processor α :=
  { p with decl := { p.decl with aliases := name :: p.decl.aliases } }

/-- A processor as an extension. -/
def Processor.asExtension (p : Processor α) : Processor α :=
  { p with decl := { p.decl with isExtension := true } }

/-- A processor as a sealed one. -/
def Processor.asSealed (p : Processor α) : Processor α :=
  { p with decl := { p.decl with metadata := some { sealed := true } } }

namespace Registry

variable {r r' : Registry α} {names : List String} {pre post : List (Slot α)} {s : Slot α}
  {q : Processor α}

/-! ### Where the slots are cut -/

/-- The slots are cut at the first one that answers to one of some names. -/
structure MeetsFirst (r : Registry α) (names : List String) (pre : List (Slot α)) (s : Slot α)
    (post : List (Slot α)) : Prop where
  /-- The slots with the cut. -/
  slots : r.slots = pre ++ s :: post
  /-- The slot at the cut answers. -/
  meets : s.meets names = true
  /-- No slot before it does. -/
  before : ∀ t ∈ pre, t.meets names = false

/-- The slots are cut at the only one that answers to one of some names. -/
structure MeetsOnly (r : Registry α) (names : List String) (pre : List (Slot α)) (s : Slot α)
    (post : List (Slot α)) : Prop extends MeetsFirst r names pre s post where
  /-- No slot behind it does. -/
  behind : ∀ t ∈ post, t.meets names = false

/-- A slot stands at the cut or in one of the two parts. -/
theorem mem_cut_iff {t : Slot α} : t ∈ pre ++ s :: post ↔ t = s ∨ t ∈ pre ++ post := by
  simp only [List.mem_append, List.mem_cons, or_left_comm]

theorem MeetsFirst.takeWhile_eq (h : r.MeetsFirst names pre s post) :
    r.slots.takeWhile (!Slot.meets names ·) = pre := by
  have hpre : ∀ t ∈ pre, (!Slot.meets names t) = true := by
    intro t ht
    rw [h.before t ht]
    rfl
  rw [h.slots, List.takeWhile_append_of_pos hpre, List.takeWhile_cons_of_neg (by simp [h.meets]),
    List.append_nil]

/-- There is one way to cut the slots at the first that answers. -/
theorem MeetsFirst.unique {pre' post' : List (Slot α)} {s' : Slot α}
    (h : r.MeetsFirst names pre s post) (h' : r.MeetsFirst names pre' s' post') :
    pre = pre' ∧ s = s' ∧ post = post' := by
  obtain rfl : pre = pre' := h.takeWhile_eq.symm.trans h'.takeWhile_eq
  have hrest : s :: post = s' :: post' := List.append_cancel_left (h.slots.symm.trans h'.slots)
  exact ⟨rfl, List.cons.inj hrest⟩

/-- The slots can be cut at the first that answers, if one does. -/
theorem meets_none_or_first (r : Registry α) (names : List String) :
    (∀ s ∈ r.slots, s.meets names = false) ∨ ∃ pre s post, r.MeetsFirst names pre s post := by
  cases h : r.slots.find? (Slot.meets names) with
  | none =>
    left
    intro s hs
    simpa using List.find?_eq_none.mp h s hs
  | some s =>
    right
    obtain ⟨hs, pre, post, hslots, hpre⟩ := List.find?_eq_some_iff_append.mp h
    exact ⟨pre, s, post, hslots, hs, fun t ht => by simpa using hpre t ht⟩

/-! ### Positions -/

/-- The positions, counted from `n`, of those slots in a list that answer to one of some names. -/
def positionsFrom (names : List String) (n : Nat) (slots : List (Slot α)) : List Nat :=
  ((slots.zipIdx n).filter fun s => s.1.meets names).map (·.2)

theorem positions_eq_positionsFrom (r : Registry α) (names : List String) :
    r.positions names = positionsFrom names 0 r.slots :=
  rfl

theorem positionsFrom_append (names : List String) (n : Nat) (pre post : List (Slot α)) :
    positionsFrom names n (pre ++ post) =
      positionsFrom names n pre ++ positionsFrom names (n + pre.length) post := by
  simp only [positionsFrom, List.zipIdx_append, List.filter_append, List.map_append]

theorem positionsFrom_cons_of_meets (n : Nat) (h : s.meets names = true) :
    positionsFrom names n (s :: post) = n :: positionsFrom names (n + 1) post := by
  simp [positionsFrom, List.zipIdx_cons, h]

theorem positionsFrom_eq_nil_iff {n : Nat} {slots : List (Slot α)} :
    positionsFrom names n slots = [] ↔ ∀ s ∈ slots, s.meets names = false := by
  induction slots generalizing n with
  | nil => simp [positionsFrom]
  | cons s slots ih =>
    cases hs : s.meets names with
    | true => simp [positionsFrom_cons_of_meets n hs, hs]
    | false =>
      have hcons : positionsFrom names n (s :: slots) = positionsFrom names (n + 1) slots := by
        simp [positionsFrom, List.zipIdx_cons, hs]
      rw [hcons, ih, List.forall_mem_cons]
      simp [hs]

theorem positions_eq_nil_iff :
    r.positions names = [] ↔ ∀ s ∈ r.slots, s.meets names = false := by
  rw [positions_eq_positionsFrom, positionsFrom_eq_nil_iff]

theorem MeetsFirst.positions_eq (h : r.MeetsFirst names pre s post) :
    r.positions names = pre.length :: positionsFrom names (pre.length + 1) post := by
  rw [positions_eq_positionsFrom, h.slots, positionsFrom_append,
    positionsFrom_eq_nil_iff.mpr h.before, positionsFrom_cons_of_meets _ h.meets]
  simp

theorem MeetsFirst.getElem?_eq (h : r.MeetsFirst names pre s post) :
    r.slots[pre.length]? = some s := by
  rw [h.slots, List.getElem?_append_right (Nat.le_refl _), Nat.sub_self]
  rfl

theorem MeetsFirst.set_eq (h : r.MeetsFirst names pre s post) (t : Slot α) :
    r.slots.set pre.length t = pre ++ t :: post := by
  rw [h.slots, List.set_append_right _ _ (Nat.le_refl _), Nat.sub_self]
  rfl

theorem MeetsFirst.eraseIdx_eq (h : r.MeetsFirst names pre s post) :
    r.slots.eraseIdx pre.length = pre ++ post := by
  rw [h.slots, List.eraseIdx_append_of_length_le (Nat.le_refl _), Nat.sub_self]
  rfl

/-! ### Changes -/

/-- What registering a processor does, by its outcome. -/
inductive Registers (r : Registry α) (q : Processor α) : Registration → Registry α → Prop where
  /-- No slot answers to its names: it gets a slot of its own. -/
  | added : (∀ s ∈ r.slots, s.meets q.names = false) →
      Registers r q .added { r.link q with slots := r.slots ++ [⟨q, []⟩] }
  /-- It takes the place of the processor that answers, and of all that this one extends. -/
  | replaced {pre post : List (Slot α)} {s : Slot α} :
      r.MeetsOnly q.names pre s post → q.decl.isExtension = false → s.current.isSealed = false →
      Registers r q .replaced { r.link q with slots := pre ++ ⟨q, []⟩ :: post }
  /-- It is put on top of the slot that answers. -/
  | extended {pre post : List (Slot α)} {s : Slot α} :
      r.MeetsOnly q.names pre s post → q.decl.isExtension = true →
      Registers r q .extended
        { r.link q with
          slots := pre ++ ⟨q, s.chain⟩ :: post
          bases := (q.key, s.current) :: r.bases }
  /-- The processor that answers is sealed.  Only the links below the refused one are written. -/
  | refused {pre post : List (Slot α)} {s : Slot α} :
      r.MeetsOnly q.names pre s post → q.decl.isExtension = false → s.current.isSealed = true →
      Registers r q .sealed (r.link q)
  /-- Several slots answer to its names. -/
  | collides {pre post : List (Slot α)} {s t : Slot α} {commands : List String} :
      r.MeetsFirst q.names pre s post → t ∈ post → t.meets q.names = true →
      Registers r q (.collides commands) r

/-- What unregistering under a name does, by its outcome. -/
inductive Unregisters (r : Registry α) (name : String) : Removal → Registry α → Prop where
  /-- No slot answers to the name. -/
  | absent : (∀ s ∈ r.slots, s.meets [lowerCase name] = false) → Unregisters r name .absent r
  /-- The processor that answers leaves the one that it extends in its place. -/
  | restored {pre post : List (Slot α)} {e b : Processor α} {rest : List (Processor α)} :
      r.MeetsFirst [lowerCase name] pre ⟨e, b :: rest⟩ post →
      Unregisters r name .restored { r with slots := pre ++ ⟨b, rest⟩ :: post }
  /-- The processor that answers is sealed and extends none. -/
  | refused {pre post : List (Slot α)} {p : Processor α} :
      r.MeetsFirst [lowerCase name] pre ⟨p, []⟩ post → p.isSealed = true →
      Unregisters r name .sealed r
  /-- The slot of the processor that answers is closed. -/
  | removed {pre post : List (Slot α)} {p : Processor α} :
      r.MeetsFirst [lowerCase name] pre ⟨p, []⟩ post → p.isSealed = false →
      Unregisters r name .removed { r with slots := pre ++ post }

/-- If a slot behind the first that answers does so too, the registration collides. -/
theorem register_of_meets_two {t : Slot α} (h : r.MeetsFirst q.names pre s post) (ht : t ∈ post)
    (hm : t.meets q.names = true) :
    ∃ commands, r.register q = (r, .collides commands) := by
  obtain ⟨mid, rest, rfl⟩ := List.append_of_mem ht
  -- There are two positions at least.
  have hpositions : ∃ j more, r.positions q.names = pre.length :: j :: more := by
    rw [h.positions_eq, positionsFrom_append, positionsFrom_cons_of_meets _ hm]
    cases positionsFrom q.names (pre.length + 1) mid with
    | nil => exact ⟨_, _, rfl⟩
    | cons j more => exact ⟨_, _, rfl⟩
  obtain ⟨j, more, hpositions⟩ := hpositions
  unfold register
  rw [hpositions]
  exact ⟨_, rfl⟩

/-- A registration does what the case of its outcome says. -/
theorem exists_registers (r : Registry α) (q : Processor α) :
    ∃ o r', r.register q = (r', o) ∧ Registers r q o r' := by
  rcases r.meets_none_or_first q.names with hfree | ⟨pre, s, post, h⟩
  · have hreg : r.register q = ({ r.link q with slots := r.slots ++ [⟨q, []⟩] }, .added) := by
      unfold register
      rw [positions_eq_nil_iff.mpr hfree]
      rfl
    exact ⟨_, _, hreg, .added hfree⟩
  · cases hpost : post.any (Slot.meets q.names) with
    | false =>
      -- The slot is the only one that answers, and its processor decides what happens.
      have honly : r.MeetsOnly q.names pre s post :=
        ⟨h, fun t ht => by simpa using List.any_eq_false.mp hpost t ht⟩
      have hpositions : r.positions q.names = [pre.length] := by
        rw [h.positions_eq, positionsFrom_eq_nil_iff.mpr honly.behind]
      have hslot : (r.link q).slots[pre.length]? = some s := h.getElem?_eq
      have hset : ∀ t, (r.link q).slots.set pre.length t = pre ++ t :: post := h.set_eq
      cases hext : q.decl.isExtension with
      | true =>
        have hreg : r.register q = ({ r.link q with
            slots := pre ++ ⟨q, s.chain⟩ :: post
            bases := (q.key, s.current) :: r.bases }, .extended) := by
          unfold register
          simp only [hpositions, hslot, hext, if_true, setSlot, hset]
          rfl
        exact ⟨_, _, hreg, .extended honly hext⟩
      | false =>
        cases hsealed : s.current.isSealed with
        | true =>
          have hreg : r.register q = (r.link q, .sealed) := by
            unfold register
            simp only [hpositions, hslot, hext, hsealed, if_true, Bool.false_eq_true, if_false]
          exact ⟨_, _, hreg, .refused honly hext hsealed⟩
        | false =>
          have hreg : r.register q =
              ({ r.link q with slots := pre ++ ⟨q, []⟩ :: post }, .replaced) := by
            unfold register
            simp only [hpositions, hslot, hext, hsealed, Bool.false_eq_true, if_false, setSlot,
              hset]
          exact ⟨_, _, hreg, .replaced honly hext hsealed⟩
    | true =>
      obtain ⟨t, ht, hm⟩ := List.any_eq_true.mp hpost
      obtain ⟨commands, hreg⟩ := register_of_meets_two h ht hm
      exact ⟨_, _, hreg, .collides h ht hm⟩

/-- Unregistering an extension brings back the processor that it extends. -/
theorem unregister_of_below {name : String} {e b : Processor α} {rest : List (Processor α)}
    (h : r.MeetsFirst [lowerCase name] pre ⟨e, b :: rest⟩ post) :
    r.unregister name = ({ r with slots := pre ++ ⟨b, rest⟩ :: post }, .restored) := by
  unfold unregister
  simp only [h.positions_eq, h.getElem?_eq, setSlot, h.set_eq]

theorem exists_unregisters (r : Registry α) (name : String) :
    ∃ o r', r.unregister name = (r', o) ∧ Unregisters r name o r' := by
  rcases r.meets_none_or_first [lowerCase name] with hfree | ⟨pre, ⟨p, below⟩, post, h⟩
  · have hun : r.unregister name = (r, .absent) := by
      unfold unregister
      rw [positions_eq_nil_iff.mpr hfree]
    exact ⟨_, _, hun, .absent hfree⟩
  · cases below with
    | cons b rest =>
      exact ⟨_, _, unregister_of_below h, .restored h⟩
    | nil =>
      cases hsealed : p.isSealed with
      | true =>
        have hun : r.unregister name = (r, .sealed) := by
          unfold unregister
          simp only [h.positions_eq, h.getElem?_eq, hsealed, if_true]
        exact ⟨_, _, hun, .refused h hsealed⟩
      | false =>
        have hun : r.unregister name = ({ r with slots := pre ++ post }, .removed) := by
          unfold unregister
          simp only [h.positions_eq, h.getElem?_eq, hsealed, Bool.false_eq_true, if_false,
            h.eraseIdx_eq]
        exact ⟨_, _, hun, .removed h hsealed⟩

/-! ### Sequences of calls -/

/-- A call that changes a registry. -/
inductive Call (α : Type) where
  /-- Registers a processor, which may have been registered before. -/
  | register (q : Processor α)
  /-- Unregisters the processor that answers to a name. -/
  | unregister (name : String)

/-- The registry after a call. -/
def call (r : Registry α) : Call α → Registry α
  | .register q => (r.register q).1
  | .unregister name => (r.unregister name).1

/-- The registry after a sequence of calls. -/
def after (r : Registry α) (cs : List (Call α)) : Registry α :=
  cs.foldl call r

@[simp] theorem after_nil (r : Registry α) : r.after [] = r := rfl

@[simp] theorem after_cons (r : Registry α) (c : Call α) (cs : List (Call α)) :
    r.after (c :: cs) = (r.call c).after cs := rfl

@[simp] theorem after_append (r : Registry α) (cs ds : List (Call α)) :
    r.after (cs ++ ds) = (r.after cs).after ds :=
  List.foldl_append

/-- Every call of a sequence has a property in the registry that it meets. -/
def EachCall (P : Registry α → Call α → Prop) (r : Registry α) : List (Call α) → Prop
  | [] => True
  | c :: cs => P r c ∧ EachCall P (r.call c) cs

@[simp] theorem eachCall_cons_iff {P : Registry α → Call α → Prop} {c : Call α}
    {cs : List (Call α)} : EachCall P r (c :: cs) ↔ P r c ∧ EachCall P (r.call c) cs :=
  Iff.rfl

/-- What every call of a sequence keeps holds at its end. -/
theorem EachCall.after {P : Registry α → Call α → Prop} {Q : Registry α → Prop}
    (hstep : ∀ r c, P r c → Q r → Q (r.call c)) {cs : List (Call α)} (h : EachCall P r cs)
    (hr : Q r) : Q (r.after cs) := by
  induction cs generalizing r with
  | nil => exact hr
  | cons c cs ih =>
    obtain ⟨hc, hcs⟩ := h
    exact ih hcs (hstep r c hc hr)

/-- What every call keeps holds after every sequence of calls. -/
theorem after_induction {Q : Registry α → Prop} (hstep : ∀ r c, Q r → Q (r.call c)) (hr : Q r)
    (cs : List (Call α)) : Q (r.after cs) := by
  induction cs generalizing r with
  | nil => exact hr
  | cons c cs ih => exact ih (hstep r c hr)

/-- What holds of slots holds of them after a call, if it holds of a new slot, and is kept by
putting a processor on top and by taking one away. -/
theorem forall_slots_call {P : Slot α → Prop} (c : Call α)
    (hnew : ∀ q, c = .register q → (r.register q).2.accepted = true → P ⟨q, []⟩)
    (hpush : ∀ q s, c = .register q → (r.register q).2.accepted = true →
      q.decl.isExtension = true → P s → P ⟨q, s.chain⟩)
    (hpop : ∀ e b rest, P ⟨e, b :: rest⟩ → P ⟨b, rest⟩) (hr : ∀ s ∈ r.slots, P s) :
    ∀ s ∈ (r.call c).slots, P s := by
  -- Each case changes one slot at most: the others are those of before.
  cases c with
  | register q =>
    obtain ⟨o, r', hreg, h⟩ := r.exists_registers q
    have ho : (r.register q).2 = o := by rw [hreg]
    show ∀ s ∈ (r.register q).1.slots, P s
    rw [hreg]
    cases h with
    | added =>
      simp only [List.forall_mem_append, List.forall_mem_singleton]
      exact ⟨hr, hnew q rfl (by rw [ho]; rfl)⟩
    | replaced h =>
      rw [h.slots] at hr
      simp only [List.forall_mem_append, List.forall_mem_cons] at hr ⊢
      exact ⟨hr.1, hnew q rfl (by rw [ho]; rfl), hr.2.2⟩
    | extended h hext =>
      rw [h.slots] at hr
      simp only [List.forall_mem_append, List.forall_mem_cons] at hr ⊢
      exact ⟨hr.1, hpush q _ rfl (by rw [ho]; rfl) hext hr.2.1, hr.2.2⟩
    | refused => exact hr
    | collides => exact hr
  | unregister name =>
    obtain ⟨o, r', hun, h⟩ := r.exists_unregisters name
    show ∀ s ∈ (r.unregister name).1.slots, P s
    rw [hun]
    cases h with
    | absent => exact hr
    | restored h =>
      rw [h.slots] at hr
      simp only [List.forall_mem_append, List.forall_mem_cons] at hr ⊢
      exact ⟨hr.1, hpop _ _ _ hr.2.1, hr.2.2⟩
    | refused => exact hr
    | removed h =>
      rw [h.slots] at hr
      simp only [List.forall_mem_append, List.forall_mem_cons] at hr ⊢
      exact ⟨hr.1, hr.2.2⟩

/-- If just the calls without `P` break a property of registries, it holds all along a sequence of
calls just where each of them has `P`. -/
theorem eachCall_iff_forall_prefix {P : Registry α → Call α → Prop} {Q : Registry α → Prop}
    (hstep : ∀ r c, Q r → (Q (r.call c) ↔ P r c)) {cs : List (Call α)} (hr : Q r) :
    (∀ done, done <+: cs → Q (r.after done)) ↔ EachCall P r cs := by
  induction cs generalizing r with
  | nil =>
    constructor
    · intro _
      exact trivial
    · intro _ done hdone
      obtain rfl := List.prefix_nil.mp hdone
      exact hr
  | cons c cs ih =>
    rw [eachCall_cons_iff]
    constructor
    · intro h
      have hc : Q (r.call c) := h [c] (List.prefix_append [c] cs)
      refine ⟨(hstep r c hr).mp hc, (ih hc).mp fun done hdone => ?_⟩
      exact h (c :: done) ((List.prefix_cons_inj c).mpr hdone)
    · rintro ⟨hc, hcs⟩ done hdone
      rcases List.prefix_cons_iff.mp hdone with rfl | ⟨rest, rfl, hrest⟩
      · exact hr
      · exact (ih ((hstep r c hr).mpr hc)).mpr hcs rest hrest

end Registry

end CommandShell
