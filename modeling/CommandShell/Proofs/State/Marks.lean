import CommandShell.State.Bucket

/-!
# The marks of containers

A change in place reaches the container with a mark, wherever it is held.  So it leaves alone what
holds no container with this mark.  Values that are made afresh, and copies, carry fresh marks only,
and whatever else is made of live values takes its containers from these.

## Main definitions

* `Live.TakenFrom`: some marks were taken from those between two numbers.

## Main results

* `Live.setItem_of_notMem_marks`: what a change in place leaves alone.
* `Live.mem_marks_setItem`: the containers after a change in place.
* `Live.takenFrom_ofValue`, `Live.takenFrom_copy`: values that are made afresh carry fresh marks.
* `Live.mem_marks_overlay`, `Live.mem_marks_of_receive`: overlays and what watchers receive.
-/

namespace CommandShell

/-- What comes to a value after an operation goes on from the value of the operation. -/
theorem exists_of_bind_eq_ok {ε α β : Type} {x : Except ε α} {f : α → Except ε β} {b : β}
    (h : x >>= f = .ok b) : ∃ a, x = .ok a ∧ f a = .ok b := by
  cases x with
  | error e => cases h
  | ok a => exact ⟨a, rfl, h⟩

namespace Live

variable {x y key new : Live} {m mark next : Nat} {items : List Live}
  {entries given : List (Live × Live)} {shared : Bool}

/-! ### Parts and overlays -/

theorem mem_marksOfEntries_setEntry (h : m ∈ marksOfEntries (setEntry entries key new)) :
    m ∈ marksOfEntries entries ∨ m ∈ new.marks := by
  induction entries with
  | nil => simpa [setEntry, marksOfEntries] using h
  | cons e entries ih =>
    obtain ⟨k, x⟩ := e
    rw [setEntry] at h
    rw [marksOfEntries, List.mem_append]
    split at h <;> rw [marksOfEntries, List.mem_append] at h
    · exact h.elim Or.inr fun h => Or.inl (Or.inr h)
    · rcases h with h | h
      · exact Or.inl (Or.inl h)
      · exact (ih h).imp_left Or.inr

/-- An overlay takes its containers from both maps. -/
theorem mem_marks_overlay (h : m ∈ marksOfEntries (overlay entries given)) :
    m ∈ marksOfEntries entries ∨ m ∈ marksOfEntries given := by
  unfold overlay at h
  induction given generalizing entries with
  | nil => exact Or.inl h
  | cons e given ih =>
    rw [marksOfEntries, List.mem_append]
    rcases ih h with h | h
    · exact (mem_marksOfEntries_setEntry h).imp_right Or.inl
    · exact Or.inr (Or.inr h)

/-- A part of a live value holds no other containers. -/
theorem mem_marks_of_item? (h : x.item? key = .ok y) (hm : m ∈ y.marks) : m ∈ x.marks := by
  cases x with
  | map mark entries =>
    obtain ⟨k, -, hpart⟩ := exists_of_bind_eq_ok h
    cases hvalue : valueOf? entries k with
    | none =>
      rw [hvalue] at hpart
      cases hpart
    | some x =>
      rw [hvalue] at hpart
      obtain rfl := Except.ok.inj hpart
      exact List.mem_cons_of_mem _ (mem_marks_of_valueOf? hvalue hm)
  | list mark items =>
    obtain ⟨i, -, hpart⟩ := exists_of_bind_eq_ok h
    obtain rfl := Except.ok.inj hpart
    cases hitem : items[i]? with
    | none =>
      rw [hitem] at hm
      cases hm
    | some x =>
      rw [hitem] at hm
      refine List.mem_cons_of_mem _ (mem_marksOfItems_iff.mpr ⟨x, ?_, hm⟩)
      exact List.mem_of_getElem? hitem
  -- A part of a text is a text.
  | plain v =>
    cases v with
    | text s =>
      obtain ⟨i, -, hpart⟩ := exists_of_bind_eq_ok h
      cases hpart
      cases hm
    | _ => cases h
  | _ => cases h

theorem mem_marks_of_itemAt? {path : List Live} (h : x.itemAt? path = .ok y) (hm : m ∈ y.marks) :
    m ∈ x.marks := by
  induction path generalizing x with
  | nil =>
    cases h
    exact hm
  | cons key path ih =>
    obtain ⟨part, hpart, hrest⟩ := exists_of_bind_eq_ok h
    exact mem_marks_of_item? hpart (ih hrest)

/-- What a watcher receives holds no other containers than the state. -/
theorem mem_marks_of_receive {w : Watcher} (h : w.receive x = .ok (some y)) (hm : m ∈ y.marks) :
    m ∈ x.marks := by
  unfold Watcher.receive at h
  cases hs : w.selector with
  | none =>
    rw [hs] at h
    cases h
    exact hm
  | some s =>
    rw [hs] at h
    obtain ⟨part, hpart, hreceived⟩ := exists_of_bind_eq_ok h
    have hsome : (if w.last.any (·.same part) then none else some part) = some y :=
      Except.ok.inj hreceived
    split at hsome
    · cases hsome
    · obtain rfl := Option.some.inj hsome
      exact s.marks_subset hpart hm

/-! ### Changes in place -/

/-- A part is set in a container of the value. -/
theorem mem_marks_of_settable? (h : x.settable? key = .ok m) : m ∈ x.marks := by
  cases x with
  | map mark entries =>
    obtain ⟨k, -, hset⟩ := exists_of_bind_eq_ok h
    cases hset
    exact List.mem_cons_self
  | list mark items =>
    obtain ⟨i, -, hset⟩ := exists_of_bind_eq_ok h
    cases hset
    exact List.mem_cons_self
  -- Nothing else has parts that can be set.
  | plain v =>
    simp only [settable?] at h
    repeat' split at h
    all_goals cases h
  | foreign n shown =>
    simp only [settable?] at h
    repeat' split at h
    all_goals cases h
  | notANumber n => cases h

mutual

/-- A change in place leaves alone what holds no container with its mark. -/
theorem setItem_of_notMem_marks (x : Live) (h : mark ∉ x.marks) :
    setItem mark key new x = x := by
  cases x with
  | list m items =>
    rw [marks, List.mem_cons, not_or] at h
    rw [setItem, setItemAll_of_notMem_marks items h.2, if_neg (Ne.symm h.1)]
  | map m entries =>
    rw [marks, List.mem_cons, not_or] at h
    rw [setItem, setItemEntries_of_notMem_marks entries h.2, if_neg (Ne.symm h.1)]
  | _ => rfl

theorem setItemAll_of_notMem_marks (items : List Live) (h : mark ∉ marksOfItems items) :
    setItemAll mark key new items = items := by
  cases items with
  | nil => rfl
  | cons x items =>
    rw [marksOfItems, List.mem_append, not_or] at h
    rw [setItemAll, setItem_of_notMem_marks x h.1, setItemAll_of_notMem_marks items h.2]

theorem setItemEntries_of_notMem_marks (entries : List (Live × Live))
    (h : mark ∉ marksOfEntries entries) : setItemEntries mark key new entries = entries := by
  cases entries with
  | nil => rfl
  | cons e entries =>
    obtain ⟨k, x⟩ := e
    rw [marksOfEntries, List.mem_append, not_or] at h
    rw [setItemEntries, setItem_of_notMem_marks x h.1, setItemEntries_of_notMem_marks entries h.2]

end

theorem mem_marksOfItems_setPosition (h : m ∈ marksOfItems (setPosition items key new)) :
    m ∈ marksOfItems items ∨ m ∈ new.marks := by
  unfold setPosition at h
  split at h
  · obtain ⟨x, hx, hm⟩ := mem_marksOfItems_iff.mp h
    rcases List.mem_or_eq_of_mem_set hx with hx | rfl
    · exact Or.inl (mem_marksOfItems_iff.mpr ⟨x, hx, hm⟩)
    · exact Or.inr hm
  · exact Or.inl h

mutual

/-- After a change in place the containers are those from before and those of the new part. -/
theorem mem_marks_setItem (x : Live) (h : m ∈ (setItem mark key new x).marks) :
    m ∈ x.marks ∨ m ∈ new.marks := by
  cases x with
  | list n items =>
    rw [setItem, marks, List.mem_cons] at h
    rw [marks, List.mem_cons]
    rcases h with rfl | h
    · exact Or.inl (Or.inl rfl)
    -- The container itself may be the one that changes, or one that it holds.
    have hitems : m ∈ marksOfItems (setItemAll mark key new items) ∨ m ∈ new.marks := by
      split at h
      · exact mem_marksOfItems_setPosition h
      · exact Or.inl h
    rcases hitems with h | h
    · exact (mem_marksOfItems_setItemAll items h).imp_left Or.inr
    · exact Or.inr h
  | map n entries =>
    rw [setItem, marks, List.mem_cons] at h
    rw [marks, List.mem_cons]
    rcases h with rfl | h
    · exact Or.inl (Or.inl rfl)
    have hentries : m ∈ marksOfEntries (setItemEntries mark key new entries) ∨ m ∈ new.marks := by
      split at h
      · exact mem_marksOfEntries_setEntry h
      · exact Or.inl h
    rcases hentries with h | h
    · exact (mem_marksOfEntries_setItemEntries entries h).imp_left Or.inr
    · exact Or.inr h
  | _ => exact Or.inl h

theorem mem_marksOfItems_setItemAll (items : List Live)
    (h : m ∈ marksOfItems (setItemAll mark key new items)) :
    m ∈ marksOfItems items ∨ m ∈ new.marks := by
  cases items with
  | nil => exact Or.inl h
  | cons x items =>
    rw [setItemAll, marksOfItems, List.mem_append] at h
    rw [marksOfItems, List.mem_append]
    rcases h with h | h
    · exact (mem_marks_setItem x h).imp_left Or.inl
    · exact (mem_marksOfItems_setItemAll items h).imp_left Or.inr

theorem mem_marksOfEntries_setItemEntries (entries : List (Live × Live))
    (h : m ∈ marksOfEntries (setItemEntries mark key new entries)) :
    m ∈ marksOfEntries entries ∨ m ∈ new.marks := by
  cases entries with
  | nil => exact Or.inl h
  | cons e entries =>
    obtain ⟨k, x⟩ := e
    rw [setItemEntries, marksOfEntries, List.mem_append] at h
    rw [marksOfEntries, List.mem_append]
    rcases h with h | h
    · exact (mem_marks_setItem x h).imp_left Or.inl
    · exact (mem_marksOfEntries_setItemEntries entries h).imp_left Or.inr

end

/-! ### Fresh marks -/

/-- The marks were taken from those between two numbers. -/
def TakenFrom (ms : List Nat) (next after : Nat) : Prop :=
  next ≤ after ∧ ∀ m ∈ ms, next ≤ m ∧ m < after

namespace TakenFrom

variable {ms ms' : List Nat} {after last : Nat}

theorem nil (h : next ≤ after) : TakenFrom [] next after :=
  ⟨h, fun _ hm => absurd hm List.not_mem_nil⟩

theorem cons (h : TakenFrom ms (next + 1) after) : TakenFrom (next :: ms) next after := by
  obtain ⟨hle, hms⟩ := h
  refine ⟨by omega, fun m hm => ?_⟩
  rcases List.mem_cons.mp hm with rfl | hm
  · omega
  · have := hms m hm
    omega

theorem append (h : TakenFrom ms next after) (h' : TakenFrom ms' after last) :
    TakenFrom (ms ++ ms') next last := by
  obtain ⟨hle, hms⟩ := h
  obtain ⟨hle', hms'⟩ := h'
  refine ⟨by omega, fun m hm => ?_⟩
  rcases List.mem_append.mp hm with hm | hm
  · have := hms m hm
    omega
  · have := hms' m hm
    omega

theorem of_subset (h : TakenFrom ms next after) (hsub : ms' ⊆ ms) : TakenFrom ms' next after :=
  ⟨h.1, fun m hm => h.2 m (hsub hm)⟩

end TakenFrom

mutual

/-- A value that is made afresh carries fresh marks. -/
theorem takenFrom_ofValue (next : Nat) (v : Value) :
    TakenFrom (ofValue shared next v).1.marks next (ofValue shared next v).2 := by
  cases v with
  | list items => exact (takenFrom_ofValues (next + 1) items).cons
  | map entries =>
    refine ((takenFrom_ofEntries (next + 1) entries).of_subset fun m hm => ?_).cons
    exact (mem_marks_overlay hm).resolve_left List.not_mem_nil
  | float x =>
    rw [ofValue]
    split
    · exact .nil (Nat.le_succ _)
    · exact .nil (Nat.le_refl _)
  | foreign shown => exact .nil (Nat.le_succ _)
  | _ => exact .nil (Nat.le_refl _)

theorem takenFrom_ofValues (next : Nat) (items : List Value) :
    TakenFrom (marksOfItems (ofValues shared next items).1) next
      (ofValues shared next items).2 := by
  cases items with
  | nil => exact .nil (Nat.le_refl _)
  | cons v items => exact (takenFrom_ofValue next v).append (takenFrom_ofValues _ items)

theorem takenFrom_ofEntries (next : Nat) (entries : List (String × Value)) :
    TakenFrom (marksOfEntries (ofEntries shared next entries).1) next
      (ofEntries shared next entries).2 := by
  cases entries with
  | nil => exact .nil (Nat.le_refl _)
  | cons e entries => exact (takenFrom_ofValue next e.2).append (takenFrom_ofEntries _ entries)

end

mutual

/-- A copy carries fresh marks. -/
theorem takenFrom_copy (next : Nat) (x : Live) :
    TakenFrom (copy next x).1.marks next (copy next x).2 := by
  cases x with
  | list n items => exact (takenFrom_copyItems (next + 1) items).cons
  | map n entries => exact (takenFrom_copyEntries (next + 1) entries).cons
  | foreign n shown => exact .nil (Nat.le_succ _)
  | _ => exact .nil (Nat.le_refl _)

theorem takenFrom_copyItems (next : Nat) (items : List Live) :
    TakenFrom (marksOfItems (copyItems next items).1) next (copyItems next items).2 := by
  cases items with
  | nil => exact .nil (Nat.le_refl _)
  | cons x items => exact (takenFrom_copy next x).append (takenFrom_copyItems _ items)

theorem takenFrom_copyEntries (next : Nat) (entries : List (Live × Live)) :
    TakenFrom (marksOfEntries (copyEntries next entries).1) next (copyEntries next entries).2 := by
  cases entries with
  | nil => exact .nil (Nat.le_refl _)
  | cons e entries =>
    obtain ⟨k, x⟩ := e
    -- The copy of a key takes marks as well, and holds none that count.
    have hkey : TakenFrom [] next (copy next k).2 := .nil (takenFrom_copy next k).1
    exact (hkey.append (takenFrom_copy _ x)).append (takenFrom_copyEntries _ entries)

end

end Live

end CommandShell
