import CommandShell.Proofs.State.Values
import CommandShell.State.Space

/-!
# Deliveries that settle at once

Watchers that report what they receive, and watchers that take the aliases from it, change no bucket
in turn.  While there are no others, a change is delivered to one watcher after another until one
fails, and apart from what they report and keep nothing comes of it.

## Main definitions

* `StateSpace.content?`, `StateSpace.watcher?`: what a bucket holds, and its watchers.
* `StateSpace.Quiet`: no watcher changes anything in turn.
* `StateSpace.Told`: watchers have received something, and nothing else has changed.
* `StateSpace.deliverTo`: a state is delivered to some watchers, one after another.

## Main results

* `StateSpace.settle_eq_deliverTo`: this is all that a change leads to.
* `StateSpace.told_deliverTo`: deliveries change no bucket.
-/

namespace CommandShell

/-- A watcher without what it has received. -/
def Watcher.forget (w : Watcher) : Watcher :=
  { w with last := none }

/-- A watcher changes nothing in turn. -/
def Watcher.Quiet (w : Watcher) : Prop :=
  w.callback = .followAliases ∨ w.callback = .report []

namespace StateSpace

variable {s t u : StateSpace} {name other : String} {b : Bucket} {i j : Nat} {w : Watcher}
  {state x : Live} {e : Fault}

/-! ### Buckets and watchers -/

/-- What the bucket with a name holds: its state at first, and its state. -/
def content? (s : StateSpace) (name : String) : Option (Live × Live) :=
  (s.bucket? name).map fun b => (b.initial, b.state)

/-- The watcher at a position of the bucket with a name. -/
def watcher? (s : StateSpace) (name : String) (i : Nat) : Option Watcher :=
  (s.bucket? name).bind fun b => b.watchers[i]?

theorem name_of_bucket? (h : s.bucket? name = some b) : b.name = name := by
  simpa using List.find?_some h

theorem bucket?_modifyBucket {f : Bucket → Bucket} (hf : ∀ b, (f b).name = b.name) :
    (s.modifyBucket name f).bucket? other =
      if other = name then (s.bucket? name).map f else s.bucket? other := by
  have hname : ∀ b : Bucket, (if b.name == name then f b else b).name = b.name := by
    intro b
    split
    · exact hf b
    · rfl
  -- Names stay, so the same bucket is found, and is changed if it has the name.
  have hfind : (s.modifyBucket name f).bucket? other =
      (s.bucket? other).map fun b => if b.name == name then f b else b := by
    unfold bucket? modifyBucket
    rw [List.find?_map]
    exact congrArg (fun p => Option.map _ (s.buckets.find? p))
      (funext fun b => congrArg (· == other) (hname b))
  rw [hfind]
  cases hb : s.bucket? other with
  | none =>
    split
    · rename_i h
      rw [← h, hb]
      rfl
    · rfl
  | some b =>
    have hbname := name_of_bucket? hb
    split
    · rename_i h
      rw [← h, hb, Option.map_some, Option.map_some, hbname, if_pos (beq_self_eq_true _)]
    · rename_i h
      rw [Option.map_some, hbname, if_neg (by simpa using h)]

theorem stateOf_eq (s : StateSpace) (name : String) :
    s.stateOf name = ((s.content? name).map (·.2.value)).getD .null := by
  unfold stateOf content?
  rw [Option.map_map]
  rfl

theorem content?_modifyBucket {f : Bucket → Bucket} (hf : ∀ b, (f b).name = b.name) :
    (s.modifyBucket name f).content? other =
      if other = name then (s.bucket? name).map fun b => ((f b).initial, (f b).state)
      else s.content? other := by
  unfold content?
  rw [bucket?_modifyBucket hf]
  split
  · rw [Option.map_map]
    rfl
  · rfl

theorem content?_modifyWatcher {f : Watcher → Watcher} :
    (s.modifyBucket name fun b => b.modifyWatcher i f).content? = s.content? := by
  funext other
  have hname : ∀ b : Bucket, (b.modifyWatcher i f).name = b.name := fun _ => rfl
  rw [content?_modifyBucket hname]
  split
  · rename_i h
    rw [h]
    rfl
  · rfl

theorem watcher?_modifyWatcher {f : Watcher → Watcher} :
    (s.modifyBucket name fun b => b.modifyWatcher i f).watcher? other j =
      if other = name ∧ j = i then (s.watcher? name i).map f else s.watcher? other j := by
  have hf : ∀ b : Bucket, (b.modifyWatcher i f).name = b.name := fun _ => rfl
  unfold watcher?
  rw [bucket?_modifyBucket hf]
  by_cases hname : other = name
  · subst hname
    rw [if_pos rfl]
    cases s.bucket? other with
    | none => simp
    | some b =>
      show (b.watchers.modify i f)[j]? = _
      rw [List.getElem?_modify]
      by_cases hj : j = i
      · simp [hj]
      · simp [hj, Ne.symm hj]
  · rw [if_neg hname, if_neg fun h => hname h.1]

theorem watcher?_modifyBucket {f : Bucket → Bucket} (hf : ∀ b, (f b).name = b.name)
    (hwatchers : ∀ b, (f b).watchers = b.watchers) :
    (s.modifyBucket name f).watcher? = s.watcher? := by
  funext other j
  unfold watcher?
  rw [bucket?_modifyBucket hf]
  split
  · rename_i h
    rw [h, Option.bind_map]
    exact congrArg (Option.bind _) (funext fun b => congrArg (·[j]?) (hwatchers b))
  · rfl

theorem mem_subscribers_iff : i ∈ b.subscribers ↔ ∃ w, b.watchers[i]? = some w ∧ w.subscribed := by
  unfold Bucket.subscribers
  constructor
  · intro h
    obtain ⟨⟨w, j⟩, hmem, rfl⟩ := List.mem_map.mp h
    obtain ⟨hmem, hsub⟩ := List.mem_filter.mp hmem
    exact ⟨w, List.mem_zipIdx_iff_getElem?.mp hmem, hsub⟩
  · rintro ⟨w, hw, hsub⟩
    exact List.mem_map.mpr
      ⟨(w, i), List.mem_filter.mpr ⟨List.mem_zipIdx_iff_getElem?.mpr hw, hsub⟩, rfl⟩

/-! ### Watchers that change nothing in turn -/

/-- No watcher changes anything in turn. -/
def Quiet (s : StateSpace) : Prop :=
  ∀ name i w, s.watcher? name i = some w → w.Quiet

/-- Watchers have received something, and nothing else has changed. -/
structure Told (s t : StateSpace) : Prop where
  content : t.content? = s.content?
  watchers : ∀ name i, (t.watcher? name i).map Watcher.forget =
    (s.watcher? name i).map Watcher.forget
  store : t.store = s.store

theorem Told.refl (s : StateSpace) : s.Told s :=
  ⟨rfl, fun _ _ => rfl, rfl⟩

theorem Told.trans (h : s.Told t) (h' : t.Told u) : s.Told u where
  content := h'.content.trans h.content
  watchers name i := (h'.watchers name i).trans (h.watchers name i)
  store := h'.store.trans h.store

/-- A watcher that is told something is what it was, except for what it keeps of it. -/
theorem Told.exists_watcher (h : s.Told t) (hw : t.watcher? name i = some w) :
    ∃ v, s.watcher? name i = some v ∧ w.forget = v.forget := by
  have hmap := h.watchers name i
  rw [hw, Option.map_some] at hmap
  obtain ⟨v, hv, heq⟩ := Option.map_eq_some_iff.mp hmap.symm
  exact ⟨v, hv, heq.symm⟩

theorem Told.quiet (h : s.Told t) (hs : s.Quiet) : t.Quiet := by
  intro name i w hw
  obtain ⟨v, hv, heq⟩ := h.exists_watcher hw
  have hcallback : w.callback = v.callback := (congrArg Watcher.callback heq :)
  unfold Watcher.Quiet
  rw [hcallback]
  exact hs name i v hv

/-- The space with something that a watcher has received. -/
def give (s : StateSpace) (name : String) (i : Nat) (x : Live) : StateSpace :=
  s.modifyBucket name fun b => b.modifyWatcher i fun w => { w with last := some x }

theorem told_modifyWatcher {f : Watcher → Watcher}
    (hf : ∀ w, s.watcher? name i = some w → (f w).forget = w.forget) :
    s.Told (s.modifyBucket name fun b => b.modifyWatcher i f) where
  content := content?_modifyWatcher
  watchers other j := by
    rw [watcher?_modifyWatcher]
    split
    · rename_i h
      obtain ⟨rfl, rfl⟩ := h
      rw [Option.map_map]
      cases hw : s.watcher? other j with
      | none => rfl
      | some w => exact congrArg some (hf w hw)
    · rfl
  store := rfl

theorem told_give : s.Told (s.give name i x) :=
  told_modifyWatcher fun _ _ => rfl

theorem watcher?_give :
    (s.give name i x).watcher? other j =
      if other = name ∧ j = i then (s.watcher? name i).map fun w => { w with last := some x }
      else s.watcher? other j :=
  watcher?_modifyWatcher

/-! ### One delivery -/

/-- The space after a watcher has received and reported something, and its pending actions are taken
up. -/
def report (s : StateSpace) (name : String) (i : Nat) (label : String) (x : Live) : StateSpace :=
  { (s.give name i x).modifyBucket name fun b =>
      b.modifyWatcher i fun w => { w with callback := .report [] } with
    reports := .seen label x.value :: s.reports }

theorem deliver_of_none (h : s.watcher? name i = none) :
    s.deliver name i state = (.ok [], s) := by
  have hw : ((s.bucket? name).bind fun b => b.watchers[i]?) = none := h
  rw [deliver, hw]

section Deliver

variable (hw : s.watcher? name i = some w)

include hw

theorem deliver_of_error (hx : w.receive state = .error e) :
    s.deliver name i state = (.error e, s) := by
  have hw' : ((s.bucket? name).bind fun b => b.watchers[i]?) = some w := hw
  rw [deliver, hw']
  dsimp only
  rw [hx]

theorem deliver_of_repeated (hx : w.receive state = .ok none) :
    s.deliver name i state = (.ok [], s) := by
  have hw' : ((s.bucket? name).bind fun b => b.watchers[i]?) = some w := hw
  rw [deliver, hw']
  dsimp only
  rw [hx]

/-- A watcher that takes the aliases takes them from what it receives. -/
theorem deliver_of_followAliases (hx : w.receive state = .ok (some x))
    (hcallback : w.callback = .followAliases) :
    s.deliver name i state =
      match AliasTable.ofValue x.value with
      | .ok table => (.ok [], { s.give name i x with aliases := table })
      | .error e => (.error e, s.give name i x) := by
  have hw' : ((s.bucket? name).bind fun b => b.watchers[i]?) = some w := hw
  rw [deliver, hw']
  dsimp only
  rw [hx]
  dsimp only
  rw [hcallback]
  rfl

/-- A watcher that reports what it receives does what is pending for it next. -/
theorem deliver_of_pending {pending : List WatcherAction} (hx : w.receive state = .ok (some x))
    (hcallback : w.callback = .report pending) :
    s.deliver name i state = (.ok [.act name i x pending], s.report name i w.label x) := by
  have hw' : ((s.bucket? name).bind fun b => b.watchers[i]?) = some w := hw
  rw [deliver, hw']
  dsimp only
  rw [hx]
  dsimp only
  rw [hcallback]
  rfl

/-- A watcher that reports what it receives has nothing to do with it. -/
theorem deliver_of_report (hx : w.receive state = .ok (some x))
    (hcallback : w.callback = .report []) :
    ∃ t, s.deliver name i state = (.ok [.act name i x []], t) ∧ s.Told t ∧
      t.aliases = s.aliases ∧ t.aliasWatcher = s.aliasWatcher ∧
      t.reports = .seen w.label x.value :: s.reports ∧
      ∀ other j, t.watcher? other j = (s.give name i x).watcher? other j := by
  have hgiven : (s.give name i x).watcher? name i = some { w with last := some x } := by
    rw [watcher?_give, if_pos ⟨rfl, rfl⟩, hw, Option.map_some]
  let f : Watcher → Watcher := fun w => { w with callback := .report [] }
  -- To take from it what it had pending changes nothing: there was nothing.
  have hf : ∀ v, (s.give name i x).watcher? name i = some v → f v = v := by
    intro v hv
    rw [hgiven] at hv
    obtain rfl := Option.some.inj hv
    show { w with last := some x, callback := .report [] } = _
    rw [← hcallback]
  refine ⟨s.report name i w.label x, deliver_of_pending hw hx hcallback, ?_, rfl, rfl, rfl, ?_⟩
  · have htold := told_give.trans (told_modifyWatcher fun v hv => congrArg Watcher.forget (hf v hv))
    exact ⟨htold.content, htold.watchers, htold.store⟩
  · intro other j
    show ((s.give name i x).modifyBucket name fun b => b.modifyWatcher i f).watcher? other j = _
    rw [watcher?_modifyWatcher]
    split
    · rename_i h
      rw [h.1, h.2, hgiven, Option.map_some, hf _ hgiven]
    · rfl

end Deliver

/-- A delivery does nothing, or it has a watcher that receives something. -/
theorem deliver_cases (s : StateSpace) (name : String) (i : Nat) (state : Live) :
    (∃ r, s.deliver name i state = (r, s) ∧ ∀ more, r = .ok more → more = []) ∨
      ∃ w x, s.watcher? name i = some w ∧ w.receive state = .ok (some x) := by
  have hnothing : ∀ more : List Delivery, (.ok [] : Except Fault _) = .ok more → more = [] := by
    rintro more ⟨⟩
    rfl
  cases hw : s.watcher? name i with
  | none => exact Or.inl ⟨_, deliver_of_none hw, hnothing⟩
  | some w =>
    cases hx : w.receive state with
    | error e => exact Or.inl ⟨_, deliver_of_error hw hx, nofun⟩
    | ok received =>
      cases received with
      | none => exact Or.inl ⟨_, deliver_of_repeated hw hx, hnothing⟩
      | some x => exact Or.inr ⟨w, x, rfl, hx⟩

/-- All that a delivery can leave: a watcher that got something, from which the aliases may be
taken, or one that has reported it. -/
theorem deliver_keeps {P : StateSpace → Prop} {state : Live} (hs : P s)
    (hgive : ∀ x table, P { s.give name i x with aliases := table })
    (hreport : ∀ label x, P (s.report name i label x)) : P (s.deliver name i state).2 := by
  rcases s.deliver_cases name i state with ⟨r, heq, -⟩ | ⟨w, x, hw, hx⟩
  · rw [heq]
    exact hs
  · cases hcallback : w.callback with
    | followAliases =>
      rw [deliver_of_followAliases hw hx hcallback]
      split
      · exact hgive x _
      · exact hgive x s.aliases
    | report pending =>
      rw [deliver_of_pending hw hx hcallback]
      exact hreport w.label x

/-- A delivery while no watcher changes anything in turn. -/
theorem told_deliver (hs : s.Quiet) (name : String) (i : Nat) (state : Live) :
    s.Told (s.deliver name i state).2 := by
  rcases s.deliver_cases name i state with ⟨r, heq, -⟩ | ⟨w, x, hw, hx⟩
  · rw [heq]
    exact .refl s
  · rcases hs name i w hw with hcallback | hcallback
    · rw [deliver_of_followAliases hw hx hcallback]
      have htold : s.Told (s.give name i x) := told_give
      split
      · exact ⟨htold.content, htold.watchers, htold.store⟩
      · exact htold
    · obtain ⟨t, ht, htold, -⟩ := deliver_of_report hw hx hcallback
      rw [ht]
      exact htold

/-- What a delivery leads to while no watcher changes anything in turn: nothing. -/
theorem deliver_ok {more : List Delivery} (hs : s.Quiet)
    (h : (s.deliver name i state).1 = .ok more) : more = [] ∨ ∃ x, more = [.act name i x []] := by
  rcases s.deliver_cases name i state with ⟨r, heq, hnothing⟩ | ⟨w, x, hw, hx⟩
  · rw [heq] at h
    exact Or.inl (hnothing more h)
  · rcases hs name i w hw with hcallback | hcallback
    · rw [deliver_of_followAliases hw hx hcallback] at h
      split at h
      · cases h
        exact Or.inl rfl
      · cases h
    · obtain ⟨t, ht, -⟩ := deliver_of_report hw hx hcallback
      rw [ht] at h
      cases h
      exact Or.inr ⟨x, rfl⟩

/-! ### Deliveries to some watchers -/

/-- A state is delivered to some watchers of a bucket, one after another, until one fails. -/
def deliverTo (name : String) (state : Live) :
    List Nat → StateSpace → Except Fault Unit × StateSpace
  | [], s => (.ok (), s)
  | i :: rest, s =>
    match s.deliver name i state with
    | (.error e, s) => (.error e, s)
    | (.ok _, s) => deliverTo name state rest s

variable {is : List Nat}

theorem deliverTo_singleton (name : String) (state : Live) (i : Nat) (s : StateSpace) :
    (deliverTo name state [i] s).2 = (s.deliver name i state).2 := by
  unfold deliverTo
  rcases s.deliver name i state with ⟨e | more, t⟩ <;> rfl

/-- A delivery without a fault lets the others follow. -/
theorem deliverTo_cons_of_ok {name : String} {x : Live} {i : Nat} {s : StateSpace}
    {more : List Delivery} (h : (s.deliver name i x).1 = .ok more) :
    deliverTo name x (i :: is) s = deliverTo name x is (s.deliver name i x).2 := by
  rw [deliverTo]
  generalize s.deliver name i x = ending at h ⊢
  obtain ⟨result, t⟩ := ending
  obtain rfl : result = .ok more := h
  rfl

theorem told_deliverTo (hs : s.Quiet) (name : String) (state : Live) (is : List Nat) :
    s.Told (deliverTo name state is s).2 := by
  induction is generalizing s with
  | nil => exact .refl s
  | cons i is ih =>
    have hstep := told_deliver hs name i state
    unfold deliverTo
    generalize s.deliver name i state = ending at hstep ⊢
    rcases ending with ⟨e | more, t⟩
    · exact hstep
    · exact hstep.trans (ih (hstep.quiet hs))

theorem settleWithin_eq_deliverTo {fuel : Nat} (hs : s.Quiet) (hfuel : 2 * is.length ≤ fuel) :
    settleWithin fuel s (is.map (.deliver name · state)) = deliverTo name state is s := by
  induction is generalizing s fuel with
  | nil => cases fuel <;> rfl
  | cons i is ih =>
    rw [List.length_cons] at hfuel
    obtain ⟨fuel, rfl⟩ : ∃ n, fuel = n + 2 := ⟨fuel - 2, by omega⟩
    have htold := told_deliver hs name i state
    have hok : ∀ more, (s.deliver name i state).1 = .ok more →
        more = [] ∨ ∃ x, more = [.act name i x []] := fun _ => deliver_ok hs
    rw [List.map_cons, settleWithin, deliverTo]
    generalize s.deliver name i state = ending at htold hok ⊢
    rcases ending with ⟨e | more, t⟩
    · rfl
    · have hrest : ∀ n, 2 * is.length ≤ n →
          settleWithin n t (is.map (.deliver name · state)) = deliverTo name state is t :=
        fun _ => ih (htold.quiet hs)
      -- A watcher that reports has its turn to act, and does nothing.
      rcases hok more rfl with rfl | ⟨x, rfl⟩
      · exact hrest (fuel + 1) (by omega)
      · exact hrest fuel (by omega)

/-- While no watcher changes anything in turn, a change leads to its deliveries only. -/
theorem settle_eq_deliverTo (hs : s.Quiet) :
    s.settle (is.map (.deliver name · state)) = deliverTo name state is s := by
  refine settleWithin_eq_deliverTo hs ?_
  unfold enoughSteps
  rw [List.length_map]
  omega

end StateSpace

end CommandShell
