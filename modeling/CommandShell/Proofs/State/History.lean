import CommandShell.Proofs.State.Subscriptions
import Mathlib.Data.List.Destutter
import Mathlib.Data.List.TakeWhile

/-!
# What selectors deliver

A watcher with a selector is told the selected part of the state when it comes, and after that the
part of every state that the bucket gets, unless this equals what it was told last.  It does not
matter who else watches, comes or goes, what is done to other buckets, and what fails there.  Once
its subscription has ended it is told nothing more.

## Main definitions

* `StateSpace.seenUnder`: what was reported under a label.
* `StateSpace.statesOf`: the states that a bucket gets.
* `StateSpace.Agreeable`: no watcher of a bucket fails.
* `StateSpace.Holds`: a watcher has its place, its handle and its label to itself.

## Main results

* `StateSpace.Holds.apply_told`: what a watcher is told of a state that its bucket gets.
* `StateSpace.Holds.apply_elsewhere`: what does not concern a watcher.
* `StateSpace.Holds.play_told`, `StateSpace.Holds.play_ended`: what a watcher is told in the course
  of some moves, while its subscription is open and after that.
* `StateSpace.selector_delivers_changes`: what it is told altogether.
-/

namespace CommandShell

namespace Live

/-- Two live values are not equal. -/
def Differs (p q : Live) : Prop :=
  p.same q = false

instance : DecidableRel Differs :=
  fun p q => inferInstanceAs (Decidable (p.same q = false))

/-- Of some values behind another one, those that do not equal the one right before them. -/
def changesAfter : Live → List Live → List Live
  | _, [] => []
  | p, q :: parts => if p.same q then changesAfter q parts else q :: changesAfter q parts

/-- Of some values, the first one and those that do not equal the one right before them. -/
def changes : List Live → List Live
  | [] => []
  | p :: parts => p :: changesAfter p parts

/-- Among some values, equality can be turned round and chained. -/
structure EquatesWell (parts : List Live) : Prop where
  symm : ∀ p ∈ parts, ∀ q ∈ parts, p.same q = true → q.same p = true
  trans : ∀ p ∈ parts, ∀ q ∈ parts, ∀ r ∈ parts, p.same q = true → q.same r = true →
    p.same r = true

end Live

namespace StateSpace

/-- What was reported under a label, in order. -/
def seenUnder (s : StateSpace) (label : String) : List Value :=
  s.reports.reverse.filterMap fun
    | .seen other v => if other = label then some v else none
    | _ => none

/-- The states that the bucket with a name gets by some moves. -/
def statesOf (name : String) : List SpaceMove → StateSpace → List Live
  | [], _ => []
  | m :: moves, s => (m.stateFor? name s).toList ++ statesOf name moves (m.apply s).2

/-- In the course of some moves no watcher fails that is told a state of the bucket with a name. -/
def Agreeable (name : String) : List SpaceMove → StateSpace → Prop
  | [], _ => True
  | m :: moves, s =>
    (∀ x, m.stateFor? name s = some x →
      ∀ i w, s.watcher? name i = some w → w.subscribed = true → w.Accepts x) ∧
      Agreeable name moves (m.apply s).2

/-- A watcher stands at a position, its label leads there and no other one does, and nobody else
reports under this label. -/
structure Holds (s : StateSpace) (name : String) (i : Nat) (w : Watcher) : Prop where
  watcher : s.watcher? name i = some w
  handle : s.handles.get? w.label = some (name, i)
  others : ∀ label, s.handles.get? label = some (name, i) → label = w.label
  follower : s.aliasWatcher ≠ some (name, i)
  alone : ∀ other j v, s.watcher? other j = some v → v.label = w.label →
    v.callback ≠ .followAliases → other = name ∧ j = i

variable {s t u : StateSpace} {name other label : String} {b : Bucket} {i j : Nat} {w v : Watcher}
  {x p y : Live} {is : List Nat} {m : SpaceMove} {moves : List SpaceMove} {op : SpaceOperation}
  {e : Fault}

/-! ### Reports -/

theorem seenUnder_of_reports (h : t.reports = s.reports) :
    t.seenUnder label = s.seenUnder label := by
  rw [seenUnder, h]
  rfl

theorem seenUnder_cons {r : Value} (h : t.reports = .seen other r :: s.reports) :
    t.seenUnder label =
      if other = label then s.seenUnder label ++ [r] else s.seenUnder label := by
  rw [seenUnder, h, List.reverse_cons, List.filterMap_append]
  split
  · rename_i hlabel
    simp [hlabel, seenUnder]
  · rename_i hlabel
    simp [hlabel, seenUnder]

/-- What is written to a log is not reported under a label. -/
theorem seenUnder_of_logs {events : List Event} (h : t.reports = events ++ s.reports)
    (hevents : ∀ ev ∈ events, ∃ level message, ev = .log "state" level message) :
    t.seenUnder label = s.seenUnder label := by
  have hnone : (events.reverse.filterMap fun
      | .seen other v => if other = label then some v else none
      | _ => none) = ([] : List Value) := by
    refine List.filterMap_eq_nil_iff.mpr fun ev hev => ?_
    obtain ⟨level, message, rfl⟩ := hevents ev (List.mem_reverse.mp hev)
    rfl
  rw [seenUnder, h, List.reverse_append, List.filterMap_append, hnone, List.append_nil]
  rfl

/-! ### Deliveries to others -/

theorem Holds.of_eq (h : s.Holds name i w) (hwatchers : t.watcher? = s.watcher?)
    (hhandles : t.handles = s.handles) (hfollower : t.aliasWatcher = s.aliasWatcher) :
    t.Holds name i w where
  watcher := by rw [hwatchers, h.watcher]
  handle := by rw [hhandles, h.handle]
  others label hlabel := h.others label (by rwa [hhandles] at hlabel)
  follower := by rw [hfollower]; exact h.follower
  alone other j v hv := h.alone other j v (by rwa [hwatchers] at hv)

/-- What is delivered to somebody else does not concern a watcher. -/
theorem Holds.deliver_elsewhere (hs : s.Quiet) (h : s.Holds name i w)
    (hne : ¬ (other = name ∧ j = i)) (x : Live) :
    (s.deliver other j x).2.Holds name i w ∧
      (s.deliver other j x).2.seenUnder w.label = s.seenUnder w.label := by
  rcases s.deliver_cases other j x with ⟨r, heq, -⟩ | ⟨v, y, hv, hx⟩
  · rw [heq]
    exact ⟨h, rfl⟩
  · -- Only the watcher that receives changes, and it reports under its own label.
    obtain ⟨hwatchers, hsilent, hreports⟩ := deliver_received hs hv hx
    have hframed := framed_deliver s other j x
    generalize (s.deliver other j x).2 = t at hwatchers hsilent hreports hframed ⊢
    have hsame : ∀ n k, ¬ (n = other ∧ k = j) → t.watcher? n k = s.watcher? n k := by
      intro n k hnk
      rw [hwatchers, watcher?_give, if_neg hnk]
    refine ⟨⟨?_, ?_, ?_, ?_, ?_⟩, ?_⟩
    · rw [hsame _ _ fun hpos => hne ⟨hpos.1.symm, hpos.2.symm⟩, h.watcher]
    · rw [hframed.handles, h.handle]
    · intro label hlabel
      rw [hframed.handles] at hlabel
      exact h.others label hlabel
    · rw [hframed.aliasWatcher]
      exact h.follower
    · intro n k v' hv' hlabel hcallback
      by_cases hpos : n = other ∧ k = j
      · obtain ⟨rfl, rfl⟩ := hpos
        rw [hwatchers, watcher?_give, if_pos ⟨rfl, rfl⟩, hv, Option.map_some] at hv'
        obtain rfl := Option.some.inj hv'
        exact h.alone n k v hv hlabel hcallback
      · rw [hsame n k hpos] at hv'
        exact h.alone n k v' hv' hlabel hcallback
    · by_cases hcallback : v.callback = .followAliases
      · exact seenUnder_of_reports (hsilent hcallback)
      · rw [seenUnder_cons (hreports hcallback), if_neg]
        exact fun hlabel => hne (h.alone other j v hv hlabel hcallback)

theorem Holds.deliverTo_elsewhere (hs : s.Quiet) (h : s.Holds name i w)
    (hne : other = name → i ∉ is) (x : Live) :
    (deliverTo other x is s).2.Holds name i w ∧
      (deliverTo other x is s).2.seenUnder w.label = s.seenUnder w.label := by
  induction is generalizing s with
  | nil => exact ⟨h, rfl⟩
  | cons j is ih =>
    have hj : ¬ (other = name ∧ j = i) := by
      rintro ⟨hother, rfl⟩
      exact hne hother List.mem_cons_self
    have hstep := h.deliver_elsewhere hs hj x
    have hquiet := (told_deliver hs other j x).quiet hs
    unfold deliverTo
    generalize s.deliver other j x = ending at hstep hquiet ⊢
    rcases ending with ⟨e | more, t⟩
    · exact hstep
    · obtain ⟨hrest, hseen⟩ := ih hquiet hstep.1
        fun hother hmem => hne hother (List.mem_cons_of_mem _ hmem)
      exact ⟨hrest, hseen.trans hstep.2⟩

/-! ### Deliveries to the watcher -/

/-- A watcher with a selector that was told a part. -/
def told (label : String) (f : Selector) (p : Live) : Watcher :=
  { Watcher.reporter label (some f) with last := some p }

variable {f : Selector} {q : Live}

/-- What a watcher receives for the first time, or what differs from what it received last, it
reports. -/
theorem Holds.deliver_new (hs : s.Quiet) (h : s.Holds name i w)
    (hw : w.forget = .reporter label (some f))
    (hx : w.receive x = .ok (some y)) :
    (s.deliver name i x).2.Holds name i { w with last := some y } ∧
      (s.deliver name i x).2.seenUnder label = s.seenUnder label ++ [y.value] := by
  have hlabel : w.label = label := (congrArg Watcher.label hw :)
  have hcallback : w.callback = .report [] := (congrArg Watcher.callback hw :)
  obtain ⟨hwatchers, -, hreports⟩ := deliver_received hs h.watcher hx
  have hframed := framed_deliver s name i x
  have hreported := hreports (by rw [hcallback]; rintro ⟨⟩)
  -- What is known of the delivery is all that counts from here on.
  generalize (s.deliver name i x).2 = t at hwatchers hreported hframed ⊢
  refine ⟨⟨?_, ?_, ?_, ?_, ?_⟩, ?_⟩
  · rw [hwatchers, watcher?_give, if_pos ⟨rfl, rfl⟩, h.watcher, Option.map_some]
  · rw [hframed.handles, h.handle]
  · intro other hother
    rw [hframed.handles] at hother
    exact h.others other hother
  · rw [hframed.aliasWatcher]
    exact h.follower
  · intro other j v hv hvlabel hvcallback
    rw [hwatchers, watcher?_give] at hv
    split at hv
    · assumption
    · exact h.alone other j v hv hvlabel hvcallback
  · rw [seenUnder_cons hreported, if_pos hlabel]

/-- A part that equals what the watcher was told last is not told again. -/
theorem Holds.deliver_told (hs : s.Quiet) (h : s.Holds name i (told label f q))
    (hx : f.select x = .ok p) :
    (s.deliver name i x).2.Holds name i (told label f (if q.same p then q else p)) ∧
      (s.deliver name i x).2.seenUnder label =
        s.seenUnder label ++ (if q.same p then [] else [p.value]) := by
  have hreceive : (told label f q).receive x = .ok (if q.same p then none else some p) :=
    Watcher.receive_of_part hx
  cases hsame : q.same p with
  | true =>
    rw [hsame] at hreceive
    rw [deliver_of_repeated h.watcher hreceive]
    exact ⟨h, (List.append_nil _).symm⟩
  | false =>
    rw [hsame] at hreceive
    have hforget : (told label f q).forget = .reporter label (some f) := rfl
    have hnew := h.deliver_new hs hforget hreceive
    exact hnew

/-- A state that is delivered to watchers that accept it reaches each of them. -/
theorem Holds.deliverTo_told (hs : s.Quiet) (h : s.Holds name i (told label f q))
    (hnodup : is.Nodup) (hi : i ∈ is) (hx : f.select x = .ok p)
    (haccepts : ∀ j ∈ is, ∀ v, s.watcher? name j = some v → v.Accepts x) :
    (deliverTo name x is s).2.Holds name i (told label f (if q.same p then q else p)) ∧
      (deliverTo name x is s).2.seenUnder label =
        s.seenUnder label ++ (if q.same p then [] else [p.value]) := by
  induction is generalizing s with
  | nil => cases hi
  | cons j is ih =>
    obtain ⟨hj, hnodup⟩ := List.nodup_cons.mp hnodup
    have hquiet := (told_deliver hs name j x).quiet hs
    obtain ⟨more, hmore⟩ := exists_deliver_of_accepts hs (haccepts j List.mem_cons_self)
    have hrest : ∀ k ∈ is, ∀ v, (s.deliver name j x).2.watcher? name k = some v → v.Accepts x :=
      fun k hk => accepts_deliver hs x (haccepts k (List.mem_cons_of_mem _ hk))
    rw [deliverTo_cons_of_ok hmore]
    by_cases hji : j = i
    · -- The watcher itself has its turn, and those behind it are others.
      subst hji
      obtain ⟨htold, hseen⟩ := h.deliver_told hs hx
      obtain ⟨hholds, hsame⟩ := htold.deliverTo_elsewhere hquiet (fun _ => hj) x
      exact ⟨hholds, hsame.trans hseen⟩
    · obtain ⟨hholds, hsame⟩ := h.deliver_elsewhere hs (fun hpos => hji hpos.2) x
      have hi := (List.mem_cons.mp hi).resolve_left (Ne.symm hji)
      obtain ⟨htold, hseen⟩ := ih hquiet hholds hnodup hi hrest
      exact ⟨htold, by rw [hseen]; exact congrArg (· ++ _) hsame⟩

/-! ### States that the bucket gets -/

theorem Holds.of_sets? (h : s.Holds name i w) (hsets : op.sets? s = some (other, x, u)) :
    u.Holds name i w := by
  obtain ⟨-, next, rfl⟩ := exists_of_sets? hsets
  exact h.of_eq rfl rfl rfl

theorem seenUnder_of_sets? (hsets : op.sets? s = some (other, x, u)) (label : String) :
    u.seenUnder label = s.seenUnder label := by
  obtain ⟨-, next, rfl⟩ := exists_of_sets? hsets
  rfl

theorem Holds.withState (h : s.Holds name i w) (other : String) (x : Live) :
    (s.withState other x).Holds name i w :=
  h.of_eq watcher?_withState rfl rfl

/-- A state that a bucket gets reaches a watcher that is subscribed, if no watcher fails. -/
theorem Holds.apply_told (hs : s.Quiet) (h : s.Holds name i (told label f q))
    (hstate : (SpaceMove.operate op).stateFor? name s = some x) (hx : f.select x = .ok p)
    (haccepts : ∀ j v, s.watcher? name j = some v → v.subscribed = true → v.Accepts x) :
    (op.apply s).2.Holds name i (told label f (if q.same p then q else p)) ∧
      (op.apply s).2.seenUnder label =
        s.seenUnder label ++ (if q.same p then [] else [p.value]) := by
  obtain ⟨u, hsets⟩ := stateFor?_eq_some_iff.mp hstate
  have hu := h.of_sets? hsets
  rw [apply_eq_put hs hsets, ← seenUnder_of_sets? hsets]
  cases hb : u.bucket? name with
  | none =>
    have hnone := hu.watcher
    rw [watcher?, hb] at hnone
    cases hnone
  | some b =>
    -- The watcher is one of those that the state is delivered to, each of which accepts it.
    have hi : i ∈ b.subscribers :=
      mem_subscribers_iff.mpr ⟨_, (watcher?_eq hb i).symm.trans hu.watcher, rfl⟩
    rw [put_of_some hb]
    exact (hu.withState name x).deliverTo_told
      (quiet_withState (quiet_of_sets? hsets hs) name x) (nodup_subscribers b) hi hx
      (accepts_of_mem_subscribers hsets hb haccepts)

/-! ### Moves that do not concern a watcher -/

theorem Holds.withWatcher (h : s.Holds name i w)
    (hv : v.label = w.label → v.callback = .followAliases) (other : String) :
    (s.withWatcher other v).Holds name i w where
  watcher := watcher?_withWatcher_of_some h.watcher
  handle := h.handle
  others := h.others
  follower := h.follower
  alone n j v' hv' hlabel hcallback := by
    rcases watcher?_withWatcher_eq_some hv' with ⟨rfl, -⟩ | hold
    · exact absurd (hv hlabel) hcallback
    · exact h.alone n j v' hold hlabel hcallback

theorem Holds.watch (hs : s.Quiet) (h : s.Holds name i w) (hquiet : v.Quiet)
    (hv : v.label = w.label → v.callback = .followAliases) (other : String) :
    (s.watch other v).2.Holds name i w ∧
      (s.watch other v).2.seenUnder w.label = s.seenUnder w.label := by
  cases hb : s.bucket? other with
  | none =>
    rw [watch_of_none hb]
    exact ⟨h, rfl⟩
  | some b =>
    obtain ⟨r, hr, -⟩ := watch_of_some hs hquiet hb
    rw [hr]
    refine (h.withWatcher hv other).deliverTo_elsewhere (quiet_withWatcher hs hquiet) ?_ b.state
    rintro rfl hi
    have hw := h.watcher
    rw [watcher?_eq hb, List.mem_singleton.mp hi, List.getElem?_eq_none (Nat.le_refl _)] at hw
    cases hw

theorem Holds.subscribe (hs : s.Quiet) (h : s.Holds name i w) (hquiet : v.Quiet)
    (hv : v.label ≠ w.label) (other : String) :
    (s.subscribe other v).2.Holds name i w ∧
      (s.subscribe other v).2.seenUnder w.label = s.seenUnder w.label := by
  have hwatch := h.watch hs hquiet (fun hlabel => absurd hlabel hv) other
  have hplace : ∀ j, (s.watch other v).1 = .ok j → ¬ (other = name ∧ j = i) :=
    fun j => watch_elsewhere hs hquiet h.watcher
  unfold StateSpace.subscribe
  generalize s.watch other v = ending at hwatch hplace ⊢
  rcases ending with ⟨e | j, t⟩
  · exact hwatch
  · obtain ⟨hholds, hseen⟩ := hwatch
    refine ⟨⟨hholds.watcher, ?_, fun label hlabel => ?_, hholds.follower, hholds.alone⟩, hseen⟩
    · -- The labels differ, so the handle of the watcher stays where it is.
      show (t.handles.insert v.label (other, j)).get? w.label = _
      rw [Entries.get?_insert, if_neg hv, hholds.handle]
    · have hget : (t.handles.insert v.label (other, j)).get? label = some (name, i) := hlabel
      rw [Entries.get?_insert] at hget
      split at hget
      · cases hget
        exact absurd ⟨rfl, rfl⟩ (hplace _ rfl)
      · exact hholds.others label hget

/-- Nobody else reports under the label of a watcher after somebody's subscription has ended. -/
theorem Holds.alone_withoutWatcher (h : s.Holds name i w) {n n' : String} {k : Nat}
    (hv : (s.withoutWatcher n j).watcher? n' k = some v) (hlabel : v.label = w.label)
    (hcallback : v.callback ≠ .followAliases) : n' = name ∧ k = i := by
  rw [watcher?_withoutWatcher] at hv
  split at hv
  · rename_i hpos
    obtain ⟨old, hold, rfl⟩ := Option.map_eq_some_iff.mp hv
    rw [hpos.1, hpos.2]
    exact h.alone n j old hold hlabel hcallback
  · exact h.alone n' k v hv hlabel hcallback

theorem Holds.withoutWatcher (h : s.Holds name i w) (hne : ¬ (other = name ∧ j = i)) :
    (s.withoutWatcher other j).Holds name i w := by
  refine ⟨?_, h.handle, h.others, h.follower, fun _ _ _ => h.alone_withoutWatcher⟩
  rw [watcher?_withoutWatcher, if_neg fun hpos => hne ⟨hpos.1.symm, hpos.2.symm⟩, h.watcher]

theorem Holds.unsubscribe (h : s.Holds name i w) (other : String) :
    (s.unsubscribe other).2.Holds name i
      (if other = w.label then { w with subscribed := false } else w) := by
  unfold StateSpace.unsubscribe
  split
  · rename_i hnone
    rw [if_neg]
    · exact h
    · rintro rfl
      rw [h.handle] at hnone
      cases hnone
  · rename_i n j hget
    show (s.withoutWatcher n j).Holds name i _
    -- The label is given out for the place of one watcher, so the place decides whose it is.
    by_cases hother : other = w.label
    · rw [if_pos hother]
      subst hother
      rw [h.handle] at hget
      cases hget
      refine ⟨?_, h.handle, h.others, h.follower, fun _ _ _ => h.alone_withoutWatcher⟩
      rw [watcher?_withoutWatcher, if_pos ⟨rfl, rfl⟩, h.watcher, Option.map_some]
    · rw [if_neg hother]
      refine h.withoutWatcher ?_
      rintro ⟨rfl, rfl⟩
      exact hother (h.others other hget)

theorem seenUnder_unsubscribe (s : StateSpace) (other label : String) :
    (s.unsubscribe other).2.seenUnder label = s.seenUnder label := by
  unfold StateSpace.unsubscribe
  split <;> rfl

theorem Holds.followAliases (hs : s.Quiet) (h : s.Holds name i w) (other : String) :
    (s.followAliases other).2.Holds name i w ∧
      (s.followAliases other).2.seenUnder w.label = s.seenUnder w.label := by
  -- The follower of before is another watcher, and so is the new one.
  have hreleased :
      s.released.Holds name i w ∧ s.released.seenUnder w.label = s.seenUnder w.label := by
    unfold released
    split
    · rename_i n j hfollower
      refine ⟨h.withoutWatcher ?_, rfl⟩
      rintro ⟨rfl, rfl⟩
      exact h.follower hfollower
    · exact ⟨h, rfl⟩
  have hquiet := quiet_released hs
  have hfollower : Watcher.follower.Quiet := Or.inl rfl
  have hwatch := hreleased.1.watch hquiet hfollower (fun _ => rfl) other
  have hplace : ∀ j, (s.released.watch other .follower).1 = .ok j → ¬ (other = name ∧ j = i) :=
    fun j => watch_elsewhere hquiet hfollower hreleased.1.watcher
  rw [followAliases_eq]
  generalize s.released.watch other .follower = ending at hwatch hplace ⊢
  rcases ending with ⟨e | j, t⟩
  · exact ⟨hwatch.1, hwatch.2.trans hreleased.2⟩
  · obtain ⟨hholds, hseen⟩ := hwatch
    refine ⟨⟨hholds.watcher, hholds.handle, hholds.others, ?_, hholds.alone⟩,
      hseen.trans hreleased.2⟩
    intro hpos
    cases hpos
    exact hplace _ rfl ⟨rfl, rfl⟩

/-- A state that a bucket gets does not concern a watcher of another bucket, or one whose
subscription has ended. -/
theorem Holds.put_elsewhere (hs : s.Quiet) (h : s.Holds name i w)
    (hsets : op.sets? s = some (other, x, u)) (hne : other = name → w.subscribed = false) :
    (op.apply s).2.Holds name i w ∧ (op.apply s).2.seenUnder w.label = s.seenUnder w.label := by
  have hu := h.of_sets? hsets
  rw [apply_eq_put hs hsets, ← seenUnder_of_sets? hsets]
  cases hb : u.bucket? other with
  | none =>
    rw [put_of_none hb]
    exact ⟨hu, rfl⟩
  | some b =>
    rw [put_of_some hb]
    refine (hu.withState other x).deliverTo_elsewhere
      (quiet_withState (quiet_of_sets? hsets hs) other x) ?_ x
    rintro rfl hi
    obtain ⟨v, hv, hsub⟩ := mem_subscribers_iff.mp hi
    obtain rfl : v = w := Option.some.inj (hv.symm.trans ((watcher?_eq hb i).symm.trans hu.watcher))
    rw [hne rfl] at hsub
    cases hsub

/-- An operation that does not give the bucket of a watcher a new state, or that comes when its
subscription has ended, does not concern the watcher. -/
theorem Holds.apply_elsewhere (hs : s.Quiet) (h : s.Holds name i w)
    (hnew : ∀ other g, op ≠ .observe other w.label g)
    (hstate : w.subscribed = true → (SpaceMove.operate op).stateFor? name s = none) :
    (op.apply s).2.Holds name i w ∧ (op.apply s).2.seenUnder w.label = s.seenUnder w.label := by
  -- Operations that may give a bucket a new state come to a put elsewhere, or to nothing at all.
  have htarget : ∀ n, op.target? = some n →
      (op.apply s).2.Holds name i w ∧ (op.apply s).2.seenUnder w.label = s.seenUnder w.label := by
    intro n hn
    cases hsets : op.sets? s with
    | some made =>
      obtain ⟨other, x, u⟩ := made
      refine h.put_elsewhere hs hsets fun hother => ?_
      subst hother
      by_contra hsub
      have hnone := hstate (by simpa using hsub)
      rw [stateFor?_eq_some_iff.mpr ⟨u, hsets⟩] at hnone
      cases hnone
    | none =>
      obtain ⟨next, events, heq, hevents⟩ := apply_of_sets?_none hn hsets
      rw [heq]
      exact ⟨h.of_eq rfl rfl rfl, seenUnder_of_logs rfl hevents⟩
  cases op with
  | act op =>
    cases op with
    | opening n initial =>
      show (s.openBucket n initial).Holds name i w ∧
        (s.openBucket n initial).seenUnder w.label = s.seenUnder w.label
      cases hb : s.bucket? n with
      | some b =>
        rw [openBucket_of_some hb]
        exact ⟨h, rfl⟩
      | none =>
        have hwatchers : (s.openBucket n initial).watcher? = s.watcher? := watcher?_openBucket
        rw [openBucket_of_none hb] at hwatchers ⊢
        exact ⟨h.of_eq hwatchers rfl rfl, rfl⟩
    | persist n =>
      show (s.persist n).2.Holds name i w ∧ (s.persist n).2.seenUnder w.label = _
      rcases persist_cases s n with ⟨r, heq⟩ | ⟨b, y, -, -, heq⟩
      · rw [heq]
        exact ⟨h, rfl⟩
      · rw [heq]
        exact ⟨h.of_eq rfl rfl rfl, rfl⟩
    | update n y => exact htarget n rfl
    | reset n => exact htarget n rfl
  | load n => exact htarget n rfl
  | follow n => exact h.followAliases hs n
  | observe n other g =>
    refine h.subscribe hs (Or.inr rfl) ?_ n
    intro hother
    exact hnew n g (congrArg (SpaceOperation.observe n · g) hother)

/-! ### Several moves -/

theorem agreeable_append {more : List SpaceMove} :
    Agreeable name (moves ++ more) s ↔
      Agreeable name moves s ∧ Agreeable name more (s.play moves) := by
  induction moves generalizing s with
  | nil => exact (iff_of_eq (true_and _)).symm
  | cons m moves ih =>
    rw [List.cons_append, Agreeable, Agreeable, ih, and_assoc]
    rfl

/-- A watcher whose subscription has ended is told nothing, whatever is done. -/
theorem Holds.play_ended (hs : s.Quiet) (h : s.Holds name i w) (hended : w.subscribed = false)
    (hnew : ∀ other g, .operate (.observe other w.label g) ∉ moves) :
    (s.play moves).seenUnder w.label = s.seenUnder w.label := by
  induction moves generalizing s with
  | nil => rfl
  | cons m moves ih =>
    have hrest : ∀ other g, .operate (.observe other w.label g) ∉ moves :=
      fun other g hmem => hnew other g (List.mem_cons_of_mem _ hmem)
    -- No operation reaches a watcher whose subscription has ended, and it cannot be ended again.
    have hstep : (m.apply s).2.Holds name i w ∧
        (m.apply s).2.seenUnder w.label = s.seenUnder w.label := by
      cases m with
      | operate op =>
        refine h.apply_elsewhere hs ?_ fun hsub => ?_
        · rintro other g rfl
          exact hnew other g List.mem_cons_self
        · rw [hended] at hsub
          cases hsub
      | unsubscribe other =>
        have hsame : ({ w with subscribed := false } : Watcher) = w := by rw [← hended]
        have hholds := h.unsubscribe other
        rw [hsame, ite_self] at hholds
        exact ⟨hholds, seenUnder_unsubscribe s other w.label⟩
    exact (ih (quiet_move hs m) hstep.1 hrest).trans hstep.2

theorem destutter'_eq_cons (p : Live) (parts : List Live) :
    parts.destutter' Live.Differs p = p :: (parts.destutter' Live.Differs p).tail := by
  induction parts generalizing p with
  | nil => rfl
  | cons q parts ih =>
    rw [List.destutter'_cons]
    split
    · rfl
    · exact ih p

/-- What is left of some parts behind one that was told: the first of them unless it equals that
one, and then what is left behind the last of both that was told. -/
theorem tail_destutter'_cons (q p : Live) (parts : List Live) :
    ((p :: parts).destutter' Live.Differs q).tail.map Live.value =
      (if q.same p then [] else [p.value]) ++
        (parts.destutter' Live.Differs (if q.same p then q else p)).tail.map Live.value := by
  cases hsame : q.same p with
  | true =>
    have hnot : ¬ q.Differs p := fun h => by cases hsame.symm.trans h
    rw [List.destutter'_cons_neg _ hnot]
    rfl
  | false =>
    have hdiffers : q.Differs p := hsame
    rw [List.destutter'_cons_pos _ hdiffers, List.tail_cons, destutter'_eq_cons]
    rfl

/-- What a watcher with a selector is told while its subscription is open: of the parts of the
states that the bucket gets, those that differ from the one told last. -/
theorem Holds.play_told (hs : s.Quiet) (h : s.Holds name i (told label f q))
    (hnew : ∀ other g, .operate (.observe other label g) ∉ moves)
    (hopen : ∀ m ∈ moves, m.ends label = false) (hagree : Agreeable name moves s) :
    ∃ parts r, List.Forall₂ (fun x p => f.select x = .ok p) (statesOf name moves s) parts ∧
      (s.play moves).Holds name i (told label f r) ∧
      (s.play moves).seenUnder label = s.seenUnder label ++
        (parts.destutter' Live.Differs q).tail.map Live.value := by
  induction moves generalizing s q with
  | nil => exact ⟨[], q, .nil, h, (List.append_nil _).symm⟩
  | cons m moves ih =>
    have hquiet := quiet_move hs m
    have hnew' : ∀ other g, .operate (.observe other label g) ∉ moves :=
      fun other g hmem => hnew other g (List.mem_cons_of_mem _ hmem)
    have hopen' : ∀ m ∈ moves, m.ends label = false :=
      fun m hm => hopen m (List.mem_cons_of_mem _ hm)
    obtain ⟨haccepts, hagree⟩ := hagree
    cases hstate : m.stateFor? name s with
    | some x =>
      -- The bucket gets a state, which the watcher is told unless its part is the same.
      obtain ⟨p, hp, -⟩ := haccepts x hstate i _ h.watcher rfl
      cases m with
      | unsubscribe other => cases hstate
      | operate op =>
        obtain ⟨hholds, hseen⟩ := h.apply_told hs hstate hp (haccepts x hstate)
        obtain ⟨parts, r, hparts, hlast, hrest⟩ := ih hquiet hholds hnew' hopen' hagree
        refine ⟨p :: parts, r, ?_, hlast, ?_⟩
        · rw [statesOf, hstate]
          exact .cons hp hparts
        · refine hrest.trans ((congrArg (· ++ _) hseen).trans ?_)
          rw [tail_destutter'_cons, List.append_assoc]
    | none =>
      have hstep : (m.apply s).2.Holds name i (told label f q) ∧
          (m.apply s).2.seenUnder label = s.seenUnder label := by
        cases m with
        | operate op =>
          refine h.apply_elsewhere hs ?_ fun _ => hstate
          rintro other g rfl
          exact hnew other g List.mem_cons_self
        | unsubscribe other =>
          have hholds := h.unsubscribe other
          have hother : other ≠ label := by simpa [SpaceMove.ends] using hopen _ List.mem_cons_self
          rw [if_neg (show ¬ other = (told label f q).label from hother)] at hholds
          exact ⟨hholds, seenUnder_unsubscribe s other label⟩
      obtain ⟨parts, r, hparts, hlast, hrest⟩ := ih hquiet hstep.1 hnew' hopen' hagree
      refine ⟨parts, r, ?_, hlast, hrest.trans (congrArg (· ++ _) hstep.2)⟩
      rw [statesOf, hstate]
      exact hparts

/-- Once somebody ends the subscription of a watcher, it is told nothing more. -/
theorem Holds.play_rest (hs : s.Quiet) (h : s.Holds name i (told label f q))
    (hnew : ∀ other g, .operate (.observe other label g) ∉ moves.dropWhile fun m => !m.ends label) :
    (s.play (moves.dropWhile fun m => !m.ends label)).seenUnder label = s.seenUnder label := by
  cases hrest : moves.dropWhile fun m => !m.ends label with
  | nil => rfl
  | cons m rest =>
    have hends : m.ends label = true := by
      have hhead := List.head?_dropWhile_not (fun m : SpaceMove => !m.ends label) moves
      rw [hrest] at hhead
      simpa using hhead
    rw [hrest] at hnew
    cases m with
    | operate op => cases hends
    | unsubscribe other =>
      obtain rfl : other = label := by simpa [SpaceMove.ends] using hends
      have hholds := h.unsubscribe other
      rw [if_pos (show other = (told other f q).label from rfl)] at hholds
      refine (hholds.play_ended (quiet_move hs (.unsubscribe other)) rfl fun n g hmem =>
        hnew n g (List.mem_cons_of_mem _ hmem)).trans ?_
      exact seenUnder_unsubscribe s other other

/-! ### All that a watcher is told -/

/-- To leave out what equals the value kept last is to leave out what equals the one right before,
where equality can be turned round and chained. -/
theorem destutter'_eq_changesAfter {parts all : List Live} {q p : Live}
    (hall : Live.EquatesWell all)
    (hq : q ∈ all) (hp : p ∈ all) (hparts : parts ⊆ all) (hqp : q = p ∨ q.same p = true) :
    parts.destutter' Live.Differs q = q :: Live.changesAfter p parts := by
  -- `q` was kept last, and `p`, which equals it, stands right before.
  induction parts generalizing q p with
  | nil => rfl
  | cons r parts ih =>
    have hr : r ∈ all := hparts List.mem_cons_self
    have hrest : parts ⊆ all := fun x hx => hparts (List.mem_cons_of_mem _ hx)
    have hiff : q.same r = p.same r := by
      rcases hqp with rfl | hqp
      · rfl
      · rw [Bool.eq_iff_iff]
        exact ⟨hall.trans p hp q hq r hr (hall.symm q hq p hp hqp), hall.trans q hq p hp r hr hqp⟩
    rw [List.destutter'_cons, Live.changesAfter, ← hiff]
    cases hsame : q.same r with
    | true =>
      have hnot : ¬ q.Differs r := fun h => by cases hsame.symm.trans h
      rw [if_neg hnot]
      exact ih hq hr hrest (Or.inr hsame)
    | false =>
      have hdiffers : q.Differs r := hsame
      rw [if_pos hdiffers, ih hr hr hrest (Or.inl rfl)]
      rfl

/-- Nobody holds a subscription in a place where there is no watcher. -/
theorem Held.not_held (h : s.Held) (hnone : s.watcher? name i = none) :
    (∀ label, s.handles.get? label ≠ some (name, i)) ∧ s.aliasWatcher ≠ some (name, i) := by
  constructor
  · intro label hget
    have hsome := h.handles label name i hget
    rw [hnone] at hsome
    cases hsome
  · intro hget
    have hsome := h.follower name i hget
    rw [hnone] at hsome
    cases hsome

/-- A watcher that accepts the state of its bucket comes, and is told it. -/
theorem watch_of_accepts (hs : s.Quiet) (hw : w.Quiet) (hb : s.bucket? name = some b)
    (haccepts : w.Accepts b.state) :
    s.watch name w = (.ok b.watchers.length,
      ((s.withWatcher name w).deliver name b.watchers.length b.state).2) := by
  have hquiet : (s.withWatcher name w).Quiet := quiet_withWatcher hs hw
  have hcame : (s.withWatcher name w).watcher? name b.watchers.length = some w := by
    rw [watcher?_withWatcher hb, if_pos ⟨rfl, rfl⟩]
  obtain ⟨more, hmore⟩ := exists_deliver_of_accepts (x := b.state) hquiet fun v hv => by
    obtain rfl := Option.some.inj (hcame.symm.trans hv)
    exact haccepts
  have hsettle : (s.withWatcher name w).settle [.deliver name b.watchers.length b.state] =
      deliverTo name b.state [b.watchers.length] (s.withWatcher name w) :=
    @settle_eq_deliverTo _ _ _ [b.watchers.length] hquiet
  rw [watch_eq_settle hb, hsettle]
  unfold deliverTo
  generalize (s.withWatcher name w).deliver name b.watchers.length b.state = ending at hmore ⊢
  rcases ending with ⟨e | more', t⟩
  · cases hmore
  · rfl

/-- A watcher that comes is told its part of the state at once. -/
theorem holds_subscribe (hs : s.Quiet) (hheld : s.Held) (hb : s.bucket? name = some b)
    (hlabel : ∀ other j v, s.watcher? other j = some v → v.label = label →
      v.callback = .followAliases)
    (hp : f.select b.state = .ok p) :
    (s.subscribe name (.reporter label (some f))).1 = .ok () ∧
      (s.subscribe name (.reporter label (some f))).2.Holds name b.watchers.length
        (told label f p) ∧
      (s.subscribe name (.reporter label (some f))).2.seenUnder label =
        s.seenUnder label ++ [p.value] := by
  let w := Watcher.reporter label (some f)
  -- The watcher comes last, where there was none before.
  have hnone : s.watcher? name b.watchers.length = none := by
    rw [watcher?_eq hb, List.getElem?_eq_none (Nat.le_refl _)]
  have hw : (s.withWatcher name w).watcher? name b.watchers.length = some w := by
    rw [watcher?_withWatcher hb, if_pos ⟨rfl, rfl⟩]
  have hwatch := watch_of_accepts hs (Or.inr rfl) hb (w := w) ⟨p, hp, by rintro ⟨⟩⟩
  obtain ⟨hwatchers, -, hreports⟩ :=
    deliver_received (quiet_withWatcher hs (Or.inr rfl)) hw (Watcher.receive_of_part hp)
  have hreported := hreports (by rintro ⟨⟩)
  have hframed := framed_deliver (s.withWatcher name w) name b.watchers.length b.state
  obtain ⟨hfree, hfollower⟩ := hheld.not_held hnone
  unfold StateSpace.subscribe
  rw [hwatch]
  -- What is known of the delivery is all that counts from here on.
  generalize ((s.withWatcher name w).deliver name b.watchers.length b.state).2 = t at *
  refine ⟨rfl, ⟨?_, ?_, fun other hother => ?_, ?_, fun n j v hv hvlabel hcallback => ?_⟩, ?_⟩
  · show t.watcher? name b.watchers.length = _
    rw [hwatchers, watcher?_give, if_pos ⟨rfl, rfl⟩, hw]
    rfl
  · show (t.handles.insert label _).get? label = _
    rw [Entries.get?_insert, if_pos rfl]
  · -- The place is new, so of all labels only this one leads to it.
    have hget : (t.handles.insert label (name, b.watchers.length)).get? other =
        some (name, b.watchers.length) := hother
    rw [Entries.get?_insert] at hget
    split at hget
    · rename_i heq
      exact heq.symm
    · rw [hframed.handles] at hget
      exact absurd hget (hfree other)
  · show t.aliasWatcher ≠ _
    rw [hframed.aliasWatcher]
    exact hfollower
  · have hv' : t.watcher? n j = some v := hv
    rw [hwatchers, watcher?_give] at hv'
    split at hv'
    · assumption
    · rename_i hpos
      rw [watcher?_withWatcher hb, if_neg hpos] at hv'
      exact absurd (hlabel n j v hv' hvlabel) hcallback
  · show t.seenUnder label = _
    rw [seenUnder_cons hreported, if_pos (show w.label = label from rfl)]
    rfl

/-- What a selector delivers.  A watcher with a selector comes to a bucket of a space in which no
watcher changes anything in turn, under a label that nobody else uses.  Then buckets are opened,
updated, reset, loaded and kept, and watchers come and go, until its subscription ends and after
that, in any order; no watcher of the bucket fails as long as the subscription is open.  Then the
watcher comes to be subscribed, every change of the bucket returns, and what the watcher reports in
all this are the parts of the state that it finds and of those that the bucket gets while its
subscription is open, in order, but for the parts that equal the one reported last.  Where equality
can be turned round and chained, these are the parts that equal the one right before them. -/
theorem selector_delivers_changes {r : Except Fault Unit} (hs : s.Quiet) (hheld : s.Held)
    (hb : s.bucket? name = some b)
    (hlabel : ∀ other j v, s.watcher? other j = some v → v.label = label →
      v.callback = .followAliases)
    (haccepts : (Watcher.reporter label (some f)).Accepts b.state)
    (hsubscribe : s.subscribe name (.reporter label (some f)) = (r, t))
    (hnew : ∀ other g, .operate (.observe other label g) ∉ moves)
    (hagree : Agreeable name (moves.takeWhile fun m => !m.ends label) t) :
    r = .ok () ∧
      (∀ front op back x, (moves.takeWhile fun m => !m.ends label) = front ++ .operate op :: back →
        (SpaceMove.operate op).stateFor? name (t.play front) = some x →
          (op.apply (t.play front)).1 = .ok ()) ∧
      ∃ parts,
        List.Forall₂ (fun x p => f.select x = .ok p)
          (b.state :: statesOf name (moves.takeWhile fun m => !m.ends label) t) parts ∧
        (t.play moves).seenUnder label =
          s.seenUnder label ++ (parts.destutter Live.Differs).map Live.value ∧
        (Live.EquatesWell parts → parts.destutter Live.Differs = Live.changes parts) := by
  obtain ⟨p, hp, -⟩ := haccepts
  obtain ⟨hok, hholds, hseen⟩ := holds_subscribe hs hheld hb hlabel hp
  have hquiet : t.Quiet := by
    have happly : (s.subscribe name (.reporter label (some f))).2.Quiet :=
      quiet_apply hs (.observe name label (some f))
    rwa [hsubscribe] at happly
  rw [hsubscribe] at hok hholds hseen
  have hopen : ∀ m ∈ moves.takeWhile fun m => !m.ends label, m.ends label = false := fun m hm => by
    simpa using List.mem_takeWhile_imp hm
  -- What is told while the subscription is open; behind its end nothing more comes.
  obtain ⟨parts, q, hparts, hlast, htold⟩ := hholds.play_told hquiet
    (fun other g hmem => hnew other g (List.takeWhile_subset _ hmem)) hopen hagree
  refine ⟨hok, fun front op back x hsplit hstate => ?_, p :: parts, .cons hp hparts, ?_,
    fun hwell => ?_⟩
  · rw [hsplit, agreeable_append] at hagree
    exact apply_ok_of_accepts (quiet_play hquiet front) hstate (hagree.2.1 x hstate)
  · rw [← List.takeWhile_append_dropWhile (p := fun m => !m.ends label) (l := moves), play_append,
      hlast.play_rest (quiet_play hquiet _) (fun other g hmem => hnew other g
        (List.dropWhile_subset _ hmem)), htold, hseen, List.append_assoc, List.destutter_cons',
      destutter'_eq_cons]
    rfl
  · exact destutter'_eq_changesAfter hwell List.mem_cons_self List.mem_cons_self
      (fun x hx => List.mem_cons_of_mem _ hx) (Or.inl rfl)

/-! ### A key that is watched -/

theorem exists_map_of_update {new : Value}
    (h : (SpaceMove.operate (.act (.update name new))).stateFor? name s = some x) :
    ∃ mark entries, x = .map mark entries := by
  obtain ⟨u, hsets⟩ := stateFor?_eq_some_iff.mp h
  cases sets?_eq_some_iff.mp hsets with
  | update hmerged =>
    rcases merged_cases s name new with
      ⟨e, next, heq⟩ | ⟨c, mark, old, n, given, next, -, -, heq⟩
    · cases hmerged.symm.trans heq
    · cases hmerged.symm.trans heq
      exact ⟨_, _, rfl⟩

/-- Watchers that accept maps agree to updates. -/
theorem agreeable_updates (hs : s.Quiet) {news : List Value}
    (haccepts : ∀ i w, s.watcher? name i = some w → ∀ mark entries, w.Accepts (.map mark entries)) :
    Agreeable name (news.map fun new => .operate (.act (.update name new))) s := by
  induction news generalizing s with
  | nil => trivial
  | cons new news ih =>
    refine ⟨fun x hstate i w hw _ => ?_, ih (quiet_move hs _) fun i w hw => ?_⟩
    · obtain ⟨mark, entries, rfl⟩ := exists_map_of_update hstate
      exact haccepts i w hw mark entries
    · -- An update leaves the watchers what they are, except for what they keep.
      have hforget : ((s.update name new).2.watcher? name i).map Watcher.forget =
          (s.watcher? name i).map Watcher.forget := by
        rcases update_cases hs name new with
          ⟨e, next, heq⟩ | ⟨c, mark, old, n, given, next, -, -, heq⟩
        · rw [heq]
          rfl
        · rw [heq]
          exact (puts_put_of_mark hs next name _).watchers name i
      rw [show (s.update name new).2.watcher? name i = some w from hw, Option.map_some] at hforget
      obtain ⟨v, hv, heq⟩ := Option.map_eq_some_iff.mp hforget.symm
      exact fun mark entries =>
        Watcher.accepts_of_forget heq.symm (haccepts i v hv mark entries)

/-- A bucket with two keys that somebody watches. -/
def watchedSpace : StateSpace :=
  ((openBucket {} "demo" (.map [("watched", .int 1), ("other", .int 0)])).subscribe "demo"
    (.reporter "early" none)).2

/-- Three updates, of which the first leaves the key alone that is watched and the last repeats the
second. -/
def watchedUpdates : List SpaceMove :=
  [.map [("other", .int 1)], .map [("watched", .int 2)], .map [("watched", .int 2)]].map fun new =>
    .operate (.act (.update "demo" new))

theorem watchedSpace_spec :
    watchedSpace.Quiet ∧ watchedSpace.Held ∧
      (∃ b mark entries, watchedSpace.bucket? "demo" = some b ∧ b.state = .map mark entries) ∧
      ∀ other j v, watchedSpace.watcher? other j = some v →
        v.forget = (Watcher.reporter "early" none).forget := by
  have hopened : (openBucket {} "demo" (.map [("watched", .int 1), ("other", .int 0)])).Sound :=
    (sound_of_no_buckets rfl).openBucket
  have hheld : (openBucket {} "demo" (.map [("watched", .int 1), ("other", .int 0)])).Held :=
    held_of_no_handles rfl rfl
  have hwatcher : ∀ other j,
      (openBucket {} "demo" (.map [("watched", .int 1), ("other", .int 0)])).watcher? other j =
        none := by
    intro other j
    rw [watcher?_openBucket]
    rfl
  obtain ⟨c, hc, entries, hstate⟩ : ∃ c,
      (openBucket {} "demo" (.map [("watched", .int 1), ("other", .int 0)])).content? "demo" =
        some c ∧ ∃ entries, c.2 = .map 2 entries :=
    ⟨_, rfl, _, rfl⟩
  have hopen : ∃ b, (openBucket {} "demo"
      (.map [("watched", .int 1), ("other", .int 0)])).bucket? "demo" = some b := ⟨_, rfl⟩
  unfold watchedSpace
  -- That the state is a map is all that counts of the bucket from here on.
  generalize openBucket {} "demo" _ = s at *
  have hquiet : (Watcher.reporter "early" none).Quiet := Or.inr rfl
  obtain ⟨handles, heq⟩ := exists_subscribe_eq s "demo" (.reporter "early" none)
  refine ⟨quiet_apply hopened.quiet (.observe "demo" "early" none),
    held_apply hheld (.operate (.observe "demo" "early" none)) ?_, ?_, fun other j v hv => ?_⟩
  · rintro n ⟨⟩
    exact hopen
  · have hcontent : (s.subscribe "demo" (.reporter "early" none)).2.content? "demo" = some c := by
      rw [heq]
      exact (congrFun (content?_watch hopened.quiet hquiet) "demo").trans hc
    obtain ⟨b, hb, rfl⟩ := Option.map_eq_some_iff.mp hcontent
    exact ⟨b, 2, entries, hb, hstate⟩
  · rw [heq] at hv
    rcases forget_of_watch hopened.quiet hquiet hv with hforget | ⟨v', hold, -⟩
    · exact hforget
    · rw [hwatcher] at hold
      cases hold

/-- Somebody watches a key of a bucket that somebody else watches as well.  There are three updates,
the subscription ends, and there is a fourth one. -/
theorem watched_key_is_told_twice :
    ∃ (t : StateSpace) (b : Bucket) (moves : List SpaceMove) (parts : List Live),
      watchedSpace.Quiet ∧ watchedSpace.Held ∧ watchedSpace.bucket? "demo" = some b ∧
      watchedSpace.subscribe "demo" (.reporter "w" (some (.key (.ofText "watched")))) =
        (.ok (), t) ∧
      moves.length = 5 ∧
      (t.play moves).seenUnder "w" =
        watchedSpace.seenUnder "w" ++ (parts.destutter Live.Differs).map Live.value ∧
      ((t.play moves).seenUnder "w").map Value.shown = ["1", "2"] := by
  let f := Selector.key (.ofText "watched")
  let moves : List SpaceMove := watchedUpdates ++
    [.unsubscribe "w", .operate (.act (.update "demo" (.map [("watched", .int 3)])))]
  have htake : (moves.takeWhile fun m => !m.ends "w") = watchedUpdates := rfl
  have hnew : ∀ other g, .operate (.observe other "w" g) ∉ moves := by
    intro other g hmem
    simp [moves, watchedUpdates] at hmem
  have hshown : (((watchedSpace.subscribe "demo" (.reporter "w" (some f))).2.play moves).seenUnder
      "w").map Value.shown = ["1", "2"] := by decide +kernel
  obtain ⟨hs, hheld, ⟨b, mark, entries, hb, hstate⟩, hwatchers⟩ := watchedSpace_spec
  have hforget : ∀ other j v,
      (watchedSpace.watch "demo" (.reporter "w" (some f))).2.watcher? other j = some v →
      v.forget = (Watcher.reporter "w" (some f)).forget ∨
        ∃ v', watchedSpace.watcher? other j = some v' ∧ v.forget = v'.forget :=
    fun other j v => forget_of_watch hs (Or.inr rfl)
  obtain ⟨handles, heq⟩ := exists_subscribe_eq watchedSpace "demo" (.reporter "w" (some f))
  have hquiet : (watchedSpace.subscribe "demo" (.reporter "w" (some f))).2.Quiet :=
    quiet_apply hs (.observe "demo" "w" (some f))
  have hmaps : ∀ j v, (watchedSpace.subscribe "demo" (.reporter "w" (some f))).2.watcher? "demo" j =
      some v → ∀ mark entries, v.Accepts (.map mark entries) := by
    intro j v hv mark entries
    rw [heq] at hv
    rcases hforget "demo" j v hv with hv' | ⟨v', hold, hv'⟩
    · exact Watcher.accepts_of_forget hv' ⟨_, rfl, by rintro ⟨⟩⟩
    · exact Watcher.accepts_of_forget (hv'.trans (hwatchers _ _ _ hold)) ⟨_, rfl, by rintro ⟨⟩⟩
  clear heq
  generalize hends : watchedSpace.subscribe "demo" (.reporter "w" (some f)) = ending at *
  obtain ⟨r, t⟩ := ending
  obtain ⟨rfl, -, parts, -, hseen, -⟩ := selector_delivers_changes hs hheld hb
    (fun other j v hv hlabel => by
      have hname : v.label = "early" := (congrArg Watcher.label (hwatchers other j v hv) :)
      exact absurd (hlabel.symm.trans hname) (by decide))
    ⟨_, by rw [hstate]; rfl, by rintro ⟨⟩⟩ hends hnew
    (by rw [htake]; exact agreeable_updates hquiet hmaps)
  exact ⟨t, b, moves, parts, hs, hheld, hb, rfl, rfl, hseen, hshown⟩

end StateSpace

end CommandShell
