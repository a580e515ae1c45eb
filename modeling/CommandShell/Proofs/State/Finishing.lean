import CommandShell.Proofs.State.Separation
import CommandShell.Proofs.State.Snapshots
import Mathlib.Algebra.Order.BigOperators.Group.List
import Mathlib.Algebra.Order.Ring.Nat

/-!
# What a change leads to comes to an end

A watcher does each of its actions once, and an action that is put off is worth less after that.  So
every step of what a change leads to leaves less to be done, though a change in turn adds a delivery
for every watcher, and the steps that are counted for a change are enough to do all of it.

## Main definitions

* `Bucket.weight`, `Delivery.turns`: what watchers have pending, and the steps of a delivery.
* `StateSpace.work`: an amount that is more than the steps that are still to be done.

## Main results

* `StateSpace.work_takeStep_lt`: every step makes it less.
* `StateSpace.course_of_settle`: a change that returns has done all that it leads to.
-/

namespace CommandShell

/-- How many actions the watchers of a bucket have still pending. -/
def Bucket.weight (b : Bucket) : Nat :=
  (b.watchers.map StateSpace.watcherWeight).sum

/-- The steps that a delivery takes by itself: it is followed by a turn to act. -/
def Delivery.turns : Delivery → Nat
  | .deliver _ _ _ => 2
  | .act _ _ _ _ => 1

namespace StateSpace

/-- An amount of what is still to be done: the turns, and for every action that is pending the turns
of a delivery to each watcher. -/
def work (s : StateSpace) (agenda : List Delivery) : Nat :=
  (agenda.map Delivery.turns).sum +
    (s.pendingWeight + agendaWeight agenda) * (2 * s.watcherCount + 2)

variable {s t u : StateSpace} {name : String} {b : Bucket} {w : Watcher} {i : Nat} {x : Live}
  {d : Delivery} {agenda more : List Delivery} {a : WatcherAction}

/-! ### Sums -/

theorem foldl_add_eq {α : Type} (f : α → Nat) (l : List α) (n : Nat) :
    l.foldl (fun n a => n + f a) n = n + (l.map f).sum := by
  induction l generalizing n with
  | nil => rfl
  | cons a l ih => rw [List.foldl_cons, ih, List.map_cons, List.sum_cons, Nat.add_assoc]

theorem sum_map_modify {α : Type} (f : α → α) (g : α → Nat) {l : List α} {i : Nat} {a : α}
    (h : l[i]? = some a) : ((l.modify i f).map g).sum + g a = (l.map g).sum + g (f a) := by
  induction l generalizing i with
  | nil => cases h
  | cons c l ih =>
    cases i with
    | zero =>
      obtain rfl := Option.some.inj h
      rw [List.modify_zero_cons, List.map_cons, List.map_cons, List.sum_cons, List.sum_cons]
      omega
    | succ i =>
      have hrest := ih (i := i) h
      rw [List.modify_succ_cons, List.map_cons, List.map_cons, List.sum_cons, List.sum_cons]
      omega

theorem pendingWeight_eq (s : StateSpace) :
    s.pendingWeight = (s.buckets.map Bucket.weight).sum := by
  have hbucket : (fun n (b : Bucket) => b.watchers.foldl (fun n w => n + watcherWeight w) n) =
      fun n b => n + b.weight :=
    funext fun n => funext fun b => foldl_add_eq watcherWeight b.watchers n
  rw [pendingWeight, hbucket, foldl_add_eq, Nat.zero_add]

theorem watcherCount_eq (s : StateSpace) :
    s.watcherCount = (s.buckets.map (·.watchers.length)).sum := by
  rw [watcherCount, foldl_add_eq fun b : Bucket => b.watchers.length, Nat.zero_add]

theorem agendaWeight_append (agenda more : List Delivery) :
    agendaWeight (agenda ++ more) = agendaWeight agenda + agendaWeight more := by
  induction agenda with
  | nil => exact (Nat.zero_add _).symm
  | cons d agenda ih =>
    cases d with
    | deliver => exact ih
    | act n i x actions =>
      show _ + agendaWeight (agenda ++ more) = _ + agendaWeight agenda + _
      rw [ih, Nat.add_assoc]

/-! ### Names -/

/-- No two buckets get the same name. -/
theorem names_nodup_of_arises (h : s.Arises) : s.names.Nodup := by
  induction h with
  | empty hnone =>
    rw [names, hnone]
    exact List.nodup_nil
  | @operates s op _ ih =>
    show (op.apply s).2.names.Nodup
    by_cases hkeeps : ∃ other, op = .act (.persist other)
    · obtain ⟨other, rfl⟩ := hkeeps
      show (s.persist other).2.names.Nodup
      rcases persist_cases s other with ⟨r, heq⟩ | ⟨b, v, -, -, heq⟩ <;>
      · rw [heq]
        exact ih
    · exact (conserves_apply fun other hop => hkeeps ⟨other, hop⟩).nodup ih
  | @subscribes s name w _ ih => exact (conserves_subscribe s name w).nodup ih
  | @unsubscribes s label _ ih => exact (framed_unsubscribe s label).conserves.nodup ih
  | @edits s name path v _ ih => exact (conserves_edit s name path v).nodup ih

theorem Framed.names_nodup (h : s.Framed t) (hs : s.names.Nodup) : t.names.Nodup :=
  h.conserves.nodup hs

theorem Framed.watcherCount_eq (h : s.Framed t) : t.watcherCount = s.watcherCount := by
  have hlengths := congrArg (List.map fun o => o.2.2.length) h.outline
  rw [List.map_map, List.map_map] at hlengths
  have houtline : (fun o : String × Live × List (String × Option Selector) => o.2.2.length) ∘
      Bucket.outline = fun b => b.watchers.length :=
    funext fun b => by simp [Bucket.outline]
  rw [houtline] at hlengths
  rw [StateSpace.watcherCount_eq, StateSpace.watcherCount_eq, hlengths]

/-! ### What is pending after a change of a bucket -/

theorem pendingWeight_modifyBucket_of_weight {f : Bucket → Bucket}
    (hf : ∀ b, (f b).weight = b.weight) :
    (s.modifyBucket name f).pendingWeight = s.pendingWeight := by
  rw [pendingWeight_eq, pendingWeight_eq, modifyBucket, List.map_map]
  refine congrArg List.sum (List.map_congr_left fun b _ => ?_)
  show (if b.name == name then f b else b).weight = b.weight
  split
  · exact hf b
  · rfl

/-- Where names are given once, a change of one bucket concerns this one only. -/
theorem pendingWeight_modifyBucket (hs : s.names.Nodup) (hb : s.bucket? name = some b)
    (f : Bucket → Bucket) :
    (s.modifyBucket name f).pendingWeight + b.weight = s.pendingWeight + (f b).weight := by
  obtain ⟨hname, front, back, hbuckets, hfront⟩ := List.find?_eq_some_iff_append.mp hb
  have hname : b.name = name := by simpa using hname
  -- The bucket is the only one of its name, so those in front of it and behind it stay.
  have hkeep : ∀ l : List Bucket, (∀ c ∈ l, c.name ≠ name) →
      l.map (fun b => if b.name == name then f b else b) = l := by
    intro l hl
    refine (List.map_congr_left fun c hc => ?_).trans (List.map_id l)
    rw [if_neg (by simpa using hl c hc)]
    rfl
  have hback : ∀ c ∈ back, c.name ≠ name := by
    intro c hc hcname
    rw [names, hbuckets, List.map_append, List.map_cons] at hs
    have hnodup := (List.nodup_append.mp hs).2.1
    exact (List.nodup_cons.mp hnodup).1 (List.mem_map.mpr ⟨c, hc, hcname.trans hname.symm⟩)
  rw [pendingWeight_eq, pendingWeight_eq, modifyBucket, hbuckets, List.map_append, List.map_cons,
    hkeep front fun c hc => by simpa using hfront c hc, hkeep back hback,
    if_pos (by simpa using hname)]
  simp only [List.map_append, List.map_cons, List.sum_append, List.sum_cons]
  omega

theorem pendingWeight_modifyWatcher_of_weight {f : Watcher → Watcher}
    (hf : ∀ w, watcherWeight (f w) = watcherWeight w) :
    (s.modifyBucket name fun b => b.modifyWatcher i f).pendingWeight = s.pendingWeight := by
  refine pendingWeight_modifyBucket_of_weight fun b => ?_
  cases hw : b.watchers[i]? with
  | none =>
    unfold Bucket.modifyWatcher
    rw [List.modify_eq_self (List.getElem?_eq_none_iff.mp hw)]
  | some w =>
    have hsum : (b.modifyWatcher i f).weight + watcherWeight w = b.weight + watcherWeight (f w) :=
      sum_map_modify f watcherWeight hw
    rw [hf w] at hsum
    exact Nat.add_right_cancel hsum

theorem pendingWeight_modifyWatcher (hs : s.names.Nodup) (hw : s.watcher? name i = some w)
    (f : Watcher → Watcher) :
    (s.modifyBucket name fun b => b.modifyWatcher i f).pendingWeight + watcherWeight w =
      s.pendingWeight + watcherWeight (f w) := by
  obtain ⟨b, hb, hat⟩ := Option.bind_eq_some_iff.mp hw
  have hbucket := pendingWeight_modifyBucket hs hb fun b => b.modifyWatcher i f
  have hwatcher : (b.modifyWatcher i f).weight + watcherWeight w =
      b.weight + watcherWeight (f w) := sum_map_modify f watcherWeight hat
  omega

/-! ### Single steps -/

theorem pendingWeight_modifyWatcher_le {f : Watcher → Watcher} {n : Nat} (hs : s.names.Nodup)
    (name : String) (i : Nat) (hf : ∀ w, watcherWeight (f w) ≤ watcherWeight w + n) :
    (s.modifyBucket name fun b => b.modifyWatcher i f).pendingWeight ≤ s.pendingWeight + n := by
  cases hb : s.bucket? name with
  | none =>
    rw [modifyBucket_of_none hb]
    exact Nat.le_add_right _ _
  | some b =>
    have hbucket := pendingWeight_modifyBucket hs hb fun b => b.modifyWatcher i f
    cases hw : b.watchers[i]? with
    | none =>
      have hsame : b.modifyWatcher i f = b := by
        unfold Bucket.modifyWatcher
        rw [List.modify_eq_self (List.getElem?_eq_none_iff.mp hw)]
      rw [hsame] at hbucket
      omega
    | some w =>
      have hwatcher : (b.modifyWatcher i f).weight + watcherWeight w =
          b.weight + watcherWeight (f w) := sum_map_modify f watcherWeight hw
      have hgain := hf w
      omega

theorem totalWeight_concat (pending : List WatcherAction) (a : WatcherAction) :
    WatcherAction.totalWeight (pending ++ [a]) =
      WatcherAction.totalWeight pending + a.weight := by
  induction pending with
  | nil => exact Nat.add_comm a.weight 0
  | cons c pending ih =>
    show c.weight + WatcherAction.totalWeight (pending ++ [a]) = c.weight + _ + _
    rw [ih, Nat.add_assoc]

/-- An action that is put off becomes pending, if its watcher still has actions. -/
theorem pendingWeight_putOff_le (hs : s.names.Nodup) (name : String) (i : Nat)
    (a : WatcherAction) : (s.putOff name i a).pendingWeight ≤ s.pendingWeight + a.weight := by
  refine pendingWeight_modifyWatcher_le hs name i fun w => ?_
  cases hw : w.callback with
  | report pending =>
    simp only [watcherWeight, hw]
    exact Nat.le_of_eq (totalWeight_concat pending a)
  | followAliases =>
    dsimp only
    exact Nat.le_add_right _ _

/-- What a watcher receives makes its pending actions the next thing to do. -/
theorem work_deliver (hs : s.names.Nodup) (h : s.deliver name i x = (.ok more, t)) :
    (more.map Delivery.turns).sum ≤ 1 ∧
      t.pendingWeight + agendaWeight more ≤ s.pendingWeight := by
  rcases s.deliver_cases name i x with ⟨r, heq, hnothing⟩ | ⟨w, y, hw, hx⟩
  · obtain ⟨rfl, rfl⟩ := Prod.mk.inj (heq.symm.trans h)
    obtain rfl := hnothing more rfl
    exact ⟨Nat.zero_le _, Nat.le_refl _⟩
  · have hgive : (s.give name i y).pendingWeight = s.pendingWeight :=
      pendingWeight_modifyWatcher_of_weight fun _ => rfl
    cases hcallback : w.callback with
    | followAliases =>
      rw [deliver_of_followAliases hw hx hcallback] at h
      split at h
      · cases h
        exact ⟨Nat.zero_le _, Nat.le_of_eq hgive⟩
      · cases h
    | report pending =>
      rw [deliver_of_pending hw hx hcallback] at h
      cases h
      -- What the watcher had pending is taken from it and put on the agenda.
      have hgiven : (s.give name i y).watcher? name i = some { w with last := some y } := by
        rw [watcher?_give, if_pos ⟨rfl, rfl⟩, hw, Option.map_some]
      have hframed : s.Framed (s.give name i y) := framed_modifyWatcher fun _ => ⟨rfl, rfl⟩
      have hidle := pendingWeight_modifyWatcher (hframed.names_nodup hs) hgiven
        fun w => { w with callback := .report [] }
      have hweight : watcherWeight { w with last := some y } =
          WatcherAction.totalWeight pending := by
        simp only [watcherWeight, hcallback]
      have hnone : watcherWeight { w with last := some y, callback := .report [] } = 0 := rfl
      rw [hweight, hnone, hgive] at hidle
      exact ⟨Nat.le_refl _, Nat.le_of_eq hidle⟩

/-- The deliveries of one state: two turns for each watcher, and nothing to do yet. -/
theorem work_deliveries (name : String) (x : Live) (is : List Nat) :
    ((is.map (Delivery.deliver name · x)).map Delivery.turns).sum = 2 * is.length ∧
      agendaWeight (is.map (Delivery.deliver name · x)) = 0 := by
  induction is with
  | nil => exact ⟨rfl, rfl⟩
  | cons i is ih =>
    refine ⟨?_, ih.2⟩
    rw [List.map_cons, List.map_cons, List.sum_cons, ih.1, List.length_cons]
    show 2 + _ = _
    omega

/-- A new state is delivered to no more than all watchers. -/
theorem work_setState (s : StateSpace) (name : String) (x : Live) :
    ((s.setState name x).2.map Delivery.turns).sum ≤ 2 * s.watcherCount ∧
      (s.setState name x).1.pendingWeight = s.pendingWeight ∧
      agendaWeight (s.setState name x).2 = 0 := by
  cases hb : s.bucket? name with
  | none =>
    rw [setState, hb]
    exact ⟨Nat.zero_le _, rfl, rfl⟩
  | some b =>
    obtain ⟨hturns, hagenda⟩ := work_deliveries name x b.subscribers
    -- The state is delivered to those who subscribed, who are some of the watchers.
    have hsubscribers : b.subscribers.length ≤ b.watchers.length := by
      have hlength := List.length_filter_le (fun e : Watcher × Nat => e.1.subscribed)
        b.watchers.zipIdx
      rwa [List.length_zipIdx, ← List.length_map (f := Prod.snd)] at hlength
    have hcount : b.watchers.length ≤ s.watcherCount := by
      rw [watcherCount_eq]
      exact List.single_le_sum (fun _ _ => Nat.zero_le _) _
        (List.mem_map.mpr ⟨b, List.mem_of_find?_eq_some hb, rfl⟩)
    rw [setState_of_some hb]
    refine ⟨?_, pendingWeight_modifyBucket_of_weight fun _ => rfl, hagenda⟩
    rw [hturns]
    omega

theorem weight_mapLive (f : Live → Live) (b : Bucket) : (b.mapLive f).weight = b.weight := by
  unfold Bucket.weight Bucket.mapLive
  rw [List.map_map]
  rfl

theorem agendaWeight_mapLive (f : Live → Live) (agenda : List Delivery) :
    ((agenda.map (Delivery.mapLive f)).map Delivery.turns).sum =
        (agenda.map Delivery.turns).sum ∧
      agendaWeight (agenda.map (Delivery.mapLive f)) = agendaWeight agenda := by
  induction agenda with
  | nil => exact ⟨rfl, rfl⟩
  | cons d agenda ih =>
    cases d with
    | deliver => exact ⟨congrArg (2 + ·) ih.1, ih.2⟩
    | act n i x actions =>
      exact ⟨congrArg (1 + ·) ih.1, congrArg (WatcherAction.totalWeight actions + ·) ih.2⟩

/-- A change in place leaves what is to be done as it is. -/
theorem work_setItem {key : Live} {v : Value} (h : s.setItem agenda x key v = (.ok more, t)) :
    (more.map Delivery.turns).sum = (agenda.map Delivery.turns).sum ∧
      t.pendingWeight = s.pendingWeight ∧ agendaWeight more = agendaWeight agenda := by
  unfold setItem at h
  split at h
  · cases h
  · cases h
    obtain ⟨hturns, hagenda⟩ := agendaWeight_mapLive _ agenda
    refine ⟨hturns, ?_, hagenda⟩
    rw [pendingWeight_eq, pendingWeight_eq]
    dsimp only
    rw [List.map_map]
    exact congrArg List.sum (List.map_congr_left fun b _ => weight_mapLive _ b)

/-- A change adds its deliveries in front, and all that it puts off has been worth more. -/
theorem work_change (name : String) (next : Nat) (y : Live) (agenda : List Delivery) :
    (((({ s with nextMark := next }.setState name y).2 ++ agenda).map Delivery.turns).sum ≤
        (agenda.map Delivery.turns).sum + 2 * s.watcherCount) ∧
      ({ s with nextMark := next }.setState name y).1.pendingWeight +
          agendaWeight (({ s with nextMark := next }.setState name y).2 ++ agenda) <
        s.pendingWeight + agendaWeight agenda + 1 := by
  obtain ⟨hturns, hpending, hround⟩ := work_setState { s with nextMark := next } name y
  have hcount : { s with nextMark := next }.watcherCount = s.watcherCount := rfl
  have hweight : { s with nextMark := next }.pendingWeight = s.pendingWeight := rfl
  rw [List.map_append, List.sum_append, agendaWeight_append]
  omega

/-- An action is worth more than all that comes of it, but for the deliveries of a change. -/
theorem work_act (hs : s.names.Nodup) (h : s.act agenda name i x a = (.ok more, t)) :
    (more.map Delivery.turns).sum ≤ (agenda.map Delivery.turns).sum + 2 * s.watcherCount ∧
      t.pendingWeight + agendaWeight more < s.pendingWeight + agendaWeight agenda + a.weight := by
  cases a with
  | later a =>
    cases h
    exact ⟨Nat.le_add_right _ _, by
      have hputOff := pendingWeight_putOff_le hs name i a
      show _ + _ < _ + _ + (a.weight + 1)
      omega⟩
  | update v =>
    unfold act at h
    dsimp only at h
    rcases merged_cases s name v with
      ⟨e, next, hmerged⟩ | ⟨c, mark, old, n, given, next, -, -, hmerged⟩
    · rw [hmerged] at h
      cases h
    · rw [hmerged] at h
      cases h
      exact work_change name next _ agenda
  | reset =>
    unfold act setInitial at h
    dsimp only at h
    cases hb : s.bucket? name with
    | none =>
      rw [hb] at h
      cases h
      exact ⟨Nat.le_add_right _ _, Nat.lt_succ_self _⟩
    | some b =>
      rw [hb] at h
      cases h
      exact work_change name _ _ agenda
  | unsubscribe label =>
    obtain ⟨rfl, handle, rfl⟩ := exists_of_act_unsubscribe h
    have hpending : (s.withoutWatcher handle.1 handle.2).pendingWeight = s.pendingWeight :=
      pendingWeight_modifyWatcher_of_weight fun _ => rfl
    refine ⟨Nat.le_add_right _ _, ?_⟩
    show (s.withoutWatcher handle.1 handle.2).pendingWeight + _ < _ + _ + 1
    omega
  | fail message => cases h
  | setItem key v =>
    obtain ⟨hturns, hpending, hagenda⟩ := work_setItem h
    have hfresh : t.pendingWeight = s.pendingWeight := hpending
    refine ⟨by omega, ?_⟩
    show _ < _ + _ + 1
    omega

theorem work_takeStep_lt (hs : s.names.Nodup) (h : s.takeStep d agenda = (.ok more, t)) :
    t.work more < s.work (d :: agenda) := by
  have hcount : t.watcherCount = s.watcherCount := by
    have hframed := framed_takeStep s d agenda
    rw [h] at hframed
    exact hframed.watcherCount_eq
  unfold work
  rw [hcount, List.map_cons, List.sum_cons]
  -- A delivery and an empty list of actions end a turn; an action takes more off the weight than it
  -- adds in turns.
  match d with
  | .deliver name i x =>
    obtain ⟨new, hdeliver, rfl⟩ := exists_of_takeStep_deliver h
    obtain ⟨hturns, hweight⟩ := work_deliver hs hdeliver
    rw [List.map_append, List.sum_append, agendaWeight_append]
    have hmul := Nat.mul_le_mul_right (2 * s.watcherCount + 2)
      (Nat.add_le_add_right hweight (agendaWeight agenda))
    rw [Nat.add_assoc] at hmul
    show _ + (t.pendingWeight + _) * _ < 2 + _ + (s.pendingWeight + agendaWeight agenda) * _
    omega
  | .act name i x [] =>
    cases h
    show _ + (s.pendingWeight + _) * _ < 1 + _ + (s.pendingWeight + (0 + agendaWeight agenda)) * _
    rw [Nat.zero_add]
    omega
  | .act name i x (a :: rest) =>
    obtain ⟨hturns, hweight⟩ := work_act hs h
    have hact : agendaWeight (.act name i x (a :: rest) :: agenda) =
        a.weight + agendaWeight (.act name i x rest :: agenda) :=
      Nat.add_assoc _ _ _
    have hmul := Nat.mul_le_mul_right (2 * s.watcherCount + 2) (Nat.succ_le_of_lt hweight)
    rw [List.map_cons, List.sum_cons] at hturns
    rw [Nat.succ_mul] at hmul
    rw [hact, Nat.add_comm a.weight, ← Nat.add_assoc]
    have hturn : (Delivery.act name i x rest).turns = 1 := rfl
    have hturn' : (Delivery.act name i x (a :: rest)).turns = 1 := rfl
    omega

/-- With steps enough, what returns has done all that was to be done. -/
theorem course_of_settleWithin {fuel : Nat} (hs : s.names.Nodup) (hfuel : s.work agenda ≤ fuel)
    (h : settleWithin fuel s agenda = (.ok (), t)) : Course (s, agenda) (t, []) := by
  -- Each step takes from the work that is left, so the fuel does not run out before the work does.
  induction fuel generalizing s agenda with
  | zero =>
    cases agenda with
    | nil =>
      cases h
      exact .refl
    | cons d agenda =>
      have hturns : 0 < d.turns := by cases d <;> exact Nat.zero_lt_succ _
      rw [work, List.map_cons, List.sum_cons] at hfuel
      omega
  | succ fuel ih =>
    cases agenda with
    | nil =>
      cases h
      exact .refl
    | cons d agenda =>
      rw [settleWithin_succ] at h
      rcases hstep : s.takeStep d agenda with ⟨e | more, u⟩
      · rw [hstep] at h
        cases h
      · rw [hstep] at h
        have hframed := framed_takeStep s d agenda
        rw [hstep] at hframed
        have hless := work_takeStep_lt hs hstep
        exact .head (.step hstep) (ih (hframed.names_nodup hs) (by omega) h)

/-- A change that returns has done all that it leads to. -/
theorem course_of_settle (hs : s.names.Nodup) (h : s.settle agenda = (.ok (), t)) :
    Course (s, agenda) (t, []) := by
  refine course_of_settleWithin hs ?_ h
  have hturns : (agenda.map Delivery.turns).sum ≤ 2 * agenda.length := by
    rw [← List.length_map (f := Delivery.turns), Nat.mul_comm]
    refine List.sum_le_card_nsmul _ _ fun n hn => ?_
    obtain ⟨d, -, rfl⟩ := List.mem_map.mp hn
    cases d with
    | deliver => exact Nat.le_refl 2
    | act => exact Nat.le_succ 1
  unfold work enoughSteps
  omega

end StateSpace

end CommandShell
