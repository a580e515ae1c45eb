import CommandShell.Proofs.State.Operations
import Mathlib.Logic.Relation

/-!
# Changes and what they lead to

A change gives a bucket a new state and delivers it, and the watchers may do something in turn.
What that leads to is a course of single steps, each of which takes the first thing that is still to
be done.  Whatever the watchers do, buckets keep their names, their states at first and their
watchers, and the store stays as it is.

## Main definitions

* `SpaceOperation.sets?`, `SpaceOperation.Sets`: the new state that an operation gives a bucket.
* `StateSpace.takeStep`, `StateSpace.Proceeds`: one step of what is to be done.
* `StateSpace.Course`: several steps.
* `StateSpace.Framed`: what no step changes.
* `StateSpace.Undisturbed`: no watcher changes a state in turn.

## Main results

* `StateSpace.apply_of_sets?`: an operation that gives a bucket a new state puts and delivers it.
* `StateSpace.framed_settleWithin`: what a change leaves alone.
* `StateSpace.content?_settleWithin`: an undisturbed course changes no state.
-/

namespace CommandShell

/-- What no change of states concerns of a bucket: its name, its state at first, and its watchers
with what they select. -/
def Bucket.outline (b : Bucket) : String × Live × List (String × Option Selector) :=
  (b.name, b.initial, b.watchers.map fun w => (w.label, w.selector))

/-- To do the thing that comes next changes a state in turn. -/
def Delivery.Disturbs : Delivery → Prop
  | .act _ _ _ (.update _ :: _) | .act _ _ _ (.reset :: _) | .act _ _ _ (.setItem _ _ :: _) => True
  | _ => False

/-- The bucket that an operation gives a new state, this state, and the space with its marks given
out. -/
def SpaceOperation.sets? (s : StateSpace) : SpaceOperation → Option (String × Live × StateSpace)
  | act (.update name v) =>
    match s.merged name v with
    | (.error _, _) => none
    | (.ok x, s) => some (name, x, s)
  | act (.reset name) =>
    (s.bucket? name).map fun b =>
      (name, (b.initial.copy s.nextMark).1,
        { s with nextMark := (b.initial.copy s.nextMark).2 })
  | load name =>
    (s.bucket? name).bind fun b =>
      match s.store.get b.storageKey with
      | .error _ | .ok .null => none
      | .ok v => some (name, s.fresh true v)
  | _ => none

/-- The ways to give a bucket a new state: to merge what is given with the state, to copy the state
at first, and to take what the store has. -/
inductive SpaceOperation.Sets (s : StateSpace) :
    SpaceOperation → String → Live → StateSpace → Prop
  | update {name : String} {v : Value} {x : Live} {u : StateSpace}
      (hmerged : s.merged name v = (.ok x, u)) : Sets s (.act (.update name v)) name x u
  | reset {name : String} {b : Bucket} (hb : s.bucket? name = some b) :
    Sets s (.act (.reset name)) name (b.initial.copy s.nextMark).1
      { s with nextMark := (b.initial.copy s.nextMark).2 }
  | load {name : String} {b : Bucket} {v : Value} (hb : s.bucket? name = some b)
      (hget : s.store.get b.storageKey = .ok v) (hv : v ≠ .null) :
    Sets s (.load name) name (s.fresh true v).1 (s.fresh true v).2

namespace StateSpace

variable {s t u : StateSpace} {name other : String} {b : Bucket} {x : Live} {d : Delivery}
  {agenda more : List Delivery} {op : SpaceOperation} {e : Fault}

/-! ### New states -/

theorem sets?_update (s : StateSpace) (name : String) (v : Value) :
    SpaceOperation.sets? s (.act (.update name v)) =
      match s.merged name v with
      | (.error _, _) => none
      | (.ok x, s) => some (name, x, s) :=
  rfl

theorem sets?_load (s : StateSpace) (name : String) :
    SpaceOperation.sets? s (.load name) =
      (s.bucket? name).bind fun b =>
        match s.store.get b.storageKey with
        | .error _ | .ok .null => none
        | .ok v => some (name, s.fresh true v) :=
  rfl

theorem sets?_eq_some_iff : op.sets? s = some (name, x, u) ↔ op.Sets s name x u := by
  constructor
  · intro h
    cases op with
    | act op =>
      cases op with
      | update other v =>
        rw [sets?_update] at h
        rcases hmerged : s.merged other v with ⟨e | y, t⟩ <;> rw [hmerged] at h <;> cases h
        exact .update hmerged
      | reset other =>
        obtain ⟨b, hb, heq⟩ := Option.map_eq_some_iff.mp h
        cases heq
        exact .reset hb
      | _ => cases h
    | load other =>
      obtain ⟨b, hb, heq⟩ := Option.bind_eq_some_iff.mp h
      -- What is missing in the store, or cannot be read, is no new state.
      cases hget : s.store.get b.storageKey with
      | error e =>
        rw [hget] at heq
        cases heq
      | ok v =>
        rw [hget] at heq
        cases v with
        | null => cases heq
        | _ => cases heq; exact .load hb hget nofun
    | _ => cases h
  · rintro (hmerged | hb | ⟨hb, hget, hv⟩)
    · rw [sets?_update, hmerged]
    · exact Option.map_eq_some_iff.mpr ⟨_, hb, rfl⟩
    · rw [sets?_load, hb, Option.bind_some, hget]
      split
      · contradiction
      · rename_i heq
        exact absurd (Except.ok.inj heq) hv
      · rename_i heq
        cases heq
        rfl

theorem apply_of_sets? (h : op.sets? s = some (name, x, u)) :
    op.apply s = (u.setState name x).1.settle (u.setState name x).2 := by
  cases sets?_eq_some_iff.mp h with
  | @update _ v _ _ hmerged =>
    show s.update name v = _
    rw [StateSpace.update, hmerged]
  | reset hb =>
    show s.reset name = _
    rw [StateSpace.reset, setInitial, hb]
  | load hb hget hv =>
    show s.load name = _
    rw [StateSpace.load, hb]
    dsimp only
    rw [hget]
    split
    · contradiction
    · rename_i heq
      exact absurd (Except.ok.inj heq) hv
    · rename_i heq
      cases heq
      rfl

/-- To make a new state of a bucket gives out marks and does nothing else. -/
theorem exists_of_sets? (h : op.sets? s = some (name, x, u)) :
    op.target? = some name ∧ ∃ next, u = { s with nextMark := next } := by
  cases sets?_eq_some_iff.mp h with
  | @update _ v _ _ hmerged =>
    rcases merged_cases s name v with ⟨e, next, heq⟩ | ⟨c, mark, old, other, given, next, -, -, heq⟩
    · cases hmerged.symm.trans heq
    · cases hmerged.symm.trans heq
      exact ⟨rfl, next, rfl⟩
  | reset hb => exact ⟨rfl, _, rfl⟩
  | load hb hget hv => exact ⟨rfl, _, rfl⟩

/-- An operation that may change a bucket, but gives it no new state, changes nothing, and no
watcher is told anything. -/
theorem apply_of_sets?_none (htarget : op.target? = some name) (h : op.sets? s = none) :
    ∃ next events,
      (op.apply s).2 = { s with nextMark := next, reports := events ++ s.reports } ∧
        ∀ ev ∈ events, ∃ level message, ev = .log "state" level message := by
  have hnone : ∀ ev ∈ ([] : List Event), ∃ level message, ev = .log "state" level message :=
    fun _ hev => by cases hev
  cases op with
  | act op =>
    cases op with
    | update other v =>
      show ∃ next events, (s.update other v).2 = _ ∧ _
      rw [sets?_update] at h
      -- An update that can be merged gives a new state, so this one cannot.
      rcases merged_cases s other v with
        ⟨e, next, hmerged⟩ | ⟨c, mark, old, other', given, next, -, -, hmerged⟩
      · exact ⟨next, [], by rw [StateSpace.update, hmerged]; rfl, hnone⟩
      · rw [hmerged] at h
        cases h
    | reset other =>
      have hb : s.bucket? other = none := Option.map_eq_none_iff.mp h
      refine ⟨s.nextMark, [], ?_, hnone⟩
      show (s.reset other).2 = _
      rw [reset_of_none hb]
      rfl
    | _ => cases htarget
  | load other =>
    show ∃ next events, (s.load other).2 = _ ∧ _
    cases hb : s.bucket? other with
    | none => exact ⟨s.nextMark, [], by rw [StateSpace.load, hb]; rfl, hnone⟩
    | some b =>
      rw [sets?_load, hb] at h
      cases hget : s.store.get b.storageKey with
      | error e =>
        -- A store that fails is reported, and that is all.
        let message := "Failed to load state for " ++ quoted other ++ ": " ++ e.message
        have heq : (s.load other).2 =
            { s with reports := [.log "state" .error message] ++ s.reports } := by
          rw [StateSpace.load, hb]
          dsimp only
          rw [hget]
          rfl
        exact ⟨s.nextMark, _, heq, fun ev hev => ⟨_, _, List.mem_singleton.mp hev⟩⟩
      | ok v =>
        dsimp only [Option.bind_some] at h
        rw [hget] at h
        -- Of all values only the missing one is no new state.
        cases v with
        | null =>
          refine ⟨s.nextMark, [], ?_, hnone⟩
          rw [StateSpace.load, hb]
          dsimp only
          rw [hget]
          rfl
        | _ => cases h
  | _ => cases htarget

theorem bucket?_of_sets? (h : op.sets? s = some (name, x, u)) (other : String) :
    u.bucket? other = s.bucket? other := by
  obtain ⟨-, next, rfl⟩ := exists_of_sets? h
  rfl

theorem quiet_of_sets? (h : op.sets? s = some (name, x, u)) (hs : s.Quiet) : u.Quiet := by
  obtain ⟨-, next, rfl⟩ := exists_of_sets? h
  exact hs

theorem setState_of_some (hb : s.bucket? name = some b) :
    s.setState name x = (s.withState name x, b.subscribers.map (.deliver name · x)) := by
  rw [setState, hb]
  rfl

/-! ### Single steps -/

/-- One step: does what comes first, and gives what is to be done after that. -/
def takeStep (s : StateSpace) : Delivery → List Delivery → Except Fault (List Delivery) × StateSpace
  | .deliver name i x, agenda =>
    ((s.deliver name i x).1.map (· ++ agenda), (s.deliver name i x).2)
  | .act _ _ _ [], agenda => (.ok agenda, s)
  | .act name i x (a :: rest), agenda => s.act (.act name i x rest :: agenda) name i x a

theorem exists_of_takeStep_deliver {i : Nat}
    (h : s.takeStep (.deliver name i x) agenda = (.ok more, t)) :
    ∃ new, s.deliver name i x = (.ok new, t) ∧ more = new ++ agenda := by
  rcases hdeliver : s.deliver name i x with ⟨e | new, u⟩
  · rw [takeStep, hdeliver] at h
    cases h
  · rw [takeStep, hdeliver] at h
    cases h
    exact ⟨new, rfl, rfl⟩

theorem exists_of_act_unsubscribe {i : Nat} {label : String}
    (h : s.act agenda name i x (.unsubscribe label) = (.ok more, t)) :
    more = agenda ∧ ∃ handle : String × Nat, t = s.withoutWatcher handle.1 handle.2 := by
  unfold act unsubscribe at h
  dsimp only at h
  cases hget : s.handles.get? label with
  | none =>
    rw [hget] at h
    cases h
  | some handle =>
    rw [hget] at h
    cases h
    exact ⟨rfl, handle, rfl⟩

theorem settleWithin_succ (fuel : Nat) (s : StateSpace) (d : Delivery) (agenda : List Delivery) :
    settleWithin (fuel + 1) s (d :: agenda) =
      match s.takeStep d agenda with
      | (.error e, t) => (.error e, t)
      | (.ok more, t) => settleWithin fuel t more := by
  match d with
  | .deliver name i x =>
    rw [settleWithin, takeStep]
    rcases s.deliver name i x with ⟨e | more, t⟩ <;> rfl
  | .act name i x [] => rfl
  | .act name i x (a :: rest) => rfl

/-- What every step does to a space, and what is kept from step to step, is done to it by all that
is to be done. -/
theorem settleWithin_rel {R : StateSpace → StateSpace → Prop} (refl : ∀ s, R s s)
    (trans : ∀ s t u, R s t → R t u → R s u)
    (step : ∀ s d agenda, R s (takeStep s d agenda).2) (fuel : Nat) (s : StateSpace)
    (agenda : List Delivery) : R s (settleWithin fuel s agenda).2 := by
  induction fuel generalizing s agenda with
  | zero => cases agenda <;> exact refl s
  | succ fuel ih =>
    cases agenda with
    | nil => exact refl s
    | cons d agenda =>
      have hstep := step s d agenda
      rw [settleWithin_succ]
      generalize s.takeStep d agenda = ending at hstep ⊢
      rcases ending with ⟨e | more, t⟩
      · exact hstep
      · exact trans s t _ hstep (ih t more)

/-- One step leads from a space with what is to be done to another one. -/
inductive Proceeds : StateSpace × List Delivery → StateSpace × List Delivery → Prop
  | step {s t : StateSpace} {d : Delivery} {agenda more : List Delivery}
    (h : s.takeStep d agenda = (.ok more, t)) : Proceeds (s, d :: agenda) (t, more)

/-- Several steps, one after another. -/
abbrev Course : StateSpace × List Delivery → StateSpace × List Delivery → Prop :=
  Relation.ReflTransGen Proceeds

/-! ### What no step changes -/

/-- What no step changes of a space: the outlines of all buckets, the store, and who holds which
subscription. -/
def frame (s : StateSpace) : List (String × Live × List (String × Option Selector)) ×
    KeyValueStore × Entries (String × Nat) × Option (String × Nat) :=
  (s.buckets.map Bucket.outline, s.store, s.handles, s.aliasWatcher)

/-- Two spaces are the same but for states, marks, reports and what watchers do and receive. -/
def Framed (s t : StateSpace) : Prop :=
  t.frame = s.frame

theorem Framed.refl (s : StateSpace) : s.Framed s :=
  rfl

theorem Framed.trans (h : s.Framed t) (h' : t.Framed u) : s.Framed u :=
  Eq.trans h' h

theorem framed_of_outline (h : t.buckets.map Bucket.outline = s.buckets.map Bucket.outline)
    (hstore : t.store = s.store) (hhandles : t.handles = s.handles)
    (hwatcher : t.aliasWatcher = s.aliasWatcher) : s.Framed t := by
  unfold Framed frame
  rw [h, hstore, hhandles, hwatcher]

theorem Framed.outline (h : s.Framed t) :
    t.buckets.map Bucket.outline = s.buckets.map Bucket.outline :=
  congrArg Prod.fst h

theorem Framed.store (h : s.Framed t) : t.store = s.store :=
  congrArg (·.2.1) h

theorem Framed.handles (h : s.Framed t) : t.handles = s.handles :=
  congrArg (·.2.2.1) h

theorem Framed.aliasWatcher (h : s.Framed t) : t.aliasWatcher = s.aliasWatcher :=
  congrArg (·.2.2.2) h

theorem Framed.names (h : s.Framed t) : t.buckets.map (·.name) = s.buckets.map (·.name) := by
  have hfst := congrArg (List.map Prod.fst) h.outline
  rwa [List.map_map, List.map_map] at hfst

theorem Framed.outline_bucket? (h : s.Framed t) (name : String) :
    (t.bucket? name).map Bucket.outline = (s.bucket? name).map Bucket.outline := by
  have hfind : ∀ u : StateSpace, (u.buckets.map Bucket.outline).find? (fun o => o.1 == name) =
      (u.bucket? name).map Bucket.outline := fun u => List.find?_map
  rw [← hfind, ← hfind, h.outline]

theorem framed_modifyBucket {f : Bucket → Bucket} (hf : ∀ b, (f b).outline = b.outline) :
    s.Framed (s.modifyBucket name f) := by
  refine framed_of_outline ?_ rfl rfl rfl
  unfold modifyBucket
  rw [List.map_map]
  refine List.map_congr_left fun b _ => ?_
  show (if b.name == name then f b else b).outline = _
  split
  · exact hf b
  · rfl

theorem framed_modifyWatcher {i : Nat} {f : Watcher → Watcher}
    (hf : ∀ w, (f w).label = w.label ∧ (f w).selector = w.selector) :
    s.Framed (s.modifyBucket name fun b => b.modifyWatcher i f) := by
  refine framed_modifyBucket fun b => ?_
  have hwatchers : (b.watchers.modify i f).map (fun w => (w.label, w.selector)) =
      b.watchers.map fun w => (w.label, w.selector) := by
    refine List.ext_getElem? fun j => ?_
    rw [List.getElem?_map, List.getElem?_map, List.getElem?_modify]
    cases b.watchers[j]? with
    | none => rfl
    | some w =>
      by_cases hj : i = j
      · simp [hj, hf w]
      · simp [hj]
  unfold Bucket.outline Bucket.modifyWatcher
  rw [hwatchers]

theorem framed_setState (s : StateSpace) (name : String) (x : Live) :
    s.Framed (s.setState name x).1 := by
  unfold setState
  split
  · exact .refl s
  · exact framed_modifyBucket fun _ => rfl

theorem framed_setInitial (s : StateSpace) (name : String) : s.Framed (s.setInitial name).1 := by
  unfold setInitial
  split
  · exact .refl s
  · rename_i b _
    exact framed_setState { s with nextMark := (b.initial.copy s.nextMark).2 } name
      (b.initial.copy s.nextMark).1

theorem framed_merged (s : StateSpace) (name : String) (v : Value) :
    s.Framed (s.merged name v).2 := by
  rcases merged_cases s name v with ⟨e, next, h⟩ | ⟨c, mark, old, other, given, next, -, -, h⟩
  all_goals
    rw [h]
    exact .refl s

theorem framed_unsubscribe (s : StateSpace) (label : String) :
    s.Framed (s.unsubscribe label).2 := by
  unfold unsubscribe
  split
  · exact .refl s
  · exact framed_modifyWatcher fun _ => ⟨rfl, rfl⟩

theorem framed_setItem (s : StateSpace) (agenda : List Delivery) (x key : Live) (v : Value) :
    s.Framed (s.setItem agenda x key v).2 := by
  unfold setItem
  split
  · exact .refl s
  · refine framed_of_outline ?_ rfl rfl rfl
    show (s.buckets.map _).map _ = _
    rw [List.map_map]
    refine List.map_congr_left fun b _ => ?_
    unfold Bucket.outline Bucket.mapLive
    simp [Function.comp_def]

theorem framed_deliver (s : StateSpace) (name : String) (i : Nat) (x : Live) :
    s.Framed (s.deliver name i x).2 := by
  have hgive : ∀ y, s.Framed (s.give name i y) := fun y => framed_modifyWatcher fun _ => ⟨rfl, rfl⟩
  refine deliver_keeps (.refl s) (fun y _ => hgive y) fun _ y => ?_
  let f : Watcher → Watcher := fun w => { w with callback := .report [] }
  have hidle : s.Framed ((s.give name i y).modifyBucket name fun b => b.modifyWatcher i f) :=
    (hgive y).trans (framed_modifyWatcher fun _ => ⟨rfl, rfl⟩)
  exact hidle

theorem framed_act (s : StateSpace) (agenda : List Delivery) (name : String) (i : Nat) (x : Live)
    (a : WatcherAction) : s.Framed (s.act agenda name i x a).2 := by
  cases a with
  | later a =>
    refine framed_modifyWatcher fun w => ?_
    split <;> exact ⟨rfl, rfl⟩
  | update v =>
    have hmerged := framed_merged s name v
    unfold act
    dsimp only
    generalize s.merged name v = ending at hmerged ⊢
    rcases ending with ⟨e | y, t⟩
    · exact hmerged
    · exact hmerged.trans (framed_setState t name y)
  | reset => exact framed_setInitial s name
  | unsubscribe label =>
    have hended := framed_unsubscribe s label
    unfold act
    dsimp only
    generalize s.unsubscribe label = ending at hended ⊢
    rcases ending with ⟨e | ⟨⟩, t⟩ <;> exact hended
  | fail message => exact .refl s
  | setItem key v => exact framed_setItem (s.fresh false key).2 agenda x (s.fresh false key).1 v

theorem framed_takeStep (s : StateSpace) (d : Delivery) (agenda : List Delivery) :
    s.Framed (s.takeStep d agenda).2 := by
  match d with
  | .deliver name i x => exact framed_deliver s name i x
  | .act _ _ _ [] => exact .refl s
  | .act name i x (a :: rest) => exact framed_act s _ name i x a

/-- All that a change leads to leaves the outlines of buckets and the store alone. -/
theorem framed_settleWithin (fuel : Nat) (s : StateSpace) (agenda : List Delivery) :
    s.Framed (settleWithin fuel s agenda).2 :=
  settleWithin_rel Framed.refl (fun _ _ _ => Framed.trans) framed_takeStep fuel s agenda

theorem framed_settle (s : StateSpace) (agenda : List Delivery) :
    s.Framed (s.settle agenda).2 :=
  framed_settleWithin _ s agenda

/-- Updates, resets and loads leave the outlines of buckets and the store alone. -/
theorem framed_apply (h : op.target? = some name) : s.Framed (op.apply s).2 := by
  cases hsets : op.sets? s with
  | some new =>
    obtain ⟨other, x, u⟩ := new
    have hset := (framed_setState u other x).trans (framed_settle _ (u.setState other x).2)
    obtain ⟨-, next, rfl⟩ := exists_of_sets? hsets
    rw [apply_of_sets? hsets]
    exact hset
  | none =>
    obtain ⟨next, events, heq, -⟩ := apply_of_sets?_none h hsets
    rw [heq]
    exact .refl s

/-! ### Courses in which no state is changed -/

/-- Nothing that comes up in the course of what is to be done changes a state. -/
def Undisturbed (c : StateSpace × List Delivery) : Prop :=
  ∀ t d agenda, Course c (t, d :: agenda) → ¬ d.Disturbs

theorem content?_deliver (s : StateSpace) (name : String) (i : Nat) (x : Live) :
    (s.deliver name i x).2.content? = s.content? := by
  have hgive : ∀ y, (s.give name i y).content? = s.content? := fun y => content?_modifyWatcher
  exact deliver_keeps (P := fun t => t.content? = s.content?) rfl (fun y _ => hgive y)
    fun _ y => content?_modifyWatcher.trans (hgive y)

theorem content?_takeStep (h : ¬ d.Disturbs) : (s.takeStep d agenda).2.content? = s.content? := by
  match d with
  | .deliver name i x => exact content?_deliver s name i x
  | .act _ _ _ [] => rfl
  | .act name i x (.later a :: rest) => exact content?_modifyWatcher
  | .act name i x (.unsubscribe label :: rest) =>
    have hended : (s.unsubscribe label).2.content? = s.content? := by
      unfold unsubscribe
      split
      · rfl
      · exact content?_modifyWatcher
    unfold takeStep act
    dsimp only
    generalize s.unsubscribe label = ending at hended ⊢
    rcases ending with ⟨e | ⟨⟩, t⟩ <;> exact hended
  | .act name i x (.fail message :: rest) => rfl
  | .act _ _ _ (.update _ :: _) | .act _ _ _ (.reset :: _) | .act _ _ _ (.setItem _ _ :: _) =>
    exact absurd trivial h

/-- What is to be done changes no state while nothing disturbs it. -/
theorem content?_settleWithin (fuel : Nat) (h : Undisturbed (s, agenda)) :
    (settleWithin fuel s agenda).2.content? = s.content? := by
  induction fuel generalizing s agenda with
  | zero => cases agenda <;> rfl
  | succ fuel ih =>
    cases agenda with
    | nil => rfl
    | cons d agenda =>
      have hstep : (s.takeStep d agenda).2.content? = s.content? :=
        content?_takeStep (h s d agenda .refl)
      rw [settleWithin_succ]
      rcases hending : s.takeStep d agenda with ⟨e | more, t⟩
      · rw [hending] at hstep
        exact hstep
      · rw [hending] at hstep
        have hrest : Undisturbed (t, more) := fun u d' agenda' hcourse =>
          h u d' agenda' (.head (.step hending) hcourse)
        exact (ih hrest).trans hstep

/-- Along a course of deliveries watchers stay quiet, and nothing is to be done but deliveries and
idle turns. -/
theorem quiet_of_course (hs : s.Quiet) {x : Live} {is : List Nat} {c : StateSpace × List Delivery}
    (hc : Course (s, is.map (.deliver name · x)) c) :
    c.1.Quiet ∧ ∀ d ∈ c.2, (∃ i y, d = .deliver name i y) ∨ ∃ i y, d = .act name i y [] := by
  induction hc with
  | refl =>
    refine ⟨hs, fun d hd => ?_⟩
    obtain ⟨i, -, rfl⟩ := List.mem_map.mp hd
    exact Or.inl ⟨i, x, rfl⟩
  | tail _ hstep ih =>
    obtain ⟨hquiet, hagenda⟩ := ih
    cases hstep with
    | @step s t d agenda more h =>
      have hrest : ∀ d ∈ agenda, _ := fun d hd => hagenda d (List.mem_cons_of_mem _ hd)
      -- A delivery may leave an idle turn, and an idle turn leaves nothing.
      rcases hagenda d List.mem_cons_self with ⟨i, y, rfl⟩ | ⟨i, y, rfl⟩
      · have htold := told_deliver hquiet name i y
        obtain ⟨new, hdeliver, rfl⟩ := exists_of_takeStep_deliver h
        rw [hdeliver] at htold
        refine ⟨htold.quiet hquiet, fun d hd => ?_⟩
        rcases List.mem_append.mp hd with hd | hd
        · rcases deliver_ok hquiet (congrArg Prod.fst hdeliver) with rfl | ⟨z, rfl⟩
          · cases hd
          · exact Or.inr ⟨i, z, List.mem_singleton.mp hd⟩
        · exact hrest d hd
      · cases h
        exact ⟨hquiet, hrest⟩

/-- Watchers that change nothing in turn disturb nothing. -/
theorem undisturbed_of_quiet (hs : s.Quiet) {x : Live} {is : List Nat} :
    Undisturbed (s, is.map (.deliver name · x)) := by
  intro t d agenda hc hdisturbs
  rcases (quiet_of_course hs hc).2 d List.mem_cons_self with ⟨i, y, rfl⟩ | ⟨i, y, rfl⟩ <;>
    exact hdisturbs

end StateSpace

end CommandShell
