import CommandShell.Proofs.Congruence.Script
import CommandShell.Proofs.State.Settling

/-!
# Operations on buckets

What is done to the buckets of a shell: what scripts do, and what the shell does itself when it
starts or when somebody watches.  While no watcher changes anything in turn, an operation opens one
bucket, puts a state into one bucket, keeps one in the store, or concerns watchers only.

## Main definitions

* `SpaceOperation`: an operation.
* `StateSpace.after`: the space after some operations.
* `StateSpace.put`: a state is put into a bucket and delivered.
* `StateSpace.Sound`: no watcher changes anything in turn, and all that buckets hold is proper.
* `StateSpace.following`: where the aliases are taken from, once a watcher has come for them.
* `StateSpace.Effect`: what an operation comes to.

## Main results

* `StateSpace.update_cases`, `StateSpace.reset_eq`, `StateSpace.load_eq`: what is put into a bucket.
* `StateSpace.effect_apply`: while no watcher changes anything in turn, that is what it comes to.
* `StateSpace.sound_after`: operations keep spaces sound.
-/

namespace CommandShell

/-- What is done to the buckets of a shell. -/
inductive SpaceOperation where
  /-- A script does something to a bucket. -/
  | act (op : BucketOperation)
  /-- A bucket is loaded from the store. -/
  | load (name : String)
  /-- The aliases are taken from a bucket from now on. -/
  | follow (name : String)
  /-- Somebody watches a bucket, and reports what there is to see. -/
  | observe (name label : String) (selector : Option Selector)

/-- The watcher that reports what it sees of a bucket. -/
def Watcher.reporter (label : String) (selector : Option Selector) : Watcher where
  label := label
  selector := selector
  callback := .report []

/-- The watcher that takes the aliases from a bucket. -/
def Watcher.follower : Watcher where
  label := ""
  selector := some (.key (.ofText aliasKey))
  callback := .followAliases

/-- What an operation does to a space. -/
def SpaceOperation.apply : SpaceOperation → StateSpace → Except Fault Unit × StateSpace
  | act op, s => op.apply s
  | load name, s => s.load name
  | follow name, s => s.followAliases name
  | observe name label selector, s => s.subscribe name (.reporter label selector)

theorem KeyValueStore.put_eq (s : KeyValueStore) (key : String) (v : Except Fault Value) :
    s.put key v =
      if s.failsSet then .error (.failure "storage full")
      else v.map fun v => { s with rows := s.rows.insert key v } := by
  unfold put
  split
  · rfl
  · cases v <;> rfl

/-- The bucket whose state an operation may replace. -/
def SpaceOperation.target? : SpaceOperation → Option String
  | act (.update name _) | act (.reset name) | load name => some name
  | _ => none

namespace StateSpace

variable {s t : StateSpace} {name other : String} {b : Bucket} {i j : Nat} {w : Watcher}
  {x : Live} {e : Fault} {v initial : Value}

/-- The space after some operations.  What each of them reports is taken out of the space. -/
def after (s : StateSpace) (ops : List SpaceOperation) : StateSpace :=
  ops.foldl (fun s op => { (op.apply s).2 with reports := [] }) s

@[simp] theorem after_nil (s : StateSpace) : s.after [] = s := rfl

theorem after_append (s : StateSpace) (ops more : List SpaceOperation) :
    s.after (ops ++ more) = (s.after ops).after more :=
  List.foldl_append

theorem after_singleton (s : StateSpace) (op : SpaceOperation) :
    s.after [op] = { (op.apply s).2 with reports := [] } :=
  rfl

/-! ### Buckets that are opened -/

/-- What a bucket holds at first that is opened with an initial state. -/
def firstState (s : StateSpace) (initial : Value) : Live :=
  (Live.ofValue false s.nextMark (initial.nonEmpty?.getD (.map []))).1

theorem openBucket_of_some (h : s.bucket? name = some b) : s.openBucket name initial = s := by
  rw [openBucket, h]

/-- The first mark that what a bucket holds at first leaves. -/
def firstMark (s : StateSpace) (initial : Value) : Nat :=
  (Live.ofValue false s.nextMark (initial.nonEmpty?.getD (.map []))).2

theorem openBucket_of_none (h : s.bucket? name = none) (initial : Value) :
    s.openBucket name initial =
      { s with
        buckets := s.buckets ++ [⟨name, s.firstState initial,
          ((s.firstState initial).copy (s.firstMark initial)).1, []⟩]
        nextMark := ((s.firstState initial).copy (s.firstMark initial)).2 } := by
  rw [openBucket, h]
  rfl

theorem exists_openBucket_eq (h : s.bucket? name = none) (initial : Value) :
    ∃ next mark, s.openBucket name initial =
      { s with
        buckets := s.buckets ++
          [⟨name, s.firstState initial, ((s.firstState initial).copy mark).1, []⟩]
        nextMark := next } :=
  ⟨_, _, openBucket_of_none h initial⟩

theorem bucket?_eq_none_iff : s.bucket? name = none ↔ s.content? name = none := by
  unfold content?
  rw [Option.map_eq_none_iff]

theorem bucket?_append (hnone : s.bucket? name = none) (hname : b.name = name) :
    { s with buckets := s.buckets ++ [b], nextMark := i }.bucket? other =
      if other = name then some b else s.bucket? other := by
  show (s.buckets ++ [b]).find? (·.name == other) = _
  rw [List.find?_append, List.find?_singleton, hname]
  by_cases h : other = name
  · have hfind : s.buckets.find? (·.name == other) = none := h ▸ hnone
    rw [if_pos h, h, if_pos (beq_self_eq_true _), ← h, hfind]
    rfl
  · rw [if_neg h, if_neg (by simpa using Ne.symm h), Option.or_none]
    rfl

theorem watcher?_openBucket : (s.openBucket name initial).watcher? = s.watcher? := by
  cases h : s.bucket? name with
  | some b => rw [openBucket_of_some h]
  | none =>
    obtain ⟨next, mark, heq⟩ := exists_openBucket_eq h initial
    rw [heq]
    funext other i
    unfold watcher?
    rw [bucket?_append h rfl]
    split
    · rename_i hother
      rw [hother, h]
      rfl
    · rfl

theorem content?_openBucket_of_ne (h : other ≠ name) :
    (s.openBucket name initial).content? other = s.content? other := by
  cases hb : s.bucket? name with
  | some b => rw [openBucket_of_some hb]
  | none =>
    obtain ⟨next, mark, heq⟩ := exists_openBucket_eq hb initial
    unfold content?
    rw [heq, bucket?_append hb rfl, if_neg h]

theorem exists_content?_openBucket (h : s.content? name = none) (initial : Value) :
    ∃ mark, (s.openBucket name initial).content? name =
      some (s.firstState initial, ((s.firstState initial).copy mark).1) := by
  have hb := bucket?_eq_none_iff.mpr h
  obtain ⟨next, mark, heq⟩ := exists_openBucket_eq hb initial
  refine ⟨mark, ?_⟩
  unfold content?
  rw [heq, bucket?_append hb rfl, if_pos rfl]
  rfl

theorem store_openBucket : (s.openBucket name initial).store = s.store := by
  cases h : s.bucket? name with
  | some b => rw [openBucket_of_some h]
  | none =>
    obtain ⟨next, mark, heq⟩ := exists_openBucket_eq h initial
    rw [heq]

theorem content?_openBucket_of_some {c : Live × Live} (h : s.content? name = some c) :
    (s.openBucket name initial).content? name = some c := by
  obtain ⟨b, hb, -⟩ := Option.map_eq_some_iff.mp h
  rw [openBucket_of_some hb, h]

/-! ### States that are put into buckets -/

/-- A state is put into a bucket and delivered to those who subscribed to it. -/
def put (s : StateSpace) (name : String) (x : Live) : Except Fault Unit × StateSpace :=
  match s.bucket? name with
  | none => (.ok (), s)
  | some b =>
    deliverTo name x b.subscribers (s.modifyBucket name fun b => { b with state := x })

/-- The space with a state in a bucket that nobody has been told of. -/
def withState (s : StateSpace) (name : String) (x : Live) : StateSpace :=
  s.modifyBucket name fun b => { b with state := x }

theorem put_of_some (h : s.bucket? name = some b) :
    s.put name x = deliverTo name x b.subscribers (s.withState name x) := by
  rw [put, h]
  rfl

theorem put_of_none (h : s.bucket? name = none) : s.put name x = (.ok (), s) := by
  rw [put, h]

theorem watcher?_withState : (s.withState name x).watcher? = s.watcher? :=
  watcher?_modifyBucket (fun _ => rfl) fun _ => rfl

theorem content?_withState :
    (s.withState name x).content? other =
      if other = name then (s.content? name).map fun c => (c.1, x) else s.content? other := by
  unfold withState
  have hname : ∀ b : Bucket, ({ b with state := x } : Bucket).name = b.name := fun _ => rfl
  rw [content?_modifyBucket hname]
  unfold content?
  rw [Option.map_map]
  rfl

theorem quiet_withState (hs : s.Quiet) (name : String) (x : Live) :
    (s.withState name x).Quiet := by
  intro other i w hw
  rw [watcher?_withState] at hw
  exact hs other i w hw

theorem settle_setState (hs : s.Quiet) :
    (s.setState name x).1.settle (s.setState name x).2 = s.put name x := by
  cases h : s.bucket? name with
  | none =>
    rw [put_of_none h, setState, h]
    rfl
  | some b =>
    rw [put_of_some h, setState, h]
    exact settle_eq_deliverTo (quiet_withState hs name x)

/-- A state that is put into a bucket is what the bucket holds then; nothing else changes but what
watchers have received. -/
structure Puts (s : StateSpace) (name : String) (x : Live) (t : StateSpace) : Prop where
  content : ∀ other, t.content? other =
    if other = name then (s.content? name).map fun c => (c.1, x) else s.content? other
  watchers : ∀ other i, (t.watcher? other i).map Watcher.forget =
    (s.watcher? other i).map Watcher.forget
  store : t.store = s.store

theorem puts_put (hs : s.Quiet) (name : String) (x : Live) : s.Puts name x (s.put name x).2 := by
  cases h : s.bucket? name with
  | none =>
    have hc : s.content? name = none := bucket?_eq_none_iff.mp h
    rw [put_of_none h]
    refine ⟨fun other => ?_, fun _ _ => rfl, rfl⟩
    split
    · rename_i hother
      rw [hother, hc]
      rfl
    · rfl
  | some b =>
    have htold := told_deliverTo (quiet_withState hs name x) name x b.subscribers
    rw [put_of_some h]
    refine ⟨fun other => ?_, fun other i => ?_, htold.store⟩
    · rw [htold.content, content?_withState]
    · rw [htold.watchers, watcher?_withState]

theorem puts_put_of_mark (hs : s.Quiet) (next : Nat) (name : String) (x : Live) :
    s.Puts name x ({ s with nextMark := next }.put name x).2 := by
  have hmarked : ({ s with nextMark := next } : StateSpace).Quiet := hs
  obtain ⟨hcontent, hwatchers, hstore⟩ := puts_put hmarked name x
  exact ⟨hcontent, hwatchers, hstore⟩

theorem Puts.quiet (h : s.Puts name x t) (hs : s.Quiet) : t.Quiet := by
  intro other i w hw
  have hmap := h.watchers other i
  rw [hw, Option.map_some] at hmap
  obtain ⟨v, hv, heq⟩ := Option.map_eq_some_iff.mp hmap.symm
  have hcallback : w.callback = v.callback := (congrArg Watcher.callback heq.symm :)
  unfold Watcher.Quiet
  rw [hcallback]
  exact hs other i v hv

/-! ### What is put into buckets -/

theorem merged_cases (s : StateSpace) (name : String) (entries : Value) :
    (∃ e next, s.merged name entries = (.error e, { s with nextMark := next })) ∨
      ∃ c mark old other given next, s.content? name = some (c, .map mark old) ∧
        (Live.ofValue false s.nextMark entries).1 = .map other given ∧
        s.merged name entries =
          (.ok (.map other (Live.overlay old given)), { s with nextMark := next }) := by
  unfold merged content?
  cases s.bucket? name with
  | none => exact Or.inl ⟨_, s.nextMark, rfl⟩
  | some b =>
    obtain ⟨-, initial, state, -⟩ := b
    dsimp only [Option.map_some, Option.getD_some]
    cases state with
    | map mark old =>
      rcases hnew : Live.ofValue false s.nextMark entries with ⟨new, next⟩
      have hfresh : s.fresh false entries = (new, { s with nextMark := next }) := by
        rw [fresh, hnew]
      dsimp only
      rw [hfresh]
      cases new with
      | map other given => exact Or.inr ⟨initial, mark, old, other, given, next, rfl, rfl, rfl⟩
      | _ => exact Or.inl ⟨_, next, rfl⟩
    | _ => exact Or.inl ⟨_, s.nextMark, rfl⟩

/-- An update fails, or puts the map with the new entries on top into the bucket. -/
theorem update_cases (hs : s.Quiet) (name : String) (entries : Value) :
    (∃ e next, s.update name entries = (.error e, { s with nextMark := next })) ∨
      ∃ c mark old other given next, s.content? name = some (c, .map mark old) ∧
        (Live.ofValue false s.nextMark entries).1 = .map other given ∧
        s.update name entries =
          { s with nextMark := next }.put name (.map other (Live.overlay old given)) := by
  rcases merged_cases s name entries with
    ⟨e, next, h⟩ | ⟨c, mark, old, other, given, next, hc, hg, h⟩
  · exact Or.inl ⟨e, next, by rw [update, h]⟩
  · refine Or.inr ⟨c, mark, old, other, given, next, hc, hg, ?_⟩
    rw [update, h]
    exact settle_setState hs

/-- A map that is given on top of a map is put into the bucket. -/
theorem exists_update_eq (hs : s.Quiet) {mark other : Nat} {old given : List (Live × Live)}
    {entries : Value} (hb : s.bucket? name = some b) (hstate : b.state = .map mark old)
    (hgiven : (Live.ofValue false s.nextMark entries).1 = .map other given) :
    ∃ next, s.update name entries =
      { s with nextMark := next }.put name (.map other (Live.overlay old given)) := by
  have hmerged : s.merged name entries = (.ok (.map other (Live.overlay old given)),
      { s with nextMark := (Live.ofValue false s.nextMark entries).2 }) := by
    unfold merged fresh
    rw [hb, Option.map_some, Option.getD_some, hstate]
    dsimp only
    rw [hgiven]
  refine ⟨(Live.ofValue false s.nextMark entries).2, ?_⟩
  rw [update, hmerged]
  exact settle_setState hs

/-- A reset puts a copy of the state at first into the bucket. -/
theorem reset_eq (hs : s.Quiet) (h : s.bucket? name = some b) :
    s.reset name = { s with nextMark := (b.initial.copy s.nextMark).2 }.put name
      (b.initial.copy s.nextMark).1 := by
  rw [reset, setInitial, h]
  exact settle_setState hs

theorem reset_of_none (h : s.bucket? name = none) : s.reset name = (.ok (), s) := by
  rw [reset, setInitial, h]
  rfl

/-- A bucket that is loaded holds what the store keeps for it. -/
theorem load_eq (hs : s.Quiet) (h : s.bucket? name = some b)
    (hget : s.store.get b.storageKey = .ok v) (hv : v ≠ .null) :
    s.load name = { s with nextMark := (Live.ofValue true s.nextMark v).2 }.put name
      (Live.ofValue true s.nextMark v).1 := by
  rw [load, h]
  dsimp only
  rw [hget]
  cases v with
  | null => exact absurd rfl hv
  | _ => exact settle_setState hs

theorem load_cases (hs : s.Quiet) (name : String) :
    (∃ reports, s.load name = (.ok (), { s with reports := reports })) ∨
      ∃ b v next, s.bucket? name = some b ∧ s.store.get b.storageKey = .ok v ∧ v ≠ .null ∧
        s.load name = { s with nextMark := next }.put name (Live.ofValue true s.nextMark v).1 := by
  cases h : s.bucket? name with
  | none => exact Or.inl ⟨s.reports, by rw [load, h]⟩
  | some b =>
    cases hget : s.store.get b.storageKey with
    | error e =>
      have heq : s.load name = (.ok (), { s with
          reports := .log "state" .error
            ("Failed to load state for " ++ quoted name ++ ": " ++ e.message) :: s.reports }) := by
        rw [load, h]
        dsimp only
        rw [hget]
      exact Or.inl ⟨_, heq⟩
    | ok v =>
      by_cases hv : v = .null
      · refine Or.inl ⟨s.reports, ?_⟩
        rw [load, h]
        dsimp only
        rw [hget, hv]
      · exact Or.inr ⟨b, v, _, rfl, hget, hv, load_eq hs h hget hv⟩

/-! ### What is kept in the store -/

theorem persist_of_some (h : s.bucket? name = some b) :
    s.persist name =
      if s.store.failsSet then (.error (.failure "storage full"), s)
      else match b.state.expressed with
        | .error e => (.error e, s)
        | .ok v =>
          (.ok (), { s with
            store := { s.store with rows := s.store.rows.insert b.storageKey v } }) := by
  rw [persist, h]
  unfold onStore
  dsimp only
  rw [KeyValueStore.put_eq]
  cases s.store.failsSet with
  | true => rfl
  | false => cases b.state.expressed <;> rfl

theorem persist_cases (s : StateSpace) (name : String) :
    (∃ r, s.persist name = (r, s)) ∨
      ∃ b v, s.bucket? name = some b ∧ b.state.expressed = .ok v ∧
        s.persist name =
          (.ok (), { s with
            store := { s.store with rows := s.store.rows.insert b.storageKey v } }) := by
  cases h : s.bucket? name with
  | none => exact Or.inl ⟨_, by rw [persist, h]⟩
  | some b =>
    rw [persist_of_some h]
    split
    · exact Or.inl ⟨_, rfl⟩
    · cases hv : b.state.expressed with
      | error e => exact Or.inl ⟨_, rfl⟩
      | ok v => exact Or.inr ⟨b, v, rfl, hv, rfl⟩

/-! ### Watchers that come and go -/

/-- The space with a further watcher that has not received anything. -/
def withWatcher (s : StateSpace) (name : String) (w : Watcher) : StateSpace :=
  s.modifyBucket name fun b => { b with watchers := b.watchers ++ [w] }

theorem watch_of_none (h : s.bucket? name = none) : s.watch name w = (.ok 0, s) := by
  rw [watch, h]

theorem modifyBucket_of_none {f : Bucket → Bucket} (h : s.bucket? name = none) :
    s.modifyBucket name f = s := by
  have hname : ∀ b ∈ s.buckets, ¬ (b.name == name) = true := List.find?_eq_none.mp h
  have hbuckets : (s.modifyBucket name f).buckets = s.buckets := by
    conv_rhs => rw [← List.map_id s.buckets]
    exact List.map_congr_left fun b hb => if_neg (hname b hb)
  show { s with buckets := (s.modifyBucket name f).buckets } = s
  rw [hbuckets]

theorem withWatcher_of_none (h : s.bucket? name = none) : s.withWatcher name w = s :=
  modifyBucket_of_none h

theorem watcher?_withWatcher (h : s.bucket? name = some b) :
    (s.withWatcher name w).watcher? other i =
      if other = name ∧ i = b.watchers.length then some w else s.watcher? other i := by
  have hname : ∀ b : Bucket, ({ b with watchers := b.watchers ++ [w] } : Bucket).name = b.name :=
    fun _ => rfl
  unfold withWatcher watcher?
  rw [bucket?_modifyBucket hname]
  by_cases hother : other = name
  · rw [if_pos hother, h, hother, h]
    show (b.watchers ++ [w])[i]? = _
    by_cases hi : i = b.watchers.length
    · rw [if_pos ⟨rfl, hi⟩, hi, List.getElem?_concat_length]
    · rw [if_neg fun hc => hi hc.2]
      rcases Nat.lt_or_gt_of_ne hi with hlt | hgt
      · exact List.getElem?_append_left hlt
      · show _ = b.watchers[i]?
        rw [List.getElem?_eq_none (by simp; omega), List.getElem?_eq_none (by omega)]
  · rw [if_neg hother, if_neg fun hc => hother hc.1]

theorem content?_withWatcher : (s.withWatcher name w).content? = s.content? := by
  funext other
  have hname : ∀ b : Bucket, ({ b with watchers := b.watchers ++ [w] } : Bucket).name = b.name :=
    fun _ => rfl
  unfold withWatcher
  rw [content?_modifyBucket hname]
  split
  · rename_i hother
    rw [hother]
    rfl
  · rfl

/-- The watchers of a space that has a further one. -/
theorem watcher?_withWatcher_eq_some {v : Watcher}
    (h : (s.withWatcher name w).watcher? other i = some v) :
    v = w ∧ other = name ∨ s.watcher? other i = some v := by
  cases hb : s.bucket? name with
  | none =>
    rw [withWatcher_of_none hb] at h
    exact Or.inr h
  | some b =>
    rw [watcher?_withWatcher hb] at h
    split at h
    · rename_i hother
      exact Or.inl ⟨(Option.some.inj h).symm, hother.1⟩
    · exact Or.inr h

theorem watcher?_withWatcher_of_some {v : Watcher} (h : s.watcher? other i = some v) :
    (s.withWatcher name w).watcher? other i = some v := by
  cases hb : s.bucket? name with
  | none => rwa [withWatcher_of_none hb]
  | some b =>
    rw [watcher?_withWatcher hb, if_neg]
    · exact h
    · -- There is no watcher yet where the further one is put.
      rintro ⟨rfl, rfl⟩
      rw [watcher?, hb] at h
      cases (List.getElem?_eq_none (Nat.le_refl b.watchers.length)).symm.trans h

theorem quiet_withWatcher (hs : s.Quiet) (hw : w.Quiet) : (s.withWatcher name w).Quiet := by
  intro other i v hv
  rcases watcher?_withWatcher_eq_some hv with ⟨rfl, -⟩ | hold
  · exact hw
  · exact hs other i v hold

/-- A watcher that comes receives the state at once. -/
theorem watch_eq_settle (h : s.bucket? name = some b) (w : Watcher) :
    s.watch name w =
      (((s.withWatcher name w).settle [.deliver name b.watchers.length b.state]).1.map
          fun _ => b.watchers.length,
        ((s.withWatcher name w).settle [.deliver name b.watchers.length b.state]).2) := by
  unfold watch withWatcher
  rw [h]
  dsimp only
  generalize settle _ [.deliver name b.watchers.length b.state] = ending
  rcases ending with ⟨e | ⟨⟩, t⟩ <;> rfl

/-- While no watcher changes anything in turn, a watcher that comes stays whether it fails or
not. -/
theorem watch_of_some (hs : s.Quiet) (hw : w.Quiet) (h : s.bucket? name = some b) :
    ∃ r, s.watch name w =
        (r, (deliverTo name b.state [b.watchers.length] (s.withWatcher name w)).2) ∧
      ∀ i, r = .ok i → i = b.watchers.length := by
  have hsettle : (s.withWatcher name w).settle [.deliver name b.watchers.length b.state] =
      deliverTo name b.state [b.watchers.length] (s.withWatcher name w) :=
    @settle_eq_deliverTo _ _ _ [b.watchers.length] (quiet_withWatcher hs hw)
  rw [watch_eq_settle h, hsettle]
  generalize deliverTo name b.state [b.watchers.length] (s.withWatcher name w) = ending
  rcases ending with ⟨e | -, t⟩
  · exact ⟨.error e, rfl, fun i hi => by cases hi⟩
  · exact ⟨.ok b.watchers.length, rfl, fun i hi => (Except.ok.inj hi).symm⟩

theorem told_watch (hs : s.Quiet) (hw : w.Quiet) (h : s.bucket? name = some b) :
    (s.withWatcher name w).Told (s.watch name w).2 := by
  obtain ⟨r, hr, -⟩ := watch_of_some hs hw h
  rw [hr]
  exact told_deliverTo (quiet_withWatcher hs hw) _ _ _

theorem content?_watch (hs : s.Quiet) (hw : w.Quiet) :
    (s.watch name w).2.content? = s.content? := by
  cases h : s.bucket? name with
  | none => rw [watch_of_none h]
  | some b => rw [(told_watch hs hw h).content, content?_withWatcher]

theorem store_watch (hs : s.Quiet) (hw : w.Quiet) : (s.watch name w).2.store = s.store := by
  cases h : s.bucket? name with
  | none => rw [watch_of_none h]
  | some b => exact (told_watch hs hw h).store

/-- The space after a subscription has ended. -/
def withoutWatcher (s : StateSpace) (name : String) (i : Nat) : StateSpace :=
  s.modifyBucket name fun b => b.modifyWatcher i fun w => { w with subscribed := false }

theorem watcher?_withoutWatcher :
    (s.withoutWatcher name i).watcher? other j =
      if other = name ∧ j = i then (s.watcher? name i).map fun w => { w with subscribed := false }
      else s.watcher? other j :=
  watcher?_modifyWatcher

theorem content?_withoutWatcher : (s.withoutWatcher name i).content? = s.content? :=
  content?_modifyWatcher

theorem quiet_withoutWatcher (hs : s.Quiet) : (s.withoutWatcher name i).Quiet := by
  intro other j w hw
  rw [watcher?_withoutWatcher] at hw
  split at hw
  · obtain ⟨v, hv, rfl⟩ := Option.map_eq_some_iff.mp hw
    exact hs name i v hv
  · exact hs other j w hw

/-- The space in which the aliases are not taken from where they were taken from before. -/
def released (s : StateSpace) : StateSpace :=
  match s.aliasWatcher with
  | some (name, i) => s.withoutWatcher name i
  | none => s

theorem quiet_released (hs : s.Quiet) : s.released.Quiet := by
  unfold released
  split
  · exact quiet_withoutWatcher hs
  · exact hs

theorem content?_released : s.released.content? = s.content? := by
  unfold released
  split
  · exact content?_withoutWatcher
  · rfl

theorem store_released : s.released.store = s.store := by
  unfold released
  split <;> rfl

/-- The aliases are taken from where the watcher has come, unless it failed at once. -/
def following (name : String) : Except Fault Nat × StateSpace → Except Fault Unit × StateSpace
  | (.ok i, s) => (.ok (), { s with aliasWatcher := some (name, i) })
  | (.error e, s) => (.error e, s)

theorem followAliases_eq (s : StateSpace) (name : String) :
    s.followAliases name = following name (s.released.watch name .follower) :=
  rfl

theorem exists_followAliases_eq (s : StateSpace) (name : String) :
    ∃ watcher, (s.followAliases name).2 =
      { (s.released.watch name .follower).2 with aliasWatcher := watcher } := by
  rw [followAliases_eq]
  generalize s.released.watch name .follower = ending
  rcases ending with ⟨e | i, t⟩
  · exact ⟨t.aliasWatcher, rfl⟩
  · exact ⟨some (name, i), rfl⟩

theorem exists_subscribe_eq (s : StateSpace) (name : String) (w : Watcher) :
    ∃ handles, (s.subscribe name w).2 = { (s.watch name w).2 with handles := handles } := by
  unfold subscribe
  generalize s.watch name w = ending
  rcases ending with ⟨e | i, t⟩
  · exact ⟨t.handles, rfl⟩
  · exact ⟨_, rfl⟩

/-! ### Sound spaces -/

/-- No watcher changes anything in turn, and all that buckets hold is proper. -/
structure Sound (s : StateSpace) : Prop where
  quiet : s.Quiet
  proper : ∀ name c, s.content? name = some c → c.1.Proper ∧ c.2.Proper

theorem Sound.of_content (hs : s.Sound) (hquiet : t.Quiet) (h : t.content? = s.content?) :
    t.Sound := by
  refine ⟨hquiet, fun name c hc => hs.proper name c ?_⟩
  rw [← h, hc]

theorem Sound.told (hs : s.Sound) (h : s.Told t) : t.Sound :=
  hs.of_content (h.quiet hs.quiet) h.content

theorem Sound.puts (hs : s.Sound) (hx : x.Proper) (h : s.Puts name x t) : t.Sound := by
  refine ⟨h.quiet hs.quiet, fun other c hc => ?_⟩
  rw [h.content] at hc
  split at hc
  · obtain ⟨c', hc', rfl⟩ := Option.map_eq_some_iff.mp hc
    exact ⟨(hs.proper name c' hc').1, hx⟩
  · exact hs.proper other c hc

theorem Sound.put {next : Nat} (hs : s.Sound) (hx : x.Proper) :
    ({ s with nextMark := next }.put name x).2.Sound :=
  hs.puts hx (puts_put_of_mark hs.quiet _ _ _)

theorem Sound.initial_proper (hs : s.Sound) (h : s.bucket? name = some b) : b.initial.Proper :=
  (hs.proper name (b.initial, b.state) (by rw [content?, h]; rfl)).1

theorem Sound.state_proper (hs : s.Sound) (h : s.bucket? name = some b) : b.state.Proper :=
  (hs.proper name (b.initial, b.state) (by rw [content?, h]; rfl)).2

theorem sound_of_no_buckets (h : s.buckets = []) : s.Sound := by
  have hnone : ∀ name, s.bucket? name = none := fun name => by rw [bucket?, h]; rfl
  refine ⟨fun name i w hw => ?_, fun name c hc => ?_⟩
  · rw [watcher?, hnone] at hw
    cases hw
  · rw [content?, hnone] at hc
    cases hc

theorem Sound.openBucket (hs : s.Sound) : (s.openBucket name initial).Sound := by
  refine ⟨fun other i w hw => hs.quiet other i w (by rwa [watcher?_openBucket] at hw), ?_⟩
  intro other c hc
  -- A bucket that is there already is left as it is; a new one has a copy of its first state.
  by_cases hother : other = name
  · subst hother
    cases hold : s.content? other with
    | some c' =>
      rw [content?_openBucket_of_some hold] at hc
      obtain rfl := Option.some.inj hc
      exact hs.proper other c' hold
    | none =>
      obtain ⟨mark, heq⟩ := exists_content?_openBucket hold initial
      rw [heq] at hc
      obtain rfl := Option.some.inj hc
      have hfirst : (s.firstState initial).Proper := Live.proper_ofValue _ _
      exact ⟨hfirst, Live.proper_copy hfirst mark⟩
  · rw [content?_openBucket_of_ne hother] at hc
    exact hs.proper other c hc

theorem Sound.watch (hs : s.Sound) (hw : w.Quiet) : (s.watch name w).2.Sound := by
  cases h : s.bucket? name with
  | none =>
    rw [watch_of_none h]
    exact hs
  | some b =>
    exact (hs.of_content (quiet_withWatcher hs.quiet hw) content?_withWatcher).told
      (told_watch hs.quiet hw h)

theorem Sound.released (hs : s.Sound) : s.released.Sound :=
  hs.of_content (quiet_released hs.quiet) content?_released

/-! ### What operations come to -/

/-- What an operation comes to while no watcher changes anything in turn: a bucket is opened, a
state is put into one or kept in the store, a watcher comes, or nothing happens. -/
inductive Effect (s : StateSpace) : SpaceOperation → StateSpace → Prop
  | opens (name : String) (initial : Value) :
    Effect s (.act (.opening name initial)) (s.openBucket name initial)
  | puts {op : SpaceOperation} {name : String} {x : Live} (next : Nat)
    (hop : op.target? = some name) (hx : s.Sound → x.Proper) :
    Effect s op ({ s with nextMark := next }.put name x).2
  | keeps {name : String} {b : Bucket} {v : Value} (hb : s.bucket? name = some b)
    (hv : b.state.expressed = .ok v) :
    Effect s (.act (.persist name))
      { s with store := { s.store with rows := s.store.rows.insert b.storageKey v } }
  | follows (name : String) (watcher : Option (String × Nat)) :
    Effect s (.follow name)
      { (s.released.watch name .follower).2 with aliasWatcher := watcher }
  | observes (name label : String) (selector : Option Selector) (handles : Entries (String × Nat)) :
    Effect s (.observe name label selector)
      { (s.watch name (.reporter label selector)).2 with handles := handles }
  | nothing (op : SpaceOperation) (next : Nat) (reports : List Event) :
    Effect s op { s with nextMark := next, reports := reports }

theorem effect_apply (hs : s.Quiet) (op : SpaceOperation) : s.Effect op (op.apply s).2 := by
  cases op with
  | act op =>
    cases op with
    | opening name initial => exact .opens name initial
    | update name entries =>
      show s.Effect _ (s.update name entries).2
      -- What is refused takes marks at most; all else is put into the bucket.
      rcases update_cases hs name entries with
        ⟨e, next, h⟩ | ⟨c, mark, old, other, given, next, hc, hg, h⟩
      · rw [h]
        exact .nothing _ next s.reports
      · rw [h]
        refine .puts next rfl fun hsound => ?_
        have hgiven : (Live.map other given).Proper := hg ▸ Live.proper_ofValue s.nextMark entries
        exact Live.proper_overlay (hsound.proper name _ hc).2 hgiven
    | reset name =>
      show s.Effect _ (s.reset name).2
      cases h : s.bucket? name with
      | none =>
        rw [reset_of_none h]
        exact .nothing _ s.nextMark s.reports
      | some b =>
        rw [reset_eq hs h]
        exact .puts _ rfl fun hsound => Live.proper_copy (hsound.initial_proper h) _
    | persist name =>
      show s.Effect _ (s.persist name).2
      rcases persist_cases s name with ⟨r, h⟩ | ⟨b, v, hb, hv, h⟩
      · rw [h]
        exact .nothing _ s.nextMark s.reports
      · rw [h]
        exact .keeps hb hv
  | load name =>
    show s.Effect _ (s.load name).2
    rcases load_cases hs name with ⟨reports, h⟩ | ⟨b, v, next, -, -, -, h⟩
    · rw [h]
      exact .nothing _ s.nextMark reports
    · rw [h]
      exact .puts next rfl fun _ => Live.proper_ofValue _ _
  | follow name =>
    show s.Effect _ (s.followAliases name).2
    obtain ⟨watcher, h⟩ := exists_followAliases_eq s name
    rw [h]
    exact .follows name watcher
  | observe name label selector =>
    show s.Effect _ (s.subscribe name (.reporter label selector)).2
    obtain ⟨handles, h⟩ := exists_subscribe_eq s name (.reporter label selector)
    rw [h]
    exact .observes name label selector handles

/-- A bucket that was opened is there from then on. -/
theorem exists_content?_apply (hs : s.Quiet) {c : Live × Live} (h : s.content? name = some c)
    (op : SpaceOperation) : ∃ c, (op.apply s).2.content? name = some c := by
  have heffect := effect_apply hs op
  generalize (op.apply s).2 = t at heffect ⊢
  cases heffect with
  | opens other initial =>
    by_cases hother : name = other
    · subst hother
      exact ⟨c, content?_openBucket_of_some h⟩
    · exact ⟨c, (content?_openBucket_of_ne hother).trans h⟩
  -- A state that is put into a bucket takes the place of the one that was there.
  | @puts _ other x next hop _ =>
    rw [(puts_put_of_mark hs _ _ _).content]
    split
    · rename_i hother
      rw [← hother, h]
      exact ⟨_, rfl⟩
    · exact ⟨c, h⟩
  | follows other watcher =>
    exact ⟨c, ((congrFun (content?_watch (quiet_released hs) (Or.inl rfl)) name).trans
      (congrFun content?_released name)).trans h⟩
  | observes other label selector handles =>
    exact ⟨c, (congrFun (content?_watch hs (Or.inr rfl)) name).trans h⟩
  | _ => exact ⟨c, h⟩

/-- Every operation keeps a space sound. -/
theorem Sound.apply (hs : s.Sound) (op : SpaceOperation) : (op.apply s).2.Sound := by
  have heffect := effect_apply hs.quiet op
  generalize (op.apply s).2 = t at heffect ⊢
  cases heffect with
  | opens name initial => exact hs.openBucket
  | puts next hop hx => exact hs.put (hx hs)
  | follows name watcher =>
    have hsound : (s.released.watch name .follower).2.Sound := hs.released.watch (Or.inl rfl)
    exact ⟨hsound.quiet, hsound.proper⟩
  | observes name label selector handles =>
    have hsound : (s.watch name (.reporter label selector)).2.Sound := hs.watch (Or.inr rfl)
    exact ⟨hsound.quiet, hsound.proper⟩
  | _ => exact ⟨hs.quiet, hs.proper⟩

theorem sound_after (hs : s.Sound) (ops : List SpaceOperation) : (s.after ops).Sound := by
  induction ops generalizing s with
  | nil => exact hs
  | cons op ops ih => exact ih ⟨(hs.apply op).quiet, (hs.apply op).proper⟩

/-- A bucket that is there stays there. -/
theorem exists_content?_after_of_some (hs : s.Sound) (ops : List SpaceOperation)
    (h : ∃ c, s.content? name = some c) : ∃ c, (s.after ops).content? name = some c := by
  induction ops generalizing s with
  | nil => exact h
  | cons op ops ih =>
    obtain ⟨c, hc⟩ := h
    exact ih ⟨(hs.apply op).quiet, (hs.apply op).proper⟩ (exists_content?_apply hs.quiet hc op)

theorem exists_content?_after (hs : s.Sound) {ops : List SpaceOperation}
    (h : .act (.opening name initial) ∈ ops) : ∃ c, (s.after ops).content? name = some c := by
  -- The first operation opens the bucket, or the bucket is there already, or it is opened later.
  obtain ⟨front, back, rfl⟩ := List.append_of_mem h
  rw [after_append]
  have hfront := sound_after hs front
  generalize s.after front = t at hfront
  have hopened := hfront.apply (.act (.opening name initial))
  refine @exists_content?_after_of_some { t.openBucket name initial with reports := [] } name
    ⟨hopened.quiet, hopened.proper⟩ back ?_
  show ∃ c, (t.openBucket name initial).content? name = some c
  cases hc : t.content? name with
  | some c => exact ⟨c, content?_openBucket_of_some hc⟩
  | none =>
    obtain ⟨mark, heq⟩ := exists_content?_openBucket hc initial
    exact ⟨_, heq⟩

end StateSpace

end CommandShell
