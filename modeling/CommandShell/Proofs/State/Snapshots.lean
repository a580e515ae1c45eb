import CommandShell.Proofs.State.Changes
import CommandShell.Proofs.State.Hydration

/-!
# Snapshots and what is loaded

The store keeps a snapshot of a bucket from when it was kept last.  Nothing but keeping the bucket
again replaces it, whatever is done to the buckets and whatever their watchers do.  So to load the
bucket gives it the state back that it had then, and a watcher can only change it by doing so in
turn, while it is told.

## Main definitions

* `Live.IsObject`: a state that is a JSON object.
* `StateSpace.stored?`: what the store has for a bucket, whether reading fails or not.
* `StateSpace.Conserves`: no bucket is lost or doubled, and nothing is kept.
* `StateSpace.Meanwhile`: things are done to buckets, but one of them is not kept.

## Main results

* `StateSpace.Meanwhile.stored?_eq`: a snapshot stays until the bucket is kept again.
* `StateSpace.load_restores_snapshot`: what is loaded is what was kept.
* `StateSpace.load_is_undone_in_turn`: a watcher that changes the bucket in turn.
-/

namespace CommandShell

/-- A live value that is a JSON object. -/
structure Live.IsObject (x : Live) : Prop where
  proper : x.Proper
  isMap : ∃ m, x.value = .map m
  expressible : x.value.isExpressible = true

/-- The store keeps a JSON object as it reads. -/
theorem Live.IsObject.expressed_eq {x : Live} (h : x.IsObject) : x.expressed = .ok x.value := by
  rw [h.proper.expressed_eq, if_pos h.expressible]

namespace StateSpace

/-- The names of all buckets. -/
def names (s : StateSpace) : List String :=
  s.buckets.map (·.name)

/-- What the store has for the bucket with a name. -/
def stored? (s : StateSpace) (name : String) : Option Value :=
  s.store.rows.get? ("store-state-" ++ name)

/-- No bucket is lost, none gets a name that is taken, and nothing is kept in the store. -/
structure Conserves (s t : StateSpace) : Prop where
  names : s.names ⊆ t.names
  nodup : s.names.Nodup → t.names.Nodup
  store : t.store = s.store

/-- Things are done to buckets one after another, but the one with a name is not kept in the store:
there are operations, watchers come and go, parts are set in place from outside, reports are taken
out, and reading and writing fails or works again. -/
inductive Meanwhile (name : String) (s : StateSpace) : StateSpace → Prop
  | start : Meanwhile name s s
  | operates {t : StateSpace} (op : SpaceOperation)
    (hop : op = .act (.persist name) → (op.apply t).1 ≠ .ok ()) :
    Meanwhile name s t → Meanwhile name s (op.apply t).2
  | subscribes {t : StateSpace} (other : String) (w : Watcher) :
    Meanwhile name s t → Meanwhile name s (t.subscribe other w).2
  | unsubscribes {t : StateSpace} (label : String) :
    Meanwhile name s t → Meanwhile name s (t.unsubscribe label).2
  | edits {t : StateSpace} (other : String) (path : List Value) (v : Value) :
    Meanwhile name s t → Meanwhile name s (t.edit other path v).2
  | reports {t : StateSpace} (events : List Event) :
    Meanwhile name s t → Meanwhile name s { t with reports := events }
  | fails {t : StateSpace} (reading writing : Bool) :
    Meanwhile name s t → Meanwhile name s
      { t with store := { t.store with failsGet := reading, failsSet := writing } }

variable {s t u : StateSpace} {name other : String} {b : Bucket} {x : Live} {op : SpaceOperation}

/-! ### Buckets that are there -/

theorem mem_names_iff : name ∈ s.names ↔ ∃ b, s.bucket? name = some b := by
  unfold names bucket?
  constructor
  · intro h
    obtain ⟨b, hb, hname⟩ := List.mem_map.mp h
    exact Option.isSome_iff_exists.mp (List.find?_isSome.mpr ⟨b, hb, by simpa using hname⟩)
  · rintro ⟨b, hb⟩
    exact List.mem_map.mpr ⟨b, List.mem_of_find?_eq_some hb, by simpa using List.find?_some hb⟩

theorem Conserves.refl (s : StateSpace) : s.Conserves s :=
  ⟨List.Subset.refl _, id, rfl⟩

theorem Conserves.trans (h : s.Conserves t) (h' : t.Conserves u) : s.Conserves u :=
  ⟨List.Subset.trans h.names h'.names, h'.nodup ∘ h.nodup, h'.store.trans h.store⟩

theorem conserves_of_names (hnames : t.names = s.names) (hstore : t.store = s.store) :
    s.Conserves t :=
  ⟨by rw [hnames]; exact List.Subset.refl _, by rw [hnames]; exact id, hstore⟩

theorem conserves_of_eq (hbuckets : t.buckets = s.buckets) (hstore : t.store = s.store) :
    s.Conserves t :=
  conserves_of_names (by rw [names, names, hbuckets]) hstore

theorem Framed.conserves (h : s.Framed t) : s.Conserves t :=
  conserves_of_names h.names h.store

theorem conserves_modifyBucket {f : Bucket → Bucket} (hf : ∀ b, (f b).name = b.name) :
    s.Conserves (s.modifyBucket name f) := by
  refine conserves_of_names ?_ rfl
  unfold names modifyBucket
  rw [List.map_map]
  refine List.map_congr_left fun b _ => ?_
  show (if b.name == name then f b else b).name = b.name
  split
  · exact hf b
  · rfl

theorem conserves_openBucket (s : StateSpace) (name : String) (initial : Value) :
    s.Conserves (s.openBucket name initial) := by
  cases h : s.bucket? name with
  | some b =>
    rw [openBucket_of_some h]
    exact .refl s
  | none =>
    have hnames : (s.openBucket name initial).names = s.names ++ [name] := by
      rw [openBucket_of_none h, names, List.map_append]
      rfl
    have hfree : name ∉ s.names := fun hname => by
      obtain ⟨b, hb⟩ := mem_names_iff.mp hname
      rw [h] at hb
      cases hb
    refine ⟨?_, fun hnodup => ?_, store_openBucket⟩
    · rw [hnames]
      exact List.subset_append_left _ _
    · rw [hnames]
      exact List.nodup_append.mpr ⟨hnodup, List.nodup_singleton name, fun n hn m hm hnm => by
        rw [List.mem_singleton.mp hm] at hnm
        exact hfree (hnm ▸ hn)⟩

theorem conserves_watch (s : StateSpace) (name : String) (w : Watcher) :
    s.Conserves (s.watch name w).2 := by
  cases h : s.bucket? name with
  | none =>
    rw [watch_of_none h]
    exact .refl s
  | some b =>
    rw [watch_eq_settle h]
    have hcome : s.Conserves (s.withWatcher name w) := conserves_modifyBucket fun _ => rfl
    exact hcome.trans (framed_settle _ _).conserves

theorem conserves_subscribe (s : StateSpace) (name : String) (w : Watcher) :
    s.Conserves (s.subscribe name w).2 := by
  obtain ⟨handles, heq⟩ := exists_subscribe_eq s name w
  rw [heq]
  exact (conserves_watch s name w).trans (conserves_of_eq rfl rfl)

theorem conserves_followAliases (s : StateSpace) (name : String) :
    s.Conserves (s.followAliases name).2 := by
  have hreleased : s.Conserves s.released := by
    unfold released
    split
    · exact conserves_modifyBucket fun _ => rfl
    · exact .refl s
  obtain ⟨watcher, heq⟩ := exists_followAliases_eq s name
  rw [heq]
  exact hreleased.trans ((conserves_watch _ name .follower).trans (conserves_of_eq rfl rfl))

theorem conserves_freshKeys (s : StateSpace) (path : List Value) :
    s.Conserves (s.freshKeys path).2 := by
  induction path generalizing s with
  | nil => exact .refl s
  | cons v path ih =>
    have hfresh : s.Conserves (s.fresh false v).2 := conserves_of_eq rfl rfl
    exact hfresh.trans (ih (s.fresh false v).2)

theorem conserves_edit (s : StateSpace) (name : String) (path : List Value) (v : Value) :
    s.Conserves (s.edit name path v).2 := by
  have hkeys := conserves_freshKeys s path
  unfold edit
  generalize s.freshKeys path = made at hkeys ⊢
  obtain ⟨keys, t⟩ := made
  dsimp only
  split
  · rename_i _ key _ _
    split
    · exact hkeys
    · rename_i x _
      have hset := (framed_setItem t [] x key v).conserves
      generalize t.setItem [] x key v = ending at hset ⊢
      rcases ending with ⟨e | agenda, u⟩ <;> exact hkeys.trans hset
  · exact hkeys

/-- No operation but one that keeps a bucket in the store changes the store. -/
theorem conserves_apply (h : ∀ name, op ≠ .act (.persist name)) : s.Conserves (op.apply s).2 := by
  cases op with
  | act op =>
    cases op with
    | opening name initial => exact conserves_openBucket s name initial
    | persist name => exact absurd rfl (h name)
    | _ => exact (framed_apply rfl).conserves
  | load name => exact (framed_apply rfl).conserves
  | follow name => exact conserves_followAliases s name
  | observe name label selector => exact conserves_subscribe s name _

/-! ### Snapshots that stay -/

theorem Conserves.stored?_eq (h : s.Conserves t) (name : String) :
    t.stored? name = s.stored? name := by
  unfold stored?
  rw [h.store]

/-- To keep a bucket does not concern what the store has for another one. -/
theorem stored?_persist_of_ne (h : other ≠ name) :
    (s.persist other).2.stored? name = s.stored? name := by
  rcases persist_cases s other with ⟨r, heq⟩ | ⟨b, v, hb, -, heq⟩
  · rw [heq]
  · have hkey : b.storageKey ≠ "store-state-" ++ name := by
      rw [Bucket.storageKey, name_of_bucket? hb]
      exact fun hkey => h (storageKey_inj hkey)
    rw [heq]
    show (s.store.rows.insert b.storageKey v).get? _ = _
    rw [Entries.get?_insert, if_neg hkey]
    rfl

/-- To keep a bucket in vain leaves all as it is. -/
theorem persist_of_error {e : Fault} (h : (s.persist name).1 = .error e) :
    (s.persist name).2 = s := by
  rcases persist_cases s name with ⟨r, heq⟩ | ⟨b, v, -, -, heq⟩
  · rw [heq]
  · rw [heq] at h
    cases h

/-- What the store has for a bucket is replaced by nothing but keeping the bucket. -/
theorem stored?_apply (h : op ≠ .act (.persist name)) :
    (op.apply s).2.stored? name = s.stored? name := by
  by_cases hkeeps : ∃ other, op = .act (.persist other)
  · obtain ⟨other, rfl⟩ := hkeeps
    exact stored?_persist_of_ne fun hname => h (by rw [hname])
  · exact (conserves_apply fun other hop => hkeeps ⟨other, hop⟩).stored?_eq name

theorem names_subset_apply (s : StateSpace) (op : SpaceOperation) :
    s.names ⊆ (op.apply s).2.names := by
  by_cases hkeeps : ∃ other, op = .act (.persist other)
  · obtain ⟨other, rfl⟩ := hkeeps
    show s.names ⊆ (s.persist other).2.names
    rcases persist_cases s other with ⟨r, heq⟩ | ⟨b, v, -, -, heq⟩ <;>
    · rw [heq]
      exact List.Subset.refl _
  · exact (conserves_apply fun other hop => hkeeps ⟨other, hop⟩).names

/-- A bucket stays while it is not kept, and the snapshot that the store has of it. -/
theorem Meanwhile.names_subset (h : s.Meanwhile name t) : s.names ⊆ t.names := by
  induction h with
  | start => exact List.Subset.refl _
  | operates op _ _ ih => exact List.Subset.trans ih (names_subset_apply _ op)
  | subscribes other w _ ih => exact List.Subset.trans ih (conserves_subscribe _ other w).names
  | unsubscribes label _ ih =>
    exact List.Subset.trans ih (framed_unsubscribe _ label).conserves.names
  | edits other path v _ ih => exact List.Subset.trans ih (conserves_edit _ other path v).names
  | reports events _ ih => exact ih
  | fails reading writing _ ih => exact ih

theorem Meanwhile.stored?_eq (h : s.Meanwhile name t) : t.stored? name = s.stored? name := by
  induction h with
  | start => rfl
  | @operates t op hop _ ih =>
    by_cases hkeeps : op = .act (.persist name)
    · subst hkeeps
      -- The bucket may have been kept in vain.
      cases hends : (t.persist name).1 with
      | ok => exact absurd hends (hop rfl)
      | error e =>
        show (t.persist name).2.stored? name = _
        rw [persist_of_error hends, ih]
    · rw [stored?_apply hkeeps, ih]
  | subscribes other w _ ih => rw [(conserves_subscribe _ other w).stored?_eq, ih]
  | unsubscribes label _ ih => rw [(framed_unsubscribe _ label).conserves.stored?_eq, ih]
  | edits other path v _ ih => rw [(conserves_edit _ other path v).stored?_eq, ih]
  | reports events _ ih => exact ih
  | fails reading writing _ ih => exact ih

/-! ### What is loaded -/

/-- To keep a bucket whose state is a JSON object leaves the state in the store. -/
theorem persist_of_isObject (hb : s.bucket? name = some b) (h : b.state.IsObject)
    (hwrites : s.store.failsSet = false) :
    (s.persist name).1 = .ok () ∧ (s.persist name).2.stored? name = some b.state.value ∧
      (s.persist name).2.names = s.names := by
  have hkey : b.storageKey = "store-state-" ++ name := by
    rw [Bucket.storageKey, name_of_bucket? hb]
  rw [persist_of_some hb, hwrites, h.expressed_eq]
  refine ⟨rfl, ?_, rfl⟩
  show (s.store.rows.insert b.storageKey b.state.value).get? _ = _
  rw [Entries.get?_insert, if_pos hkey]

theorem get_eq_stored? (hb : s.bucket? name = some b) (hreads : s.store.failsGet = false) :
    s.store.get b.storageKey = .ok ((s.stored? name).getD .null) := by
  rw [Bucket.storageKey, name_of_bucket? hb, KeyValueStore.get, hreads]
  rfl

/-- Where nothing is stored for a bucket, to load it changes nothing, and nobody is told. -/
theorem load_of_not_stored (hreads : s.store.failsGet = false) (h : s.stored? name = none) :
    s.load name = (.ok (), s) := by
  unfold load
  cases hb : s.bucket? name with
  | none => rfl
  | some b =>
    dsimp only
    rw [get_eq_stored? hb hreads, h]
    rfl

/-- A store that cannot be read is reported, and nothing else happens. -/
theorem load_of_failsGet (hb : s.bucket? name = some b) (hreads : s.store.failsGet = true) :
    ∃ message, s.load name =
      (.ok (), { s with reports := .log "state" .error message :: s.reports }) := by
  have hget : s.store.get b.storageKey = .error (.failure "storage offline") := by
    rw [KeyValueStore.get, hreads]
    rfl
  refine ⟨"Failed to load state for " ++ quoted name ++ ": " ++
    (Fault.failure "storage offline").message, ?_⟩
  rw [load, hb]
  dsimp only
  rw [hget]

theorem undisturbed_setState (hs : s.Quiet) (name : String) (x : Live) :
    Undisturbed (s.setState name x) := by
  unfold setState
  split
  · exact @undisturbed_of_quiet s name hs x []
  · exact undisturbed_of_quiet (quiet_withState hs name x)

/-- An operation that gives a bucket a new state, and that nothing disturbs, leaves it this
state. -/
theorem stateOf_apply_of_sets? (h : op.sets? s = some (name, x, u)) (hname : name ∈ s.names)
    (hcourse : Undisturbed (u.setState name x)) : (op.apply s).2.stateOf name = x.value := by
  obtain ⟨b, hb⟩ := mem_names_iff.mp hname
  have hub : u.bucket? name = some b := (bucket?_of_sets? h name).trans hb
  rw [setState_of_some hub] at hcourse
  rw [apply_of_sets? h, setState_of_some hub, stateOf_eq, settle, content?_settleWithin _ hcourse,
    content?_withState, if_pos rfl, content?, hub]
  rfl

/-- What is loaded is what was kept.  A bucket whose state is a JSON object, also an empty one, is
kept in the store.  Whatever is done after that, whatever the watchers do and whatever fails, as
long as the bucket is not kept again the store has what the state was; and only to keep the bucket
replaces this.  So to load it gives it a state that reads as it did then, and this stays its state
if no watcher changes it in turn.  If the store cannot be read, or if it has nothing for a bucket,
to load the bucket changes nothing, and no watcher is told. -/
theorem load_restores_snapshot (hb : s.bucket? name = some b) (hobject : b.state.IsObject)
    (hwrites : s.store.failsSet = false) (hlater : (s.persist name).2.Meanwhile name t) :
    (s.persist name).1 = .ok () ∧ t.stored? name = some b.state.value ∧
      (∀ op : SpaceOperation, (op.apply t).2.stored? name ≠ t.stored? name →
        op = .act (.persist name)) ∧
      (t.store.failsGet = false → ∃ x u, SpaceOperation.sets? t (.load name) = some (name, x, u) ∧
        x.value = b.state.value ∧
        (Undisturbed (u.setState name x) → (t.load name).2.stateOf name = b.state.value)) ∧
      (t.store.failsGet = true → ∃ message, t.load name =
        (.ok (), { t with reports := .log "state" .error message :: t.reports })) ∧
      ∀ r : StateSpace, r.store.failsGet = false → r.stored? name = none →
        r.load name = (.ok (), r) := by
  obtain ⟨hkept, hstored, hnames⟩ := persist_of_isObject hb hobject hwrites
  have hname : name ∈ t.names := by
    refine hlater.names_subset ?_
    rw [hnames]
    exact mem_names_iff.mpr ⟨b, hb⟩
  have hrow : t.stored? name = some b.state.value := hlater.stored?_eq.trans hstored
  obtain ⟨c, hc⟩ := mem_names_iff.mp hname
  refine ⟨hkept, hrow, fun op hop => ?_, fun hreads => ?_, load_of_failsGet hc,
    fun r => load_of_not_stored⟩
  · by_contra hother
    exact hop (stored?_apply hother)
  · have hget : t.store.get c.storageKey = .ok b.state.value := by
      rw [get_eq_stored? hc hreads, hrow]
      rfl
    have hsets : SpaceOperation.sets? t (.load name) = some (name, t.fresh true b.state.value) := by
      refine sets?_eq_some_iff.mpr (.load hc hget ?_)
      obtain ⟨m, hm⟩ := hobject.isMap
      rw [hm]
      nofun
    have hvalue : (Live.ofValue true t.nextMark b.state.value).1.value = b.state.value := by
      rw [Live.value_ofValue, hobject.proper.held_value]
    refine ⟨_, _, hsets, hvalue, fun hcourse => ?_⟩
    rw [← hvalue]
    exact stateOf_apply_of_sets? hsets hname hcourse

/-- A space with one bucket. -/
def single (initial : Value) : StateSpace :=
  openBucket {} "demo" initial

/-- An empty state that was kept comes back after an update that somebody watches. -/
theorem empty_state_is_restored :
    ∃ (b : Bucket) (t : StateSpace), (single (.map [])).bucket? "demo" = some b ∧
      b.state.IsObject ∧ ((single (.map [])).persist "demo").2.Meanwhile "demo" t ∧
      t.stateOf "demo" ≠ .map [] ∧ t.stored? "demo" = some (.map []) ∧
      (t.load "demo").2.stateOf "demo" = .map [] := by
  let b : Bucket := ⟨"demo", .map 1 [], .map 2 [], []⟩
  let kept := ((single (.map [])).persist "demo").2
  let watched := (SpaceOperation.apply (.observe "demo" "w" none) kept).2
  let t := (SpaceOperation.apply (.act (.update "demo" (.map [("n", .int 1)]))) watched).2
  have hb : (single (.map [])).bucket? "demo" = some b := rfl
  have hlater : kept.Meanwhile "demo" t :=
    .operates _ (by rintro ⟨⟩) (.operates (.observe "demo" "w" none) (by rintro ⟨⟩) .start)
  have hobject : b.state.IsObject :=
    ⟨.map 2 (l := []) List.nodup_nil (fun e he => by cases he), ⟨[], rfl⟩, rfl⟩
  have hsound : t.Sound :=
    (((sound_of_no_buckets rfl).openBucket.apply (.act (.persist "demo"))).apply _).apply _
  have hreads : t.store.failsGet = false := by
    have hstore : t.store = kept.store :=
      (framed_apply rfl).store.trans (conserves_subscribe kept "demo" _).store
    rw [hstore]
    rfl
  obtain ⟨-, hstored, -, hload, -⟩ := load_restores_snapshot hb hobject rfl hlater
  obtain ⟨x, u, hsets, -, hrestores⟩ := hload hreads
  have hrestored := hrestores (undisturbed_setState (quiet_of_sets? hsets hsound.quiet) "demo" x)
  have hchanged : t.stateOf "demo" ≠ .map [] := fun h =>
    absurd (congrArg Value.shown h) (by decide +kernel)
  exact ⟨b, t, hb, hobject, hlater, hchanged, hstored, hrestored⟩

/-- To load a bucket does not always give it back the state that it was kept with: a watcher that is
told may change it in turn. -/
theorem load_is_undone_in_turn :
    ¬ ∀ (s t : StateSpace) (name : String) (b : Bucket), s.bucket? name = some b →
      b.state.IsObject → (s.persist name).1 = .ok () → (s.persist name).2.Meanwhile name t →
      (t.load name).1 = .ok () → t.store.failsGet = false →
      (t.load name).2.stateOf name = b.state.value := by
  intro h
  let kept := ((single (.map [("n", .int 1)])).persist "demo").2
  -- The watcher is told when it comes, and updates the bucket when it is told once more.
  let w : Watcher :=
    { label := "w", selector := none,
      callback := .report [.later (.update (.map [("n", .int 2)]))] }
  let t := (kept.subscribe "demo" w).2
  have hobject : (Live.map 2 (Live.keyed [("n", .plain (.int 1))])).IsObject := by
    refine ⟨.map 2 (by decide) fun e he => ?_, ⟨_, rfl⟩, rfl⟩
    rw [List.mem_singleton.mp he]
    exact .plain rfl
  have hreads : t.store.failsGet = false := by
    rw [(conserves_subscribe kept "demo" w).store]
    rfl
  have hloads : (t.load "demo").1.toOption = some () := by decide +kernel
  have hload : (t.load "demo").1 = .ok () := by
    cases hends : (t.load "demo").1 with
    | ok => rfl
    | error e =>
      rw [hends] at hloads
      cases hloads
  have hstate := h (single (.map [("n", .int 1)])) t "demo"
    ⟨"demo", .map 1 (Live.keyed [("n", .plain (.int 1))]),
      .map 2 (Live.keyed [("n", .plain (.int 1))]), []⟩ rfl hobject rfl
    (.subscribes "demo" w .start) hload hreads
  exact absurd (congrArg Value.shown hstate) (by decide +kernel)

end StateSpace

end CommandShell
