import CommandShell.Proofs.Registry.Builtins
import CommandShell.Proofs.State.Durability

/-!
# Shells that start

Nobody watches the buckets of a shell that has not been set up.  Its buckets are loaded without a
fault, then, and hold what the store has for them.  With the built-in processors alone the aliases
are followed after that, which leaves the buckets durable.

## Main definitions

* `StateSpace.Unwatched`: nobody watches a bucket.

## Main results

* `Run.returns_loadBuckets`: the buckets are loaded.
* `Run.exists_returns_initializeProcessors`: a shell with the built-in processors starts.
-/

namespace CommandShell

namespace StateSpace

variable {s : StateSpace} {name : String} {b : Bucket} {x : Live}

/-- Nobody watches a bucket, and no aliases were taken from one. -/
structure Unwatched (s : StateSpace) : Prop where
  watchers : ∀ name b, s.bucket? name = some b → b.watchers = []
  aliases : s.aliases = []
  aliasWatcher : s.aliasWatcher = none

theorem unwatched_of_no_buckets (hbuckets : s.buckets = []) (haliases : s.aliases = [])
    (hwatcher : s.aliasWatcher = none) : s.Unwatched := by
  refine ⟨fun name b hb => ?_, haliases, hwatcher⟩
  rw [bucket?, hbuckets] at hb
  cases hb

theorem Unwatched.quiet (h : s.Unwatched) : s.Quiet := by
  intro name i w hw
  obtain ⟨b, hb, hwb⟩ := Option.bind_eq_some_iff.mp hw
  rw [h.watchers name b hb] at hwb
  cases hwb

theorem Unwatched.openBucket (h : s.Unwatched) (name : String) (initial : Value) :
    (s.openBucket name initial).Unwatched := by
  cases hname : s.bucket? name with
  | some b => rwa [openBucket_of_some hname]
  | none =>
    obtain ⟨next, mark, heq⟩ := exists_openBucket_eq hname initial
    rw [heq]
    refine ⟨fun other b hb => ?_, h.aliases, h.aliasWatcher⟩
    rw [bucket?_append hname rfl] at hb
    split at hb
    · obtain rfl := Option.some.inj hb
      rfl
    · exact h.watchers other b hb

/-- Where nobody watches, a state that is put into a bucket is delivered to nobody. -/
theorem put_of_unwatched (h : s.Unwatched) (hb : s.bucket? name = some b) :
    s.put name x = (.ok (), s.withState name x) := by
  have hsubscribers : b.subscribers = [] := by
    unfold Bucket.subscribers
    rw [h.watchers name b hb]
    rfl
  rw [put_of_some hb, hsubscribers, deliverTo]

theorem Unwatched.withState (h : s.Unwatched) : (s.withState name x).Unwatched := by
  refine ⟨fun other b hb => ?_, h.aliases, h.aliasWatcher⟩
  have hname : ∀ b : Bucket, ({ b with state := x } : Bucket).name = b.name := fun _ => rfl
  unfold StateSpace.withState at hb
  rw [bucket?_modifyBucket hname] at hb
  split at hb
  · obtain ⟨b', hb', rfl⟩ := Option.map_eq_some_iff.mp hb
    exact h.watchers name b' hb'
  · exact h.watchers other b hb

/-- Where nobody watches, a bucket is loaded without a fault. -/
theorem load_of_unwatched (h : s.Unwatched) (name : String) :
    (s.load name).1 = .ok () ∧ (s.load name).2.Unwatched ∧ (s.load name).2.store = s.store := by
  rcases load_cases h.quiet name with ⟨reports, heq⟩ | ⟨b, v, next, hb, -, -, heq⟩
  · rw [heq]
    exact ⟨rfl, ⟨h.watchers, h.aliases, h.aliasWatcher⟩, rfl⟩
  · have hmarked : ({ s with nextMark := next } : StateSpace).Unwatched :=
      ⟨h.watchers, h.aliases, h.aliasWatcher⟩
    rw [heq, put_of_unwatched hmarked hb]
    exact ⟨rfl, hmarked.withState, rfl⟩

end StateSpace

namespace Run

variable {s t : Session} {p : ShellProcessor}

/-- The bucket of a root is loaded without a fault while nobody watches. -/
theorem returns_loadBucket (h : s.space.Unwatched) (loaded : List String) (p : ShellProcessor) :
    ∃ loaded' t, Returns (loadBucket loaded p) s loaded' t ∧ t.space.Unwatched ∧
      t.space.store = s.space.store ∧ t.pinned = s.pinned := by
  -- The bucket is opened first, which nobody can watch.
  let u := (buckets (SpaceOperation.apply (.act (.opening (s.registry.bucketOf p).1
    (s.registry.bucketOf p).2))) s).2
  have hu : u.space.Unwatched := by
    have hopened := h.openBucket (s.registry.bucketOf p).1 (s.registry.bucketOf p).2
    exact ⟨hopened.watchers, hopened.aliases, hopened.aliasWatcher⟩
  have hstore : u.space.store = s.space.store := StateSpace.store_openBucket
  by_cases hloaded : (s.registry.bucketOf p).1 ∈ loaded
  · have hreturns := (returns_loadBucket_iff rfl).mpr (Or.inl ⟨hloaded, rfl, rfl⟩)
    exact ⟨loaded, u, hreturns, hu, hstore, rfl⟩
  · obtain ⟨hok, hunwatched, hkept⟩ := StateSpace.load_of_unwatched hu (s.registry.bucketOf p).1
    have hload : Returns (buckets (·.load (s.registry.bucketOf p).1)) u ()
        (buckets (·.load (s.registry.bucketOf p).1) u).2 := by
      unfold Returns
      rw [buckets_apply, hok]
      rfl
    refine ⟨(s.registry.bucketOf p).1 :: loaded, (buckets (·.load (s.registry.bucketOf p).1) u).2,
      (returns_loadBucket_iff rfl).mpr (Or.inr ⟨hloaded, rfl, hload⟩), ?_⟩
    rw [buckets_apply]
    exact ⟨⟨hunwatched.watchers, hunwatched.aliases, hunwatched.aliasWatcher⟩,
      hkept.trans hstore, rfl⟩

theorem exists_returns_foldlM_loadBucket (h : s.space.Unwatched) (ps : List ShellProcessor)
    (loaded : List String) :
    ∃ loaded' t, Returns (ps.foldlM loadBucket loaded) s loaded' t ∧ t.space.Unwatched ∧
      t.space.store = s.space.store ∧ t.pinned = s.pinned := by
  induction ps generalizing loaded s with
  | nil => exact ⟨loaded, s, returns_pure_iff.mpr ⟨rfl, rfl⟩, h, rfl, rfl⟩
  | cons p ps ih =>
    obtain ⟨loaded₁, u, hfirst, hu, hstore, hpinned⟩ := returns_loadBucket h loaded p
    obtain ⟨loaded₂, t, hrest, ht, hstore', hpinned'⟩ := ih hu loaded₁
    rw [List.foldlM_cons]
    exact ⟨loaded₂, t, returns_bind_iff.mpr ⟨loaded₁, u, hfirst, hrest⟩, ht, hstore'.trans hstore,
      hpinned'.trans hpinned⟩

/-- While nobody watches, the buckets of all roots are loaded without a fault. -/
theorem returns_loadBuckets (h : s.space.Unwatched) :
    ∃ t, Returns loadBuckets s () t ∧ t.space.Unwatched ∧ t.space.store = s.space.store ∧
      t.pinned = s.pinned := by
  obtain ⟨loaded, t, hfold, ht⟩ := exists_returns_foldlM_loadBucket h s.registry.processors []
  have hdiscard : Returns (do let _ ← s.registry.processors.foldlM loadBucket []) s () t :=
    returns_bind_iff.mpr ⟨loaded, t, hfold, returns_pure_iff.mpr ⟨rfl, rfl⟩⟩
  exact ⟨t, hdiscard, ht⟩

/-- To set up a processor that is to follow the aliases opens its bucket and has them followed, and
whatever fails is reported. -/
theorem returns_setUp_of_followAliases (h : p.decl.setUp = some .followAliases) (s : Session) :
    ∃ t, Returns (setUp p) s () t ∧ t.registry = s.registry ∧ t.pinned = s.pinned ∧
      t.space = s.space.after [.act (.opening (s.registry.bucketOf p).1 (s.registry.bucketOf p).2),
        .follow (s.registry.bucketOf p).1] := by
  obtain ⟨c, u, hopen, hbucket, hspace, hregistry, hpinned⟩ := openScope_apply p s
  have hfollow : (do setUpBy (← openScope p) .followAliases : Run Unit) s =
      buckets (·.followAliases (s.registry.bucketOf p).1) u := by
    rw [bind_apply, hopen, ← hbucket]
    rfl
  have happly : u.space.after [.follow (s.registry.bucketOf p).1] =
      s.space.after [.act (.opening (s.registry.bucketOf p).1 (s.registry.bucketOf p).2),
        .follow (s.registry.bucketOf p).1] := by
    rw [hspace, ← StateSpace.after_append]
    rfl
  rw [← happly]
  unfold setUp Returns
  rw [h]
  dsimp only
  rw [recover_apply, hfollow, buckets_apply]
  cases (u.space.followAliases (s.registry.bucketOf p).1).1 with
  | ok => exact ⟨_, rfl, hregistry, hpinned, rfl⟩
  | error e => exact ⟨_, rfl, hregistry, hpinned, rfl⟩

theorem bucketOf_eq_of_name {p : ShellProcessor} (h : p ∈ Builtin.processors)
    (hname : (Builtin.registry.bucketOf p).1 = "aliases") :
    (Builtin.registry.bucketOf p).2 = Builtin.aliasBucket.initial := by
  unfold Builtin.processors at h
  simp only [List.mem_cons, List.not_mem_nil, or_false] at h
  rcases h with rfl | rfl | rfl | rfl
  · exact absurd (show "help" = "aliases" from hname) (by decide)
  · rfl
  · rfl
  · exact absurd (show "echo" = "aliases" from hname) (by decide)

/-- Once the buckets of the built-in processors are loaded, that of the aliases holds what the store
has for it. -/
theorem exists_bucket_of_returns_loadBuckets (hregistry : s.registry = Builtin.registry)
    (hbuckets : s.space.buckets = []) (hreads : s.space.store.failsGet = false)
    (h : Returns loadBuckets s () t) :
    t.registry = s.registry ∧ t.space.Sound ∧ ∃ b, t.space.bucket? "aliases" = some b ∧
      b.state.value = t.space.kept "aliases" Builtin.aliasBucket.initial := by
  obtain ⟨ops, hworks, hkept, hops, hloaded⟩ := works_loadBuckets h
  rw [hregistry, Builtin.processors_registry] at hops hloaded
  have hsound := StateSpace.sound_after (StateSpace.sound_of_no_buckets hbuckets) ops
  rw [← hworks.space_eq] at hsound
  refine ⟨hkept, hsound, ?_⟩
  obtain ⟨v, hv⟩ : ∃ v, s.space.snapshot "aliases" = .ok v := by
    unfold StateSpace.snapshot KeyValueStore.get
    rw [hreads]
    exact ⟨_, rfl⟩
  -- Only openings and loads have been done, and these spare what is in the bucket.
  have hspares : ∀ op ∈ ops, op.Spares "aliases" := by
    intro op hop
    obtain ⟨p, -, rfl | rfl⟩ := hops op hop <;> trivial
  have halias : SpaceOperation.Loaded "aliases" ops :=
    hloaded ⟨2, Builtin.defineAliases, [⟨1, Builtin.listAliases, []⟩]⟩
      (List.mem_cons_of_mem _ List.mem_cons_self)
  obtain ⟨hsnapshot, hheld⟩ := StateSpace.content?_after_of_spares hbuckets hv hspares
  rw [← hworks.space_eq] at hsnapshot hheld
  rcases hheld with ⟨-, hnot⟩ | ⟨c, hc, hstate⟩
  · obtain ⟨initial, hinitial⟩ := halias.exists_opening
    exact absurd hinitial (hnot initial)
  · obtain ⟨b, hb, rfl⟩ := Option.map_eq_some_iff.mp hc
    refine ⟨b, hb, ?_⟩
    rcases hstate with ⟨-, hnull, hvalue⟩ | ⟨hnull, initial, hinitial, hvalue⟩
    · rw [StateSpace.kept_of_snapshot hsnapshot hnull]
      exact hvalue
    · -- Without a snapshot the bucket holds what its processor declares.
      obtain ⟨p, hp, heq | heq⟩ := hops _ hinitial
      · obtain ⟨hname, rfl⟩ := BucketOperation.opening.inj (SpaceOperation.act.inj heq)
        unfold StateSpace.kept
        rw [hsnapshot, hnull halias, ← bucketOf_eq_of_name hp hname.symm]
        exact hvalue
      · cases heq

/-- A shell with the built-in processors starts without a fault over a store that does not fail, and
its aliases are durable then. -/
theorem exists_returns_initializeProcessors (hregistry : s.registry = Builtin.registry)
    (hspace : s.space.Unwatched) (hbuckets : s.space.buckets = [])
    (hreads : s.space.store.failsGet = false) (hwrites : s.space.store.failsSet = false)
    (hexpressible :
      (s.space.kept "aliases" Builtin.aliasBucket.initial).isExpressible = true) :
    ∃ t, Returns initializeProcessors s () t ∧ t.registry = s.registry ∧ t.pinned = s.pinned ∧
      t.space.store = s.space.store ∧
      t.space.Durable "aliases" Builtin.aliasBucket.initial := by
  obtain ⟨u, hload, hunwatched, hstore, hpinned⟩ := returns_loadBuckets hspace
  obtain ⟨hkept, hsound, b, hb, hvalue⟩ :=
    exists_bucket_of_returns_loadBuckets hregistry hbuckets hreads hload
  rw [← StateSpace.kept_of_store hstore, ← hvalue] at hexpressible
  obtain ⟨t, hsetUp, htregistry, htpinned, htspace⟩ := returns_setUp_of_followAliases
    (p := ⟨2, Builtin.defineAliases, [⟨1, Builtin.listAliases, []⟩]⟩) rfl u
  rw [hkept, hregistry] at htspace
  have hall : Returns setUpAll u () t := by
    unfold setUpAll
    refine returns_bind_iff.mpr ⟨u, u, rfl, ?_⟩
    rw [hkept, hregistry]
    refine returns_bind_iff.mpr ⟨(), u, rfl, returns_bind_iff.mpr ⟨(), t, hsetUp, ?_⟩⟩
    rfl
  -- The bucket is open already when it is followed.
  have hfollowed : t.space = { (({ u.space with reports := [] } : StateSpace).followAliases
      "aliases").2 with reports := [] } := by
    rw [htspace]
    show { (({ u.space.openBucket "aliases" Builtin.aliasBucket.initial with
      reports := [] } : StateSpace).followAliases "aliases").2 with reports := [] } = _
    rw [StateSpace.openBucket_of_some hb]
  obtain ⟨hdurable, hstore'⟩ := StateSpace.durable_followAliases
    (s := { u.space with reports := [] })
    ⟨hsound.quiet, hsound.proper⟩ (by rw [← hreads, ← hstore]) (by rw [← hwrites, ← hstore]) hb
    (hunwatched.watchers "aliases" b hb) hunwatched.aliases hunwatched.aliasWatcher hvalue
    hexpressible
  refine ⟨t, returns_bind_iff.mpr ⟨(), u, hload, hall⟩, htregistry.trans hkept,
    htpinned.trans hpinned, ?_, ?_⟩
  · rw [hfollowed]
    exact hstore'.trans hstore
  · rw [hfollowed]
    exact hdurable.of_reports

end Run

end CommandShell
