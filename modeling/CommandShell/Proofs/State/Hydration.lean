import CommandShell.Proofs.State.Works
import Mathlib.Data.List.Induction

/-!
# What a handler finds in its bucket

The store keeps a snapshot for a bucket.  A bucket that is opened starts with the state that its
processor declares; only when the processors are set up are the buckets of the roots loaded, which
puts the snapshots into them.  A processor that comes later, or that stands behind another one at
that time, finds its declared state instead, and when it keeps its bucket the snapshot is gone.

## Main definitions

* `StateSpace.snapshot`: what the store keeps for a bucket.
* `SpaceOperation.Spares`: an operation changes neither a bucket nor its snapshot.
* `StateSpace.Untouched`: what a bucket holds that nothing has changed.

## Main results

* `Run.handler_finds_what_was_loaded`: a handler finds the snapshot in its bucket where that was
  loaded, and nowhere else.
* `Run.late_handler_overwrites_snapshot`: a snapshot that is lost.
-/

namespace CommandShell

/-- What the store keeps for the bucket with a name; the absent value stands for nothing. -/
def StateSpace.snapshot (s : StateSpace) (name : String) : Except Fault Value :=
  s.store.get ("store-state-" ++ name)

/-- An operation changes neither the bucket with a name, except by opening and loading it, nor its
snapshot. -/
def SpaceOperation.Spares (name : String) : SpaceOperation → Prop
  | act (.update other _) => other ≠ name
  | act (.reset other) => other ≠ name
  | act (.persist other) => other ≠ name
  | _ => True

/-- What a bucket starts with that is opened with a declared state. -/
def Value.declared (initial : Value) : Value :=
  (initial.nonEmpty?.getD (.map [])).held

namespace StateSpace

variable {s t : StateSpace} {name : String} {op : SpaceOperation} {ops : List SpaceOperation}
  {v : Value}

/-! ### Operations that spare a bucket -/

theorem storageKey_inj {name other : String}
    (h : "store-state-" ++ name = "store-state-" ++ other) :
    name = other := by
  have hlist := congrArg String.toList h
  rw [String.toList_append, String.toList_append] at hlist
  exact String.toList_inj.mp (List.append_cancel_left hlist)

/-- Of the operations that spare a bucket, only to open and to load it may change what it holds. -/
theorem content?_apply_of_spares (hs : s.Quiet) (h : op.Spares name)
    (hopening : ∀ initial, op ≠ .act (.opening name initial)) (hload : op ≠ .load name) :
    (op.apply s).2.content? name = s.content? name := by
  have heffect := effect_apply hs op
  generalize (op.apply s).2 = t at heffect ⊢
  -- A bucket changes when a state is put into it, and whoever watches changes none.
  cases heffect with
  | opens other initial =>
    refine content?_openBucket_of_ne ?_
    rintro rfl
    exact hopening initial rfl
  | @puts _ other x next hop _ =>
    rw [(puts_put_of_mark hs _ _ _).content, if_neg]
    rintro rfl
    cases op with
    | act op =>
      cases op with
      | update | reset => exact h (Option.some.inj hop)
      | _ => cases hop
    | load => exact hload (congrArg _ (Option.some.inj hop))
    | _ => cases hop
  | follows other watcher =>
    show (s.released.watch other .follower).2.content? name = _
    rw [content?_watch (quiet_released hs) (Or.inl rfl), content?_released]
  | observes other label selector handles =>
    show (s.watch _ _).2.content? name = _
    rw [content?_watch hs (Or.inr rfl)]
  | _ => rfl

/-- Operations that spare a bucket leave its snapshot as it is. -/
theorem snapshot_apply_of_spares (hs : s.Quiet) (h : op.Spares name) :
    (op.apply s).2.snapshot name = s.snapshot name := by
  have heffect := effect_apply hs op
  generalize (op.apply s).2 = t at heffect ⊢
  unfold snapshot
  cases heffect with
  | opens other initial => rw [store_openBucket]
  | puts next _ _ => rw [(puts_put_of_mark hs _ _ _).store]
  | @keeps other b _ hb _ =>
    have hkey : b.storageKey ≠ "store-state-" ++ name := by
      intro hkey
      unfold Bucket.storageKey at hkey
      rw [name_of_bucket? hb] at hkey
      exact h (storageKey_inj hkey)
    unfold KeyValueStore.get
    rw [Entries.get?_insert, if_neg hkey]
  | follows other watcher =>
    show (s.released.watch other .follower).2.store.get _ = _
    rw [store_watch (quiet_released hs) (Or.inl rfl), store_released]
  | observes other label selector handles =>
    show (s.watch _ _).2.store.get _ = _
    rw [store_watch hs (Or.inr rfl)]
  | _ => rfl

/-! ### Buckets that nothing has changed yet -/

theorem loaded_append_singleton_iff (hload : op ≠ .load name) :
    SpaceOperation.Loaded name (ops ++ [op]) ↔ SpaceOperation.Loaded name ops := by
  unfold SpaceOperation.Loaded
  rw [SpaceOperation.afterOpening_append_singleton_iff, or_iff_left fun h => hload h.1]

/-- What the bucket with a name holds that nothing has changed during `ops`: it is not there if
nobody opened it; if it was loaded it holds the snapshot `v`, and what somebody declared if not, or
if there is no snapshot. -/
def Untouched (name : String) (v : Value) (ops : List SpaceOperation)
    (content : Option (Live × Live)) : Prop :=
  content = none ∧ (∀ initial, .act (.opening name initial) ∉ ops) ∨
    ∃ c, content = some c ∧
      (SpaceOperation.Loaded name ops ∧ v ≠ .null ∧ c.2.value = v.held ∨
        (SpaceOperation.Loaded name ops → v = .null) ∧
          ∃ initial, .act (.opening name initial) ∈ ops ∧ c.2.value = initial.declared)

theorem Untouched.load (hs : s.Quiet) (hsnapshot : s.snapshot name = .ok v)
    (h : Untouched name v ops (s.content? name)) :
    Untouched name v (ops ++ [.load name]) ((s.load name).2.content? name) := by
  rcases h with ⟨hnone, hnot⟩ | ⟨c, hc, hstate⟩
  · -- There is no bucket that could be loaded.
    have hsame : s.load name = (.ok (), s) := by
      rw [StateSpace.load, bucket?_eq_none_iff.mpr hnone]
    refine Or.inl ⟨?_, fun initial h => ?_⟩
    · rw [hsame, hnone]
    · rcases List.mem_append.mp h with h | h
      · exact hnot initial h
      · cases List.mem_singleton.mp h
  · obtain ⟨b, hb, -⟩ := Option.map_eq_some_iff.mp hc
    have hget : s.store.get b.storageKey = .ok v := by
      unfold Bucket.storageKey
      rw [name_of_bucket? hb]
      exact hsnapshot
    by_cases hv : v = .null
    · -- The store has nothing that could be loaded.
      have hsame : s.load name = (.ok (), s) := by
        rw [StateSpace.load, hb]
        dsimp only
        rw [hget, hv]
      obtain ⟨-, initial, h, hvalue⟩ := hstate.resolve_left fun h => h.2.1 hv
      refine Or.inr ⟨c, ?_, Or.inr ⟨fun _ => hv, initial, List.mem_append_left _ h, hvalue⟩⟩
      rw [hsame, hc]
    · -- The snapshot takes the place of what the bucket held.
      have hcontent := (puts_put_of_mark hs (Live.ofValue true s.nextMark v).2 name
        (Live.ofValue true s.nextMark v).1).content name
      rw [← load_eq hs hb hget hv, if_pos rfl, hc] at hcontent
      have hopened : ∃ initial, .act (.opening name initial) ∈ ops :=
        hstate.elim (fun h => h.1.exists_opening) fun h => h.2.imp fun _ h => h.1
      refine Or.inr ⟨_, hcontent, Or.inl ⟨?_, hv, Live.value_ofValue _ _⟩⟩
      exact SpaceOperation.afterOpening_append_singleton_iff.mpr (Or.inr ⟨rfl, hopened⟩)

/-- An operation that does not load a bucket and leaves it as it is leaves it untouched, unless it
opens it for the first time. -/
theorem Untouched.of_eq {content : Option (Live × Live)} (h : Untouched name v ops content)
    (hload : op ≠ .load name)
    (hopening : content = none → ∀ initial, op ≠ .act (.opening name initial)) :
    Untouched name v (ops ++ [op]) content := by
  unfold Untouched
  rw [loaded_append_singleton_iff hload]
  rcases h with ⟨hnone, hnot⟩ | ⟨c, hc, hstate⟩
  · refine Or.inl ⟨hnone, fun initial h => ?_⟩
    rcases List.mem_append.mp h with h | h
    · exact hnot initial h
    · exact hopening hnone initial (List.mem_singleton.mp h).symm
  · refine Or.inr ⟨c, hc, hstate.imp_right ?_⟩
    rintro ⟨hnull, initial, h, hvalue⟩
    exact ⟨hnull, initial, List.mem_append_left _ h, hvalue⟩

theorem Untouched.openBucket (h : Untouched name v ops (s.content? name)) (initial : Value) :
    Untouched name v (ops ++ [.act (.opening name initial)])
      ((s.openBucket name initial).content? name) := by
  have hload : SpaceOperation.act (.opening name initial) ≠ .load name := nofun
  cases hc : s.content? name with
  | some c =>
    -- Somebody was faster.
    rw [hc] at h
    rw [content?_openBucket_of_some hc]
    exact h.of_eq hload nofun
  | none =>
    obtain ⟨mark, hcontent⟩ := exists_content?_openBucket hc initial
    have hfirst : (Live.copy mark (s.firstState initial)).1.value = initial.declared := by
      rw [Live.value_copy]
      exact Live.value_ofValue _ _
    refine Or.inr ⟨_, hcontent, Or.inr ⟨fun hloaded => ?_, initial, ?_, hfirst⟩⟩
    · rw [loaded_append_singleton_iff hload] at hloaded
      obtain ⟨initial', hopened⟩ := hloaded.exists_opening
      rcases h with ⟨-, hnot⟩ | ⟨c, hsome, -⟩
      · exact absurd hopened (hnot initial')
      · cases hc.symm.trans hsome
    · exact List.mem_append_right _ List.mem_cons_self

/-- What a bucket holds that nothing has changed yet since there were no buckets. -/
theorem content?_after_of_spares (hs : s.buckets = []) (hrow : s.snapshot name = .ok v)
    (hspares : ∀ op ∈ ops, op.Spares name) :
    (s.after ops).snapshot name = .ok v ∧
      ((s.after ops).content? name = none ∧ (∀ initial, .act (.opening name initial) ∉ ops) ∨
        ∃ c, (s.after ops).content? name = some c ∧
          (SpaceOperation.Loaded name ops ∧ v ≠ .null ∧ c.2.value = v.held ∨
            (SpaceOperation.Loaded name ops → v = .null) ∧
              ∃ initial, .act (.opening name initial) ∈ ops ∧ c.2.value = initial.declared)) := by
  show (s.after ops).snapshot name = .ok v ∧ Untouched name v ops ((s.after ops).content? name)
  induction ops using List.reverseRecOn with
  | nil =>
    have hnone : s.content? name = none := by
      unfold content? bucket?
      rw [hs]
      rfl
    exact ⟨hrow, Or.inl ⟨hnone, fun _ h => by cases h⟩⟩
  | append_singleton ops op ih =>
    obtain ⟨hsnapshot, hheld⟩ := ih fun op h => hspares op (List.mem_append_left _ h)
    have hop := hspares op (List.mem_append_right _ List.mem_cons_self)
    have hquiet := (sound_after (sound_of_no_buckets hs) ops).quiet
    rw [after_append, after_singleton]
    generalize s.after ops = t at hsnapshot hheld hquiet
    refine ⟨(snapshot_apply_of_spares hquiet hop).trans hsnapshot, ?_⟩
    show Untouched name v (ops ++ [op]) ((op.apply t).2.content? name)
    -- Only to load the bucket and to open it may change what it holds.
    by_cases hload : op = .load name
    · subst hload
      exact hheld.load hquiet hsnapshot
    · by_cases hopening : ∃ initial, op = .act (.opening name initial)
      · obtain ⟨initial, rfl⟩ := hopening
        exact hheld.openBucket initial
      · have hne := not_exists.mp hopening
        rw [content?_apply_of_spares hquiet hop hne hload]
        exact hheld.of_eq hload fun _ => hne

/-- A bucket that is kept in the store replaces its snapshot, whatever that was. -/
theorem snapshot_of_persist {c : Live × Live} (hs : s.Sound) (hc : s.content? name = some c)
    (hget : s.snapshot name = .ok v) (h : (s.persist name).1 = .ok ()) :
    (s.persist name).2.snapshot name = .ok c.2.value := by
  obtain ⟨b, hb, rfl⟩ := Option.map_eq_some_iff.mp hc
  have hkey : b.storageKey = "store-state-" ++ name := by
    unfold Bucket.storageKey
    rw [name_of_bucket? hb]
  rw [persist_of_some hb, (hs.proper name _ hc).2.expressed_eq] at h ⊢
  cases hwrites : s.store.failsSet with
  | true =>
    rw [hwrites] at h
    cases h
  | false =>
    cases hexpressible : b.state.value.isExpressible with
    | false =>
      rw [hwrites, hexpressible] at h
      cases h
    | true =>
      unfold snapshot KeyValueStore.get at hget ⊢
      -- Reading has not failed before, and does not fail now.
      show (if s.store.failsGet = true then _ else
        Except.ok (((s.store.rows.insert b.storageKey b.state.value).get?
          ("store-state-" ++ name)).getD .null)) = _
      split at hget
      · cases hget
      · rename_i hreads
        rw [if_neg hreads, Entries.get?_insert, if_pos hkey]
        rfl

end StateSpace

/-! ### Handlers -/

namespace Run

variable {s₀ s u : Session} {ops : List SpaceOperation} {p : ShellProcessor} {c : Scope} {v : Value}

/-- To set up the processors loads the buckets of all that are roots, and no others. -/
theorem loads_of_initializeProcessors {t t' : Session}
    (h : Returns initializeProcessors t () t') : ∃ more, t.Works more t' ∧
      ∀ name, (∃ q ∈ t.registry.processors, (t.registry.bucketOf q).1 = name) ↔
        SpaceOperation.Loaded name more := by
  obtain ⟨more, followed, hworks, hall, -, -, honly⟩ := works_initializeProcessors h
  refine ⟨more, hworks, fun name => ⟨?_, ?_⟩⟩
  · rintro ⟨q, hq, rfl⟩
    exact hall q hq
  · rintro ⟨initial, h⟩
    rcases honly _ (h.subset (List.mem_cons_of_mem _ List.mem_cons_self)) with
      ⟨act, hact⟩ | ⟨q, hq, hload⟩ | ⟨n, -, hfollow⟩
    · cases hact
    · exact ⟨q, hq, (SpaceOperation.load.inj hload).symm⟩
    · cases hfollow

/-- What a handler finds in its bucket.  A shell that started without buckets has done `ops`, none
of which has changed the bucket or its snapshot, and opens the scope of a handler.  If the bucket
was loaded, it holds the snapshot; if not, it holds what the processor declares that opened it, and
the snapshot is gone once the handler keeps its bucket.  Only to set up the processors loads
buckets, and these are the buckets of all processors that are roots at that moment. -/
theorem handler_finds_what_was_loaded (hstart : s₀.space.buckets = []) (hworks : s₀.Works ops s)
    (hopen : Returns (openScope p) s c u) (hspares : ∀ op ∈ ops, op.Spares c.bucket)
    (hrow : s₀.space.snapshot c.bucket = .ok v) (hv : v ≠ .null) :
    (SpaceOperation.Loaded c.bucket ops → u.space.stateOf c.bucket = v.held) ∧
      (¬ SpaceOperation.Loaded c.bucket ops →
        ∃ initial, (.act (.opening c.bucket initial) ∈ ops ∨
            (c.bucket, initial) = s.registry.bucketOf p) ∧
          u.space.stateOf c.bucket = initial.declared) ∧
      u.space.snapshot c.bucket = .ok v ∧
      (∀ u', Returns (buckets (·.persist c.bucket)) u () u' →
        u'.space.snapshot c.bucket = .ok (u.space.stateOf c.bucket)) ∧
      (∀ t t' : Session, t.Reaches t' → ∃ acts : List BucketOperation, t.Works (acts.map .act) t') ∧
      ∀ t t' : Session, Returns initializeProcessors t () t' → ∃ more, t.Works more t' ∧
        ∀ name, (∃ q ∈ t.registry.processors, (t.registry.bucketOf q).1 = name) ↔
          SpaceOperation.Loaded name more := by
  obtain ⟨c', u', hopen', hbucket, hspace, -⟩ := openScope_apply p s
  obtain ⟨rfl, rfl⟩ := hopen.unique (show Returns _ _ _ _ from hopen')
  rw [← hbucket, hworks.space_eq, ← StateSpace.after_append] at hspace
  -- The scope opens the bucket, and spares it like all that was done before.
  have hall : ∀ op ∈ ops ++ [.act (.opening c.bucket (s.registry.bucketOf p).2)],
      op.Spares c.bucket := by
    intro op hop
    rcases List.mem_append.mp hop with hop | hop
    · exact hspares op hop
    · rw [List.mem_singleton.mp hop]
      trivial
  have hloaded : SpaceOperation.Loaded c.bucket
      (ops ++ [.act (.opening c.bucket (s.registry.bucketOf p).2)]) ↔
        SpaceOperation.Loaded c.bucket ops :=
    StateSpace.loaded_append_singleton_iff nofun
  obtain ⟨hsnapshot, hheld⟩ := StateSpace.content?_after_of_spares hstart hrow hall
  have hsound := StateSpace.sound_after (StateSpace.sound_of_no_buckets hstart)
    (ops ++ [.act (.opening c.bucket (s.registry.bucketOf p).2)])
  rw [← hspace] at hsnapshot hheld hsound
  rw [hloaded] at hheld
  rcases hheld with ⟨-, hnot⟩ | ⟨content, hcontent, hstate⟩
  · exact absurd (List.mem_append_right _ List.mem_cons_self) (hnot _)
  · have hstateOf : u.space.stateOf c.bucket = content.2.value := by
      rw [StateSpace.stateOf_eq, hcontent]
      rfl
    rw [hstateOf]
    refine ⟨fun h => ?_, fun h => ?_, hsnapshot, fun u' hpersist => ?_,
      fun t t' => Session.exists_works_of_reaches, fun t t' hinit => ?_⟩
    · exact hstate.elim (fun hl => hl.2.2) fun hnot => absurd (hnot.1 h) hv
    · obtain ⟨-, initial, hinitial, hvalue⟩ := hstate.resolve_left fun hl => h hl.1
      refine ⟨initial, ?_, hvalue⟩
      rcases List.mem_append.mp hinitial with hinitial | hinitial
      · exact Or.inl hinitial
      · cases List.mem_singleton.mp hinitial
        exact Or.inr (by rw [hbucket])
    · obtain ⟨w, hok, rfl⟩ := returns_buckets_iff.mp hpersist
      have hkept := StateSpace.snapshot_of_persist hsound hcontent hsnapshot
        (congrArg Prod.fst hok)
      rwa [hok] at hkept
    · exact loads_of_initializeProcessors hinit

/-- A handler whose bucket was loaded finds the snapshot. -/
theorem loaded_handler_finds_snapshot :
    ∃ (s u : Session) (c : Scope),
      Returns (openScope (.scripted "late" [] [])) s c u ∧ c.bucket = "late" ∧
      u.space.stateOf c.bucket = (Value.map [("n", .int 7)]).held := by
  let store : KeyValueStore := { rows := [("store-state-late", .map [("n", .int 7)])] }
  let shell : Session := { Session.offering [] with space := { store := store } }
  let opened := (buckets (SpaceOperation.apply (.act (.opening "late" .null))) shell).2
  let s := (buckets (SpaceOperation.apply (.load "late")) opened).2
  have hworks : shell.Works [.act (.opening "late" .null), .load "late"] s :=
    (Session.Works.start.operates (.act (.opening "late" .null))).operates (.load "late")
  obtain ⟨c, u, hopen, hbucket, -⟩ := openScope_apply (.scripted "late" [] []) s
  have hname : c.bucket = "late" := hbucket.trans (by decide +kernel)
  refine ⟨s, u, c, hopen, hname, ?_⟩
  refine (handler_finds_what_was_loaded rfl hworks hopen ?_ ?_ ?_).1 ?_
  · intro op hop
    rcases List.mem_pair.mp hop with rfl | rfl <;> trivial
  · rw [hname]
    rfl
  · intro h
    cases h
  · rw [hname]
    exact ⟨.null, List.Sublist.refl _⟩

/-- A snapshot that is lost: a processor that is registered after the others were set up finds what
it declares, and replaces the snapshot when it keeps its bucket. -/
theorem late_handler_overwrites_snapshot :
    ∃ (shell ready u u' : Session) (late p : ShellProcessor) (c : Scope) (v : Value),
      shell.space.buckets = [] ∧ Returns initializeProcessors shell () ready ∧
      p ∈ (register late ready).2.registry.processors ∧
      Returns (openScope p) (register late ready).2 c u ∧
      shell.space.snapshot c.bucket = .ok v ∧ u.space.snapshot c.bucket = .ok v ∧ v ≠ .null ∧
      u.space.stateOf c.bucket ≠ v.held ∧
      Returns (buckets (·.persist c.bucket)) u () u' ∧ u'.space.snapshot c.bucket ≠ .ok v := by
  let v : Value := .map [("n", .int 7)]
  let shell : Session :=
    { Session.offering [] with space := { store := { rows := [("store-state-late", v)] } } }
  let late : ShellProcessor := .scripted "late" [.increment "n", .persist] []
  let ready := (initializeProcessors shell).2
  let s := (register late ready).2
  let p := s.registry.processors.head?.getD late
  have hroot : p ∈ s.registry.processors := by
    have hsome : s.registry.processors.head?.isSome = true := by decide +kernel
    obtain ⟨q, hq⟩ := Option.isSome_iff_exists.mp hsome
    have hp : p = q := congrArg (Option.getD · late) hq
    exact hp ▸ List.mem_of_mem_head? hq
  let u := (openScope p s).2
  let u' := (buckets (·.persist "late") u).2
  obtain ⟨⟨⟩, hready, -⟩ := exists_returns_of_map initializeProcessors shell (fun _ => ()) ()
    (by decide +kernel)
  obtain ⟨c, hopen, hname⟩ := exists_returns_of_map (openScope p) s (·.bucket) "late"
    (by decide +kernel)
  obtain ⟨⟨⟩, hkept, -⟩ := exists_returns_of_map (buckets (·.persist "late")) u (fun _ => ()) ()
    (by decide +kernel)
  have hfound : (u.space.stateOf "late").truthy = false := by decide +kernel
  have hlost : (u'.space.snapshot "late").toOption.map Value.truthy = some false := by
    decide +kernel
  refine ⟨shell, ready, u, u', late, p, c, v, rfl, hready, hroot, hopen, ?_⟩
  rw [hname]
  have hsome : v ≠ .null := fun h : Value.map _ = .null => by cases h
  refine ⟨rfl, rfl, hsome, fun h => ?_, hkept, fun h => ?_⟩
  · rw [h] at hfound
    cases hfound
  · rw [h] at hlost
    cases hlost

end Run

end CommandShell
