import CommandShell.Proofs.Line.Nesting
import CommandShell.Proofs.Processor.Preorder
import CommandShell.Proofs.Registry.Builtins
import CommandShell.Proofs.Registry.Forest
import CommandShell.Proofs.State.Loading
import CommandShell.Proofs.Told
import CommandShell.Shell.Host

/-!
# Booting

Before its first line a shell loads the buckets of all roots, and then sets up every processor of
their trees.  Each bucket is loaded once, however many roots declare it.  A processor that fails to
be set up is reported, and the others are set up all the same.

## Main definitions

* `SetUpCall`, `Session.SetsUp`: processors that are set up one after another.
* `VisitsTrees`: these are all of some trees, in pre-order, each with the bucket of its root.

## Main results

* `Run.exists_setsUp_of_settles`: the processors are set up.
* `Run.executed_of_ready`: a shell that was set up is not set up again.
* `Run.exists_forest_of_returns_openShell`: a shell opens with a forest of distinct processors.
* `Run.boot_reaches_whole_forest`: all of this for a shell that executes lines.
-/

namespace CommandShell

open Run

/-! ### Setting up -/

/-- A processor that is set up: in which scope, and with which fault if it fails. -/
structure SetUpCall where
  /-- The processor. -/
  processor : ShellProcessor
  /-- The scope, whose bucket is that of the processor. -/
  scope : Scope
  /-- The fault. -/
  fault? : Option Fault

namespace SetUpCall

/-- How the call ends. -/
def ending (k : SetUpCall) : Except Stop Unit :=
  match k.fault? with
  | none => .ok ()
  | some f => .error (.fault f)

/-- What is told of the call: nothing unless it fails. -/
def reports (k : SetUpCall) : List Event :=
  match k.fault? with
  | none => []
  | some f =>
    [.log "executor" .error
        ("Error initializing processor " ++ quoted k.processor.command ++ ": " ++ f.message),
      .print (Style.error.mark ("Error initializing processor " ++
        escapeMarkup k.processor.command ++ ": " ++ escapeMarkup f.message))]

end SetUpCall

/-- Some processors are set up one after another; each fault is reported, and the next one is set up
after that. -/
inductive Session.SetsUp : Session → List SetUpCall → Session → Prop
  | done (s : Session) : SetsUp s [] s
  | call {s t u v : Session} {k : SetUpCall} {how : SetUp Action} {rest : List SetUpCall} :
    k.processor.decl.setUp = some how → Returns (openScope k.processor) s k.scope u →
      setUpBy k.scope how u = (k.ending, v) → SetsUp (v.told k.reports) rest t →
        SetsUp s (k :: rest) t

theorem Session.SetsUp.trans {s t u : Session} {calls more : List SetUpCall}
    (h : s.SetsUp calls t) (h' : t.SetsUp more u) : s.SetsUp (calls ++ more) u := by
  induction h with
  | done => exact h'
  | call hhow hopen hrun _ ih => exact .call hhow hopen hrun (ih h')

/-- To set up some processors one after another always comes to an end, and leaves the registry as
it is. -/
def Settles : List ShellProcessor → Session → Prop
  | [], _ => True
  | p :: ps, s => ∃ t, Returns (setUp p) s () t ∧ t.registry = s.registry ∧ Settles ps t

/-- The processors that are set up are those in some trees that have to be, each once, in pre-order
and in the bucket of its root. -/
structure VisitsTrees (roots : List ShellProcessor) (calls : List SetUpCall) : Prop where
  /-- They are those that have to be set up. -/
  reaches : ∀ p, (∃ k ∈ calls, k.processor = p) ↔
    Processor.Among roots p ∧ p.decl.setUp.isSome = true
  /-- None is set up twice. -/
  once : (calls.map (·.processor.key)).Nodup
  /-- They are set up in pre-order. -/
  ordered : calls.Pairwise fun k l => Processor.Before roots k.processor l.processor
  /-- Each has the bucket of its root. -/
  buckets : ∀ k ∈ calls, ∀ root ∈ roots, k.processor ∈ root.tree →
    k.scope.bucket = root.declaredBucket.1

namespace Run

variable {s t u : Session} {p : ShellProcessor} {ps : List ShellProcessor}
  {calls more : List SetUpCall}

/-- A processor that has to be set up is, in its own bucket, and its fault is reported. -/
theorem exists_setsUp_of_returns_setUp (h : Returns (setUp p) s () t) :
    ∃ calls, s.SetsUp calls t ∧
      calls.map (·.processor) = [p].filter (·.decl.setUp.isSome) ∧
      ∀ k ∈ calls, k.scope.bucket = (s.registry.bucketOf k.processor).1 := by
  unfold setUp at h
  cases hhow : p.decl.setUp with
  | none =>
    rw [hhow] at h
    obtain ⟨-, rfl⟩ := returns_pure_iff.mp h
    exact ⟨[], .done s, by simp [hhow], fun k hk => absurd hk List.not_mem_nil⟩
  | some how =>
    rw [hhow] at h
    obtain ⟨c, u, hopen, hbucket, -⟩ := openScope_apply p s
    have hrun : ∀ x, (do setUpBy (← openScope p) how : Run Unit) s = x ↔ setUpBy c how u = x := by
      intro x
      rw [bind_apply, hopen]
    have hcall : ∀ f? v, setUpBy c how u = (SetUpCall.ending ⟨p, c, f?⟩, v) →
        t = v.told (SetUpCall.reports ⟨p, c, f?⟩) → ∃ calls, s.SetsUp calls t ∧
          calls.map (·.processor) = [p].filter (·.decl.setUp.isSome) ∧
          ∀ k ∈ calls, k.scope.bucket = (s.registry.bucketOf k.processor).1 := by
      rintro f? v hv rfl
      refine ⟨[⟨p, c, f?⟩], .call hhow hopen hv (.done _), by simp [hhow], ?_⟩
      intro k hk
      rw [List.mem_singleton.mp hk]
      exact hbucket
    -- It returns by itself, or its fault is reported.
    rcases returns_recover_iff.mp h with h | ⟨f, v, hstops, hreport⟩
    · exact hcall none t ((hrun _).mp h) rfl
    · refine hcall (some f) v ((hrun _).mp hstops) ?_
      obtain ⟨⟨⟩, w, hlog, hsay⟩ := returns_bind_iff.mp hreport
      obtain rfl := returns_log_iff.mp hlog
      exact returns_say_iff.mp hsay

/-- A processor that is set up to its end, or up to a fault, was set up. -/
theorem returns_setUp {c : Scope} {v : Session} {how : SetUp Action} {f? : Option Fault}
    (hhow : p.decl.setUp = some how) (hopen : Returns (openScope p) s c u)
    (hrun : setUpBy c how u = (SetUpCall.ending ⟨p, c, f?⟩, v)) :
    Returns (setUp p) s () (v.told (SetUpCall.reports ⟨p, c, f?⟩)) := by
  have hcall : (do setUpBy (← openScope p) how : Run Unit) s =
      (SetUpCall.ending ⟨p, c, f?⟩, v) := by
    rw [bind_apply, hopen]
    exact hrun
  unfold setUp
  rw [hhow]
  refine returns_recover_iff.mpr ?_
  cases f? with
  | none => exact Or.inl hcall
  | some f => exact Or.inr ⟨f, v, hcall, rfl⟩

/-- All processors that have to be set up are. -/
theorem exists_setsUp_of_settles (h : Settles ps s) :
    ∃ calls t, Returns (ps.forM setUp) s () t ∧ t.registry = s.registry ∧ s.SetsUp calls t ∧
      calls.map (·.processor) = ps.filter (·.decl.setUp.isSome) ∧
      ∀ k ∈ calls, k.scope.bucket = (s.registry.bucketOf k.processor).1 := by
  induction ps generalizing s with
  | nil => exact ⟨[], s, rfl, rfl, .done s, rfl, fun k hk => absurd hk List.not_mem_nil⟩
  | cons p ps ih =>
    obtain ⟨u, hu, hregistry, hrest⟩ := h
    obtain ⟨calls, hcalls, hfirst, hbuckets⟩ := exists_setsUp_of_returns_setUp hu
    obtain ⟨more, t, ht, hregistry', hmore, hothers, hbuckets'⟩ := ih hrest
    rw [hregistry] at hregistry' hbuckets'
    refine ⟨calls ++ more, t, returns_bind_iff.mpr ⟨(), u, hu, ht⟩, hregistry', hcalls.trans hmore,
      ?_, List.forall_mem_append.mpr ⟨hbuckets, hbuckets'⟩⟩
    rw [List.map_append, hfirst, hothers, ← List.filter_append, List.singleton_append]

/-! ### Being ready -/

theorem tellingCongruence_ready : TellingCongruence fun _ x _ => Keeps x (·.ready) :=
  tellingCongruence_keeps fun _ _ => rfl

/-- What lines are made of has nothing to do with whether the processors were set up. -/
theorem chainCongruence_ready : ChainCongruence fun _ x _ => Keeps x (·.ready) where
  toTellingCongruence := tellingCongruence_ready
  peripheral h := fun s => (congrArg Session.ready (h s).1 :)
  cancel _ :=
    keeps_get.bind fun _ => Keeps.bind (fun _ => rfl) fun _ => keeps_forM (fun _ _ => rfl) _
  onCancel _ _ := keeps_get.bind fun _ => (keeps_forM (fun _ _ => rfl) _).bind fun _ _ => rfl
  indicate _ := tellingCongruence_ready.indicate_of_change _ fun _ _ => rfl
  register := tellingCongruence_ready.register_of_change fun _ _ => rfl
  unregister := tellingCongruence_ready.unregister_of_change fun _ _ => rfl
  operate _ := tellingCongruence_ready.buckets_of_change _ fun _ _ _ => rfl
  inspect _ := tellingCongruence_ready.access_of_change _ fun _ _ => rfl
  recover := Keeps.recover
  process _ := fun _ => rfl
  finishing h := h
  newToken := fun _ => rfl
  setPinned _ := fun _ => rfl
  appendPayload := tellingCongruence_ready.appendPayload_of_access
    (fun x => tellingCongruence_ready.access_of_change x fun _ _ => rfl) Keeps.recover

theorem keeps_rerun_ready (line : String) : Keeps (rerun line) (·.ready) :=
  chainCongruence_ready.nestedWithin maxLineNesting line

/-- What a line does to a shell that it finds as it is prepared. -/
theorem execute_apply_snd {line : String} (h : Returns prepare s () u) :
    (execute line s).2 = (rerun line u).2 := by
  unfold execute
  rw [bind_apply, h]
  dsimp only
  rw [bind_apply]
  rcases rerun line u with ⟨_ | _, v⟩
  · rfl
  · rfl

theorem returns_prepare_of_ready (h : s.ready = true) : Returns prepare s () s := by
  unfold prepare Returns
  rw [get_bind_apply, h]
  rfl

theorem returns_prepare_of_not_ready (h : s.ready = false)
    (hboot : Returns initializeProcessors s () t) :
    Returns prepare s () { t with ready := true } := by
  unfold prepare Returns
  rw [get_bind_apply, h]
  exact returns_bind_iff.mpr ⟨(), t, hboot, rfl⟩

/-- The shell after it executed some lines. -/
def executed (s : Session) (lines : List String) : Session :=
  lines.foldl (fun s line => (execute line s).2) s

/-- The shell after some lines, without anything else that goes with executing them. -/
def reran (s : Session) (lines : List String) : Session :=
  lines.foldl (fun s line => (rerun line s).2) s

/-- A shell that was set up only runs the lines that it executes. -/
theorem executed_of_ready (h : s.ready = true) (lines : List String) :
    executed s lines = reran s lines := by
  induction lines generalizing s with
  | nil => rfl
  | cons line lines ih =>
    have hline : (rerun line s).2.ready = true := (keeps_rerun_ready line s).trans h
    unfold executed reran
    rw [List.foldl_cons, List.foldl_cons, execute_apply_snd (returns_prepare_of_ready h)]
    exact ih hline

/-- A shell that was not set up is set up before the first line that it executes, and then only runs
the lines. -/
theorem executed_of_not_ready (h : s.ready = false) (hboot : Returns initializeProcessors s () t)
    (line : String) (lines : List String) :
    executed s (line :: lines) = reran { t with ready := true } (line :: lines) := by
  have hline : (rerun line { t with ready := true }).2.ready = true := keeps_rerun_ready line _
  unfold executed reran
  rw [List.foldl_cons, List.foldl_cons,
    execute_apply_snd (returns_prepare_of_not_ready h hboot)]
  exact executed_of_ready hline lines

/-! ### Shells that open -/

/-- A new processor is registered under fresh keys. -/
theorem registry_register (p : ShellProcessor) (s : Session) :
    (register p s).2.registry =
      ((s.registry.adopt p).2.register (s.registry.adopt p).1).1 := by
  have hadopt : adopt p s =
      (.ok (s.registry.adopt p).1, { s with registry := (s.registry.adopt p).2 }) := rfl
  unfold register enter
  rw [bind_apply, hadopt]
  dsimp only
  rw [get_bind_apply]
  dsimp only
  rcases (s.registry.adopt p).2.register (s.registry.adopt p).1 with ⟨r, o⟩
  cases o <;> rfl

theorem registry_of_returns_registerAll {ps : List ShellProcessor} {n : Nat}
    {cs : List (Registry.Call Action)} (hs : s.registry = (Registry.emptyAt n).after cs)
    (h : Returns (registerAll ps) s () t) :
    t.registry = (Registry.emptyAt (Processor.adoptAll n ps).2).after
      (cs ++ (Processor.adoptAll n ps).1.map .register) ∧
      t.space = s.space ∧ t.ready = s.ready := by
  induction ps generalizing s n cs with
  | nil =>
    obtain ⟨-, rfl⟩ := returns_pure_iff.mp h
    exact ⟨by rw [hs]; simp [Processor.adoptAll], rfl, rfl⟩
  | cons p ps ih =>
    obtain ⟨⟨⟩, u, hfirst, hrest⟩ := returns_bind_iff.mp h
    obtain ⟨o, hfirst, -⟩ := returns_map_iff.mp hfirst
    obtain rfl : (register p s).2 = u := congrArg Prod.snd hfirst
    -- Processors are given keys from the next free one on, whatever was called before.
    have hregistry : (register p s).2.registry = (Registry.emptyAt (p.adopt n).2).after
        (cs ++ [.register (p.adopt n).1]) := by
      have hnext : s.registry.nextKey = n := by
        rw [hs, Registry.emptyAt_after]
        rfl
      have hadopt : s.registry.adopt p =
          ((p.adopt n).1, (Registry.emptyAt (p.adopt n).2).after cs) := by
        rw [Registry.adopt, hnext, hs, Registry.emptyAt_after n,
          Registry.emptyAt_after (p.adopt n).2]
        rfl
      rw [registry_register, hadopt, Registry.after_append]
      rfl
    obtain ⟨ht, hspace, hready⟩ := ih hregistry hrest
    refine ⟨?_, hspace.trans (keeps_register_space p s), hready.trans ?_⟩
    · rw [ht, Processor.adoptAll, List.append_assoc]
      rfl
    · exact tellingCongruence_ready.register_of_change (fun _ _ => rfl) p s

/-- A shell that opens with some processors has a forest of distinct ones, and nobody watches that
did not before. -/
theorem exists_forest_of_returns_openShell {settings : Settings} {lasting : Bool}
    (hs : s.registry = {}) (h : Returns (openShell settings lasting ps) s () t) :
    ∃ n cs, t.registry = (Registry.emptyAt n).after cs ∧
      Registry.registered cs = (Processor.adoptAll 0 ps).1 ∧
      Processor.DistinctKeys (Registry.registered cs) ∧
      t.space = s.space ∧ t.ready = s.ready := by
  obtain ⟨u, hu, hregistry, -, hspace, hready⟩ := Builtin.exists_returns_registerAll h
  have hs : s.registry = (Registry.emptyAt 0).after [] := hs
  obtain ⟨hregistry', hspace', hready'⟩ := registry_of_returns_registerAll hs hu
  have hregistered : Registry.registered ((Processor.adoptAll 0 ps).1.map .register) =
      (Processor.adoptAll 0 ps).1 := by
    unfold Registry.registered
    rw [List.filterMap_map]
    exact List.filterMap_some
  refine ⟨_, _, hregistry.trans hregistry', hregistered, ?_, hspace.trans hspace',
    hready.trans hready'⟩
  rw [List.nil_append, hregistered]
  exact Processor.distinctKeys_adoptAll 0 ps

/-! ### The whole forest -/

variable {n : Nat} {cs : List (Registry.Call Action)}

/-- Processors that are set up in pre-order, each in its own bucket, are those of the trees, and
each has the bucket of its root. -/
theorem visitsTrees_of_map_eq {roots : List ShellProcessor} {r : Registry Action}
    (hkeys : Processor.DistinctKeys roots)
    (hroots : ∀ root ∈ roots, ∀ p ∈ root.tree, r.bucketOf p = root.declaredBucket)
    (hcalls : calls.map (·.processor) =
      (Processor.preorderAll roots).filter (·.decl.setUp.isSome))
    (hbuckets : ∀ k ∈ calls, k.scope.bucket = (r.bucketOf k.processor).1) :
    VisitsTrees roots calls where
  reaches p := by
    rw [← List.mem_map, hcalls, List.mem_filter, Processor.mem_preorderAll_iff]
  once := by
    have hmap : calls.map (·.processor.key) = (calls.map (·.processor)).map Processor.key :=
      (List.map_map ..).symm
    rw [hmap, hcalls, Processor.preorderAll_eq_flatMap]
    exact List.Nodup.sublist (List.filter_sublist.map Processor.key) hkeys
  ordered := by
    rw [← List.pairwise_map (f := SetUpCall.processor), hcalls]
    exact (Processor.pairwise_before_preorderAll roots).filter _
  buckets k hk root hroot htree := by
    rw [hbuckets k hk, hroots root hroot k.processor htree]

/-- A shell with a forest of distinct processors that nobody watches yet loads the buckets that its
roots declare, each once, when it executes its first line.  Then it sets up the processors of the
trees that have to be, each once, in pre-order and in the bucket of its root, as long as this leaves
the processors as they are.  Every fault is reported, and all others are set up all the same.  After
that the shell runs the line, and all further lines that it executes. -/
theorem boot_reaches_whole_forest (hregistry : s.registry = (Registry.emptyAt n).after cs)
    (hdistinct : Processor.DistinctKeys (Registry.registered cs)) (hspace : s.space.Unwatched)
    (hready : s.ready = false)
    (hsettles : ∀ u, Returns loadBuckets s () u →
      Settles (Processor.preorderAll s.registry.processors) u) :
    ∃ ops calls t, LoadsBuckets s.registry.processors ops ∧
      Returns loadBuckets s () (s.operated ops) ∧ (s.operated ops).SetsUp calls t ∧
      VisitsTrees s.registry.processors calls ∧ Returns initializeProcessors s () t ∧
      ∀ line lines,
        executed s (line :: lines) = reran { t with ready := true } (line :: lines) := by
  -- All processors of a tree have the bucket that its root declares, so to load those is enough.
  have hroots : ∀ root ∈ s.registry.processors, ∀ p ∈ root.tree,
      s.registry.bucketOf p = root.declaredBucket := by
    rw [hregistry]
    exact fun root hroot p hp => Registry.bucketOf_eq_of_mem_tree hdistinct hroot hp
  have hkeys : Processor.DistinctKeys s.registry.processors := by
    rw [hregistry]
    exact Registry.distinctKeys_processors hdistinct
  have hload := returns_loadBuckets_hydration hspace
  have hbuckets : s.registry.processors.map s.registry.bucketOf =
      s.registry.processors.map (·.declaredBucket) :=
    List.map_congr_left fun root hroot => hroots root hroot root root.mem_tree_self
  rw [hbuckets] at hload
  obtain ⟨calls, t, ht, -, hcalls, hmap, hscopes⟩ := exists_setsUp_of_settles (hsettles _ hload)
  -- The buckets are loaded first, which leaves the registry alone.
  have hall : Returns setUpAll (s.operated (SpaceOperation.hydration []
      (s.registry.processors.map (·.declaredBucket)))) () t := by
    refine returns_bind_iff.mpr ⟨_, _, returns_get_iff.mpr ⟨rfl, rfl⟩, ?_⟩
    rw [Session.operated_registry]
    exact ht
  have hboot : Returns initializeProcessors s () t := returns_bind_iff.mpr ⟨(), _, hload, hall⟩
  refine ⟨_, calls, t, loadsBuckets_hydration, hload, hcalls, ?_, hboot, ?_⟩
  · rw [Session.operated_registry] at hscopes
    exact visitsTrees_of_map_eq hkeys hroots hmap hscopes
  · exact executed_of_not_ready hready hboot

/-- A processor that only leaves a note when it is set up settles. -/
theorem settles_of_note {tag : String} (h : p.decl.setUp = some (.script [.note tag]))
    (hrest : ∀ t, Settles ps t) : Settles (p :: ps) s := by
  obtain ⟨c, u, hopen, -, -, hkept, -⟩ := openScope_apply p s
  have hrun : setUpBy c (.script [.note tag]) u =
      (SetUpCall.ending ⟨p, c, none⟩, u.told [.note tag]) := rfl
  exact ⟨_, returns_setUp h hopen hrun, hkept, hrest _⟩

/-- A command that fails to be set up, above one that does not. -/
def suite : ShellProcessor :=
  ⟨1, { command := "suite", label := "suite", handler := .script [],
        setUp := some (.script [.fail (.failure "no device")]) },
    [⟨0, { command := "part", label := "part", handler := .script [],
           setUp := some (.script [.note "part"]) }, []⟩]⟩

/-- A command that shares the bucket of the other one. -/
def tool : ShellProcessor :=
  ⟨2, { command := "tool", label := "tool", handler := .script [],
        bucket := some { name := some "suite", initial := .null },
        setUp := some (.script [.note "tool"]) }, []⟩

/-- A shell with the two. -/
def forestShell : Session where
  locations := { home := ["home"], working := [] }
  registry := (Registry.emptyAt 3).after [.register suite, .register tool]

/-- Behind a root that fails to be set up, what stands below it and the other root are set up. -/
theorem boot_reaches_behind_fault :
    forestShell.registry.processors = [suite, tool] ∧
    ∃ ops calls t, LoadsBuckets forestShell.registry.processors ops ∧
      Returns loadBuckets forestShell () (forestShell.operated ops) ∧
      (forestShell.operated ops).SetsUp calls t ∧
      VisitsTrees forestShell.registry.processors calls ∧
      Returns initializeProcessors forestShell () t ∧
      ∀ line lines, executed forestShell (line :: lines) =
        reran { t with ready := true } (line :: lines) := by
  have hspace : forestShell.space.Unwatched := StateSpace.unwatched_of_no_buckets rfl rfl rfl
  have hdistinct : Processor.DistinctKeys
      (Registry.registered [.register suite, .register tool]) :=
    show [1, 0, 2].Nodup by decide
  have hregistry : forestShell.registry =
      (Registry.emptyAt 3).after [.register suite, .register tool] := rfl
  refine ⟨rfl, boot_reaches_whole_forest hregistry hdistinct hspace rfl fun u _ => ?_⟩
  obtain ⟨c, v, hopen, -, -, hkept, -⟩ := openScope_apply suite u
  have hfault : setUpBy c (.script [.fail (.failure "no device")]) v =
      (SetUpCall.ending ⟨suite, c, some (.failure "no device")⟩, v) := rfl
  refine ⟨_, returns_setUp rfl hopen hfault, hkept, ?_⟩
  -- What is set up behind the fault runs to its end.
  refine settles_of_note rfl fun t => ?_
  exact settles_of_note rfl fun _ => trivial

end Run

end CommandShell
