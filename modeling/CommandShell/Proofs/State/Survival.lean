import CommandShell.Proofs.Congruence.Following
import CommandShell.Proofs.Line.Nesting
import CommandShell.Proofs.State.Starting

/-!
# Aliases that outlive their shell

Of the built-in processors, `alias` and `unalias` alone change the aliases.  Both keep them in the
store at once, and a refusal changes neither the bucket nor the store.  So whatever lines a shell
runs, its aliases stay durable, and a shell that starts over its store later comes to the same ones.

## Main definitions

* `Session.KeepsAliases`: the invariant, the built-in processors with durable aliases.
* `Session.OpenedOver`: a shell that has been opened over a store.
* `Session.afterLines`: a shell after some lines.

## Main results

* `Run.follows_dispatch`: what is dispatched to a built-in processor keeps the aliases.
* `Session.KeepsAliases.afterLines`: lines keep them.
* `Run.aliases_outlive_shell`: the next shell has the same aliases.
-/

namespace CommandShell

open Live (keyed)

/-! ### The invariant -/

/-- A shell has the built-in processors, one of which may be pinned, and its aliases are durable. -/
structure Session.KeepsAliases (s : Session) : Prop where
  registry : s.registry = Builtin.registry
  pinned : ∀ p, s.pinned = some p → p ∈ Builtin.nodes
  durable : s.space.Durable "aliases" Builtin.aliasBucket.initial

/-- A shell that keeps its aliases leads to one that does. -/
def Session.KeptAliases (s t : Session) : Prop :=
  s.KeepsAliases → t.KeepsAliases

theorem Session.KeptAliases.trans (s t u : Session) (h : s.KeptAliases t) (h' : t.KeptAliases u) :
    s.KeptAliases u :=
  fun hs => h' (h hs)

theorem frameCongruence_keptAliases :
    FrameCongruence fun _ x _ => Follows x Session.KeptAliases := by
  refine frameCongruence_follows Session.KeptAliases.trans fun s t ht hpinned hs => ?_
  refine ⟨ht.registry.trans hs.registry, fun p hp => hs.pinned p (hpinned ▸ hp), ?_⟩
  rw [ht.space]
  exact hs.durable

namespace StateSpace

variable {s : StateSpace} {name : String} {initial v : Value}

/-- Where aliases are looked up in a durable bucket, it holds a map. -/
theorem Durable.exists_aliasPart (h : s.Durable name initial)
    (hv : (s.stateOf name).lookup aliasKey = .ok v) :
    ∃ b mark l, s.bucket? name = some b ∧ b.state = .map mark (keyed l) ∧
      (aliasPart l).value = v := by
  obtain ⟨b, w, hb, -⟩ := h.mirrored
  rw [stateOf, hb, Option.map_some, Option.getD_some] at hv
  unfold Value.lookup at hv
  split at hv
  · rename_i entries hentries
    obtain ⟨mark, l, hstate, rfl, -⟩ := (h.sound.state_proper hb).entries_of_value hentries
    refine ⟨b, mark, l, hb, hstate, ?_⟩
    rw [value_aliasPart]
    exact Except.ok.inj hv
  · cases hv

end StateSpace

theorem Value.mapEntries_eq_ok {v : Value} {onOther : String → Fault} {m : Entries Value}
    (h : v.mapEntries onOther = .ok m) : v = .map m := by
  unfold mapEntries at h
  split at h
  · rw [Except.ok.inj h]
  · cases h

namespace Run

open Session

variable {s t : Session} {rerun : String → Run Unit} {c : Scope} {p : ShellProcessor}

/-! ### Handlers -/

/-- Aliases that a space keeps while it stays durable are kept by the shell. -/
theorem keepsAliases_keepAliases {aliases : Entries Value} (h : s.KeepsAliases)
    (hkeep : ∃ t u, s.space.update "aliases" (.map [(aliasKey, .map aliases)]) = (.ok (), t) ∧
      { t with reports := [] }.persist "aliases" = (.ok (), u) ∧
      u.Durable "aliases" Builtin.aliasBucket.initial) :
    (keepAliases "aliases" aliases s).2.KeepsAliases := by
  obtain ⟨t, u, hupdate, hpersist, hdurable⟩ := hkeep
  rw [returns_keepAliases_of_persist hupdate hpersist]
  exact ⟨h.registry, h.pinned, hdurable.of_reports⟩

/-- What is done with the defined aliases has to be looked at only where they are those in the
bucket. -/
theorem follows_definedAliases_bind {f : Value → Run Unit}
    (h : ∀ (s : Session) b mark l, s.KeepsAliases → s.space.bucket? "aliases" = some b →
      b.state = .map mark (keyed l) →
      (f ((aliasPart l).value.nonEmpty?.getD (.map [])) s).2.KeepsAliases) :
    Follows (definedAliases "aliases" >>= f) KeptAliases := by
  intro s hs
  have hdefined : definedAliases "aliases" s =
      (ofExcept ((s.space.stateOf "aliases").lookup aliasKey) >>= fun v =>
        pure (v.nonEmpty?.getD (.map []))) s := rfl
  rw [bind_apply, hdefined]
  cases hv : (s.space.stateOf "aliases").lookup aliasKey with
  | error e => exact hs
  | ok v =>
    obtain ⟨b, mark, l, hb, hstate, rfl⟩ := hs.durable.exists_aliasPart hv
    exact h s b mark l hs hb hstate

/-- Whatever is given on top of the aliases by `alias`. -/
theorem follows_defineAliases (hc : c.bucket = "aliases") (i : Invocation) :
    Follows (defineAliases c i) KeptAliases := by
  have hC := frameCongruence_keptAliases
  have hdefine : Follows (do
      let current ← ofExcept ((← definedAliases c.bucket).mapEntries .notMapping)
      keepAliases c.bucket (Entries.overlay current (i.args.map fun e => (e.1, .text e.2.shown))))
      KeptAliases := by
    rw [hc]
    refine follows_definedAliases_bind fun s b mark l hs hb hstate => ?_
    rw [bind_apply]
    cases hcurrent : ((aliasPart l).value.nonEmpty?.getD (.map [])).mapEntries .notMapping with
    | error e => exact hs
    | ok current =>
      refine keepsAliases_keepAliases hs
        (hs.durable.keep_overlay hb hstate (Value.mapEntries_eq_ok hcurrent) fun e he => ?_)
      obtain ⟨e, -, rfl⟩ := List.mem_map.mp he
      exact ⟨_, rfl⟩
  have hannounced : Follows (i.args.forM fun e => announceAlias e.1 e.2) KeptAliases :=
    follows_forM (fun _ => id) KeptAliases.trans (fun _ => hC.announceAlias _ _) _
  have hall := hannounced.bind KeptAliases.trans fun _ => hdefine
  unfold defineAliases
  refine .ite ((hC.say _ _).bind KeptAliases.trans fun _ => ?_) hall
  exact (hC.exit _).bind KeptAliases.trans fun _ => hall

/-- `unalias` removes one of the aliases, or refuses to. -/
theorem follows_removeAlias (hc : c.bucket = "aliases") (i : Invocation) :
    Follows (removeAlias c i) KeptAliases := by
  have hC := frameCongruence_keptAliases
  unfold removeAlias
  rw [hc]
  refine follows_definedAliases_bind fun s b mark l hs hb hstate => ?_
  rw [bind_apply]
  -- An alias that is not there is refused, and nothing changes.
  cases hfound : ((aliasPart l).value.nonEmpty?.getD (.map [])).containsText (i.text.getD "") with
  | error e => exact hs
  | ok found =>
    cases found with
    | false => exact ⟨hs.registry, hs.pinned, hs.durable⟩
    | true =>
      show ((ofExcept _ >>= fun aliases => keepAliases "aliases" (Entries.erase aliases _) >>=
        fun _ => say .success _) s).2.KeepsAliases
      rw [bind_apply]
      cases hcurrent : ((aliasPart l).value.nonEmpty?.getD (.map [])).mapEntries
          fun kind => .noMember kind "items" with
      | error e => exact hs
      | ok current =>
        have hdefined := Value.mapEntries_eq_ok hcurrent
        rw [hdefined] at hfound
        have hword : i.text.getD "" ∈ current.keys := Entries.has_iff.mp (Except.ok.inj hfound)
        refine follows_bind_apply KeptAliases.trans (fun hs => ?_) (fun _ _ _ => ?_) hs
        · exact keepsAliases_keepAliases hs (hs.durable.keep_erase hb hstate hdefined hword)
        · exact hC.say _ _ _

theorem follows_describeFurther {d : Describer Action} (hp : p ∈ Builtin.nodes)
    (hd : p.decl.describer = some d) : Follows (describeFurther rerun c d) KeptAliases := by
  have hdescriber : d = .helpUsage := by
    rcases Builtin.mem_nodes_iff.mp hp with rfl | rfl | rfl | rfl | rfl <;> cases hd
    rfl
  rw [hdescriber]
  exact frameCongruence_keptAliases.printLines _

theorem follows_help (i : Invocation) : Follows (help rerun c i) KeptAliases := by
  have hC := frameCongruence_keptAliases
  intro s hs
  unfold help
  cases (splitWords i.command).drop 1 with
  | nil => exact hC.describeAll s hs
  | cons name chain =>
    dsimp only
    rw [get_bind_apply]
    cases hp : s.registry.find? name chain with
    | some p =>
      rw [hs.registry] at hp
      exact hC.describe (g := rerun) c p
        (fun d => follows_describeFurther (Builtin.mem_nodes_of_find? hp)) s hs
    | none => exact ⟨hs.registry, hs.pinned, hs.durable⟩

/-- The handler of a built-in processor, in the bucket of the processor. -/
theorem follows_handle (hp : p ∈ Builtin.nodes) (hc : c.bucket = (Builtin.registry.bucketOf p).1)
    (i : Invocation) : Follows (handle rerun c i p.decl.handler) KeptAliases := by
  have hC := frameCongruence_keptAliases
  rcases Builtin.mem_nodes_iff.mp hp with rfl | rfl | rfl | rfl | rfl
  · exact follows_help i
  · exact follows_defineAliases hc i
  · exact hC.listAliases c
  · exact follows_removeAlias hc i
  · exact (hC.print _).bind KeptAliases.trans fun _ => hC.process _

/-- What is dispatched to a built-in processor keeps the aliases. -/
theorem follows_dispatch (hp : p ∈ Builtin.nodes) (i : Invocation) :
    Follows (dispatch rerun p i) KeptAliases := by
  have hC := frameCongruence_keptAliases
  intro s hs
  obtain ⟨c, t, hopen, hbucket, hspace, hregistry, hpinned⟩ := openScope_apply p s
  have ht : t.KeepsAliases := by
    refine ⟨hregistry.trans hs.registry, fun q hq => hs.pinned q (hpinned ▸ hq), ?_⟩
    rw [hspace]
    exact (hs.durable.openBucket _ _).of_reports
  rw [hs.registry] at hbucket
  have hhooks : ∀ phase, Follows (runHooks rerun c p phase) KeptAliases := by
    intro phase
    have hnone : p.hookScripts phase = [] := by
      rcases Builtin.mem_nodes_iff.mp hp with rfl | rfl | rfl | rfl | rfl <;> rfl
    unfold runHooks
    rw [hnone]
    exact hC.pure _
  have hhandle : Follows (handleBetweenHooks rerun c p i) KeptAliases :=
    (hhooks _).bind KeptAliases.trans fun _ =>
      (follows_handle hp hbucket i).bind KeptAliases.trans fun _ => hhooks _
  unfold dispatch
  rw [bind_apply, hopen]
  exact Follows.recover KeptAliases.trans hhandle (fun f => hC.settleFault f) t ht

/-! ### Lines -/

section Lines

variable (hlines : ∀ line, Follows (rerun line) KeptAliases)

include hlines

theorem follows_reach (hp : p ∈ Builtin.nodes) (i : Invocation) :
    Follows (reach rerun p i) KeptAliases := by
  have hC := frameCongruence_keptAliases
  have hpin : Follows (pin (some p) false) KeptAliases := by
    refine (hC.say _ _).bind KeptAliases.trans fun _ s hs => ?_
    refine ⟨hs.registry, fun q hq => ?_, hs.durable⟩
    rwa [← Option.some.inj hq]
  exact hC.reach_of_dispatch (g := rerun) p i hlines hpin fun i => follows_dispatch hp i

theorem follows_runSegmentWith {expand : String → String → Run Unit} (data : Value)
    (hexpand : ∀ word expanded, Follows (expand word expanded) KeptAliases) (segment : String) :
    Follows (runSegmentWith rerun data expand segment) KeptAliases := by
  have hC := frameCongruence_keptAliases
  refine hC.finishing (y := pure ()) ((hC.process _).bind KeptAliases.trans fun _ s hs => ?_)
  rw [get_bind_apply]
  cases hp : s.resolve? segment with
  | some p =>
    exact follows_reach hlines (Builtin.mem_nodes_of_resolve? hs.registry hs.pinned hp) _ s hs
  | none =>
    dsimp only
    cases s.expansion? ((splitWords (readSegment segment).name).headD "") segment with
    | some expanded => exact hexpand _ _ s hs
    | none => exact hC.commandNotFound _ s hs

theorem follows_runSegmentWithin (data : Value) (n : Nat) (segment : String) :
    Follows (runSegmentWithin rerun data n segment) KeptAliases := by
  have hC := frameCongruence_keptAliases
  induction n generalizing segment with
  | zero =>
    exact follows_runSegmentWith hlines data (fun word _ => hC.expansionTooDeep word) segment
  | succ n ih => exact follows_runSegmentWith hlines data (fun _ expanded => ih expanded) segment

theorem follows_runLineWith (line : String) :
    Follows (runLineWith rerun line) KeptAliases := by
  have hC := frameCongruence_keptAliases
  have hsegment : ∀ segment data, Follows (runReported rerun segment data) KeptAliases :=
    fun segment data => hC.runReported_of_runSegment (g := rerun) segment data
      (follows_runSegmentWithin hlines data _ segment)
  have haccess : ∀ {α : Type} (x : FileAccess α), Follows (access x) KeptAliases := by
    intro α x s hs
    rw [access_apply]
    exact ⟨hs.registry, hs.pinned, hs.durable⟩
  have hchain := hC.runChain_of_segments (g := rerun) hsegment
    (hC.appendPayload_of_access haccess (Follows.recover KeptAliases.trans)) {} (splitLine line)
  exact hchain.bind KeptAliases.trans fun _ => hC.pure _

end Lines

theorem follows_nestedWithin (depth : Nat) (line : String) :
    Follows (nestedWithin depth line) KeptAliases := by
  have hC := frameCongruence_keptAliases
  induction depth generalizing line with
  | zero => exact (hC.throw _).bind KeptAliases.trans fun _ => hC.pure _
  | succ depth ih => exact (follows_runLineWith ih line).bind KeptAliases.trans fun _ => hC.pure _

end Run

/-! ### From one shell to the next -/

namespace Session

variable {s t : Session} {store : KeyValueStore}

/-- A shell that has been opened over a store with the built-in processors alone. -/
def OpenedOver (store : KeyValueStore) (s : Session) : Prop :=
  ∃ (settings : Settings) (lasting : Bool) (blank : Session), blank.registry = {} ∧
    blank.pinned = none ∧ blank.space = { store := store } ∧
    Returns (Run.openShell settings lasting builtinProcessors) blank () s

/-- A shell after some lines, one after another. -/
def afterLines (s : Session) (lines : List String) : Session :=
  lines.foldl (fun s line => (Run.rerun line s).2) s

theorem KeepsAliases.afterLines (h : s.KeepsAliases) (lines : List String) :
    (s.afterLines lines).KeepsAliases := by
  induction lines generalizing s with
  | nil => exact h
  | cons line rest ih => exact ih (Run.follows_nestedWithin _ line s h)

theorem KeepsAliases.aliasTable_eq (h : s.KeepsAliases) : s.aliasTable = s.space.aliases := by
  unfold aliasTable
  rw [h.registry]
  rfl

/-- Shells that keep their aliases in the same store have the same ones. -/
theorem KeepsAliases.same (hs : s.KeepsAliases) (ht : t.KeepsAliases)
    (hstore : t.space.store = s.space.store) :
    t.space.stateOf "aliases" = s.space.stateOf "aliases" ∧ t.aliasTable = s.aliasTable := by
  have hstate : t.space.stateOf "aliases" = s.space.stateOf "aliases" := by
    rw [hs.durable.stateOf_eq, ht.durable.stateOf_eq, StateSpace.kept_of_store hstore]
  refine ⟨hstate, ?_⟩
  rw [hs.aliasTable_eq, ht.aliasTable_eq, hs.durable.aliases_eq, ht.durable.aliases_eq, hstate]

/-- A shell that has been opened over a store which does not fail is set up without a fault, and
keeps its aliases from then on. -/
theorem OpenedOver.exists_ready (h : s.OpenedOver store) (hreads : store.failsGet = false)
    (hwrites : store.failsSet = false)
    (hkept : (({ store := store } : StateSpace).kept "aliases"
      Builtin.aliasBucket.initial).isExpressible = true) :
    ∃ t, Returns Run.initializeProcessors s () t ∧ t.KeepsAliases ∧ t.space.store = store := by
  obtain ⟨settings, lasting, blank, hempty, hunpinned, hblank, hopen⟩ := h
  obtain ⟨hregistry, hpinned, hspace⟩ := Builtin.registry_of_returns_openShell hempty hopen
  rw [hblank] at hspace
  obtain ⟨t, ht, htregistry, htpinned, hstore, hdurable⟩ := Run.exists_returns_initializeProcessors
    hregistry (by rw [hspace]; exact StateSpace.unwatched_of_no_buckets rfl rfl rfl)
    (by rw [hspace]) (by rw [hspace, hreads]) (by rw [hspace, hwrites]) (by rw [hspace, hkept])
  rw [hspace] at hstore
  refine ⟨t, ht, ⟨htregistry.trans hregistry, fun p hp => ?_, hdurable⟩, hstore⟩
  rw [htpinned, hpinned, hunpinned] at hp
  cases hp

end Session

/-- Aliases outlive their shell.  A shell with the built-in processors runs lines over a store that
does not fail; a shell that is opened over the same store after that has the same aliases in the
same order, and expands commands with the same table. -/
theorem Run.aliases_outlive_shell {store : KeyValueStore} {first : Session}
    (hreads : store.failsGet = false) (hwrites : store.failsSet = false)
    (hrows : ∀ e ∈ store.rows, e.2.isExpressible = true) (hfirst : first.OpenedOver store) :
    ∃ ready, Returns initializeProcessors first () ready ∧
      ∀ (lines : List String) (second : Session),
        second.OpenedOver (ready.afterLines lines).space.store →
        ∃ again, Returns initializeProcessors second () again ∧
          again.space.stateOf "aliases" = (ready.afterLines lines).space.stateOf "aliases" ∧
          again.aliasTable = (ready.afterLines lines).aliasTable := by
  obtain ⟨ready, hready, hkeeps, -⟩ := hfirst.exists_ready hreads hwrites
    (StateSpace.isExpressible_kept hrows rfl)
  refine ⟨ready, hready, fun lines second hsecond => ?_⟩
  have hlast := hkeeps.afterLines lines
  obtain ⟨again, hagain, hkeeps', hstore⟩ := hsecond.exists_ready hlast.durable.reads
    hlast.durable.writes hlast.durable.isExpressible_kept
  exact ⟨again, hagain, hlast.same hkeeps' hstore⟩

/-- Some aliases were kept before, and some are defined, replaced and removed, with refusals between
them; the next shell has what is left. -/
theorem Run.replaced_and_removed_aliases_outlive_shell :
    ∃ (store : KeyValueStore) (first ready second again : Session) (lines : List String),
      first.OpenedOver store ∧ Returns initializeProcessors first () ready ∧
      second.OpenedOver (ready.afterLines lines).space.store ∧
      Returns initializeProcessors second () again ∧
      again.space.stateOf "aliases" = (ready.afterLines lines).space.stateOf "aliases" ∧
      again.aliasTable = (ready.afterLines lines).aliasTable ∧
      (again.space.stateOf "aliases").shown =
        "\x7b'aliases': \x7b'old': 'echo new', 'hi': 'echo hi'\x7d\x7d" := by
  let store : KeyValueStore :=
    { rows := [("store-state-aliases", .map [(aliasKey, .map [("old", .text "echo old")])])] }
  let blank (store : KeyValueStore) : Session :=
    { locations := { home := ["home"], working := [] }, space := { store := store } }
  let opened (store : KeyValueStore) : Session :=
    (openShell (Settings.default ["home"]) false builtinProcessors (blank store)).2
  let lines := ["alias --hi=\"echo hi\" --ll=\"echo ll\"", "unalias none", "alias --help=\"echo\"",
    "alias --old=\"echo new\"", "unalias ll"]
  have hopened : ∀ store, (openShell (Settings.default ["home"]) false builtinProcessors
      (blank store)).1.toOption.map (fun _ => ()) = some () → (opened store).OpenedOver store := by
    intro store h
    obtain ⟨⟨⟩, hreturns, -⟩ := exists_returns_of_map _ (blank store) (fun _ => ()) () h
    exact ⟨_, _, blank store, rfl, rfl, rfl, hreturns⟩
  have hfirst : (opened store).OpenedOver store := hopened store (by decide +kernel)
  obtain ⟨ready, hready, hnext⟩ := aliases_outlive_shell rfl rfl (by decide +kernel) hfirst
  obtain rfl : (initializeProcessors (opened store)).2 = ready := congrArg Prod.snd hready
  have hsecond := hopened ((initializeProcessors (opened store)).2.afterLines lines).space.store
    (by decide +kernel)
  obtain ⟨again, hagain, hstate, htable⟩ := hnext lines _ hsecond
  refine ⟨store, _, _, _, again, lines, hfirst, hready, hsecond, hagain, hstate, htable, ?_⟩
  rw [hstate]
  decide +kernel

end CommandShell
