import CommandShell.Proofs.Congruence.Following
import CommandShell.Proofs.Line.Exits
import CommandShell.Proofs.Registry.Builtins
import CommandShell.Proofs.State.Durability

/-!
# Updates of the aliases

`alias` and `unalias` change the aliases all at once or not at all.  Everything that they refuse is
refused before the first change, so a refusal leaves the buckets, the store and the table as they
were.  What is not refused goes into the bucket in one update and from there into the store, where
nothing can fail as long as the store works and whoever watches the bucket finds something in every
map.

## Main definitions

* `StateSpace.Retains`: all buckets, the store and the table of aliases are as they were.
* `StateSpace.Replaces`: other aliases are in a bucket, and the store has what the bucket holds.
* `Session.HoldsAliases`: the two commands are at hand, and their bucket holds some aliases.
* `Session.aliasingShell`: a shell with the built-in processors and two aliases.

## Main results

* `StateSpace.exists_replaces`: aliases that are put into a bucket and kept replace those before.
* `Session.holdsAliases_of_works`: shells that have started without buckets hold their aliases.
* `Run.returns_defineAliases`, `Run.stops_defineAliases`: what `alias` does.
* `Run.returns_removeAlias`, `Run.stops_removeAlias`: what `unalias` does.
-/

namespace CommandShell

open Live (keyed)

/-! ### Spaces -/

namespace StateSpace

variable {s t u : StateSpace} {name : String} {b : Bucket} {mark i : Nat} {l : Entries Live}
  {new : Entries Value}

/-- All buckets, the store and the table of aliases are as they were. -/
structure Retains (s t : StateSpace) : Prop where
  states : t.stateOf = s.stateOf
  store : t.store = s.store
  aliases : t.aliases = s.aliases

/-- Other aliases are in a bucket, where what else the bucket and the others hold is as it was, and
the store has what the bucket holds. -/
structure Replaces (s : StateSpace) (name : String) (new : Entries Value) (t : StateSpace) :
    Prop where
  state : ∃ entries : Entries Value, s.stateOf name = .map entries ∧
    t.stateOf name = .map (entries.insert aliasKey (.map new))
  others : ∀ other, other ≠ name → t.stateOf other = s.stateOf other
  snapshot : t.snapshot name = .ok (t.stateOf name)

theorem Retains.replaces (h : s.Retains t) (ht : t.Replaces name new u) :
    s.Replaces name new u := by
  obtain ⟨entries, hold, hnew⟩ := ht.state
  refine ⟨⟨entries, ?_, hnew⟩, fun other hother => ?_, ht.snapshot⟩
  · rw [← h.states, hold]
  · rw [ht.others other hother, h.states]

/-- A map with aliases is delivered without a fault, if the watcher finds something in it. -/
theorem exists_deliver_aliases (mark : Nat) (hs : s.Tended name)
    (hnew : (aliasPart l).value = .map new) (i : Nat) :
    ∃ more, (s.deliver name i (.map mark (keyed l))).1 = .ok more := by
  cases hw : s.watcher? name i with
  | none => exact ⟨_, congrArg Prod.fst (deliver_of_none hw)⟩
  | some w =>
    rcases hs name i w hw with hreports | ⟨htakes, -⟩
    · exact exists_deliver_of_onlyReports mark l hw hreports
    · have hreceive := htakes.receive_map mark l
      split at hreceive
      · exact ⟨_, congrArg Prod.fst (deliver_of_repeated hw hreceive)⟩
      · have hdeliver := deliver_of_followAliases hw hreceive htakes.callback
        rw [hnew, AliasTable.ofValue_map] at hdeliver
        exact ⟨_, congrArg Prod.fst hdeliver⟩

/-- A map with aliases is delivered to any watchers of a bucket. -/
theorem deliverTo_aliases (mark : Nat) (hs : s.Tended name)
    (hnew : (aliasPart l).value = .map new) (is : List Nat) :
    (deliverTo name (.map mark (keyed l)) is s).1 = .ok () := by
  -- A delivery keeps the watchers, so the next one finds the bucket tended as well.
  induction is generalizing s with
  | nil => rfl
  | cons i is ih =>
    obtain ⟨more, hmore⟩ := exists_deliver_aliases mark hs hnew i
    have htold := told_deliver hs.quiet name i (.map mark (keyed l))
    rw [deliverTo_cons_of_ok hmore]
    exact ih (hs.of_watchers htold.watchers)

/-- A map with aliases is put into a bucket without a fault. -/
theorem put_aliases (mark : Nat) (hs : s.Tended name) (hb : s.bucket? name = some b)
    (hnew : (aliasPart l).value = .map new) : (s.put name (.map mark (keyed l))).1 = .ok () := by
  rw [put_of_some hb]
  refine deliverTo_aliases mark (hs.of_watchers fun _ _ => ?_) hnew _
  rw [watcher?_withState]

theorem stateOf_of_content {c : Live × Live} (h : s.content? name = some c) :
    s.stateOf name = c.2.value := by
  rw [stateOf_eq, h]
  rfl

/-- An update of the aliases puts a map with them into the bucket. -/
theorem exists_update_puts (hs : s.Sound) (htended : s.Tended name) (hb : s.bucket? name = some b)
    (hstate : b.state = .map mark (keyed l)) (hkeys : new.keys.Nodup)
    (hheld : ∀ e ∈ new, e.2.held = e.2) :
    ∃ x t, s.update name (.map [(aliasKey, .map new)]) = (.ok (), t) ∧ s.Puts name x t ∧
      x.Proper ∧ x.value = .map ((l.mapValues Live.value).insert aliasKey (.map new)) := by
  obtain ⟨next, X, hX, hXvalue, hupdate⟩ :=
    exists_update_aliases_eq hs.quiet hb hstate hkeys hheld
  obtain ⟨hl, hparts⟩ := (hstate ▸ hs.state_proper hb).of_keyed
  have hinserted : (l.insert aliasKey X).keys.Nodup := Entries.nodup_keys_insert hl
  have hpart : aliasPart (l.insert aliasKey X) = X := by
    unfold aliasPart
    rw [Entries.get?_insert, if_pos rfl]
    rfl
  have hmarked : ({ s with nextMark := next } : StateSpace).Tended name :=
    htended.of_watchers fun _ _ => rfl
  -- The new map carries the mark that was next; the aliases it was given took those behind.
  refine ⟨.map s.nextMark (keyed (l.insert aliasKey X)), _, ?_,
    puts_put_of_mark hs.quiet next name _, ?_, ?_⟩
  · exact hupdate.trans (Prod.ext (put_aliases s.nextMark hmarked hb (by rw [hpart, hXvalue])) rfl)
  · exact .map _ hinserted (Entries.forall_mem_insert (P := Live.Proper) hparts hX)
  · rw [Live.value_map _ hinserted, Entries.mapValues_insert, hXvalue]

/-- Aliases that are put into a bucket and kept in the store replace those before. -/
theorem exists_replaces (hs : s.Sound) (htended : s.Tended name)
    (hreads : s.store.failsGet = false) (hwrites : s.store.failsSet = false)
    (hb : s.bucket? name = some b) (hstate : b.state = .map mark (keyed l))
    (hold : b.state.value.isExpressible = true) (hkeys : new.keys.Nodup)
    (hheld : ∀ e ∈ new, e.2.held = e.2) (hexpressible : ∀ e ∈ new, e.2.isExpressible = true) :
    ∃ t u, s.update name (.map [(aliasKey, .map new)]) = (.ok (), t) ∧
      { t with reports := [] }.persist name = (.ok (), u) ∧ s.Replaces name new u ∧
      u.Sound ∧ u.Tended name ∧ u.store.failsGet = false ∧ u.store.failsSet = false ∧
      (u.stateOf name).isExpressible = true := by
  obtain ⟨x, t, hupdate, hput, hproper, hvalue⟩ :=
    exists_update_puts hs htended hb hstate hkeys hheld
  have hl := (hstate ▸ hs.state_proper hb).of_keyed.1
  have hvalueOld : s.stateOf name = .map (l.mapValues Live.value) := by
    rw [stateOf, hb, Option.map_some, Option.getD_some, hstate, Live.value_map mark hl]
  have hsound : t.Sound := hs.puts hproper hput
  have hcontent : t.content? name = some (b.initial, x) := by
    rw [hput.content, if_pos rfl, content?, hb]
    rfl
  have hnew : t.stateOf name = x.value := stateOf_of_content hcontent
  obtain ⟨c, hc, hcx⟩ := Option.map_eq_some_iff.mp hcontent
  obtain ⟨-, rfl⟩ := Prod.mk.inj hcx
  -- The store can keep what the bucket holds now.
  have hkeeps : c.state.value.isExpressible = true := by
    rw [hstate, Live.value_map mark hl, Value.isExpressible, Value.entriesExpressible_iff] at hold
    rw [hvalue, Value.isExpressible, Value.entriesExpressible_iff]
    exact Entries.forall_mem_insert (P := fun v : Value => v.isExpressible = true) hold
      (Value.entriesExpressible_iff.mpr hexpressible)
  obtain ⟨store, hpersist, hreads', hwrites', hsnapshot⟩ :=
    exists_persist_eq (s := { t with reports := [] }) hc (hsound.state_proper hc) hkeeps
      (by rw [show t.store = s.store from hput.store, hreads])
      (by rw [show t.store = s.store from hput.store, hwrites])
  refine ⟨t, _, hupdate, hpersist, ⟨⟨_, hvalueOld, hnew.trans hvalue⟩, fun other hother => ?_, ?_⟩,
    ⟨hsound.quiet, hsound.proper⟩, ?_, hreads', hwrites', ?_⟩
  · show t.stateOf other = s.stateOf other
    rw [stateOf_eq, stateOf_eq, hput.content, if_neg hother]
  · exact hsnapshot.trans (congrArg Except.ok hnew.symm)
  · exact htended.of_watchers hput.watchers
  · exact (congrArg Value.isExpressible hnew).trans hkeeps

end StateSpace

/-! ### Shells that hold aliases -/

/-- A processor is the root that its command leads to. -/
structure Registry.IsRoot (r : Registry Action) (p : ShellProcessor) : Prop where
  found : r.find? p.command [] = some p
  top : r.parent? p = none

theorem Registry.IsRoot.rootOf {r : Registry Action} {p : ShellProcessor} (h : r.IsRoot p) :
    r.rootOf p = p := by
  unfold Registry.rootOf
  cases r.parents.length with
  | zero => rfl
  | succ n => rw [climb, h.top]

theorem Builtin.isRoot_defineAliases :
    Builtin.registry.IsRoot ⟨2, Builtin.defineAliases, [⟨1, Builtin.listAliases, []⟩]⟩ := by
  refine ⟨?_, rfl⟩
  unfold Registry.find? Processor.find? Processor.answering?
  rw [processors_registry, processors, List.find?_cons_of_neg (by decide +kernel),
    List.find?_cons_of_pos (by decide +kernel)]

theorem Builtin.isRoot_removeAlias : Builtin.registry.IsRoot ⟨3, Builtin.removeAlias, []⟩ := by
  refine ⟨?_, rfl⟩
  unfold Registry.find? Processor.find? Processor.answering?
  rw [processors_registry, processors, List.find?_cons_of_neg (by decide +kernel),
    List.find?_cons_of_neg (by decide +kernel), List.find?_cons_of_pos (by decide +kernel)]

theorem Builtin.isRoot_echo : Builtin.registry.IsRoot ⟨4, Builtin.echo, []⟩ := by
  refine ⟨?_, rfl⟩
  unfold Registry.find? Processor.find? Processor.answering?
  rw [processors_registry, processors, List.find?_cons_of_neg (by decide +kernel),
    List.find?_cons_of_neg (by decide +kernel), List.find?_cons_of_neg (by decide +kernel),
    List.find?_cons_of_pos (by decide +kernel)]

namespace Session

variable {s t u : Session} {defined new : Entries Value}

/-- The second shell has the commands and the space of the first, but for what is told. -/
structure Resembles (s t : Session) : Prop where
  registry : t.registry = s.registry
  pinned : t.pinned = s.pinned
  space : ∃ reports, t.space = { s.space with reports := reports }

theorem Resembles.trans (s t u : Session) (h : s.Resembles t) (h' : t.Resembles u) :
    s.Resembles u := by
  obtain ⟨reports, ht⟩ := h.space
  obtain ⟨reports', hu⟩ := h'.space
  refine ⟨h'.registry.trans h.registry, h'.pinned.trans h.pinned, reports', ?_⟩
  rw [hu, ht]

theorem Resembles.retains (h : s.Resembles t) : s.space.Retains t.space := by
  obtain ⟨reports, ht⟩ := h.space
  rw [ht]
  exact ⟨rfl, rfl, rfl⟩

theorem frameCongruence_resembles : FrameCongruence fun _ x _ => Follows x Resembles :=
  frameCongruence_follows Resembles.trans fun s _ h hpinned =>
    ⟨h.registry, hpinned, s.space.reports, h.space⟩

/-- A shell in which `alias` and `unalias` are at hand holds some aliases in their bucket.  The
store works, and can keep what the bucket holds; and whoever watches a bucket reports what there is
to see, or takes the aliases from theirs. -/
structure HoldsAliases (s : Session) (defined : Entries Value) : Prop where
  defines : ∃ key below, s.registry.IsRoot ⟨key, Builtin.defineAliases, below⟩
  removes : ∃ key, s.registry.IsRoot ⟨key, Builtin.removeAlias, []⟩
  pinned : s.pinned = none
  sound : s.space.Sound
  tended : s.space.Tended "aliases"
  reads : s.space.store.failsGet = false
  writes : s.space.store.failsSet = false
  expressible : (s.space.stateOf "aliases").isExpressible = true
  aliases : s.aliasesOf? "aliases" = .ok (.map defined)

theorem HoldsAliases.resembles (h : s.HoldsAliases defined) (ht : s.Resembles t) :
    t.HoldsAliases defined := by
  obtain ⟨hregistry, hpinned, reports, hspace⟩ := ht
  refine ⟨?_, ?_, hpinned.trans h.pinned, ?_, ?_, ?_, ?_, ?_, ?_⟩
  · rw [hregistry]
    exact h.defines
  · rw [hregistry]
    exact h.removes
  · rw [hspace]
    exact ⟨h.sound.quiet, h.sound.proper⟩
  · rw [hspace]
    exact h.tended.of_watchers fun _ _ => rfl
  · rw [hspace]
    exact h.reads
  · rw [hspace]
    exact h.writes
  · rw [hspace]
    exact h.expressible
  · unfold aliasesOf?
    rw [hspace]
    exact h.aliases

/-- The bucket holds a map, in which the aliases stand. -/
theorem HoldsAliases.exists_bucket (h : s.HoldsAliases defined) :
    ∃ b mark l, s.space.bucket? "aliases" = some b ∧ b.state = .map mark (keyed l) ∧
      (aliasPart l).value.nonEmpty?.getD (.map []) = .map defined := by
  have hdefined := h.aliases
  unfold aliasesOf? StateSpace.stateOf at hdefined
  -- Without a bucket, or with a state that is no map, no aliases could be read.
  cases hb : s.space.bucket? "aliases" with
  | none =>
    rw [hb] at hdefined
    cases hdefined
  | some b =>
    rw [hb, Option.map_some, Option.getD_some] at hdefined
    cases hvalue : b.state.value with
    | map entries =>
      obtain ⟨mark, l, hstate, rfl, -⟩ := (h.sound.state_proper hb).entries_of_value hvalue
      refine ⟨b, mark, l, rfl, hstate, ?_⟩
      rw [hvalue] at hdefined
      rw [StateSpace.value_aliasPart]
      exact Except.ok.inj hdefined
    | _ =>
      rw [hvalue] at hdefined
      cases hdefined

theorem HoldsAliases.entries (h : s.HoldsAliases defined) : defined.keys.Nodup ∧
    (∀ e ∈ defined, e.2.held = e.2) ∧ ∀ e ∈ defined, e.2.isExpressible = true := by
  obtain ⟨b, mark, l, hb, hstate, hdefined⟩ := h.exists_bucket
  obtain ⟨hl, hparts⟩ := (hstate ▸ h.sound.state_proper hb).of_keyed
  have hexpressible := h.expressible
  rw [StateSpace.stateOf, hb, Option.map_some, Option.getD_some, hstate, Live.value_map mark hl,
    Value.isExpressible, Value.entriesExpressible_iff] at hexpressible
  refine StateSpace.entries_of_nonEmpty (StateSpace.proper_aliasPart hparts) ?_ hdefined
  rw [StateSpace.value_aliasPart]
  cases hget : Entries.get? (l.mapValues Live.value) aliasKey with
  | none => rfl
  | some v => exact hexpressible _ (Entries.mem_of_get? hget)

/-- A shell that started without buckets holds the aliases in their bucket, if all who watch a
bucket find something in every map. -/
theorem holdsAliases_of_works {ops : List SpaceOperation} (hstart : s.space.buckets = [])
    (hworks : s.Works ops t) (hsuits : ∀ op ∈ ops, op.Suits "aliases")
    (hdefines : ∃ key below, t.registry.IsRoot ⟨key, Builtin.defineAliases, below⟩)
    (hremoves : ∃ key, t.registry.IsRoot ⟨key, Builtin.removeAlias, []⟩) (hpinned : t.pinned = none)
    (hreads : t.space.store.failsGet = false) (hwrites : t.space.store.failsSet = false)
    (hexpressible : (t.space.stateOf "aliases").isExpressible = true)
    (haliases : t.aliasesOf? "aliases" = .ok (.map defined)) : t.HoldsAliases defined := by
  have hsound := StateSpace.sound_after (StateSpace.sound_of_no_buckets hstart) ops
  have htended := (StateSpace.mirrors_after hstart hsuits).1
  rw [← hworks.space_eq] at hsound htended
  exact ⟨hdefines, hremoves, hpinned, hsound, htended, hreads, hwrites, hexpressible, haliases⟩

/-- Two aliases. -/
def twoAliases : Entries Value :=
  [("hi", .text "echo hi"), ("ll", .text "echo ll")]

/-- The bucket is opened, the aliases in it are followed, and two of them are put into it. -/
def aliasingOperations : List SpaceOperation :=
  [.act (.opening "aliases" Builtin.aliasBucket.initial), .follow "aliases",
    .act (.update "aliases" (.map [(aliasKey, .map twoAliases)]))]

/-- A shell with the built-in processors and no buckets. -/
def blankShell : Session :=
  { Session.offering [] with registry := Builtin.registry, space := {} }

/-- A shell with the built-in processors and two aliases. -/
def aliasingShell : Session :=
  aliasingOperations.foldl (fun s op => (Run.buckets op.apply s).2) blankShell

theorem works_aliasingShell : blankShell.Works aliasingOperations aliasingShell :=
  ((Works.start.operates _).operates _).operates _

theorem suits_aliasingOperations : ∀ op ∈ aliasingOperations, op.Suits "aliases" := by
  intro op hop
  rcases List.mem_cons.mp hop with rfl | hop
  · trivial
  · rcases List.mem_pair.mp hop with rfl | rfl
    · rfl
    · trivial

theorem holdsAliases_aliasingShell : aliasingShell.HoldsAliases twoAliases :=
  holdsAliases_of_works rfl works_aliasingShell suits_aliasingOperations
    ⟨_, _, Builtin.isRoot_defineAliases⟩ ⟨_, Builtin.isRoot_removeAlias⟩ rfl rfl rfl
    (by decide +kernel) rfl

theorem mirrors_aliasingShell : aliasingShell.space.Mirrors "aliases" := by
  have hfollowed : SpaceOperation.Followed "aliases" aliasingOperations :=
    ⟨_, List.sublist_append_left [_, SpaceOperation.follow "aliases"] [_]⟩
  rw [works_aliasingShell.space_eq]
  exact (StateSpace.mirrors_after rfl suits_aliasingOperations).2 hfollowed

end Session

namespace Run

open Session

variable {s : Session} {defined new targets : Entries Value} {c : Scope} {i : Invocation}

/-! ### Handlers -/

/-- Aliases that are kept are those that the shell holds then. -/
theorem returns_keepAliases (h : s.HoldsAliases defined) (hkeys : new.keys.Nodup)
    (hheld : ∀ e ∈ new, e.2.held = e.2) (hexpressible : ∀ e ∈ new, e.2.isExpressible = true) :
    ∃ t, Returns (keepAliases "aliases" new) s () t ∧ t.process = s.process ∧
      s.space.Replaces "aliases" new t.space ∧ t.HoldsAliases new := by
  obtain ⟨b, mark, l, hb, hstate, -⟩ := h.exists_bucket
  have hold : b.state.value.isExpressible = true := by
    have hold := h.expressible
    rwa [StateSpace.stateOf, hb] at hold
  obtain ⟨v, w, hupdate, hpersist, hreplaces, hsound, htended, hreads, hwrites, hkept⟩ :=
    StateSpace.exists_replaces h.sound h.tended h.reads h.writes hb hstate hold hkeys hheld
      hexpressible
  -- What was reported along the way goes into the journal and leaves the space as it is.
  refine ⟨_, returns_keepAliases_of_persist hupdate hpersist, rfl,
    ⟨hreplaces.state, hreplaces.others, hreplaces.snapshot⟩, ?_⟩
  refine ⟨h.defines, h.removes, h.pinned, ⟨hsound.quiet, hsound.proper⟩,
    htended.of_watchers fun _ _ => rfl, hreads, hwrites, hkept, ?_⟩
  obtain ⟨entries, -, hnew⟩ := hreplaces.state
  have hlookup : (w.stateOf "aliases").lookup aliasKey = .ok (.map new) := by
    rw [hnew, Value.lookup, Entries.get?_insert, if_pos rfl]
    rfl
  unfold aliasesOf?
  show (w.stateOf "aliases").lookup aliasKey >>= _ = _
  rw [hlookup]
  exact congrArg Except.ok (StateSpace.nonEmpty?_map new)

theorem follows_announceAll (targets : Entries Value) :
    Follows (targets.forM fun e => announceAlias e.1 e.2) Resembles :=
  follows_forM (fun s => ⟨rfl, rfl, s.space.reports, rfl⟩) Resembles.trans
    (fun _ => frameCongruence_resembles.announceAlias _ _) targets

/-- A refusal unwinds the run, and its code is recorded. -/
theorem stops_of_refusal {α : Type} {x : Run α} (h : Makes x s [.refusal]) :
    ∃ t, Stops x s (.fault (.exited (.int (-1)))) t ∧ t.process.exitCode = .int (-1) := by
  rcases h.silent with hsilent | ⟨pre, code, t, hexits, -, hstops⟩
  · cases hsilent Exit.refusal List.mem_cons_self
  · have hcode : [code] = [Exit.refusal.code] ∧ pre = [] := by
      cases pre with
      | nil => exact ⟨congrArg (List.map Exit.code) hexits.symm, rfl⟩
      | cons x pre => simp at hexits
    obtain rfl : code = .int (-1) := (List.cons.inj hcode.1).1
    refine ⟨t, hstops, ?_⟩
    have hlast := h.code
    rwa [show x s = _ from hstops] at hlast

/-- An alias with the name of a root command is refused before anything is changed. -/
theorem stops_defineAliases (hne : i.args ≠ [])
    (h : i.args.any (fun e => s.registry.has e.1) = true) :
    ∃ t, Stops (defineAliases c i) s (.fault (.exited (.int (-1)))) t ∧
      t.process.exitCode = .int (-1) ∧ s.Resembles t := by
  have hmakes := makes_announceAll i.args s
  rw [if_pos h] at hmakes
  obtain ⟨t, hstops, hcode⟩ := stops_of_refusal hmakes
  have hsame := follows_announceAll i.args s
  rw [show (i.args.forM fun e => announceAlias e.1 e.2) s = _ from hstops] at hsame
  refine ⟨t, ?_, hcode, hsame⟩
  -- All aliases are announced before the first is kept, and the run ends among them.
  unfold defineAliases
  rw [if_neg (by simpa using hne)]
  exact stops_bind_iff.mpr (Or.inl hstops)

/-- Aliases that are free are announced, and nothing else happens. -/
theorem returns_announceAll (h : targets.any (fun e => s.registry.has e.1) = false) :
    ∃ t, Returns (targets.forM fun e => announceAlias e.1 e.2) s () t ∧ t.process = s.process := by
  induction targets generalizing s with
  | nil => exact ⟨s, rfl, rfl⟩
  | cons e targets ih =>
    rw [List.any_cons, Bool.or_eq_false_iff] at h
    obtain ⟨t, ht, hprocess⟩ := ih (s := { s with
      journal := .print (Style.info.mark (escapeMarkup e.1 ++ " -> " ++ escapeMarkup e.2.shown))
        :: s.journal }) h.2
    exact ⟨t, returns_bind_iff.mpr ⟨(), _, announceAlias_of_free h.1, ht⟩, hprocess⟩

theorem returns_definedAliases (h : s.HoldsAliases defined) :
    Returns (definedAliases "aliases") s (.map defined) s := by
  unfold Returns
  rw [definedAliases_apply, h.aliases]
  rfl

/-- Aliases with free names are given on top of those that the shell holds. -/
theorem returns_defineAliases (h : s.HoldsAliases defined) (hc : c.bucket = "aliases")
    (hne : i.args ≠ []) (hfree : i.args.any (fun e => s.registry.has e.1) = false) :
    ∃ t, Returns (defineAliases c i) s () t ∧ t.process = s.process ∧
      s.space.Replaces "aliases" (defined.overlay (i.args.mapValues fun v => .text v.shown))
        t.space ∧
      t.HoldsAliases (defined.overlay (i.args.mapValues fun v => .text v.shown)) := by
  -- All aliases are announced before any of them is kept.
  obtain ⟨u, hannounced, hprocess⟩ := returns_announceAll hfree
  have hsame := follows_announceAll i.args s
  rw [show (i.args.forM fun e => announceAlias e.1 e.2) s = _ from hannounced] at hsame
  have hu := h.resembles hsame
  obtain ⟨hkeys, hheld, hexpressible⟩ := h.entries
  have hnodup : (defined.overlay (i.args.mapValues fun v => .text v.shown)).keys.Nodup :=
    Entries.nodup_keys_overlay hkeys
  obtain ⟨t, ht, hprocess', hreplaces, hnew⟩ := returns_keepAliases hu hnodup
    (Entries.forall_mem_overlay (P := fun v : Value => v.held = v) hheld fun e he => by
      obtain ⟨e, -, rfl⟩ := List.mem_map.mp he
      rfl)
    (Entries.forall_mem_overlay (P := fun v : Value => v.isExpressible = true) hexpressible
      fun e he => by
        obtain ⟨e, -, rfl⟩ := List.mem_map.mp he
        rfl)
  refine ⟨t, ?_, hprocess'.trans hprocess, ?_, hnew⟩
  · unfold defineAliases
    rw [if_neg (by simpa using hne), hc]
    refine returns_bind_iff.mpr ⟨(), u, hannounced, returns_bind_iff.mpr
      ⟨_, u, returns_definedAliases hu, returns_bind_iff.mpr ⟨defined, u, rfl, ht⟩⟩⟩
  · exact hsame.retains.replaces hreplaces

/-- An alias that the shell does not hold cannot be removed. -/
theorem stops_removeAlias (h : s.HoldsAliases defined) (hc : c.bucket = "aliases")
    (hname : i.text.getD "" ∉ defined.keys) :
    ∃ t, Stops (removeAlias c i) s (.fault (.exited (.int (-1)))) t ∧
      t.process.exitCode = .int (-1) ∧ s.Resembles t := by
  have hhas : Value.containsText (.map defined) (i.text.getD "") = .ok false := by
    refine congrArg Except.ok (Bool.eq_false_iff.mpr fun hhas => ?_)
    exact hname (Entries.has_iff.mp hhas)
  have hstops : Stops (removeAlias c i) s (.fault (.exited (.int (-1)))) { s with
      process := s.process.exit (.int (-1))
      journal := .print (Style.error.mark
        ("Alias " ++ escapeMarkup (i.text.getD "") ++ " not found")) :: s.journal } := by
    unfold removeAlias
    rw [hc]
    refine stops_bind_iff.mpr (Or.inr ⟨_, s, returns_definedAliases h, ?_⟩)
    refine stops_bind_iff.mpr (Or.inr ⟨false, s, returns_ofExcept_iff.mpr ⟨hhas, rfl⟩, ?_⟩)
    rfl
  exact ⟨_, hstops, rfl, rfl, rfl, s.space.reports, rfl⟩

/-- An alias that the shell holds is removed. -/
theorem returns_removeAlias (h : s.HoldsAliases defined) (hc : c.bucket = "aliases")
    (hname : i.text.getD "" ∈ defined.keys) :
    ∃ t, Returns (removeAlias c i) s () t ∧ t.process = s.process ∧
      s.space.Replaces "aliases" (defined.erase (i.text.getD "")) t.space ∧
      t.HoldsAliases (defined.erase (i.text.getD "")) := by
  have hhas : Value.containsText (.map defined) (i.text.getD "") = .ok true :=
    congrArg Except.ok (Entries.has_iff.mpr hname)
  obtain ⟨hkeys, hheld, hexpressible⟩ := h.entries
  have hnodup : (defined.erase (i.text.getD "")).keys.Nodup := Entries.nodup_keys_erase hkeys
  obtain ⟨t, ht, hprocess, hreplaces, hnew⟩ := returns_keepAliases h hnodup
    (fun e he => hheld e (List.mem_of_mem_filter he))
    (fun e he => hexpressible e (List.mem_of_mem_filter he))
  have hreturns : Returns (removeAlias c i) s () { t with
      journal := .print (Style.success.mark
        ("Removed alias " ++ escapeMarkup (i.text.getD ""))) :: t.journal } := by
    unfold removeAlias
    rw [hc]
    refine returns_bind_iff.mpr ⟨_, s, returns_definedAliases h, ?_⟩
    refine returns_bind_iff.mpr ⟨true, s, returns_ofExcept_iff.mpr ⟨hhas, rfl⟩, ?_⟩
    refine returns_bind_iff.mpr ⟨defined, s, rfl, returns_bind_iff.mpr ⟨(), t, ht, ?_⟩⟩
    exact returns_say_iff.mpr rfl
  exact ⟨_, hreturns, hprocess, hreplaces, hnew.resembles ⟨rfl, rfl, t.space.reports, rfl⟩⟩

end Run

end CommandShell
