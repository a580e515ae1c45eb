import CommandShell.Event
import CommandShell.State.Aliases
import CommandShell.State.Bucket
import CommandShell.Storage.KeyValue

/-!
# The space of buckets

All buckets of a shell, over one key-value store.  A change of a state is delivered to the watchers
that are subscribed at that moment, one after another; a watcher may change a bucket in turn, which
is then delivered at once, before the delivery that was going on continues with its older state.  A
watcher that fails ends all deliveries that are going on.

## Main definitions

* `Delivery`: something that is still to be done in the course of a change.
* `StateSpace`: the buckets, the store and what has become of the watchers.
* `StateSpace.settle`: does all that is still to be done.
* `StateSpace.update`, `StateSpace.reset`, `StateSpace.load`, `StateSpace.persist`: the changes.
* `StateSpace.subscribe`, `StateSpace.unsubscribe`: watchers.
-/

namespace CommandShell

/-- Something that is still to be done in the course of a change. -/
inductive Delivery where
  /-- A state is delivered to the watcher at a position of a bucket. -/
  | deliver (bucket : String) (watcher : Nat) (state : Live)
  /-- The watcher at a position of a bucket acts on what it received. -/
  | act (bucket : String) (watcher : Nat) (received : Live) (actions : List WatcherAction)

/-- A delivery after a change in place of what it carries. -/
def Delivery.mapLive (f : Live → Live) : Delivery → Delivery
  | deliver b w state => deliver b w (f state)
  | act b w received actions => act b w (f received) actions

/-- The buckets of a shell. -/
structure StateSpace where
  /-- The buckets in the order in which they were opened. -/
  buckets : List Bucket := []
  /-- The store that buckets are kept in. -/
  store : KeyValueStore := {}
  /-- The bucket and the position of the watcher that subscribed last under a label. -/
  handles : Entries (String × Nat) := []
  /-- The aliases that commands are expanded with. -/
  aliases : AliasTable := []
  /-- The bucket and the position of the watcher that follows the aliases. -/
  aliasWatcher : Option (String × Nat) := none
  /-- The first mark that no live value carries. -/
  nextMark : Nat := 1
  /-- What the watchers reported, the latest first. -/
  reports : List Event := []

namespace StateSpace

/-- The bucket with a name. -/
def bucket? (s : StateSpace) (name : String) : Option Bucket :=
  s.buckets.find? (·.name == name)

/-- The state of a bucket; a bucket that was not opened has none. -/
def stateOf (s : StateSpace) (name : String) : Value :=
  ((s.bucket? name).map (·.state.value)).getD .null

/-- The space with the bucket of a name changed. -/
def modifyBucket (s : StateSpace) (name : String) (f : Bucket → Bucket) : StateSpace :=
  { s with buckets := s.buckets.map fun b => if b.name == name then f b else b }

/-- A value as a live one that shares nothing with what the space holds. -/
def fresh (s : StateSpace) (shared : Bool) (v : Value) : Live × StateSpace :=
  let (x, next) := Live.ofValue shared s.nextMark v
  (x, { s with nextMark := next })

/-- The space with a bucket opened, unless it was before; without an initial state that counts as
true the state is an empty map. -/
def openBucket (s : StateSpace) (name : String) (initial : Value) : StateSpace :=
  match s.bucket? name with
  | some _ => s
  | none =>
    let (initial, s) := s.fresh false (initial.nonEmpty?.getD (.map []))
    let (state, next) := initial.copy s.nextMark
    { s with buckets := s.buckets ++ [⟨name, initial, state, []⟩], nextMark := next }

/-- Every bucket with its state, in the order in which they were opened. -/
def entries (s : StateSpace) : Entries Value :=
  s.buckets.map fun b => (b.name, b.state.value)

/-! ### Deliveries -/

/-- How many actions a watcher has still pending, counted with the times that they are put off. -/
def watcherWeight (w : Watcher) : Nat :=
  match w.callback with
  | .report pending => WatcherAction.totalWeight pending
  | .followAliases => 0

/-- How many actions are still pending. -/
def pendingWeight (s : StateSpace) : Nat :=
  s.buckets.foldl (fun n b => b.watchers.foldl (fun n w => n + watcherWeight w) n) 0

/-- How many actions some deliveries still hold. -/
def agendaWeight : List Delivery → Nat
  | [] => 0
  | .deliver _ _ _ :: rest => agendaWeight rest
  | .act _ _ _ actions :: rest => WatcherAction.totalWeight actions + agendaWeight rest

/-- The number of all watchers. -/
def watcherCount (s : StateSpace) : Nat :=
  s.buckets.foldl (fun n b => n + b.watchers.length) 0

/-- A number of steps in which an agenda is finished: every delivery takes two, and every action
takes one and may add a delivery for each watcher. -/
def enoughSteps (s : StateSpace) (agenda : List Delivery) : Nat :=
  2 * agenda.length + (s.pendingWeight + agendaWeight agenda) * (2 * s.watcherCount + 2) + 2

/-- The space with a new state of a bucket, and its deliveries. -/
def setState (s : StateSpace) (name : String) (state : Live) : StateSpace × List Delivery :=
  match s.bucket? name with
  | none => (s, [])
  | some b =>
    -- Those who subscribe while the state is delivered do not get it.
    (s.modifyBucket name fun b => { b with state := state },
      b.subscribers.map fun i => .deliver name i state)

/-- The space with a copy of the first state of a bucket put into it, and its deliveries. -/
def setInitial (s : StateSpace) (name : String) : StateSpace × List Delivery :=
  match s.bucket? name with
  | none => (s, [])
  | some b =>
    let (state, next) := b.initial.copy s.nextMark
    { s with nextMark := next }.setState name state

/-- The state of a bucket with the entries of a map given on top, if the state is a map. -/
def merged (s : StateSpace) (name : String) (partial' : Value) : Except Fault Live × StateSpace :=
  let state := ((s.bucket? name).map (·.state)).getD (.plain .null)
  match state with
  | .map _ entries =>
    let (new, s) := s.fresh false partial'
    match new with
    | .map mark given => (.ok (.map mark (Live.overlay entries given)), s)
    | x => (.error (.notMapping x.kind), s)
  | x => (.error (.notMapping x.kind), s)

/-- Delivers a state to a watcher: what it receives is kept and reported, and its pending actions
become the next thing to do. -/
def deliver (s : StateSpace) (name : String) (i : Nat) (state : Live) :
    Except Fault (List Delivery) × StateSpace :=
  match (s.bucket? name).bind fun b => b.watchers[i]? with
  | none => (.ok [], s)
  | some w =>
    match w.receive state with
    | .error e => (.error e, s)
    | .ok none => (.ok [], s)
    | .ok (some received) =>
      let s := s.modifyBucket name fun b => b.modifyWatcher i fun w =>
        { w with last := some received }
      match w.callback with
      | .followAliases =>
        match AliasTable.ofValue received.value with
        | .ok table => (.ok [], { s with aliases := table })
        | .error e => (.error e, s)
      | .report pending =>
        -- What is pending is taken away before it is done, so that it is done once.
        let s := s.modifyBucket name fun b => b.modifyWatcher i fun w =>
          { w with callback := .report [] }
        (.ok [.act name i received pending],
          { s with reports := .seen w.label received.value :: s.reports })

/-- Ends the subscription under a label. -/
def unsubscribe (s : StateSpace) (label : String) : Except Fault Unit × StateSpace :=
  match s.handles.get? label with
  | none => (.error (.missingKey (.text label)), s)
  | some (name, i) =>
    (.ok (), s.modifyBucket name fun b => b.modifyWatcher i fun w => { w with subscribed := false })

/-- Sets a part of a live value in place, wherever it is held. -/
def setItem (s : StateSpace) (agenda : List Delivery) (x key : Live) (v : Value) :
    Except Fault (List Delivery) × StateSpace :=
  match x.settable? key with
  | .error e => (.error e, s)
  | .ok mark =>
    let (new, s) := s.fresh false v
    let change := Live.setItem mark key new
    (.ok (agenda.map (Delivery.mapLive change)),
      { s with buckets := s.buckets.map fun b => b.mapLive change })

/-- Keeps an action of a watcher for the next time that it receives something. -/
def putOff (s : StateSpace) (name : String) (i : Nat) (a : WatcherAction) : StateSpace :=
  s.modifyBucket name fun b => b.modifyWatcher i fun w =>
    match w.callback with
    | .report pending => { w with callback := .report (pending ++ [a]) }
    | .followAliases => w

/-- One action of a watcher of a bucket on what it received; the agenda is what else is to be
done. -/
def act (s : StateSpace) (agenda : List Delivery) (name : String) (i : Nat) (received : Live)
    (a : WatcherAction) : Except Fault (List Delivery) × StateSpace :=
  match a with
  | .later a => (.ok agenda, s.putOff name i a)
  | .update partial' =>
    match s.merged name partial' with
    | (.error e, s) => (.error e, s)
    -- The new state is delivered before the other actions go on.
    | (.ok state, s) => let (s, more) := s.setState name state; (.ok (more ++ agenda), s)
  | .reset => let (s, more) := s.setInitial name; (.ok (more ++ agenda), s)
  | .unsubscribe label =>
    match s.unsubscribe label with
    | (.error e, s) => (.error e, s)
    | (.ok (), s) => (.ok agenda, s)
  | .fail message => (.error (.failure message), s)
  | .setItem key v => let (key, s) := s.fresh false key; s.setItem agenda received key v

/-- Does what an agenda holds, in order; every step takes one from `fuel`. -/
def settleWithin : Nat → StateSpace → List Delivery → Except Fault Unit × StateSpace
  | _, s, [] => (.ok (), s)
  | 0, s, _ => (.ok (), s)
  | fuel + 1, s, .deliver name i state :: agenda =>
    match s.deliver name i state with
    | (.error e, s) => (.error e, s)
    | (.ok more, s) => settleWithin fuel s (more ++ agenda)
  | fuel + 1, s, .act _ _ _ [] :: agenda => settleWithin fuel s agenda
  | fuel + 1, s, .act name i received (a :: rest) :: agenda =>
    -- What is left to do with the value is on the agenda, where changes in place reach it.
    match s.act (.act name i received rest :: agenda) name i received a with
    | (.error e, s) => (.error e, s)
    | (.ok agenda, s) => settleWithin fuel s agenda

/-- Does all that an agenda holds and leads to. -/
def settle (s : StateSpace) (agenda : List Delivery) : Except Fault Unit × StateSpace :=
  settleWithin (s.enoughSteps agenda) s agenda

/-! ### Changes of buckets -/

/-- Gives the entries of a map on top of the state of a bucket. -/
def update (s : StateSpace) (name : String) (partial' : Value) : Except Fault Unit × StateSpace :=
  match s.merged name partial' with
  | (.error e, s) => (.error e, s)
  | (.ok state, s) => let (s, agenda) := s.setState name state; s.settle agenda

/-- Puts a bucket back into its first state. -/
def reset (s : StateSpace) (name : String) : Except Fault Unit × StateSpace :=
  let (s, agenda) := s.setInitial name
  s.settle agenda

/-- Changes the store, which stays as it is if that fails. -/
def onStore (s : StateSpace) (f : KeyValueStore → Except Fault KeyValueStore) :
    Except Fault Unit × StateSpace :=
  match f s.store with
  | .ok store => (.ok (), { s with store := store })
  | .error e => (.error e, s)

/-- Keeps the state of a bucket in the store. -/
def persist (s : StateSpace) (name : String) : Except Fault Unit × StateSpace :=
  match s.bucket? name with
  | none => (.ok (), s)
  | some b => s.onStore (·.put b.storageKey b.state.expressed)

/-- Puts a bucket into the state that the store keeps for it, if there is one.  A store that fails
is reported and changes nothing. -/
def load (s : StateSpace) (name : String) : Except Fault Unit × StateSpace :=
  match s.bucket? name with
  | none => (.ok (), s)
  | some b =>
    match s.store.get b.storageKey with
    | .error e =>
      let message := "Failed to load state for " ++ quoted name ++ ": " ++ e.message
      (.ok (), { s with reports := .log "state" .error message :: s.reports })
    | .ok .null => (.ok (), s)
    | .ok v =>
      let (state, s) := s.fresh true v
      let (s, agenda) := s.setState name state
      s.settle agenda

/-- Some values as keys. -/
def freshKeys (s : StateSpace) : List Value → List Live × StateSpace
  | [] => ([], s)
  | v :: rest =>
    let (key, s) := s.fresh false v
    let (keys, s) := s.freshKeys rest
    (key :: keys, s)

/-- Sets a part of the state of a bucket in place; the last key is that of the part. -/
def edit (s : StateSpace) (name : String) (path : List Value) (v : Value) :
    Except Fault Unit × StateSpace :=
  let (keys, s) := s.freshKeys path
  match s.bucket? name, keys.getLast? with
  | some b, some key =>
    match b.state.itemAt? keys.dropLast with
    | .error e => (.error e, s)
    | .ok x =>
      match s.setItem [] x key v with
      | (.error e, s) => (.error e, s)
      | (.ok _, s) => (.ok (), s)
  | _, _ => (.error .positionMissing, s)

/-! ### Watchers -/

/-- Adds a watcher, which receives the state at once, and gives its position.  A watcher that fails
at once stays. -/
def watch (s : StateSpace) (name : String) (w : Watcher) : Except Fault Nat × StateSpace :=
  match s.bucket? name with
  | none => (.ok 0, s)
  | some b =>
    let i := b.watchers.length
    let s := s.modifyBucket name fun b => { b with watchers := b.watchers ++ [w] }
    match s.settle [.deliver name i b.state] with
    | (.ok (), s) => (.ok i, s)
    | (.error e, s) => (.error e, s)

/-- Adds a watcher and makes its label known, unless it fails at once. -/
def subscribe (s : StateSpace) (name : String) (w : Watcher) : Except Fault Unit × StateSpace :=
  match s.watch name w with
  | (.ok i, s) => (.ok (), { s with handles := s.handles.insert w.label (name, i) })
  | (.error e, s) => (.error e, s)

/-- Takes the aliases from a bucket from now on, in place of where they were taken from before. -/
def followAliases (s : StateSpace) (name : String) : Except Fault Unit × StateSpace :=
  -- The watcher from before keeps its place among the watchers, but is told nothing any more.
  let s := match s.aliasWatcher with
    | some (old, i) =>
      s.modifyBucket old fun b => b.modifyWatcher i fun w => { w with subscribed := false }
    | none => s
  let watcher : Watcher :=
    { label := "", selector := some (.key (.ofText "aliases")), callback := .followAliases }
  match s.watch name watcher with
  | (.ok i, s) => (.ok (), { s with aliasWatcher := some (name, i) })
  | (.error e, s) => (.error e, s)

end StateSpace

end CommandShell
