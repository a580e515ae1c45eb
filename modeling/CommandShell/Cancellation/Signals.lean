import CommandShell.Cancellation.Token
import CommandShell.Entries
import CommandShell.Stop

/-!
# Signals

Tokens and broadcast channels whose callbacks may act on them in turn.  A token calls its callbacks
once, when it is cancelled; a channel calls its observers each time that something is emitted.  Both
call those that are there when the call begins.  A callback that fails ends the step that called it.

## Main definitions

* `SignalStep`: an act on the tokens and channels.
* `Signals`: the tokens and channels with the callbacks that were added, and what has happened.
* `Signals.openHandle`, `Signals.closeHandle`: a callback is added, or taken away.
* `Signals.raise`: the flag of a token is raised.
* `Signals.subscribe`, `Signals.cancel`, `Signals.emit`: what calls callbacks.
* `Signals.perform`: one step with all that it calls.
-/

namespace CommandShell

/-- An act on tokens and channels. -/
inductive SignalStep where
  /-- Makes a token. -/
  | token (name : String)
  /-- Makes a channel. -/
  | channel (name : String)
  /-- Adds a callback, which performs some steps, to a token or a channel. -/
  | watch (name tag : String) (steps : List SignalStep)
  /-- Adds a callback that was added before under some tag. -/
  | watchAgain (name tag earlier : String)
  /-- Ends a subscription. -/
  | unwatch (tag : String)
  /-- Cancels a token. -/
  | cancel (name : String)
  /-- Emits on a channel. -/
  | emit (name : String)
  /-- Fails if a token is cancelled. -/
  | check (name : String)
  /-- Fails. -/
  | fail (message : String)
deriving Inhabited

/-- What callbacks can be added to; callbacks are known by their numbers. -/
inductive SignalSource where
  /-- A token. -/
  | token (t : CancelToken Nat)
  /-- A channel with its observers. -/
  | channel (observers : List Nat)

/-- The callbacks that a source calls. -/
def SignalSource.observers : SignalSource → List Nat
  | token t => t.callbacks
  | channel observers => observers

/-- Whether a source is a cancelled token. -/
def SignalSource.cancelled : SignalSource → Bool
  | token t => t.cancelled
  | channel _ => false

/-- A source with other callbacks. -/
def SignalSource.withObservers : SignalSource → List Nat → SignalSource
  | token t, observers => token { t with callbacks := observers }
  | channel _, observers => channel observers

/-- A subscription with the number of the source it belongs to. -/
structure SignalHandle where
  /-- The number of the source. -/
  source : Nat
  /-- The subscription. -/
  subscription : Subscription Nat
deriving DecidableEq

/-- Something that happens to tokens and channels. -/
inductive SignalEvent where
  /-- A source calls a callback. -/
  | called (source callback : Nat)
  /-- The flag of a token is raised. -/
  | cancelled (source : Nat)
  /-- A handle is closed. -/
  | closed (handle : Nat)
deriving DecidableEq

/-- Tokens and channels with the callbacks that were added to them. -/
structure Signals where
  /-- The tokens and channels by their numbers. -/
  sources : List SignalSource := []
  /-- The number of the latest token under each name. -/
  tokens : Entries Nat := []
  /-- The number of the latest channel under each name. -/
  channels : Entries Nat := []
  /-- The tag and the steps of every callback, by its number. -/
  callbacks : List (String × List SignalStep) := []
  /-- The handles of the callbacks that were added, by their numbers. -/
  handles : List SignalHandle := []
  /-- The number of the last handle under each tag. -/
  subscriptions : Entries Nat := []
  /-- What has happened, the latest first. -/
  journal : List SignalEvent := []

/-- A run of signal steps. -/
abbrev SignalRun (α : Type) := ExceptT Stop (StateM Signals) α

namespace Signals

/-! ### Tokens, channels and handles -/

/-- The signals with one more source. -/
def addSource (σ : Signals) (s : SignalSource) : Signals :=
  { σ with sources := σ.sources ++ [s] }

/-- The signals after something that happened. -/
def note (σ : Signals) (ev : SignalEvent) : Signals :=
  { σ with journal := ev :: σ.journal }

/-- The signals with a callback added to a source, under a new handle. -/
def openHandle (σ : Signals) (n callback : Nat) : Signals :=
  match σ.sources[n]? with
  | none => σ
  | some s =>
    { σ with
      sources := σ.sources.set n (s.withObservers (s.observers ++ [callback]))
      handles := σ.handles ++ [⟨n, { callback }⟩] }

/-- The signals with a handle closed, unless it was closed before. -/
def closeHandle (σ : Signals) (h : Nat) : Signals :=
  match σ.handles[h]? with
  | none => σ
  | some ⟨n, subscription⟩ =>
    if subscription.closed then σ
    else
      let s := σ.sources[n]?.getD (.channel [])
      let (subscription, observers) := subscription.close s.observers
      { σ with
        sources := σ.sources.set n (s.withObservers observers)
        handles := σ.handles.set h ⟨n, subscription⟩ }.note (.closed h)

/-- The signals with the flag of a token raised, and the callbacks that are called for it. -/
def raise (σ : Signals) (n : Nat) : Signals × List Nat :=
  match σ.sources[n]? with
  | some (.token t) =>
    if t.cancelled then (σ, [])
    else
      let (t, called) := t.cancel
      ({ σ with sources := σ.sources.set n (.token t) }.note (.cancelled n), called)
  | _ => (σ, [])

/-- The flag of the token with a number. -/
def check (σ : Signals) (n : Nat) : Except Fault Unit :=
  match σ.sources[n]? with
  | some (.token t) => t.check
  | _ => .ok ()

/-! ### Steps -/

/-- The number of something with a name, of which there may be none. -/
def known (name : String) (number? : Option Nat) : SignalRun Nat :=
  match number? with
  | some n => return n
  | none => throw (.fault (.missingKey (.text name)))

/-- Makes a source, and gives its number. -/
def make (s : SignalSource) : SignalRun Nat := do
  let n := (← get).sources.length
  modify (·.addSource s)
  return n

/-- Adds a callback to a source, under a tag: it is called at once if the source is a cancelled
token, and stays unknown if that fails. -/
def subscribe (call : Nat → Nat → SignalRun Unit) (n callback : Nat) (tag : String) :
    SignalRun Unit := do
  if let some (.token t) := (← get).sources[n]? then (t.calledOnAdding callback).forM (call n)
  modify fun σ =>
    { σ.openHandle n callback with subscriptions := σ.subscriptions.insert tag σ.handles.length }

/-- Cancels a token, which calls the callbacks that it has then, if it was not cancelled before. -/
def cancel (call : Nat → Nat → SignalRun Unit) (n : Nat) : SignalRun Unit := do
  let called := ((← get).raise n).2
  modify fun σ => (σ.raise n).1
  called.forM (call n)

/-- Emits on a channel, which calls the observers that it has then. -/
def emit (call : Nat → Nat → SignalRun Unit) (n : Nat) : SignalRun Unit := do
  if let some (.channel observers) := (← get).sources[n]? then observers.forM (call n)

/-- The number of the token with a name, or if there is none of the channel. -/
def watched (name : String) : SignalRun Nat := do
  let σ ← get
  known name (σ.tokens.get? name <|> σ.channels.get? name)

/-- One step, where `call` lets a source call a callback. -/
def stepWith (call : Nat → Nat → SignalRun Unit) : SignalStep → SignalRun Unit
  | .token name => do
    let n ← make (.token {})
    modify fun σ => { σ with tokens := σ.tokens.insert name n }
  | .channel name => do
    let n ← make (.channel [])
    modify fun σ => { σ with channels := σ.channels.insert name n }
  | .watch name tag steps => do
    let n ← watched name
    let callback := (← get).callbacks.length
    modify fun σ => { σ with callbacks := σ.callbacks ++ [(tag, steps)] }
    subscribe call n callback tag
  | .watchAgain name tag earlier => do
    let n ← watched name
    let h ← known earlier ((← get).subscriptions.get? earlier)
    if let some handle := (← get).handles[h]? then
      subscribe call n handle.subscription.callback tag
  | .unwatch tag => do
    let h ← known tag ((← get).subscriptions.get? tag)
    modify (·.closeHandle h)
  | .cancel name => do
    let n ← known name ((← get).tokens.get? name)
    cancel call n
  | .emit name => do
    let n ← known name ((← get).channels.get? name)
    emit call n
  | .check name => do
    let n ← known name ((← get).tokens.get? name)
    ExceptT.mk (pure (Stop.ofExcept ((← get).check n)))
  | .fail message => throw (.fault (.failure message))

/-- Lets a source call the callback with a number; callbacks that lead to one another take one from
`fuel` each. -/
def call : Nat → Nat → Nat → SignalRun Unit
  | 0, _, _ => throw .unfinished
  | fuel + 1, n, number => do
    modify (·.note (.called n number))
    if let some (_, steps) := (← get).callbacks[number]? then
      steps.forM (stepWith (call fuel))

/-- How deep callbacks may lead to one another. -/
def maxNesting : Nat := 500

/-- One step with all that it calls. -/
def perform (step : SignalStep) : SignalRun Unit :=
  stepWith (call maxNesting) step

/-! ### What can be seen from outside -/

/-- The names of the tokens, and whether the latest with each is cancelled. -/
def cancelled (σ : Signals) : List (String × Bool) :=
  σ.tokens.map fun e => (e.1, σ.sources[e.2]?.any (·.cancelled))

/-- The tags of the subscriptions, and whether they have ended. -/
def closed (σ : Signals) : List (String × Bool) :=
  σ.subscriptions.map fun e => (e.1, σ.handles[e.2]?.any (·.subscription.closed))

/-- The tags of the callbacks that were called since there was an earlier journal, the latest
first. -/
def firedSince (σ : Signals) (earlier : List SignalEvent) : List String :=
  (σ.journal.take (σ.journal.length - earlier.length)).filterMap fun
    | .called _ callback => σ.callbacks[callback]?.map (·.1)
    | _ => none

end Signals

end CommandShell
