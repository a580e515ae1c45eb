import CommandShell.State.Live

/-!
# State buckets

A bucket is a named state with watchers.  A watcher receives the state, or a part of it that it
selects; a selected part is received only when it differs from the one before.

## Main definitions

* `Selector`: a way to take a part out of a state.
* `WatcherAction`: what a watcher does with what it receives.
* `Watcher`: a watcher and what it received last.
* `Bucket`: a named state with its watchers.
* `Watcher.receive`: what a watcher makes of a state.
-/

namespace CommandShell

/-- Whether a text occurs in another one. -/
def Chars.contains (part : List Char) : List Char → Bool
  | [] => part.isEmpty
  | c :: rest => part.isPrefixOf (c :: rest) || Chars.contains part rest

namespace Live

/-- The number of parts of a live value. -/
def size? : Live → Except Fault Nat
  | .map _ entries => .ok entries.length
  | .list _ items => .ok items.length
  | .plain (.text s) => .ok s.length
  | x => .error (.noLength x.kind)

/-- Whether a live value contains another one: a map as a key, a list as an item, a text as a
part. -/
def contains? (x part : Live) : Except Fault Bool :=
  match x with
  | .map _ entries => do return (valueOf? entries (← part.asKey)).isSome
  | .list _ items => .ok (items.any fun item => identical item part || item.same part)
  | .plain (.text s) =>
    match part with
    | .plain (.text t) => .ok (Chars.contains t.toList s.toList)
    | _ => .error (.notPart part.kind)
  | x => .error (.notContainer x.kind)

end Live

/-- A way to take a part out of a state, or to make a plain value of it. -/
structure Selector where
  /-- The part of a state. -/
  select : Live → Except Fault Live
  /-- The part holds no containers but those of the state. -/
  marks_subset : ∀ {state part : Live}, select state = .ok part → part.marks ⊆ state.marks

namespace Selector

/-- The value of a key. -/
def key (k : Live) : Selector where
  select
    | .map _ entries => do return (Live.valueOf? entries (← k.asKey)).getD (.plain .null)
    | x => .error (.noMember x.kind "get")
  marks_subset {state part} h m hm := by
    cases state with
    | map mark entries =>
      cases hk : k.asKey with
      | error e =>
        rw [hk] at h
        cases h
      | ok k' =>
        rw [hk] at h
        cases h
        cases hvalue : Live.valueOf? entries k' with
        | none =>
          rw [hvalue] at hm
          cases hm
        | some x =>
          rw [hvalue] at hm
          exact List.mem_cons_of_mem _ (Live.mem_marks_of_valueOf? hvalue hm)
    | _ => cases h

/-- A plain value that is made of a state. -/
def made (f : Live → Except Fault Value) : Selector where
  select x := (f x).map .plain
  marks_subset {state part} h := by
    -- A plain value holds no containers that could be changed in place.
    cases hf : f state with
    | error e =>
      rw [hf] at h
      cases h
    | ok v =>
      rw [hf] at h
      cases h
      exact List.nil_subset _

/-- The number of parts. -/
def size : Selector :=
  made fun x => x.size?.map fun n => .int n

/-- Whether there is a part. -/
def has (part : Live) : Selector :=
  made fun x => (x.contains? part).map .bool

/-- All of it. -/
def whole : Selector where
  select := .ok
  marks_subset h := by cases h; exact List.Subset.refl _

end Selector

/-- What a watcher does with what it receives. -/
inductive WatcherAction where
  /-- Keeps an action for the next time. -/
  | later (action : WatcherAction)
  /-- Updates the bucket. -/
  | update (partial' : Value)
  /-- Puts the bucket back into its first state. -/
  | reset
  /-- Ends a subscription. -/
  | unsubscribe (label : String)
  /-- Fails. -/
  | fail (message : String)
  /-- Sets a part of what was received, in place. -/
  | setItem (key value : Value)
deriving Inhabited

namespace WatcherAction

/-- How often an action is put off, counting the time when it happens. -/
def weight : WatcherAction → Nat
  | later a => a.weight + 1
  | _ => 1

/-- How often all of some actions are put off, together. -/
def totalWeight : List WatcherAction → Nat
  | [] => 0
  | a :: rest => a.weight + totalWeight rest

end WatcherAction

/-- What happens when a watcher receives something. -/
inductive Callback where
  /-- It is reported, and the pending actions are done, each once. -/
  | report (pending : List WatcherAction)
  /-- The aliases that commands are expanded with are taken from it. -/
  | followAliases

/-- A watcher of a bucket. -/
structure Watcher where
  /-- The name under which the watcher reports. -/
  label : String
  /-- The part that it watches; without one it receives every state. -/
  selector : Option Selector
  /-- What it received last. -/
  last : Option Live := none
  /-- What happens when it receives something. -/
  callback : Callback
  /-- Whether its subscription is open. -/
  subscribed : Bool := true

/-- A named state with its watchers. -/
structure Bucket where
  /-- The name. -/
  name : String
  /-- The state at first. -/
  initial : Live
  /-- The state. -/
  state : Live
  /-- All watchers that ever subscribed, in the order in which they did. -/
  watchers : List Watcher := []

namespace Watcher

/-- What a watcher makes of a state: the value that it receives, unless a selected part equals the
one that it received last. -/
def receive (w : Watcher) (state : Live) : Except Fault (Option Live) := do
  match w.selector with
  | none => return some state
  | some s =>
    let part ← s.select state
    return if w.last.any (·.same part) then none else some part

end Watcher

namespace Bucket

/-- The key under which a bucket is kept. -/
def storageKey (b : Bucket) : String :=
  "store-state-" ++ b.name

/-- The positions of the watchers whose subscriptions are open, in order. -/
def subscribers (b : Bucket) : List Nat :=
  (b.watchers.zipIdx.filter (·.1.subscribed)).map (·.2)

/-- The bucket with one watcher changed. -/
def modifyWatcher (b : Bucket) (i : Nat) (f : Watcher → Watcher) : Bucket :=
  { b with watchers := b.watchers.modify i f }

/-- The bucket after a change in place of whatever it holds. -/
def mapLive (b : Bucket) (f : Live → Live) : Bucket :=
  { b with
    state := f b.state
    watchers := b.watchers.map fun w => { w with last := w.last.map f } }

end Bucket

end CommandShell
