import CommandShell.Fault

/-!
# Cancellation tokens

A token is a flag that work looks at to stop early, together with callbacks that are called when the
flag is raised.  A callback that is added later is called at once.  Callbacks are added to a list of
observers under subscriptions, and closing a subscription takes one occurrence of its callback out
of the list.

## Main definitions

* `Subscription`: a callback that was added to a list of observers.
* `Subscription.close`: the end of a subscription.
* `CancelToken`: a flag with callbacks.
* `CancelToken.cancel`: raising the flag, and whom it calls.
* `CancelToken.check`: the fault that a raised flag is.
-/

namespace CommandShell

/-- A callback that was added to a list of observers. -/
structure Subscription (κ : Type) where
  /-- The callback. -/
  callback : κ
  /-- Whether the subscription has ended. -/
  closed : Bool := false
deriving DecidableEq

namespace Subscription

variable {κ : Type} [BEq κ]

/-- The subscription after its end, and the observers without one occurrence of its callback.  A
subscription ends once. -/
def close (s : Subscription κ) (observers : List κ) : Subscription κ × List κ :=
  if s.closed then (s, observers) else ({ s with closed := true }, observers.erase s.callback)

end Subscription

/-- A flag that work looks at to stop early. -/
structure CancelToken (κ : Type) where
  /-- Whether the flag is raised. -/
  cancelled : Bool := false
  /-- The callbacks, in the order in which they were added. -/
  callbacks : List κ := []

namespace CancelToken

variable {κ : Type}

/-- The token with its flag raised, and the callbacks that are called for it: all of them the first
time, and none after that. -/
def cancel (t : CancelToken κ) : CancelToken κ × List κ :=
  if t.cancelled then (t, []) else ({ t with cancelled := true }, t.callbacks)

/-- The token with one more callback. -/
def add (t : CancelToken κ) (callback : κ) : CancelToken κ :=
  { t with callbacks := t.callbacks ++ [callback] }

/-- The callbacks that are called when one is added. -/
def calledOnAdding (t : CancelToken κ) (callback : κ) : List κ :=
  if t.cancelled then [callback] else []

/-- Fails if the flag is raised. -/
def check (t : CancelToken κ) : Except Fault Unit :=
  if t.cancelled then .error (.cancelled "Operation cancelled") else .ok ()

end CancelToken

end CommandShell
