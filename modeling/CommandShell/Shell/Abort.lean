import CommandShell.Shell.Session

/-!
# Aborting

An abort ends the progress that is shown, cancels the current token, and tells everybody who watches
for aborts.

## Main definitions

* `Run.newToken`: a new token, which becomes the current one.
* `Run.cancel`: cancels a token.
* `Run.onCancel`, `Run.onAbort`: what is reported later.
* `Run.abort`: aborts.
-/

namespace CommandShell

/-- The token with a number. -/
def Session.token (s : Session) (number : Nat) : CancelToken String :=
  (s.tokens[number]?).getD {}

namespace Run

/-- A new token, which becomes the current one. -/
def newToken : Run Nat := do
  let number := (← get).tokens.length
  modify fun s => { s with tokens := s.tokens ++ [{}], currentToken := number }
  return number

/-- Cancels a token; its callbacks are reported. -/
def cancel (number : Nat) : Run Unit := do
  let (t, called) := ((← get).token number).cancel
  modify fun s => { s with tokens := s.tokens.set number t }
  called.forM fun tag => emit (.cancelled tag)

/-- Adds a callback to a token; if it is cancelled already the callback is reported at once. -/
def onCancel (number : Nat) (tag : String) : Run Unit := do
  let t := (← get).token number
  (t.calledOnAdding tag).forM fun tag => emit (.cancelled tag)
  modify fun s => { s with tokens := s.tokens.set number (t.add tag) }

/-- Reports every abort from now on. -/
def onAbort (tag : String) : Run Unit :=
  modify fun s =>
    let watcher := (s.abortCount, tag)
    { s with
      abortWatchers := s.abortWatchers ++ [watcher]
      abortSubscriptions := s.abortSubscriptions.insert tag ⟨watcher, false⟩
      abortCount := s.abortCount + 1 }

/-- Ends the last subscription to aborts under a tag. -/
def offAbort (tag : String) : Run Unit := do
  match (← get).abortSubscriptions.get? tag with
  | none => fail (.missingKey (.text tag))
  | some subscription =>
    modify fun s =>
      let (subscription, watchers) := subscription.close s.abortWatchers
      { s with
        abortWatchers := watchers
        abortSubscriptions := s.abortSubscriptions.insert tag subscription }

/-- Hides the busy indicators. -/
def hideIndicators : Run Unit :=
  modify fun s => { s with indicators := s.indicators.hideAll none }

/-- Aborts. -/
def abort : Run Unit := do
  modify fun s => { s with indicators := s.indicators.abort }
  cancel (← get).currentToken
  (← get).abortWatchers.forM fun w => emit (.aborted w.2)

end Run

end CommandShell
