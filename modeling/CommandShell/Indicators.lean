import CommandShell.Fault

/-!
# Busy indicators

A spinner, a progress bar and a line of animated text, of which at most one is shown.  Showing one
hides the others.  The spinner and the bar draw a task, which they are given when they are shown and
lose when they are hidden; without one, what they are told is ignored.  The animated text is
remembered.

## Main definitions

* `Indicator`: the three of them.
* `TaskDisplay`: a display that is running or not, with what it draws.
* `Indicators`: what each of them shows.
* `IndicatorChange`: what an indicator can be told.
* `Indicators.apply`: the indicators after a change.
* `Indicators.abort`: the indicators after an abort.
-/

namespace CommandShell

/-- The three busy indicators. -/
inductive Indicator where
  /-- The spinner. -/
  | spinner
  /-- The progress bar. -/
  | bar
  /-- The animated text. -/
  | text
deriving DecidableEq, Repr

/-- The progress of something, with a text beside it as it was given. -/
structure ProgressTask where
  /-- The progress from 0 to 100. -/
  percent : Float := 0.0
  /-- The text. -/
  text : Value

/-- A display that draws what it holds while it is running. -/
structure TaskDisplay (α : Type) where
  /-- Whether the display is running. -/
  running : Bool := false
  /-- What it draws, if it has been given something. -/
  task : Option α := none

/-- What the busy indicators show. -/
structure Indicators where
  /-- The spinner, with its text as it was given. -/
  spinner : TaskDisplay Value := {}
  /-- The progress bar. -/
  bar : TaskDisplay ProgressTask := {}
  /-- Whether the animated text is shown. -/
  animating : Bool := false
  /-- The animated text. -/
  animated : String := ""

/-- What an indicator can be told. -/
inductive IndicatorChange where
  /-- Shows the spinner, or gives the one that is shown another text. -/
  | spin (text : Value)
  /-- Gives the spinner another text. -/
  | spinText (text : Value)
  /-- Shows a new progress bar. -/
  | bar (text : Option Value)
  /-- Sets the progress, and the text unless that is empty. -/
  | progress (percent text : Value)
  /-- Ends the progress. -/
  | complete
  /-- Shows another animated text. -/
  | animate (text : Value)
  /-- Lets the animated text go on. -/
  | append (text : Value)
  /-- Hides an indicator. -/
  | hide (i : Indicator)
  /-- Hides all of them but one, if one is given. -/
  | hideAll (keep : Option Indicator)

/-- The characters of a text that can be animated: controls of the terminal are left out. -/
def animatable (s : String) : String :=
  String.ofList (s.toList.filter fun c => !([7, 8, 11, 12, 13].contains c.toNat))

/-- A value as a progress from 0 to 100. -/
def percentOf (v : Value) : Except Fault Float :=
  match v.number? with
  | some (.whole n) => .ok (Float.ofInt (max 0 (min 100 n)))
  | some (.floating x) =>
    let y := if x < 100.0 then x else 100.0
    .ok (if y > 0.0 then y else 0.0)
  | none => .error (.notOrdered v.kind "float")

namespace Indicators

/-- Whether an indicator is shown. -/
def shows (s : Indicators) : Indicator → Bool
  | .spinner => s.spinner.running
  | .bar => s.bar.running
  | .text => s.animating

/-- Whether any indicator is shown. -/
def busy (s : Indicators) : Bool :=
  s.shows .spinner || s.shows .bar || s.shows .text

/-- The progress; a bar without a task has none. -/
def percent (s : Indicators) : Float :=
  (s.bar.task.map (·.percent)).getD 0.0

/-- The indicators with one of them hidden, which leaves it without a task. -/
def hide (s : Indicators) : Indicator → Indicators
  | .spinner => { s with spinner := {} }
  | .bar => { s with bar := {} }
  | .text => { s with animating := false }

/-- The indicators with all that are shown hidden but one, if one is given. -/
def hideAll (s : Indicators) (keep : Option Indicator) : Indicators :=
  [Indicator.spinner, .bar, .text].foldl
    (fun s i => if keep = some i || !s.shows i then s else s.hide i) s

/-- The indicators with one of them running, for which all others are hidden. -/
def start (s : Indicators) (i : Indicator) : Indicators :=
  let s := s.hideAll (some i)
  match i with
  | .spinner => { s with spinner := { s.spinner with running := true } }
  | .bar => { s with bar := { s.bar with running := true } }
  | .text => { s with animating := true }

/-- The indicators with another text for the spinner; one without a task has none. -/
def setText (s : Indicators) (text : Value) : Indicators :=
  { s with spinner :=
    { s.spinner with task := s.spinner.task.map fun old => if text.isNull then old else text } }

/-- The indicators with the progress set, and its text unless that counts as false; a bar without a
task has none. -/
def advance (s : Indicators) (percent : Float) (text : Value) : Indicators :=
  { s with bar :=
    { s.bar with task :=
      s.bar.task.map fun task => ⟨percent, if text.truthy then text else task.text⟩ } }

/-- The indicators after the end of the progress. -/
def complete (s : Indicators) : Indicators :=
  (s.advance 100.0 .null).hide .bar

/-- The indicators after a change. -/
def apply (s : Indicators) : IndicatorChange → Except Fault Indicators
  | .spin text =>
    let text := if text.truthy then text else .text "Working..."
    if s.spinner.running then .ok (s.setText text)
    else .ok ({ s with spinner := { s.spinner with task := some text } }.start .spinner)
  | .spinText text => .ok (s.setText text)
  | .bar text =>
    let task : ProgressTask := { text := text.getD (.text "Processing...") }
    let s := s.hide .bar
    .ok ({ s with bar := { s.bar with task := some task } }.start .bar)
  | .progress percent text =>
    if s.bar.task.isNone then .ok s
    else do return s.advance (← percentOf percent) text
  | .complete => .ok s.complete
  | .animate (.text text) =>
    let s := { s with animated := animatable text }
    .ok (if s.animating then s else s.start .text)
  | .animate other => .error (.noMember other.kind "translate")
  | .append (.text text) => .ok { s with animated := s.animated ++ animatable text }
  | .append _ => .error .notAppendable
  | .hide i => .ok (s.hide i)
  | .hideAll keep => .ok (s.hideAll keep)

/-- The indicators after an abort, which ends the progress that is shown and hides all of them. -/
def abort (s : Indicators) : Indicators :=
  (if s.bar.running then s.complete else s).hideAll none

end Indicators

end CommandShell
