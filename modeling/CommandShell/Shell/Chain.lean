import CommandShell.Line.Part
import CommandShell.Value.Basic

/-!
# Chains of segments

How the parts of a line follow one another.  What it means to run a segment or to append a payload
to a file is left open here; a chain only decides what runs, with which payload, and whether the
line counts as successful.

## Main definitions

* `ChainRunner`: what a chain leaves open.
* `ChainState`: what is known after some parts of a line.
* `runChain`: the parts of a line, one after another.
* `appendTargets`: the paths that follow `>>` in a line.
-/

namespace CommandShell

/-- How a segment ended. -/
structure SegmentOutcome where
  /-- Whether it counts as successful. -/
  succeeded : Bool
  /-- The payload that it leaves; nothing if the payload from before stays. -/
  payload : Option Value

/-- What a chain leaves open. -/
structure ChainRunner (m : Type → Type) where
  /-- Runs a segment with the payload that is piped in. -/
  segment : String → Value → m SegmentOutcome
  /-- Appends a payload to the file at a path, and tells whether this succeeded. -/
  append : String → Value → m Bool
  /-- Reports that a path is missing. -/
  missingPath : m Unit

/-- What is known after some parts of a line. -/
structure ChainState where
  /-- Whether the last part that ran succeeded. -/
  succeeded : Bool := true
  /-- The payload of the last segment that ran. -/
  payload : Value := .null
  /-- Whether the next segment runs. -/
  runNext : Bool := true
  /-- Whether the next segment takes the payload. -/
  piped : Bool := false

namespace ChainState

/-- What is known after one of the operators between segments. -/
def afterOperator (s : ChainState) : Operator → ChainState
  | .and => { s with runNext := s.succeeded, piped := false }
  | .or => { s with runNext := !s.succeeded, piped := false }
  | .pipe => { s with runNext := true, piped := true }
  | .append => { s with piped := false }

/-- What is known after a segment that ran. -/
def afterSegment (s : ChainState) (o : SegmentOutcome) : ChainState where
  succeeded := o.succeeded
  payload := o.payload.getD s.payload
  runNext := true
  piped := false

/-- What is known after a segment that did not run. -/
def afterSkipped (s : ChainState) : ChainState :=
  { s with piped := false }

/-- What is known after a payload was appended to a file, or failed to be. -/
def afterAppend (s : ChainState) (done : Bool) : ChainState :=
  { s with succeeded := s.succeeded && done, payload := .null, piped := false }

/-- What is known after a path was found to be missing. -/
def afterMissingPath (s : ChainState) : ChainState :=
  { s with succeeded := false, piped := false }

/-- The payload that the next segment takes. -/
def input (s : ChainState) : Value :=
  if s.piped then s.payload else .null

end ChainState

variable {m : Type → Type} [Monad m]

/-- The parts of a line, one after another.  The part after `>>` is its path, also if it is an
operator, which then is no path. -/
def runChain (r : ChainRunner m) : ChainState → List Part → m ChainState
  | s, [] => pure s
  | s, .segment text :: rest =>
    if s.runNext then do
      let o ← r.segment text s.input
      runChain r (s.afterSegment o) rest
    else runChain r s.afterSkipped rest
  | s, .operator .append :: .segment path :: rest =>
    if s.runNext then do
      let done ← r.append path s.payload
      runChain r (s.afterAppend done) rest
    else runChain r s.afterSkipped rest
  | s, .operator .append :: .operator _ :: rest => do
    r.missingPath
    runChain r s.afterMissingPath rest
  | s, [.operator .append] => do
    r.missingPath
    return s.afterMissingPath
  | s, .operator .and :: rest => runChain r (s.afterOperator .and) rest
  | s, .operator .or :: rest => runChain r (s.afterOperator .or) rest
  | s, .operator .pipe :: rest => runChain r (s.afterOperator .pipe) rest

/-- The paths that follow `>>` in a line. -/
def appendTargets : List Part → List String
  | [] => []
  | .operator .append :: .segment path :: rest => path :: appendTargets rest
  | _ :: rest => appendTargets rest

end CommandShell
