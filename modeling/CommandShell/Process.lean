import CommandShell.Fault

/-!
# The process record

What is known of the segment that runs or ran last: whether and with which code it exited, and the
payload that it passes on.

## Main definitions

* `ProcessRecord`: the record.
* `ProcessRecord.start`, `ProcessRecord.exit`, `ProcessRecord.output`, `ProcessRecord.finish`: its
  changes.
* `ProcessRecord.succeeded`: whether the segment counts as successful.
-/

namespace CommandShell

/-- What is known of the segment that runs or ran last. -/
structure ProcessRecord where
  /-- Whether the segment exited of its own accord. -/
  exited : Bool := false
  /-- The exit code, once there is one. -/
  exitCode : ExitCode := .null
  /-- The payload for the next segment. -/
  data : Value := .null
  /-- Whether a segment is running. -/
  running : Bool := false
  /-- Whether a payload was given. -/
  outputCalled : Bool := false

namespace ProcessRecord

/-- The record at the start of a segment. -/
def start (_ : ProcessRecord) : ProcessRecord :=
  { running := true }

/-- The record after the segment exits with a code. -/
def exit (p : ProcessRecord) (code : ExitCode) : ProcessRecord :=
  { p with exited := true, exitCode := code }

/-- The record after the segment gives a payload. -/
def output (p : ProcessRecord) (data : Value) : ProcessRecord :=
  { p with data := data, outputCalled := true }

/-- The record after the segment has ended; without a code the code is zero. -/
def finish (p : ProcessRecord) : ProcessRecord :=
  { p with running := false, exitCode := if p.exitCode.isNull then .int 0 else p.exitCode }

/-- Whether the segment counts as successful. -/
def succeeded (p : ProcessRecord) : Bool :=
  ExitCode.succeeded p.exitCode

/-- The payload that the segment passes on; none given is the absent value. -/
def payload (p : ProcessRecord) : Value :=
  if p.outputCalled then p.data else .null

end ProcessRecord

end CommandShell
