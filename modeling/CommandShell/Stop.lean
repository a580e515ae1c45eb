import CommandShell.Fault

/-!
# Ends of runs

A run of scripts ends early with a fault, which may be handled, or because it nests deeper than it
is allowed to, which may not.

## Main definitions

* `Stop`: why a run ends early.
* `Stop.ofExcept`: the outcome of an operation as that of a run.
-/

namespace CommandShell

/-- Why a run ends early. -/
inductive Stop where
  /-- Something failed. -/
  | fault (f : Fault)
  /-- The run nests deeper than it is allowed to. -/
  | unfinished

/-- The outcome of an operation as the outcome of a run. -/
def Stop.ofExcept {α : Type} : Except Fault α → Except Stop α
  | .ok a => .ok a
  | .error f => .error (.fault f)

end CommandShell
