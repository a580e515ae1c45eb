import CommandShell.Shell.Start

/-!
# The host of a shell

A host runs lines, one at a time or as they are entered.  Before the first one the processors are
set up.  While lines are entered, blank ones are ignored, and so are those that come while a busy
indicator is shown; a line that fails as a whole is reported.

## Main definitions

* `Run.execute`: one line with its exit code.
* `Entry`: what is entered.
* `Run.interact`: runs what is entered.
* `Run.interrupt`: what an interrupt does.
* `Run.welcome`: the greeting.
-/

namespace CommandShell

/-- The name of the program. -/
def programName : String := "termshell"

/-- The version of the program. -/
def programVersion : String := "1.0.0"

/-- What is entered at a prompt. -/
inductive Entry where
  /-- A line. -/
  | line (text : String)
  /-- An interrupt. -/
  | interrupt
  /-- The end of all entries. -/
  | done
  /-- Nothing, because reading failed. -/
  | failed (fault : Fault)

namespace Run

/-- Sets up the processors, once. -/
def prepare : Run Unit := do
  if !(← get).ready then
    initializeProcessors
    modify fun s => { s with ready := true }

/-- The exit code of the last segment that ran; whatever counts as false is zero. -/
def exitCode : Run ExitCode := do
  return (← get).process.exitCode.nonEmpty?.getD (.int 0)

/-- One line with the exit code of the last segment that ran. -/
def execute (line : String) : Run ExitCode := do
  prepare
  rerun line
  exitCode

/-- The greeting. -/
def welcome : Run Unit :=
  emit (.panel ("[bold cyan]" ++ programName ++ "[/bold cyan] [green]v" ++ programVersion ++
    "[/green]\nType [cyan]help[/cyan] for a list of commands, Ctrl+D to exit.") "cyan" false)

/-- What an interrupt does: nothing is pinned any more, and what runs is aborted. -/
def interrupt : Run Unit := do
  pin none true
  abort

/-- Asks for a line; a pinned processor is named in front. -/
def prompt (text : Value) : Run Unit := do
  let pinned := match (← get).pinned with
    | some p => if p.command = "" then [] else
      [("class:context", Value.text ("(" ++ p.command ++ ") "))]
    | none => []
  emit (.prompt (pinned ++ [("class:prompt", text)]))

/-- Runs an entered line, unless it is blank or a busy indicator is shown. -/
def runEntered (line : String) : Run Unit := do
  if allBlank line || (← get).indicators.busy then pure ()
  else
    recover (rerun line) fun f => do
      log "host" .error "Unhandled error while executing line"
      say .error ("Unexpected error: " ++ f.message)

/-- What follows from something that was entered; the result tells whether more is asked for. -/
def runEntry : Entry → Run Bool
  | .line text => do runEntered text; return true
  | .interrupt => do interrupt; return true
  | .done => return false
  | .failed f => fail f

/-- Asks for lines and runs what is entered, up to the end of all entries. -/
def readEntries (promptText : Value) : List Entry → Run Unit
  | [] => prompt promptText
  | e :: rest => do
    prompt promptText
    if ← runEntry e then readEntries promptText rest

/-- What comes before the first line is asked for: a greeting, if the settings want one. -/
def greet (settings : Settings) : Run Unit := do
  prepare
  if (settings.get .showWelcome).truthy then welcome

/-- Runs what is entered, after a greeting. -/
def interact (settings : Settings) (entries : List Entry) : Run Unit := do
  greet settings
  readEntries (settings.get .prompt) entries

end Run

end CommandShell
