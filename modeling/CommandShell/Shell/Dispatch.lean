import CommandShell.Payload
import CommandShell.Shell.Aliasing
import CommandShell.Shell.Description

/-!
# Dispatching commands

A segment that leads to a processor is first looked through for requests that need no handler, and
checked: parameters, free text, and the replies of the processor.  Then the handler runs between the
hooks.  A handler that exits aborts; any other fault is reported and makes the segment fail.

## Main definitions

* `Run.parametersFit`: whether arguments fit the parameters of a processor.
* `Run.handle`: what the handler of a processor does.
* `Run.dispatch`: the handler between its hooks.
* `Run.reach`: everything from the processor that a segment leads to.
-/

namespace CommandShell

/-! ### Checks -/

/-- Whether an argument counts as true. -/
def wants (args : Entries Value) (name : String) : Bool :=
  ((args.get? name).map Value.truthy).getD false

/-- A flag as it is shown in a message. -/
def shownFlag (name : String) : String :=
  coloured "cyan" ("--" ++ name)

/-- The required parameters that were not given. -/
def missingParameters (ps : List Parameter) (args : Entries Value) : List Parameter :=
  ps.filter fun p => p.required && (p.given? args).isNone

/-- A value that a parameter refuses. -/
structure RefusedValue where
  /-- The name of the parameter. -/
  name : String
  /-- The value. -/
  value : Value
  /-- Why it is refused. -/
  reason : Option String

/-- The value that a parameter refuses, if one was given. -/
def Parameter.refused? (p : Parameter) (args : Entries Value) :
    Except Fault (Option RefusedValue) :=
  match p.check, p.given? args with
  | some check, some v => do
    match ← check.judge v with
    | .accepted => return none
    | .rejected reason => return some ⟨p.name, v, reason⟩
  | _, _ => .ok none

/-- The values that some parameters refuse. -/
def refusedValues (ps : List Parameter) (args : Entries Value) :
    Except Fault (List RefusedValue) := do
  return (← ps.mapM (·.refused? args)).filterMap id

/-- A refused value as it is listed under a number. -/
def RefusedValue.line (r : RefusedValue) (number : Nat) : String :=
  let reason := (r.reason.filter (· ≠ "")).getD "invalid value"
  "  " ++ toString number ++ ". " ++ shownFlag r.name ++ " = \"" ++ escapeMarkup r.value.shown ++
    "\" → " ++ reason

/-- What a processor replies to a command; without a rule for its free text it is accepted. -/
def Processor.reply {α : Type} (p : Processor α) (i : Invocation) : Except Fault Verdict :=
  let rules := p.decl.replies.getD []
  match rules.find? fun r => (r.value.map (·.same i.textValue)).getD true with
  | none => .ok .accepted
  | some ⟨_, .verdict v⟩ => .ok v
  | some ⟨_, .fails f⟩ => .error f

namespace Run

/-- Whether the arguments fit the parameters of a processor; what is wrong is reported. -/
def parametersFit (ps : List Parameter) (args : Entries Value) : Run Bool := do
  let missing := missingParameters ps args
  if !missing.isEmpty then
    say .error ("Missing required parameters: " ++
      ", ".intercalate (missing.map fun p => shownFlag p.name))
    return false
  else
    let refused ← ofExcept (refusedValues ps args)
    if refused.isEmpty then return true
    else
      say .error "Invalid parameters:"
      refused.zipIdx.forM fun e => print (e.1.line (e.2 + 1))
      return false

/-! ### Handlers -/

/-- Writes the free text of a command, or else the payload that is piped in, and passes it on. -/
def echo (i : Invocation) : Run Unit := do
  let text :=
    match i.text.filter (· ≠ "") with
    | some text => stripQuotes text
    | none => if i.data.isNull then "" else payloadText i.data
  print (escapeMarkup text)
  process (·.output (.text text))

variable (rerun : String → Run Unit)

/-- What the handler of a processor does in a scope. -/
def handle (c : Scope) (i : Invocation) : Handler Action → Run Unit
  | .script actions => performAll rerun { c with invocation := some i } actions
  | .help => help rerun c i
  | .defineAliases => defineAliases c i
  | .listAliases => listAliases c
  | .removeAlias => removeAlias c i
  | .echo => echo i

/-- The scripts of the hooks of a phase. -/
def runHooks (c : Scope) (p : ShellProcessor) (phase : HookPhase) : Run Unit :=
  (p.hookScripts phase).forM (performAll rerun c)

/-- The handler of a processor between its hooks. -/
def handleBetweenHooks (c : Scope) (p : ShellProcessor) (i : Invocation) : Run Unit := do
  runHooks rerun c p .before
  handle rerun c i p.decl.handler
  runHooks rerun c p .after

/-- What follows a fault of a handler or a hook: an exit aborts, and everything else is reported and
makes the segment fail. -/
def settleFault : Fault → Run Unit
  | .exited code => do
    abort
    if Value.same code (.int 0) then say .info "Process exited successfully with code 0"
    else say .error ("Process exited with code " ++ Value.shown code)
  | f => do
    hideIndicators
    reportFailure f
    exitSilently (-1)

/-- Dispatches a command to a processor. -/
def dispatch (p : ShellProcessor) (i : Invocation) : Run Unit := do
  let c ← openScope p
  recover (handleBetweenHooks rerun c p i) settleFault

/-- Checks the free text and the replies of a processor, and dispatches the command. -/
def reachChecked (p : ShellProcessor) (i : Invocation) : Run Unit := do
  if p.decl.needsText && (i.text.getD "").isEmpty then
    say .error ("Value required: " ++ coloured "cyan" (i.command ++ " <value>"))
    exitSilently (-1)
  else
    match ← ofExcept (p.reply i) with
    | .accepted => dispatch rerun p i
    | .rejected reason =>
      say .error ((reason.filter (· ≠ "")).getD
        "An error occurred while validating the command.")
      exitSilently (-1)

/-- Everything from the processor that a segment leads to. -/
def reach (p : ShellProcessor) (i : Invocation) : Run Unit := do
  -- Requests are answered before anything is checked.
  if wants i.args "v" || wants i.args "version" then print (coloured "cyan" p.version.shown)
  -- The command that describes others cannot be asked to describe itself this way.
  else if !i.command.startsWith "help" && (wants i.args "h" || wants i.args "help") then
    showHelp rerun i.raw
  else if wants i.args "context" then pin (some p) false
  else if !(← parametersFit p.decl.parameters i.args) then exitSilently (-1)
  else
    let text := if p.acceptsText then textAfterWord? i.command p.names else none
    reachChecked rerun p { i with text := text }

end Run

end CommandShell
