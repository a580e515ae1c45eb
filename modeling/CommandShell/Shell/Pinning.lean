import CommandShell.Shell.Session

/-!
# Where commands are looked up

Commands are the root processors, or, while a processor is pinned, its subordinate ones.

## Main definitions

* `Session.commands`: the processors among which commands are looked up.
* `Run.pin`: pins a processor.
* `Run.enter`, `Run.register`, `Run.unregister`: changes of the registry, with their warnings.
-/

namespace CommandShell

/-- The processors among which commands are looked up. -/
def Session.commands (s : Session) : List ShellProcessor :=
  match s.pinned with
  | some p => p.children
  | none => s.registry.processors

namespace Run

/-- Pins a processor, or none. -/
def pin (p : Option ShellProcessor) (silent : Bool) : Run Unit := do
  match p with
  | some p =>
    unless silent do
      say .info s!"Set {p.command} as context processor, press Ctrl+C to exit"
  | none => pure ()
  modify fun s => { s with pinned := p }

/-- A processor under fresh keys. -/
def adopt (p : ShellProcessor) : Run ShellProcessor := do
  let (p, registry) := (← get).registry.adopt p
  modify fun s => { s with registry := registry }
  return p

/-- Registers a processor as it is, which may have been registered before. -/
def enter (p : ShellProcessor) : Run Registration := do
  let (registry, outcome) := (← get).registry.register p
  modify fun s => { s with registry := registry }
  (outcome.warning? p.command).forM (log "registry" .warning)
  return outcome

/-- Registers a new processor. -/
def register (p : ShellProcessor) : Run Registration := do
  enter (← adopt p)

/-- Unregisters the processor that answers to a name. -/
def unregister (name : String) : Run Removal := do
  let (registry, outcome) := (← get).registry.unregister name
  modify fun s => { s with registry := registry }
  (outcome.warning? name).forM (log "registry" .warning)
  return outcome

end Run

end CommandShell
