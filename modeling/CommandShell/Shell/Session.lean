import CommandShell.Cancellation.Token
import CommandShell.Services
import CommandShell.Shell.Action
import CommandShell.State.Space
import CommandShell.Stop
import CommandShell.Storage.FileSystem

/-!
# Sessions

What a shell has and keeps while it runs, and the runs that change it.  A run that ends early keeps
the changes that it made before.

## Main definitions

* `Service`: what a shell offers to commands under a token.
* `Session`: the state of a shell.
* `Run`: a run that changes a session, and may end early.
* `Run.recover`: a run whose faults are handled.
* `Run.ensuring`: a run after which something is done, however it ends.
-/

namespace CommandShell

/-- What a shell offers to commands. -/
inductive Service where
  /-- The key-value store. -/
  | keyValue
  /-- The registry of processors. -/
  | registry
  /-- The files, where relative paths start at a root. -/
  | fileSystem (root : String)

namespace Service

/-- The token of the key-value store. -/
def keyValueToken : String := "key-value-store"

/-- The token of the registry of processors. -/
def registryToken : String := "processor-registry"

/-- The token of the files. -/
def fileSystemToken : String := "file-system"

end Service

/-- Somebody who is told of aborts: a number, and the tag that is reported. -/
abbrev AbortWatcher := Nat × String

/-- The state of a shell. -/
structure Session where
  /-- The registered processors. -/
  registry : Registry Action := {}
  /-- The state buckets with their store. -/
  space : StateSpace := {}
  /-- The files. -/
  files : FileTree := {}
  /-- Where paths start. -/
  locations : Locations
  /-- The services. -/
  services : Services Service := {}
  /-- The record of the segment that runs or ran last. -/
  process : ProcessRecord := {}
  /-- The processor whose subordinate ones are the commands, if one is pinned. -/
  pinned : Option ShellProcessor := none
  /-- All cancellation tokens, by their numbers; the first is that of the shell. -/
  tokens : List (CancelToken String) := [{}]
  /-- The number of the token that an abort cancels. -/
  currentToken : Nat := 0
  /-- Those who are told of aborts. -/
  abortWatchers : List AbortWatcher := []
  /-- The last subscription to aborts under each tag. -/
  abortSubscriptions : Entries (Subscription AbortWatcher) := []
  /-- How often somebody subscribed to aborts. -/
  abortCount : Nat := 0
  /-- The busy indicators. -/
  indicators : Indicators := {}
  /-- Whether the processors were set up. -/
  ready : Bool := false
  /-- What has happened, the latest first. -/
  journal : List Event := []

/-- A run that changes a session, and may end early. -/
abbrev Run (α : Type) := ExceptT Stop (StateM Session) α

namespace Run

variable {α : Type}

/-- Ends with a fault. -/
def fail (f : Fault) : Run α :=
  throw (.fault f)

/-- The outcome of an operation as a run. -/
def ofExcept (x : Except Fault α) : Run α :=
  ExceptT.mk (pure (Stop.ofExcept x))

/-- A run whose faults are handled. -/
def recover (x : Run α) (handle : Fault → Run α) : Run α :=
  tryCatch x fun
    | .fault f => handle f
    | .unfinished => throw .unfinished

/-- A run after which the session is changed, however the run ends. -/
def ensuring (x : Run α) (change : Session → Session) : Run α :=
  fun s => let (r, s) := x s; (r, change s)

/-! ### What happens -/

/-- Something happens. -/
def emit (e : Event) : Run Unit :=
  modify fun s => { s with journal := e :: s.journal }

/-- Prints a line. -/
def print (text : String) : Run Unit :=
  emit (.print text)

/-- Prints a marked message. -/
def say (style : Style) (message : String) : Run Unit :=
  print (style.mark message)

/-- Logs a message. -/
def log (source : String) (level : Level) (message : String) : Run Unit :=
  emit (.log source level message)

/-! ### Parts of a session -/

/-- A change of the process record. -/
def process (f : ProcessRecord → ProcessRecord) : Run Unit :=
  modify fun s => { s with process := f s.process }

/-- Records an exit without ending the run. -/
def exitSilently (code : Int) : Run Unit :=
  process (·.exit (.int code))

/-- Records an exit and ends the run. -/
def exit (code : ExitCode) : Run α := do
  process (·.exit code)
  fail (.exited code)

/-- A change of the buckets; what it reports is added to the journal. -/
def buckets (f : StateSpace → Except Fault α × StateSpace) : Run α := do
  let (r, space) := f (← get).space
  modify fun s =>
    { s with space := { space with reports := [] }, journal := space.reports ++ s.journal }
  ofExcept r

/-- A change of the buckets that cannot fail. -/
def modifyBuckets (f : StateSpace → StateSpace) : Run Unit :=
  buckets fun space => (.ok (), f space)

/-- An access to the files. -/
def access (x : FileAccess α) : Run α := do
  let (r, files) := x.run (← get).files
  modify fun s => { s with files := files }
  ofExcept r

/-- A change of the busy indicators. -/
def indicate (f : Indicators → Except Fault Indicators) : Run Unit := do
  let indicators ← ofExcept (f (← get).indicators)
  modify fun s => { s with indicators := indicators }

/-- A question about the session. -/
def ask (f : Session → α) : Run α := do
  return f (← get)

end Run

end CommandShell
