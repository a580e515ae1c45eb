import CommandShell.Shell.Abort
import CommandShell.Shell.Pinning

/-!
# Scripts

What the actions of a script do.  A script runs in a scope: it has a state bucket, a cancellation
token, and the command that it runs for, unless it runs for none.  Some actions run lines; how lines
run is left open here.

## Main definitions

* `Scope`: what a script runs in.
* `Run.openScope`: the scope of a processor, with a fresh token.
* `Run.perform`: one action.
* `Run.showHelp`: describes a command by running a line.
-/

namespace CommandShell

/-- What a script runs in. -/
structure Scope where
  /-- The name under which the processor of the script is reported. -/
  label : String
  /-- The name of the state bucket. -/
  bucket : String
  /-- The number of the cancellation token. -/
  token : Nat
  /-- The command that the script runs for. -/
  invocation : Option Invocation := none

/-- The name of the bucket that all share. -/
def sharedBucket : String := "shared"

/-- The name of the bucket of a processor, and its state at first: what the processor at the top of
its tree declares, where the name of a command stands for that of the bucket if none is declared. -/
def Registry.bucketOf {α : Type} (r : Registry α) (p : Processor α) : String × Value :=
  let root := r.rootOf p
  let name := (root.decl.bucket.bind (·.name)).filter (· ≠ "")
  (name.getD root.command, (root.decl.bucket.map (·.initial)).getD .null)

/-- One more than a value, where whatever counts as false is zero. -/
def Value.successor (v : Value) : Except Fault Value :=
  if v.truthy then
    match v.number? with
    | some (.whole n) => .ok (.int (n + 1))
    | some (.floating x) => .ok (.float (x + 1.0))
    | none => .error (.notAddable v.kind)
  else .ok (.int 1)

/-- The value of a key of a state; a key that is not there has the absent value. -/
def Value.lookup (state : Value) (key : String) : Except Fault Value :=
  match state with
  | .map entries => .ok ((Entries.get? entries key).getD .null)
  | v => .error (.noMember v.kind "get")

namespace Run

/-- The bucket of a processor, which is opened if it was not before. -/
def openBucket (p : ShellProcessor) : Run String := do
  let (name, initial) := (← get).registry.bucketOf p
  modifyBuckets (·.openBucket name initial)
  return name

/-- The scope of a processor, with a fresh token, which becomes the current one. -/
def openScope (p : ShellProcessor) : Run Scope := do
  let bucket ← openBucket p
  return { label := p.decl.label, bucket := bucket, token := ← newToken }

/-- The state of a bucket. -/
def stateOf (bucket : String) : Run Value :=
  ask (·.space.stateOf bucket)

/-- Updates a bucket. -/
def update (bucket : String) (entries : Value) : Run Unit :=
  buckets (·.update bucket entries)

/-- Opens the bucket with a name, which is empty at first. -/
def openEmpty (name : String) : Run Unit :=
  modifyBuckets (·.openBucket name .null)

/-- The service under a token. -/
def service (token : String) : Run Service := do
  ofExcept ((← get).services.get token)

/-- The root that the paths of files start at. -/
def fileRoot : Run String := do
  match ← service Service.fileSystemToken with
  | .fileSystem root => return root
  | _ => fail (.noService Service.fileSystemToken)

/-- The absolute path that a written path stands for when it starts at a root. -/
def resolvePath (root path : String) : Run Path := do
  ofExcept ((← get).locations.expand (trimBlanks path) (some root))

/-- The text of a file. -/
def readFile (path : String) : Run String := do
  let p ← resolvePath (← fileRoot) path
  access (FileAccess.ask (·.read (.ofPath p)))

/-- Reports a fault of a command. -/
def reportFailure (f : Fault) : Run Unit :=
  say .error ("Error executing command: " ++ escapeMarkup f.message)

variable (rerun : String → Run Unit)

/-- The line that describes the command of a segment. -/
def helpLine (raw : String) : String :=
  "help " ++ raw

/-- Describes the command of a segment by running a line. -/
def showHelp (raw : String) : Run Unit :=
  recover (rerun (helpLine raw)) reportFailure

variable (c : Scope)

/-- The command that a script runs for, of which a member is asked for. -/
def invoked (member : String) : Run Invocation :=
  match c.invocation with
  | some i => pure i
  | none => fail (.noMember "NoneType" member)

mutual

/-- One action of a script; `rerun` runs a line. -/
def perform : Action → Run Unit
  | .record => do emit (.call c.label (← invoked c "command"))
  | .note tag => emit (.note tag)
  | .write text => emit (.write text)
  | .print none text => print text
  | .print (some style) text => say style text
  | .printColoured text color => print (coloured color text)
  | .output v => process (·.output v)
  | .outputData => do
    let i ← invoked c "data"
    process (·.output i.data)
  | .outputText => do
    let i ← invoked c "value"
    process (·.output i.textValue)
  | .outputArgs => do
    let i ← invoked c "args"
    process (·.output (.map i.args))
  | .exit code silent => if silent then process (·.exit code) else exit code
  | .fail f => fail f
  | .update entries => update c.bucket entries
  | .increment key => do
    let old ← ofExcept ((← stateOf c.bucket).lookup key)
    let new ← ofExcept old.successor
    update c.bucket (.map [(key, new)])
  | .storeText key => do
    let i ← invoked c "value"
    update c.bucket (.map [(key, i.textValue)])
  | .noteState => do emit (.state c.bucket (← stateOf c.bucket))
  | .persist => buckets (·.persist c.bucket)
  | .reset => buckets (·.reset c.bucket)
  | .updateShared entries => do
    openEmpty sharedBucket
    update sharedBucket entries
  | .noteShared => do
    openEmpty sharedBucket
    emit (.state sharedBucket (← stateOf sharedBucket))
  | .run line => rerun line
  | .help => recover (do rerun (helpLine (← invoked c "raw_command").raw)) reportFailure
  | .abort => abort
  | .cancelToken => cancel c.token
  | .checkToken => do ofExcept ((← get).token c.token).check
  | .noteToken => do
    let s ← get
    emit (.token (s.token c.token).cancelled (s.currentToken == c.token))
  | .onCancel tag => onCancel c.token tag
  | .onAbort tag => onAbort tag
  | .register p => do emit (.registered (← register p).accepted)
  | .unregister name => do emit (.unregistered (← unregister name).accepted)
  | .pin [] silent => pin none silent
  | .pin (name :: chain) silent => do pin ((← get).registry.find? name chain) silent
  | .service token => do
    emit (.service ((← get).services.has token))
    let _ ← service token
  | .outputFile path => do
    let text ← readFile path
    process (·.output (.text text))
  | .noteProcess => do emit (.process (← get).process)
  | .pause => pure ()
  | .ifText v actions => do
    if (← invoked c "value").textValue.same v then performAll actions
  | .ifArgument name actions => do
    if (← invoked c "args").args.has name then performAll actions
  | .indicate change => indicate (·.apply change)

/-- The actions of a script in order. -/
def performAll : List Action → Run Unit
  | [] => pure ()
  | a :: rest => do perform a; performAll rest

end

end Run

end CommandShell
