import CommandShell.Shell.Line

/-!
# Setting up

When a shell starts, the buckets of all root processors are loaded, each once, and after that every
processor of the trees is set up, each before those below it.  What fails is reported, and the rest
goes on.

## Main definitions

* `Processor.preorder`: the processors of some trees, each before those below it.
* `Run.loadBuckets`: loads the buckets.
* `Run.setUpAll`: sets up the processors.
* `Run.initializeProcessors`: both.
-/

namespace CommandShell

namespace Processor

variable {α : Type}

mutual

/-- A processor before all that are below it. -/
def preorder : Processor α → List (Processor α)
  | ⟨key, decl, children⟩ => ⟨key, decl, children⟩ :: preorderAll children

/-- Some processors, each before all that are below it. -/
def preorderAll : List (Processor α) → List (Processor α)
  | [] => []
  | p :: rest => preorder p ++ preorderAll rest

end

end Processor

namespace Run

/-- Loads the bucket of a root processor, unless one of that name was loaded; the result holds the
names of the loaded ones. -/
def loadBucket (loaded : List String) (p : ShellProcessor) : Run (List String) := do
  let name ← openBucket p
  if loaded.contains name then return loaded
  else
    buckets (·.load name)
    return name :: loaded

/-- Loads the buckets of all root processors. -/
def loadBuckets : Run Unit := do
  let _ ← (← get).registry.processors.foldlM loadBucket []

/-- Sets up a processor in a scope. -/
def setUpBy (c : Scope) : SetUp Action → Run Unit
  | .script actions => performAll rerun c actions
  | .followAliases => buckets (·.followAliases c.bucket)

/-- Sets up a processor, if it has to be; a fault is reported. -/
def setUp (p : ShellProcessor) : Run Unit :=
  match p.decl.setUp with
  | none => pure ()
  | some how =>
    recover (do setUpBy (← openScope p) how) fun f => do
      log "executor" .error
        ("Error initializing processor " ++ quoted p.command ++ ": " ++ f.message)
      say .error ("Error initializing processor " ++ escapeMarkup p.command ++ ": " ++
        escapeMarkup f.message)

/-- Sets up all processors below the root. -/
def setUpAll : Run Unit := do
  (Processor.preorderAll (← get).registry.processors).forM setUp

/-- Loads the buckets and sets up the processors. -/
def initializeProcessors : Run Unit := do
  loadBuckets
  setUpAll

end Run

end CommandShell
