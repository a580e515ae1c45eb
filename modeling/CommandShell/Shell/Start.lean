import CommandShell.Settings.Basic
import CommandShell.Shell.SetUp

/-!
# Starting a shell

A shell starts with its processors, its store and its files, from the settings.

## Main definitions

* `Run.registerAll`: registers processors in order.
* `Run.openFiles`: makes the root of the files and offers them as a service.
* `Run.openShell`: everything that a shell starts with.
-/

namespace CommandShell

namespace Run

/-- Registers some processors in order. -/
def registerAll (ps : List ShellProcessor) : Run Unit :=
  ps.forM fun p => discard (register p)

/-- Offers a service under a token. -/
def offer (token : String) (s : Service) : Run Unit :=
  modify fun σ => { σ with services := σ.services.register token s }

/-- An access to the files at a written path. -/
def accessAt (p : WrittenPath) (x : AccessPath → FileAccess Unit) : Run Unit := do
  access (x ((← get).locations.access p))

/-- Makes the root of the files and offers them as a service. -/
def openFiles (root : WrittenPath) : Run Unit := do
  accessAt root FileAccess.makeDirectories
  offer Service.fileSystemToken (.fileSystem root.text)

/-- Opens the database in a file. -/
def openDatabase (file : WrittenPath) : Run Unit :=
  accessAt file FileAccess.openDatabase

/-- Everything that a shell starts with: its processors, the store, which is in a database if it is
to last, and the files. -/
def openShell (settings : Settings) (lasting : Bool) (ps : List ShellProcessor) : Run Unit := do
  registerAll ps
  if lasting then openDatabase (← ofExcept (WrittenPath.ofValue (settings.get .stateDatabase)))
  offer Service.keyValueToken .keyValue
  offer Service.registryToken .registry
  if (settings.get .enableFiles).truthy then
    let root ← ofExcept (WrittenPath.ofValue (settings.get .workspace))
    openFiles (← ofExcept ((← get).locations.expandUser root))

end Run

end CommandShell
