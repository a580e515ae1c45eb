import CommandShell.Program
import CommandShell.Shell.Terminal

/-!
# The program on a terminal

The outermost layer: it fetches what stands on the disk, lets the shell run, and puts out what the
shell prints and writes.  The store of a lasting shell is one file, which holds its text.

## Main definitions

* `Desk`: a shell with the file that its store is kept in.
* `Desk.step`: a run of the shell between the disk and the terminal.
* `main`: the program.
-/

namespace CommandShell

/-- A shell with the file that its store is kept in, if it is kept. -/
structure Desk where
  /-- The state of the shell. -/
  session : Session
  /-- The file of the store. -/
  storeFile : Option Path := none

namespace Desk

/-- What stands at a path of the disk. -/
def nodeAt (p : Path) : IO (Option Node) := do
  try
    return some (.file (← IO.FS.readBinFile p.text))
  catch
    | .inappropriateType .. => return some .directory
    | _ => return none

/-- A tree with what stands at a path of the disk and on the way to it. -/
def fetch (t : FileTree) (p : AccessPath) : IO FileTree :=
  p.stations.foldlM
    (fun t station => do
      match ← nodeAt station with
      | some node => return t.put station node
      | none => return t) t

/-- A desk whose files are those at some paths of the disk. -/
def fetchAll (d : Desk) (paths : List AccessPath) : IO Desk := do
  return { d with session := { d.session with files := ← paths.foldlM fetch {} } }

/-- Writes what changed in the files and in the store to the disk. -/
def save (d earlier : Desk) : IO Unit := do
  (d.session.files.newSince earlier.session.files).forM fun (p, node) =>
    match node with
    | .directory => IO.FS.createDirAll p.text
    | .file bytes => IO.FS.writeBinFile p.text bytes
    | .database => pure ()
  if let some p := d.storeFile then
    if d.session.space.store.text ≠ earlier.session.space.store.text then
      IO.FS.writeFile p.text d.session.space.store.text

/-- Shows what has happened. -/
def showEvents (es : List Event) : IO Unit := do
  es.forM fun e => do
    IO.print e.output
    (e.logLine?).forM IO.eprint
  (← IO.getStdout).flush

/-- A run of the shell between the disk and the terminal. -/
def step {α : Type} (d : Desk) (paths : List AccessPath) (x : Run α) :
    IO (Except Stop α × Desk) := do
  let start ← d.fetchAll paths
  let (r, session) := x.run { start.session with journal := [] }
  let ended := { start with session := session }
  showEvents session.journal.reverse
  ended.save start
  return (r, ended)

end Desk

/-- What is reported when a run ends early. -/
def Stop.message : Stop → String
  | .fault f => f.message
  | .unfinished => "lines lead to one another too deeply"

/-- Ends the program because of a failure. -/
def fatal (e : Stop) : IO UInt32 := do
  IO.eprintln ("Fatal error: " ++ e.message)
  return 1

/-- Lets a line be entered. -/
def readEntry : IO Entry := do
  let line ← (← IO.getStdin).getLine
  return if line.isEmpty then .done else .line ((line.dropSuffix "\n").toString)

/-- The lines that are entered, one after another. -/
partial def enterLines (settings : Settings) (d : Desk) : IO UInt32 := do
  let (_, d) ← d.step [] (Run.prompt (settings.get .prompt))
  let entry ← readEntry
  let paths := match entry with
    | .line text => (d.session.appendedPaths text).map .ofPath
    | _ => []
  match ← d.step paths (Run.runEntry entry) with
  | (.error e, _) => fatal e
  | (.ok true, d) => enterLines settings d
  | (.ok false, _) => return 0

/-- The path that is accessed for a setting; the directory of the files may be given with `~`. -/
def Settings.access? (s : Settings) (l : Locations) (setting : Setting) : Option AccessPath :=
  let written := WrittenPath.ofValue (s.get setting)
  let expanded := if setting = .workspace then written.bind l.expandUser else written
  (expanded.map l.access).toOption

/-- A shell with some options and settings. -/
def runShell (o : ProgramOptions) (settings : Settings) (d : Desk) : IO UInt32 := do
  let l := d.session.locations
  let storeAccess := if o.noState then none
    else (settings.access? l .stateDatabase).filter (·.text ≠ FileAccess.memoryDatabase)
  let storeFile := storeAccess.bind (·.resolve.toOption)
  let paths := storeAccess.toList ++ (settings.access? l .workspace).toList
  let opened := do
    storeFile.forM fun p => modify (·.adoptStore p)
    Run.openProgram o settings
  let (r, d) ← { d with storeFile := storeFile }.step paths opened
  match r, o.command.nonEmpty? with
  | .error e, _ => fatal e
  | .ok (), some line =>
    match ← d.step ((d.session.appendedPaths line).map .ofPath) (Run.runCommand line) with
    | (.error e, _) => fatal e
    | (.ok code, _) => return if code = 0 then 0 else 1
  | .ok (), none =>
    match ← d.step [] (Run.greet settings) with
    | (.error e, _) => fatal e
    | (.ok (), d) => enterLines settings d

/-- The environment variables that settings can be given by. -/
def readEnvironment : IO (Entries String) := do
  let names := Setting.all.filterMap Setting.override?
  let found ← names.mapM fun name => do return (← IO.getEnv name).map fun v => (name, v)
  return found.filterMap id

/-- The program with some arguments. -/
def runArguments (arguments : List String) : IO UInt32 := do
  let read := CommandLine.read arguments
  match read, ProgramOutcome.ofCommandLine? read with
  | .ok (.run o), _ =>
    let working := (WrittenPath.ofText (← IO.currentDir).toString).names
    let home := ((← IO.getEnv "HOME").map fun h => (WrittenPath.ofText h).names).getD []
    let l : Locations := { home := home, working := working }
    let file := (o.config.nonEmpty?.map WrittenPath.ofText).getD (Settings.defaultFile home)
    let d : Desk := { session := { locations := l } }
    let loaded := Run.loadSettings o (← readEnvironment)
    match ← d.step [l.access file] loaded with
    | (.error e, _) => fatal e
    | (.ok settings, d) => runShell o settings d
  | _, some outcome =>
    IO.print outcome.output
    IO.eprint outcome.errors
    return match outcome.ended with
      | .exited 0 => 0
      | _ => 2
  | _, none => return 1

end CommandShell

/-- The program. -/
def main (arguments : List String) : IO UInt32 :=
  CommandShell.runArguments arguments
