import CommandShell.CommandLine
import CommandShell.Settings.File
import CommandShell.Shell.Host

/-!
# The program

From a command line to the end of the program: the options, the settings, and then either one line
or all lines that are entered.

## Main definitions

* `usage`, `optionHelp`: what is written about the options.
* `Session.adoptStore`: a session with the store that a file holds.
* `Run.openProgram`: the shell that some options ask for.
* `Run.runCommand`: one line, with the code that the program returns for it.
* `Run.runProgram`: the program.
-/

namespace CommandShell

/-- A session with the store that a file holds, in place of the text of the file. -/
def Session.adoptStore (s : Session) (p : Path) : Session :=
  let bytes? := (s.files.readBytes (.ofPath p)).toOption
  match (bytes?.bind String.fromUTF8?).bind KeyValueStore.ofText? with
  | some store =>
    { s with files := s.files.put p .database, space := { s.space with store := store } }
  | none => s

/-- The environment variable for the directory of the user. -/
def homeVariableName : String := "HOME"

/-- A session in an environment, which may give another directory of the user. -/
def Session.inEnvironment (s : Session) (environment : Entries String) : Session :=
  { s with locations :=
      { s.locations with homeVariable := environment.get? homeVariableName } }

/-- How the program is called. -/
def usage : String :=
  "usage: " ++ programName ++ " [-h] [-v] [-c COMMAND] [--config CONFIG] [--no-state]\n"

/-- What is written about the options. -/
def optionHelp : String :=
  usage ++ "\n" ++
  "An embeddable shell-like command interpreter\n\n" ++
  "options:\n" ++
  "  -h, --help            show this help message and exit\n" ++
  "  -v, --version         show program's version number and exit\n" ++
  "  -c COMMAND, --command COMMAND\n" ++
  "                        Execute a single command line and exit\n" ++
  "  --config CONFIG       Path to config file\n" ++
  "  --no-state            Keep command state in memory only\n"

/-- How the program ends. -/
inductive ProgramEnd where
  /-- With a code, after a shell has run. -/
  | returned (code : Int)
  /-- With a code, because of the command line. -/
  | exited (code : Int)
  /-- With a fault that nothing handles. -/
  | failed (fault : Fault)

/-- How the program ends, and what it writes apart from what its shell prints. -/
structure ProgramOutcome where
  /-- How it ends. -/
  ended : ProgramEnd
  /-- What it writes as output. -/
  output : String := ""
  /-- What it writes as errors. -/
  errors : String := ""

/-- The outcome for a command line that asks for no shell. -/
def ProgramOutcome.ofCommandLine? : Except CommandLineError CommandLine → Option ProgramOutcome
  | .ok .help => some { ended := .exited 0, output := optionHelp }
  | .ok .version => some { ended := .exited 0, output := s!"{programName} {programVersion}\n" }
  | .ok (.run _) => none
  | .error e =>
    some { ended := .exited 2, errors := usage ++ programName ++ ": error: " ++ e.message ++ "\n" }

namespace Run

/-- The settings that some options ask for. -/
def loadSettings (o : ProgramOptions) (environment : Entries String) : Run Settings := do
  let s ← get
  let path := o.config.nonEmpty?.map WrittenPath.ofText
  let (warning, file, _) := SettingsFile.use environment s.files s.locations none path
  (← ofExcept warning).forM (log "config" .warning)
  return file.settings

/-- Fails unless the setting for what is logged is a text. -/
def checkLogLevel (settings : Settings) : Run Unit :=
  match settings.get .logLevel with
  | .text _ => pure ()
  | v => fail (.noMember v.kind "upper")

/-- The shell that some options ask for, with some settings. -/
def openProgram (o : ProgramOptions) (settings : Settings) : Run Unit := do
  checkLogLevel settings
  openShell settings (!o.noState) builtinProcessors

/-- One line, with the code that the program returns for it. -/
def runCommand (line : String) : Run Int := do
  return if Value.same (← execute line) (.int 0) then 0 else 1

/-- All lines that are entered; a fault ends the program with a message. -/
def runEntries (settings : Settings) (entries : List Entry) : Run ProgramOutcome :=
  recover (do interact settings entries; return { ended := .returned 0 }) fun f =>
    return { ended := .returned 1, output := "Fatal error: " ++ f.message ++ "\n" }

/-- The program with some options. -/
def runOptions (o : ProgramOptions) (environment : Entries String) (entries : List Entry) :
    Run ProgramOutcome := do
  let settings ← loadSettings o environment
  openProgram o settings
  match o.command.nonEmpty? with
  | some line => return { ended := .returned (← runCommand line) }
  | none => runEntries settings entries

/-- The program. -/
def runProgram (arguments : List String) (environment : Entries String) (entries : List Entry) :
    Run ProgramOutcome :=
  match CommandLine.read arguments with
  | .ok (.run o) => do
    modify (·.inEnvironment environment)
    recover (runOptions o environment entries) fun f => return { ended := .failed f }
  | asked => return (ProgramOutcome.ofCommandLine? asked).getD { ended := .returned 0 }

end Run

end CommandShell
