import CommandShell.Entries
import CommandShell.Storage.Path

/-!
# Settings

What can be set for a shell.  The values are taken as they are given, whatever their kinds.  Beside
the values of the settings, those of other members can be kept under their names.

## Main definitions

* `Setting`: the settings, each with its name and, for some, an environment variable.
* `Settings`: the values of all settings and of other members.
* `Settings.fileOf`, `Settings.workspaceOf`: the paths that stand for some values.
* `Settings.default`: the values that hold when nothing is set.
* `Settings.overlay`: the settings with the known entries of a map given on top.
* `Settings.override`: the settings with those that the environment gives.
* `Settings.assign`, `Settings.assignKnown`: the settings with members set.
-/

namespace CommandShell

/-- The settings. -/
inductive Setting where
  /-- Which messages are logged. -/
  | logLevel
  /-- The file of the state database. -/
  | stateDatabase
  /-- The directory that the paths of files start at. -/
  | workspace
  /-- What stands before an entered line. -/
  | prompt
  /-- Whether there are files. -/
  | enableFiles
  /-- Whether the shell starts with a greeting. -/
  | showWelcome
deriving DecidableEq, Repr

namespace Setting

/-- All settings, in the order in which they are written. -/
def all : List Setting :=
  [logLevel, stateDatabase, workspace, prompt, enableFiles, showWelcome]

/-- The name of a setting. -/
def name : Setting → String
  | logLevel => "log_level"
  | stateDatabase => "state_db"
  | workspace => "workspace_dir"
  | prompt => "prompt"
  | enableFiles => "enable_filesystem"
  | showWelcome => "show_welcome"

/-- The environment variable that overrides a setting. -/
def override? : Setting → Option String
  | logLevel => some "TERMSHELL_LOG_LEVEL"
  | stateDatabase => some "TERMSHELL_STATE_DB"
  | workspace => some "TERMSHELL_WORKSPACE"
  | _ => none

/-- The setting with a name. -/
def ofName? (s : String) : Option Setting :=
  all.find? (·.name == s)

end Setting

/-- The values of all settings and of other members. -/
structure Settings where
  /-- The value of a setting that is not among the members. -/
  fallback : Setting → Value
  /-- The members with their values, in the order in which they were first set. -/
  members : Entries Value

namespace Settings

/-- The value of a setting. -/
def get (s : Settings) (setting : Setting) : Value :=
  (s.members.get? setting.name).getD (s.fallback setting)

/-- The settings with another value for one of them. -/
def set (s : Settings) (setting : Setting) (v : Value) : Settings :=
  { s with members := s.members.insert setting.name v }

/-- The directory of the shell in the directory of the user. -/
def directory (home : Path) : Path :=
  home ++ [".termshell"]

/-- The file that settings are kept in unless another one is named. -/
def defaultFile (home : Path) : WrittenPath :=
  .ofPath (directory home ++ ["config.json"])

/-- The directory that the paths of files start at unless another one is set. -/
def defaultWorkspace (home : Path) : Path :=
  directory home ++ ["files"]

/-- The file that settings are kept in, as it is given; whatever counts as false names none. -/
def fileOf (home : Path) (v : Value) : Except Fault WrittenPath :=
  v.nonEmpty?.elim (.ok (defaultFile home)) WrittenPath.ofValue

/-- The directory that the paths of files start at, as it is given; whatever counts as false names
none. -/
def workspaceOf (home : Path) (v : Value) : Except Fault WrittenPath :=
  v.nonEmpty?.elim (.ok (.ofPath (defaultWorkspace home))) WrittenPath.ofValue

/-- The value of a setting when nothing is set. -/
def defaultValue (home : Path) : Setting → Value
  | .logLevel => .text "WARNING"
  | .stateDatabase => .text (Path.text (directory home ++ ["state.db"]))
  | .workspace => .text (defaultWorkspace home).text
  | .prompt => .text "~$ "
  | .enableFiles => .bool true
  | .showWelcome => .bool true

/-- The values that hold when nothing is set. -/
def default (home : Path) : Settings where
  fallback := defaultValue home
  members := Setting.all.map fun setting => (setting.name, defaultValue home setting)

/-- The names of the settings with their values, in order. -/
def entries (s : Settings) : Entries Value :=
  Setting.all.map fun setting => (setting.name, s.get setting)

/-- The settings with the known entries of a map given on top. -/
def overlay (s : Settings) (given : Entries Value) : Settings :=
  given.foldl
    (fun s e =>
      match Setting.ofName? e.1 with
      | some setting => s.set setting e.2
      | none => s) s

/-- The settings with those that the environment gives; an empty variable gives none. -/
def override (s : Settings) (environment : Entries String) : Settings :=
  Setting.all.foldl
    (fun s setting =>
      match setting.override?.bind environment.get? with
      | some v => if v = "" then s else s.set setting (.text v)
      | none => s) s

/-! ### Other members -/

/-- How faults name the settings. -/
def ownerName : String := "ShellConfig"

/-- The member that holds all members. -/
def allMembers : String := "__dict__"

/-- The member that tells which settings are written to a file. -/
def writtenMembers : String := "__dataclass_fields__"

/-- The members that settings have without being set. -/
def innateMembers : List String :=
  ["__annotations__", "__class__", writtenMembers, "__dataclass_params__", "__delattr__",
    allMembers, "__dir__", "__doc__", "__eq__", "__format__", "__ge__", "__getattribute__",
    "__getstate__", "__gt__", "__hash__", "__init__", "__init_subclass__", "__le__", "__lt__",
    "__match_args__", "__module__", "__ne__", "__new__", "__reduce__", "__reduce_ex__", "__repr__",
    "__setattr__", "__sizeof__", "__str__", "__subclasshook__", "__weakref__"]

/-- Whether the settings have a member. -/
def has (s : Settings) (name : String) : Bool :=
  s.members.has name || (Setting.ofName? name).isSome || innateMembers.contains name

/-- The settings with a member set; some innate members are set in their own way, or not at all. -/
def assign (s : Settings) (name : String) (v : Value) : Except Fault Settings :=
  if name = "__class__" then .error (.notClass v.kind)
  else if name = "__weakref__" then .error (.notWritable ownerName name)
  else if name = allMembers then
    match v with
    | .map entries => .ok { s with members := entries }
    | v => .error (.notMembers v.kind)
  else .ok { s with members := s.members.insert name v }

/-- The settings with those of the given members set that they have.  A member that cannot be set
ends this, with the members set that come before it. -/
def assignKnown (s : Settings) : Entries Value → Settings × Option Fault
  | [] => (s, none)
  | (name, v) :: rest =>
    if s.has name then
      match s.assign name v with
      | .ok s => s.assignKnown rest
      | .error f => (s, some f)
    else s.assignKnown rest

/-- The settings as they are written to a file, which the member that tells them can prevent. -/
def writtenEntries (s : Settings) : Except Fault (Entries Value) :=
  match s.members.get? writtenMembers with
  | none => .ok s.entries
  | some (.map []) => .ok []
  | some (.map ((_, v) :: _)) => .error (.noMember v.kind "_field_type")
  | some v => .error (.noMember v.kind "values")

end Settings

end CommandShell
