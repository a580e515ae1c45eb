import CommandShell.Settings.Basic
import CommandShell.Storage.FileSystem
import CommandShell.Value.Json.Encoder

/-!
# The file of the settings

Settings are kept in a file as a JSON object.  A file that holds no such object gives a warning and
stands for no settings at all; the environment goes before the file.

## Main definitions

* `Settings.read`: the settings that a file gives.
* `SettingsFile`: a file with the settings that hold.
* `SettingsFile.load`: takes the settings from the file and the environment.
* `SettingsFile.use`: the file whose settings are in use.
* `SettingsFile.save`: writes the settings to the file.
* `SettingsFile.update`, `SettingsFile.reset`: changes of the settings, which are written.
-/

namespace CommandShell

/-- The settings that a file gives, and why it gives none, if it holds no object. -/
def Settings.read (t : FileTree) (l : Locations) (p : WrittenPath) :
    Except Fault (Settings × Option String) := do
  let defaults := Settings.default l.home
  if !(← t.exists? (l.access p)) then return (defaults, none)
  else
    match Json.read (← t.readText (l.access p)) with
    | .ok (.map entries) => return (defaults.overlay entries, none)
    | .ok v => return (defaults, some s!"'{v.kind}' is not an object")
    | .error .malformed => return (defaults, some "malformed JSON")
    | .error (.tooManyDigits n) => throw (.tooManyDigits n)
    | .error (.tooDeep kind) => throw (.tooDeep kind)

/-- A file with the settings that hold. -/
structure SettingsFile where
  /-- The file. -/
  path : WrittenPath
  /-- The settings. -/
  settings : Settings

namespace SettingsFile

/-- Takes the settings from the file and the environment: the settings that hold then, and what is
wrong with the file, if anything is.  If the file cannot be read, nothing is set. -/
def load (environment : Entries String) (t : FileTree) (l : Locations) (p : WrittenPath) :
    Except Fault (Option String) × SettingsFile :=
  match Settings.read t l p with
  | .ok (s, problem) =>
    let warning := problem.map fun reason =>
      "Failed to load config file " ++ p.text ++ ": " ++ reason
    (.ok warning, ⟨p, s.override environment⟩)
  | .error f => (.error f, ⟨p, Settings.default l.home⟩)

/-- The file whose settings are in use: the one that was before, unless another one is named or
there was none, which is then loaded.  The flag tells whether the file is the one from before. -/
def use (environment : Entries String) (t : FileTree) (l : Locations)
    (before : Option SettingsFile) (path : Option WrittenPath) :
    Except Fault (Option String) × SettingsFile × Bool :=
  match before, path with
  | some file, none => (.ok none, file, true)
  | _, _ =>
    let (warning, file) := load environment t l (path.getD (Settings.defaultFile l.home))
    (warning, file, false)

/-- How deep lists and maps may be nested in what is copied before it is written. -/
def maxCopied : Nat := 490

/-- What a refusal to write a part of the settings ends with. -/
def faultOf : Json.WriteError → Fault
  | .notEncodable kind => .notEncodable kind
  | .tooManyDigits => .badValue Json.WriteError.tooManyDigits.message
  | .tooDeep => .tooNested

/-- The text that is written for the settings, and what ends it early, if anything does.  All of
them are copied before the first is written. -/
def text (f : SettingsFile) : String × Option Fault :=
  match f.settings.writtenEntries with
  | .error e => ("", some e)
  | .ok entries =>
    if maxCopied < (Value.map entries).nesting then ("", some (faultOf .tooDeep))
    else
      let (s, e) := Json.encodePart (.indented 2) (.map entries)
      (s, e.map faultOf)

/-- Writes the settings to the file; what is refused ends the file there. -/
def save (f : SettingsFile) (l : Locations) : FileAccess Unit := do
  FileAccess.makeDirectories (l.access f.path).parent
  FileAccess.put (l.access f.path) f.text.1 false
  f.text.2.forM throw

/-- The file with a member set. -/
def assign (f : SettingsFile) (name : String) (v : Value) : Except Fault SettingsFile := do
  return { f with settings := ← f.settings.assign name v }

/-- How faults name the setting of members. -/
def updateName : String := "ConfigManager.update"

/-- The arguments that name members, as they are given. -/
def argumentsOf : Value → Except Fault (Entries Value)
  | .map entries =>
    if Entries.has entries "self" then .error (.givenTwice updateName "self") else .ok entries
  | v => .error (.notArguments ("termshell.config." ++ updateName) v.kind)

/-- The file with those of the given members set that it has, and how it is written then; it is not
if one of them cannot be set. -/
def update (f : SettingsFile) (l : Locations) (given : Value) : SettingsFile × FileAccess Unit :=
  match argumentsOf given with
  | .error e => (f, throw e)
  | .ok entries =>
    let (settings, problem) := f.settings.assignKnown entries
    let updated := { f with settings := settings }
    (updated, problem.elim (updated.save l) throw)

/-- The file with nothing set, and how it is written then. -/
def reset (f : SettingsFile) (l : Locations) : SettingsFile × FileAccess Unit :=
  let empty := { f with settings := Settings.default l.home }
  (empty, empty.save l)

end SettingsFile

end CommandShell
