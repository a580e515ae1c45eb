import CommandShell.Fault
import CommandShell.Text.Blank
import CommandShell.Text.Split

/-!
# Paths

Paths as users write them, and the absolute paths they stand for.  A leading `~` is a home
directory, and relative paths start at a base directory.  A path that is resolved takes the parts
`.` and `..` by name, since there are no links; a path that is accessed as it was written is walked
through the directories that it names.

## Main definitions

* `Path`: an absolute path as its names.
* `WrittenPath`: a path as it was written.
* `WrittenPath.resolve`: the absolute path that a written path stands for.
* `AccessPath`: a written path with the directory where it starts.
* `Locations`: the directories that paths are relative to.
* `Locations.expand`: the absolute path that a written path stands for, with `~` replaced.
-/

namespace CommandShell

/-- An absolute path as the names on the way from the root directory. -/
abbrev Path := List String

namespace Path

/-- A path as it is written. -/
def text (p : Path) : String :=
  "/" ++ "/".intercalate p

/-- The directory that holds the last name of a path; the root directory holds itself. -/
def parent (p : Path) : Path :=
  p.dropLast

end Path

/-- Where a written path starts. -/
inductive PathStart where
  /-- At a directory that is known from elsewhere. -/
  | relative
  /-- At the root directory. -/
  | root
  /-- At the root directory, which is written with two slashes. -/
  | doubleRoot
deriving DecidableEq, Repr

namespace PathStart

/-- What is written in front of the names. -/
def text : PathStart → String
  | relative => ""
  | root => "/"
  | doubleRoot => "//"

/-- Where the path starts that some characters are; more than two slashes are one. -/
def ofChars : List Char → PathStart
  | '/' :: '/' :: '/' :: _ => root
  | '/' :: '/' :: _ => doubleRoot
  | '/' :: _ => root
  | _ => relative

end PathStart

/-- A path as it was written: where it starts, and its names without empty ones and `.`. -/
structure WrittenPath where
  /-- Where it starts. -/
  start : PathStart
  /-- The names, `..` among them. -/
  names : List String

namespace WrittenPath

/-- The written path that a text is. -/
def ofText (s : String) : WrittenPath :=
  ⟨.ofChars s.toList, (splitText '/' s).filter fun n => n ≠ "" && n ≠ "."⟩

/-- The written path that an absolute path is. -/
def ofPath (p : Path) : WrittenPath :=
  ⟨.root, p⟩

/-- Whether a written path starts at the root directory. -/
def isAbsolute (p : WrittenPath) : Bool :=
  p.start != .relative

/-- A path that continues another one, unless it starts at the root directory. -/
def join (p q : WrittenPath) : WrittenPath :=
  if q.isAbsolute then q else ⟨p.start, p.names ++ q.names⟩

/-- A written path as a text. -/
def text (p : WrittenPath) : String :=
  if p.isAbsolute || !p.names.isEmpty then p.start.text ++ "/".intercalate p.names else "."

/-- A written path without its last name. -/
def parent (p : WrittenPath) : WrittenPath :=
  { p with names := p.names.dropLast }

/-- The names of a written path from the root directory on, if it starts at a directory. -/
def namesFrom (p : WrittenPath) (directory : Path) : List String :=
  if p.isAbsolute then p.names else directory ++ p.names

/-- Whether some names hold the character NUL. -/
def anyNull (names : List String) : Bool :=
  names.any (·.toList.contains '\x00')

/-- The absolute path that a path stands for when it is relative to a directory. -/
def resolve (p : WrittenPath) (directory : Path) : Except Fault Path :=
  let names := p.namesFrom directory
  if anyNull names then .error .nullInPath
  else .ok (names.foldl (fun done n => if n = ".." then Path.parent done else done ++ [n]) [])

/-- The written path that a value is. -/
def ofValue : Value → Except Fault WrittenPath
  | .text s => .ok (ofText s)
  | v => .error (.notPath v.kind)

end WrittenPath

/-- A written path that is to be accessed. -/
structure AccessPath where
  /-- The path, which faults name as it was written. -/
  written : WrittenPath
  /-- The directory at which it starts if it is relative. -/
  origin : Path := []

namespace AccessPath

/-- An absolute path that is to be accessed. -/
def ofPath (p : Path) : AccessPath :=
  ⟨.ofPath p, []⟩

/-- How faults name the path. -/
def text (p : AccessPath) : String :=
  p.written.text

/-- The names that are walked from the root directory on. -/
def names (p : AccessPath) : List String :=
  p.written.namesFrom p.origin

/-- The path without its last name. -/
def parent (p : AccessPath) : AccessPath :=
  { p with written := p.written.parent }

/-- The path with other names after its start. -/
def withNames (p : AccessPath) (names : List String) : AccessPath :=
  { p with written := { p.written with names := names } }

/-- Whether the path holds the character NUL. -/
def hasNull (p : AccessPath) : Bool :=
  WrittenPath.anyNull p.written.names

/-- The absolute path that the path stands for by its names. -/
def resolve (p : AccessPath) : Except Fault Path :=
  p.written.resolve p.origin

/-- The absolute paths that are passed when the path is walked, up to its end. -/
def stations (p : AccessPath) : List Path :=
  (List.range p.names.length).filterMap fun n =>
    (WrittenPath.resolve ⟨.root, p.names.take (n + 1)⟩ []).toOption

end AccessPath

/-- The directories that paths are relative to. -/
structure Locations where
  /-- The directory of the user. -/
  home : Path
  /-- The directory that relative paths start at. -/
  working : Path
  /-- The home directories of the users that are known by name. -/
  users : Entries Path := []
  /-- What the environment gives for the directory of the user, if it gives another one. -/
  homeVariable : Option String := none

namespace Locations

/-- A written path that is to be accessed; a relative one starts at the working directory. -/
def access (l : Locations) (p : WrittenPath) : AccessPath :=
  ⟨p, l.working⟩

/-- What `~` stands for. -/
def userHome (l : Locations) : Except Fault WrittenPath :=
  match l.homeVariable with
  | none => .ok (.ofPath l.home)
  | some s =>
    let cs := (s.toList.reverse.dropWhile (· = '/')).reverse
    if cs.isEmpty then .ok (.ofPath [])
    else if cs.head? = some '~' then .error .noHome
    else .ok (.ofText (String.ofList cs))

/-- What `~name` stands for. -/
def homeOf (l : Locations) (user : String) : Except Fault WrittenPath :=
  if user = "" then l.userHome
  else if user.toList.contains '\x00' then .error .nullInPath
  else
    match l.users.get? user with
    | some home => .ok (.ofPath home)
    | none => .error .noHome

/-- A path with a leading `~` or `~name` replaced by the home directory that it stands for. -/
def expandUser (l : Locations) (p : WrittenPath) : Except Fault WrittenPath :=
  match p with
  | ⟨.relative, first :: rest⟩ =>
    match first.toList with
    | '~' :: user => do return (← l.homeOf (String.ofList user)).join ⟨.relative, rest⟩
    | _ => .ok p
  | _ => .ok p

/-- The absolute path that a written path stands for, relative to a base if one is given. -/
def expand (l : Locations) (path : String) (base : Option String) : Except Fault Path := do
  let expanded ← l.expandUser (.ofText path)
  let from' := match base with
    | some b => (WrittenPath.ofText b).join expanded
    | none => expanded
  from'.resolve l.working

end Locations

end CommandShell
