import CommandShell.Line.Arguments
import CommandShell.Shell.Builtin
import CommandShell.Shell.Script

/-!
# Aliases of commands

How aliases are defined, listed and removed, and how a segment whose first word is an alias is
expanded.  The aliases are kept in a state bucket; what commands are expanded with is the table that
follows this bucket.

## Main definitions

* `Run.defineAliases`, `Run.listAliases`, `Run.removeAlias`: the commands.
* `Session.expansion?`: the segment that a segment stands for.
-/

namespace CommandShell

namespace Value

/-- Whether a value contains a text: a map as a key, a list as an item, a text as a part. -/
def containsText (v : Value) (s : String) : Except Fault Bool :=
  match v with
  | .map entries => .ok (Entries.has entries s)
  | .list items => .ok (Value.oneOf (.text s) items)
  | .text t => .ok (Chars.contains s.toList t.toList)
  | v => .error (.notContainer v.kind)

/-- The entries of a value that is used as a map. -/
def mapEntries (v : Value) (onOther : String → Fault) : Except Fault (Entries Value) :=
  match v with
  | .map entries => .ok entries
  | v => .error (onOther v.kind)

end Value

namespace Run

/-- The aliases in a state bucket; whatever counts as false stands for none. -/
def definedAliases (bucket : String) : Run Value := do
  let v ← ofExcept ((← stateOf bucket).lookup aliasKey)
  return v.nonEmpty?.getD (.map [])

/-- Puts aliases into a state bucket and keeps it in the store. -/
def keepAliases (bucket : String) (aliases : Entries Value) : Run Unit := do
  update bucket (.map [(aliasKey, .map aliases)])
  buckets (·.persist bucket)

/-- Reports an alias that is to be defined, and refuses the name of a root command. -/
def announceAlias (name : String) (target : Value) : Run Unit := do
  let shown := escapeMarkup target.shown
  if (← get).registry.has name then
    say .error (escapeMarkup name ++ " cannot be aliased to " ++ shown)
    exit (.int (-1))
  say .info (escapeMarkup name ++ " -> " ++ shown)

/-- Defines an alias for every argument; one that is refused ends the command with none defined. -/
def defineAliases (c : Scope) (i : Invocation) : Run Unit := do
  if i.args.isEmpty then
    say .error "No aliases provided"
    exit (.int (-1))
  i.args.forM fun e => announceAlias e.1 e.2
  let current ← ofExcept ((← definedAliases c.bucket).mapEntries .notMapping)
  keepAliases c.bucket (Entries.overlay current (i.args.map fun e => (e.1, .text e.2.shown)))

/-- Lists the aliases. -/
def listAliases (c : Scope) : Run Unit := do
  let defined ← definedAliases c.bucket
  print "Aliases:"
  if !defined.truthy then say .info "  No aliases defined"
  else
    let aliases ← ofExcept (defined.mapEntries fun kind => .noMember kind "items")
    aliases.forM fun e =>
      say .info ("  " ++ coloured "cyan" e.1 ++ " -> " ++ coloured "white" e.2.shown)

/-- Removes the alias that the free text names. -/
def removeAlias (c : Scope) (i : Invocation) : Run Unit := do
  let name := i.text.getD ""
  let defined ← definedAliases c.bucket
  if !(← ofExcept (defined.containsText name)) then
    say .error ("Alias " ++ escapeMarkup name ++ " not found")
    exit (.int (-1))
  let aliases ← ofExcept (defined.mapEntries fun kind => .noMember kind "items")
  keepAliases c.bucket (Entries.erase aliases name)
  say .success ("Removed alias " ++ escapeMarkup name)

end Run

/-- The aliases that commands are expanded with: those of the command that owns them, if the root
processor of its name is that command. -/
def Session.aliasTable (s : Session) : AliasTable :=
  match s.registry.find? aliasCommand [] with
  | some p =>
    match p.decl.handler with
    | .defineAliases => s.space.aliases
    | _ => []
  | none => []

/-- The segment that a segment with a given first word stands for, if the word is an alias. -/
def Session.expansion? (s : Session) (word segment : String) : Option String := do
  let target ← (s.aliasTable.target? word).filter Value.truthy
  let rest := (textAfterWord? segment [word]).getD ""
  return trimBlanks (target.shown ++ " " ++ rest)

end CommandShell
