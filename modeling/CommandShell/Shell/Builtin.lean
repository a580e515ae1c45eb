import CommandShell.Shell.Action

/-!
# Built-in processors

The processors that every shell starts with: `help`, `alias`, `unalias` and `echo`.

## Main definitions

* `aliasCommand`, `aliasKey`: the command that owns the aliases, and the key of its state for them.
* `builtinProcessors`: the processors, in the order in which they are registered.
-/

namespace CommandShell

/-- The command that defines and owns the aliases. -/
def aliasCommand : String := "alias"

/-- The key of the aliases in the state of their bucket. -/
def aliasKey : String := "aliases"

namespace Builtin

/-- The state bucket of the aliases. -/
def aliasBucket : BucketPlan where
  initial := .map [(aliasKey, .map [])]
  name := some "aliases"

/-- Describes the commands. -/
def help : Declaration Action where
  command := "help"
  label := "help"
  description := "Displays help for a command"
  aliases := ["man"]
  metadata := some { sealed := true, group := some "system" }
  allowsText := true
  handler := .help
  describer := some .helpUsage

/-- Defines aliases. -/
def defineAliases : Declaration Action where
  command := aliasCommand
  label := "alias"
  description := "Manage aliases for commands"
  metadata := some { sealed := true, group := some "misc" }
  bucket := some aliasBucket
  handler := .defineAliases
  setUp := some .followAliases

/-- Lists the aliases. -/
def listAliases : Declaration Action where
  command := "ls"
  label := "ls"
  description := "List all aliases"
  handler := .listAliases

/-- Removes an alias. -/
def removeAlias : Declaration Action where
  command := "unalias"
  label := "unalias"
  description := "Remove aliases for commands"
  metadata := some { sealed := true, group := some "misc" }
  bucket := some aliasBucket
  needsText := true
  handler := .removeAlias

/-- Writes a text and passes it on. -/
def echo : Declaration Action where
  command := "echo"
  label := "echo"
  description := "Display a line of text"
  metadata := some { group := some "misc" }
  allowsText := true
  handler := .echo

end Builtin

/-- The processors that every shell starts with. -/
def builtinProcessors : List ShellProcessor :=
  [⟨0, Builtin.help, []⟩, ⟨0, Builtin.defineAliases, [⟨0, Builtin.listAliases, []⟩]⟩,
    ⟨0, Builtin.removeAlias, []⟩, ⟨0, Builtin.echo, []⟩]

end CommandShell
