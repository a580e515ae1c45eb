import CommandShell.Parameter
import CommandShell.Text.Casing

/-!
# Processors

A processor answers to a command name and its aliases.  It may take free text, declare parameters,
hooks, a state bucket and checks of its own, and it may have subordinate processors, so that
processors form trees.  What its scripts are made of is left open.

## Main definitions

* `Declaration`: what a processor declares, with scripts over a type of actions.
* `Processor`: a processor with its subordinate ones; its key tells it from all others.
* `Processor.names`: what a processor answers to.
* `Processor.adopt`: a tree of processors under fresh keys.
-/

namespace CommandShell

/-- How a processor may be replaced and listed. -/
structure Metadata where
  /-- Whether it cannot be replaced or removed. -/
  sealed : Bool := false
  /-- The group that it is listed under. -/
  group : Option String := none
  /-- Whether it is left out of lists. -/
  hidden : Bool := false

/-- When a hook runs. -/
inductive HookPhase where
  /-- Before the handler. -/
  | before
  /-- After the handler has returned. -/
  | after
  /-- At no time that is known. -/
  | other
deriving DecidableEq, Repr

/-- A script that runs around the handler of a processor. -/
structure Hook (α : Type) where
  /-- When it runs. -/
  phase : HookPhase
  /-- What it does. -/
  script : List α

/-- The state bucket that a processor declares. -/
structure BucketPlan where
  /-- The state at first. -/
  initial : Value
  /-- The name of the bucket, if it is not that of the command. -/
  name : Option String := none

/-- What a processor does when its command runs. -/
inductive Handler (α : Type) where
  /-- Runs a script. -/
  | script (actions : List α)
  /-- Describes the commands. -/
  | help
  /-- Defines aliases. -/
  | defineAliases
  /-- Lists the aliases. -/
  | listAliases
  /-- Removes an alias. -/
  | removeAlias
  /-- Writes a text and passes it on. -/
  | echo
deriving Inhabited

/-- What a processor does once when the shell starts. -/
inductive SetUp (α : Type) where
  /-- Runs a script. -/
  | script (actions : List α)
  /-- Follows the state bucket, so that aliases are expanded as they are defined there. -/
  | followAliases

/-- What a processor adds to its description. -/
inductive Describer (α : Type) where
  /-- Runs a script. -/
  | script (actions : List α)
  /-- Explains how descriptions are asked for. -/
  | helpUsage

/-- What a processor replies to a value before it runs. -/
inductive Reply where
  /-- A verdict. -/
  | verdict (v : Verdict)
  /-- The check itself fails. -/
  | fails (fault : Fault)

/-- A reply to one value, or to every value. -/
structure ReplyRule where
  /-- The value that the rule is for; nothing stands for every value. -/
  value : Option Value
  /-- The reply. -/
  reply : Reply

/-- What a processor declares. -/
structure Declaration (α : Type) where
  /-- The name of the command. -/
  command : String
  /-- The name under which the processor is reported. -/
  label : String
  /-- What the command is for. -/
  description : String := ""
  /-- Other names of the command. -/
  aliases : List String := []
  /-- The version; nothing that counts as true stands for the default. -/
  version : Value := .null
  /-- How the processor may be replaced and listed. -/
  metadata : Option Metadata := none
  /-- The declared flags. -/
  parameters : List Parameter := []
  /-- The hooks in the order in which they run. -/
  hooks : List (Hook α) := []
  /-- The declared state bucket. -/
  bucket : Option BucketPlan := none
  /-- Whether free text may follow the name. -/
  allowsText : Bool := false
  /-- Whether free text must follow the name. -/
  needsText : Bool := false
  /-- Whether the processor extends the one that it meets under its name. -/
  isExtension : Bool := false
  /-- What the command does. -/
  handler : Handler α
  /-- What is done when the shell starts. -/
  setUp : Option (SetUp α) := none
  /-- What is added to the description. -/
  describer : Option (Describer α) := none
  /-- The replies to values before the handler runs. -/
  replies : Option (List ReplyRule) := none
deriving Inhabited

/-- A processor with its subordinate ones. -/
structure Processor (α : Type) where
  /-- What tells the processor from all others. -/
  key : Nat
  /-- What it declares. -/
  decl : Declaration α
  /-- Its subordinate processors. -/
  children : List (Processor α)
deriving Inhabited

namespace Processor

variable {α : Type}

/-- The name of the command. -/
def command (p : Processor α) : String := p.decl.command

/-- The command name and the aliases in lower case. -/
def names (p : Processor α) : List String :=
  lowerCase p.command :: p.decl.aliases.map lowerCase

/-- Whether a processor cannot be replaced or removed. -/
def isSealed (p : Processor α) : Bool :=
  p.decl.metadata.any (·.sealed)

/-- Whether a processor is left out of lists. -/
def isHidden (p : Processor α) : Bool :=
  p.decl.metadata.any (·.hidden)

/-- Whether a processor has subordinate ones. -/
def hasChildren (p : Processor α) : Bool :=
  !p.children.isEmpty

/-- Whether a processor takes free text after its name. -/
def acceptsText (p : Processor α) : Bool :=
  p.decl.allowsText || p.decl.needsText

/-- The scripts of the hooks of a phase, in order. -/
def hookScripts (p : Processor α) (phase : HookPhase) : List (List α) :=
  (p.decl.hooks.filter fun h => h.phase == phase).map (·.script)

/-- The version of a processor. -/
def version (p : Processor α) : Value :=
  p.decl.version.nonEmpty?.getD (.text "1.0.0")

mutual

/-- A tree of processors under fresh keys from `next` on, and the next fresh key. -/
def adopt (next : Nat) : Processor α → Processor α × Nat
  | ⟨_, decl, children⟩ =>
    let (children, next) := adoptAll next children
    (⟨next, decl, children⟩, next + 1)

/-- Trees of processors under fresh keys from `next` on, and the next fresh key. -/
def adoptAll (next : Nat) : List (Processor α) → List (Processor α) × Nat
  | [] => ([], next)
  | p :: rest =>
    let (p, next) := adopt next p
    let (rest, next) := adoptAll next rest
    (p :: rest, next)

end

mutual

/-- The subordinate processors of a tree at all levels, each with the one directly above it. -/
def links : Processor α → List (Processor α × Processor α)
  | ⟨key, decl, children⟩ => linksUnder ⟨key, decl, children⟩ children

/-- Some subordinate processors of `parent` and those below them, each with the one directly above
it. -/
def linksUnder (parent : Processor α) : List (Processor α) → List (Processor α × Processor α)
  | [] => []
  | p :: rest => (p, parent) :: links p ++ linksUnder parent rest

end

end Processor

end CommandShell
