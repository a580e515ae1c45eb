import CommandShell.Line.Arguments
import CommandShell.Shell.Script

/-!
# Descriptions of commands

What `help` prints: the list of all commands in their groups, or the description of one command.

## Main definitions

* `Run.describeAll`: the list of all commands.
* `Run.describe`: the description of a processor.
* `Run.help`: what `help` prints for the words after it.
-/

namespace CommandShell

/-- The group that a processor is listed under. -/
def Processor.group {α : Type} (p : Processor α) : String :=
  ((p.decl.metadata.bind (·.group)).filter (· ≠ "")).getD "uncategorized"

/-- Some processors that stand together by their groups. -/
def groupRuns {α : Type} (ps : List (Processor α)) : List (String × List (Processor α)) :=
  (ps.splitBy fun p q => p.group == q.group).filterMap fun run =>
    run.head?.map fun p => (p.group, run)

/-- The visible root processors in their groups: the groups by name, and the processors of each by
command. -/
def Registry.groups {α : Type} (r : Registry α) : List (String × List (Processor α)) :=
  let visible := r.processors.filter fun p => !p.isHidden
  (groupRuns (visible.mergeSort fun p q => p.group ≤ q.group)).map fun g =>
    (g.1, g.2.mergeSort fun p q => p.command ≤ q.command)

/-- The aliases of a processor as they stand behind its name in the list of all commands. -/
def Processor.aliasNote {α : Type} (p : Processor α) : String :=
  if p.decl.aliases.isEmpty then ""
  else " " ++ coloured "magenta" ("(" ++ ", ".intercalate p.decl.aliases ++ ")")

/-- The row of a parameter in the table of parameters. -/
def Parameter.row (p : Parameter) : Except Fault (List String) :=
  match p.aliases with
  | none => .error (.notIterable "NoneType")
  | some names =>
    .ok ["--" ++ p.name, ", ".intercalate (names.map ("-" ++ ·)), p.type,
      if p.required then "yes" else "no", p.description]

/-- The table of some parameters. -/
def parameterTable (ps : List Parameter) : Except Fault Table := do
  return {
    title := "Parameters"
    headerStyle := "bold"
    columns := [("Name", "cyan"), ("Aliases", "magenta"), ("Type", ""), ("Required", ""),
      ("Description", "dim")]
    rows := ← ps.mapM Parameter.row }

/-- The line between two parts of a description. -/
def separatorLine : String :=
  String.ofList (List.replicate 40 '─')

/-- The lines that name what a processor extends, the nearest first, each further to the right. -/
def extensionLines (bases : List ShellProcessor) : List String :=
  bases.zipIdx.map fun e =>
    String.ofList (List.replicate (e.2 + 1) ' ') ++ "└ " ++ coloured "cyan" e.1.command

namespace Run

/-- Prints some lines. -/
def printLines (lines : List String) : Run Unit :=
  lines.forM print

/-- A part of a description under a heading. -/
def part (heading : String) (body : Run Unit) : Run Unit := do
  print (coloured "yellow" heading)
  body
  print separatorLine

/-- One group in the list of all commands. -/
def describeGroup (name : String) (ps : List ShellProcessor) : Run Unit := do
  print (coloured "yellow" (capitalize name))
  ps.forM fun p =>
    let description := if p.decl.description = "" then "Missing description" else p.decl.description
    print ("  " ++ coloured "cyan" p.command ++ p.aliasNote ++ " - " ++ description)
  print ""

/-- The list of all commands. -/
def describeAll : Run Unit := do
  let groups := (← get).registry.groups
  print (coloured "yellow" "Available commands:")
  print ""
  groups.forM fun g => describeGroup g.1 g.2
  print ("Type " ++ coloured "cyan" "help <command>" ++
    " to get more information about a specific command")

/-- How descriptions are asked for. -/
def describeHelp : Run Unit :=
  printLines ["Displays help information for commands", "", "Usage:",
    "  " ++ coloured "cyan" "help" ++ "                    Show all available commands",
    "  " ++ coloured "cyan" "help <command>" ++ "          Show details for a command",
    "  " ++ coloured "cyan" "help <command> <sub>" ++ "    Show details for a subcommand"]

variable (rerun : String → Run Unit) (c : Scope)

/-- What a processor adds to its description. -/
def describeFurther : Describer Action → Run Unit
  | .script actions => performAll rerun { c with invocation := none } actions
  | .helpUsage => describeHelp

/-- What a processor extends, if what it leads to comes to an end. -/
def basesOf (p : ShellProcessor) : Run (List ShellProcessor) := do
  let r := (← get).registry
  let bases := r.basesOf (r.bases.length + 1) p
  if bases.length ≤ r.bases.length then return bases
  throw .unfinished

/-- The description of a processor. -/
def describe (p : ShellProcessor) : Run Unit := do
  print (coloured "yellow" "Command:" ++ " " ++ coloured "cyan" p.command ++ " " ++
    coloured "green" ("v" ++ p.version.shown))
  if p.decl.description ≠ "" then print ("   " ++ p.decl.description)
  if !p.decl.aliases.isEmpty then
    print ("   " ++ coloured "yellow" "Aliases:" ++ " " ++
      ", ".intercalate (p.decl.aliases.map (coloured "magenta")))
  print separatorLine
  let bases ← basesOf p
  if !bases.isEmpty then part "Extension chain:" (printLines (extensionLines bases))
  match p.decl.describer with
  | some d => part "Description:" (describeFurther rerun c d)
  | none => pure ()
  if p.hasChildren then
    part "Subcommands:" (printLines (p.children.map fun q =>
      "  " ++ coloured "cyan" q.command ++ " - " ++ q.decl.description))
  if !p.decl.parameters.isEmpty then
    emit (.table (← ofExcept (parameterTable p.decl.parameters)))

/-- What `help` prints for the words of a command. -/
def help (i : Invocation) : Run Unit := do
  match (splitWords i.command).drop 1 with
  | [] => describeAll
  | name :: chain =>
    match (← get).registry.find? name chain with
    | some p => describe rerun c p
    | none =>
      say .error ("Unknown command: " ++ coloured "cyan" name)
      print ""
      print ("Type " ++ coloured "cyan" "help" ++ " to see all available commands")

end Run

end CommandShell
