import CommandShell.Markup
import CommandShell.Process

/-!
# Events

What a shell does that can be seen from outside, in the order in which it happens: what is printed
and logged, and what scripts report.

## Main definitions

* `Invocation`: a command as its handler gets it.
* `Event`: one thing that happens.
* `Style`: how a message is marked.
-/

namespace CommandShell

/-- A command as its handler gets it. -/
structure Invocation where
  /-- The words of the segment. -/
  command : String
  /-- The whole segment. -/
  raw : String
  /-- The words after the first, in lower case. -/
  chain : List String
  /-- The arguments. -/
  args : Entries Value
  /-- The payload that was piped in. -/
  data : Value
  /-- The free text after the processor's name, if the processor takes one. -/
  text : Option String := none

/-- The free text of an invocation as a value. -/
def Invocation.textValue (i : Invocation) : Value :=
  match i.text with
  | some s => .text s
  | none => .null

/-- How serious a logged message is. -/
inductive Level where
  /-- Something was refused. -/
  | warning
  /-- Something failed. -/
  | error
deriving DecidableEq, Repr

/-- A printed table. -/
structure Table where
  /-- What stands above the table. -/
  title : String
  /-- The style of the column names. -/
  headerStyle : String
  /-- The columns with their styles. -/
  columns : List (String × String)
  /-- The cells of the rows. -/
  rows : List (List String)

/-- One thing that happens. -/
inductive Event where
  /-- A line is printed. -/
  | print (text : String)
  /-- A text is printed without ending its line. -/
  | write (text : String)
  /-- A table is printed. -/
  | table (t : Table)
  /-- A framed text is printed. -/
  | panel (text border : String) (expand : Bool)
  /-- A message is logged by a part of the shell. -/
  | log (source : String) (level : Level) (message : String)
  /-- A script reports the command that it runs for. -/
  | call (label : String) (invocation : Invocation)
  /-- A script leaves a note. -/
  | note (tag : String)
  /-- A script reports the state of a bucket. -/
  | state (bucket : String) (value : Value)
  /-- A script reports its cancellation token: whether it is cancelled, and whether it is the one
  that an abort would cancel. -/
  | token (cancelled current : Bool)
  /-- A token that a script watches is cancelled. -/
  | cancelled (tag : String)
  /-- An abort reaches a script that watches for it. -/
  | aborted (tag : String)
  /-- A script registers a processor. -/
  | registered (accepted : Bool)
  /-- A script unregisters a processor. -/
  | unregistered (accepted : Bool)
  /-- A script asks whether there is a service. -/
  | service (present : Bool)
  /-- A script reports the process record. -/
  | process (record : ProcessRecord)
  /-- A line is asked for, after some styled texts. -/
  | prompt (spans : List (String × Value))
  /-- A watcher of a bucket receives a value. -/
  | seen (watcher : String) (value : Value)
  /-- A callback is called. -/
  | fired (tag : String)

/-- How a message is marked. -/
inductive Style where
  /-- Something failed. -/
  | error
  /-- Something succeeded. -/
  | success
  /-- Something is worth knowing. -/
  | info
  /-- Something needs care. -/
  | warning
deriving DecidableEq, Repr

/-- A message as it is printed: an error is red as a whole, the others only in their sign. -/
def Style.mark (style : Style) (message : String) : String :=
  match style with
  | error => "[bold red]✗[/bold red] [red]" ++ message ++ "[/red]"
  | success => "[bold green]✓[/bold green] " ++ message
  | info => "[bold blue]ℹ[/bold blue] " ++ message
  | warning => "[bold yellow]⚠[/bold yellow] " ++ message

end CommandShell
