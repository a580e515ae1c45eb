import CommandShell.Event
import CommandShell.Indicators
import CommandShell.Processor.Registry

/-!
# Actions

What the scripts of processors are made of.

## Main definitions

* `Action`: one act of a script.
* `ShellProcessor`: a processor whose scripts are made of actions.
-/

namespace CommandShell

/-- One act of a script. -/
inductive Action where
  /-- Reports the command that the script runs for. -/
  | record
  /-- Leaves a note. -/
  | note (tag : String)
  /-- Prints a text without ending its line. -/
  | write (text : String)
  /-- Prints a line, marked with a style if one is given. -/
  | print (style : Option Style) (text : String)
  /-- Prints a line in a colour. -/
  | printColoured (text color : String)
  /-- Gives a payload. -/
  | output (v : Value)
  /-- Gives the payload that was piped in. -/
  | outputData
  /-- Gives the free text of the command. -/
  | outputText
  /-- Gives the arguments of the command. -/
  | outputArgs
  /-- Exits with a code; a silent exit lets the script go on. -/
  | exit (code : ExitCode) (silent : Bool)
  /-- Fails. -/
  | fail (fault : Fault)
  /-- Updates the state bucket. -/
  | update (entries : Value)
  /-- Adds one to a number in the state bucket. -/
  | increment (key : String)
  /-- Puts the free text of the command into the state bucket. -/
  | storeText (key : String)
  /-- Reports the state bucket. -/
  | noteState
  /-- Keeps the state bucket in the store. -/
  | persist
  /-- Puts the state bucket back into its first state. -/
  | reset
  /-- Updates the bucket that all share. -/
  | updateShared (entries : Value)
  /-- Reports the bucket that all share. -/
  | noteShared
  /-- Runs a line. -/
  | run (line : String)
  /-- Describes the command. -/
  | help
  /-- Aborts. -/
  | abort
  /-- Cancels the token of the command. -/
  | cancelToken
  /-- Fails if the token of the command is cancelled. -/
  | checkToken
  /-- Reports the token of the command. -/
  | noteToken
  /-- Reports the cancellation of the token of the command. -/
  | onCancel (tag : String)
  /-- Reports every abort from now on. -/
  | onAbort (tag : String)
  /-- Registers a processor. -/
  | register (p : Processor Action)
  /-- Unregisters a processor. -/
  | unregister (name : String)
  /-- Pins the processor that a path of names leads to, or none. -/
  | pin (path : List String) (silent : Bool)
  /-- Asks for a service. -/
  | service (token : String)
  /-- Gives the text of a file as payload. -/
  | outputFile (path : String)
  /-- Reports the process record. -/
  | noteProcess
  /-- Lets others run. -/
  | pause
  /-- Acts if the free text of the command equals a value. -/
  | ifText (v : Value) (actions : List Action)
  /-- Acts if the command was given an argument. -/
  | ifArgument (name : String) (actions : List Action)
  /-- Tells a busy indicator something. -/
  | indicate (change : IndicatorChange)
deriving Inhabited

/-- A processor whose scripts are made of actions. -/
abbrev ShellProcessor := Processor Action

end CommandShell
