import CommandShell.Markup
import CommandShell.Event

/-!
# What a terminal shows

The events of a shell as the texts that a terminal shows for them.  Tags of colours are left out,
and the columns of a table are made equally wide.

## Main definitions

* `Event.output`: what is shown of an event.
* `Event.logLine?`: the line that a logged message is shown as.
-/

namespace CommandShell

/-- A text made as wide as a column. -/
def padded (width : Nat) (s : String) : String :=
  s ++ String.ofList (List.replicate (width - s.length) ' ')

namespace Table

/-- The widths of the columns of some rows. -/
def widths (rows : List (List String)) : List Nat :=
  rows.foldl
    (fun ws row =>
      (List.range (max ws.length row.length)).map fun i =>
        max (ws.getD i 0) ((row.getD i "").length)) []

/-- The lines of a table: its title, the names of its columns and its rows. -/
def lines (t : Table) : List String :=
  let rows := t.columns.map (·.1) :: t.rows
  let ws := widths rows
  t.title :: rows.map fun row => "  ".intercalate (List.zipWith padded ws row)

end Table

namespace Event

/-- What is shown of an event. -/
def output : Event → String
  | print text => plainText text ++ "\n"
  | write text => plainText text
  | table t => String.join (t.lines.map (· ++ "\n"))
  | panel text _ _ => plainText text ++ "\n"
  | prompt spans => String.join (spans.map (·.2.shown))
  | _ => ""

/-- The line that a logged message is shown as. -/
def logLine? : Event → Option String
  | log source level message =>
    let name := match level with
      | .warning => "WARNING "
      | .error => "ERROR "
    some (name ++ source ++ ": " ++ message ++ "\n")
  | _ => none

end Event

end CommandShell
