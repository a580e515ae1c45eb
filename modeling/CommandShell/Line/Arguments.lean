import CommandShell.Line.Segment
import CommandShell.Parameter
import CommandShell.Text.Casing
import CommandShell.Text.Split

/-!
# Arguments

The flags of a segment as the arguments of the processor that it reaches, and the free text that
follows the processor's name.

## Main definitions

* `bindFlags`: the arguments that some flags make under some parameters.
* `Parameter.given?`: the value given for a parameter.
* `textAfterWord?`: the text that follows the first of some words.
-/

namespace CommandShell

/-- The values that count as true for a `boolean` parameter. -/
def trueValues : List Value :=
  [.bool true, .int 1, .text "true", .text "1", .text "yes", .text "y"]

/-- The arguments with one more value of a parameter, under its name and its other names. -/
def Parameter.record (p : Parameter) (args : Entries Value) (v : Value) : Entries Value :=
  let value : Value :=
    if p.type = "array" then
      match args.get? p.name with
      | some (.list items) => .list (items ++ [v])
      | _ => .list [v]
    else if p.type = "boolean" then .bool (v.oneOf trueValues)
    else v
  p.otherNames.foldl (fun args name => args.insert name value) (args.insert p.name value)

/-- The arguments with one more flag. -/
def bindFlag (parameters : List Parameter) (args : Entries Value) (f : Flag) : Entries Value :=
  match parameters.find? (·.answersTo f.name) with
  | some p => p.record args f.value
  | none => args.insert f.name f.value

/-- The arguments that some flags make: those of a declared parameter stand under all its names,
all others under their own. -/
def bindFlags (parameters : List Parameter) (flags : List Flag) : Entries Value :=
  flags.foldl (bindFlag parameters) []

/-- The value given for a parameter under its name or the first of its other names that has one;
the absent value counts as not given. -/
def Parameter.given? (p : Parameter) (args : Entries Value) : Option Value :=
  (p.name :: p.otherNames).findSome? fun name =>
    (args.get? name).filter fun v => !v.isNull

/-- The words of a text that are separated by single spaces. -/
def splitWords (s : String) : List String :=
  splitText ' ' s

/-- The words after the first one that is among `wanted`. -/
def wordsAfter? (wanted : List String) : List String → Option (List String)
  | [] => none
  | w :: rest => if wanted.contains (lowerCase w) then some rest else wordsAfter? wanted rest

/-- The text that follows the first of some words, without the blanks around it; upper and lower
case are the same, and empty words do not count. -/
def textAfterWord? (text : String) (words : List String) : Option String :=
  let wanted := (words.filter (· ≠ "")).map lowerCase
  (wordsAfter? wanted (splitWords text)).map fun rest => trimBlanks (" ".intercalate rest)

end CommandShell
