import CommandShell.Line.Part
import CommandShell.Processor.Registry
import CommandShell.Text.Truncate

/-!
# Completion

While the first word of a segment is being typed, the commands whose names start with it are
offered.

## Main definitions

* `Completion`: an offered word.
* `completions`: what is offered after a text.
* `completionsAt`: what is offered at a cursor in a text.
-/

namespace CommandShell

/-- An offered word. -/
structure Completion where
  /-- The whole word. -/
  text : String
  /-- How many characters before the cursor it replaces. -/
  replaced : Nat
  /-- What is shown beside it. -/
  note : String
deriving DecidableEq, Repr

/-- The word being typed at the end of a text; nothing if that is not the first word of a
segment. -/
def typedWord? (text : String) : Option String :=
  match (splitLine text).getLast? with
  | some (.segment s) =>
    if s.contains ' ' || text.toList.getLast?.any isBlank then none else some s
  | _ => some ""

/-- The words that a command offers for a typed one. -/
def Registry.Listing.completions (c : Registry.Listing) (typed : String) : List Completion :=
  let matching := (c.name :: c.aliases).filter fun n => (lowerCase n).startsWith (lowerCase typed)
  matching.map fun n => ⟨n, typed.length, truncate c.description 50 "..."⟩

/-- What is offered after a text. -/
def completions (commands : List Registry.Listing) (text : String) : List Completion :=
  match typedWord? text with
  | some typed => commands.flatMap (·.completions typed)
  | none => []

/-- What is offered at a cursor in a text: only the text before the cursor counts.  A negative
cursor counts from the end, and the text has to reach up to the cursor. -/
def completionsAt (commands : List Registry.Listing) (text : String) (cursor : Int) :
    Except Fault (List Completion) :=
  if cursor ≤ text.length then
    .ok (completions commands (String.ofList (Chars.upTo cursor text.toList)))
  else .error (.cursorBeyondText cursor text.length)

end CommandShell
