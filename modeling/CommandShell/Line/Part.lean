import CommandShell.Text.Blank

/-!
# Parts of a line

A line is cut at the operators `&&`, `||`, `|` and `>>` that stand outside quotes.  Between two
operators stands a segment, which is kept without the blanks around it and dropped if nothing is
left.

## Main definitions

* `Operator`: the four operators.
* `Part`: a segment or an operator.
* `Quoting`: whether a position of a line is inside a quoted region, and of which kind.
* `splitLine`: the parts of a line.
-/

namespace CommandShell

/-- An operator between two segments of a line. -/
inductive Operator where
  /-- The next segment runs if the last one succeeded. -/
  | and
  /-- The next segment runs if the last one failed. -/
  | or
  /-- The next segment runs and takes the payload of the last one. -/
  | pipe
  /-- The payload is appended to the file whose path comes next. -/
  | append
deriving DecidableEq, Repr

/-- An operator as it is written. -/
def Operator.symbol : Operator → String
  | and => "&&"
  | or => "||"
  | pipe => "|"
  | append => ">>"

/-- A segment of a line or an operator. -/
inductive Part where
  /-- The text between two operators, without the blanks around it. -/
  | segment (text : String)
  /-- An operator. -/
  | operator (op : Operator)
deriving DecidableEq, Repr

namespace Part

/-- Whether a part is a segment. -/
def isSegment : Part → Bool
  | segment _ => true
  | operator _ => false

/-- A part as it is written. -/
def text : Part → String
  | segment s => s
  | operator op => op.symbol

end Part

/-- The quoted region, if any, that a position of a line lies in. -/
inductive Quoting where
  /-- Outside quotes. -/
  | closed
  /-- Between single quotes. -/
  | single
  /-- Between double quotes. -/
  | double
deriving DecidableEq, Repr

/-- The quoting after a character; each kind of quote is plain text inside the other. -/
def Quoting.after : Quoting → Char → Quoting
  | closed, c => if c = '\'' then single else if c = '"' then double else closed
  | single, c => if c = '\'' then closed else single
  | double, c => if c = '"' then closed else double

/-- The part, if any, that the characters of a segment make. -/
def segmentPart (cs : List Char) : List Part :=
  match Chars.trim cs with
  | [] => []
  | kept => [.segment (String.ofList kept)]

/-- The parts of the rest of a line: `q` is the quoting at its start and `seen` holds, in reverse,
what the segment that is being read has so far. -/
def splitFrom : Quoting → List Char → List Char → List Part
  | _, seen, [] => segmentPart seen.reverse
  | .closed, seen, '&' :: '&' :: rest =>
    segmentPart seen.reverse ++ .operator .and :: splitFrom .closed [] rest
  | .closed, seen, '|' :: '|' :: rest =>
    segmentPart seen.reverse ++ .operator .or :: splitFrom .closed [] rest
  | .closed, seen, '>' :: '>' :: rest =>
    segmentPart seen.reverse ++ .operator .append :: splitFrom .closed [] rest
  | .closed, seen, '|' :: rest =>
    segmentPart seen.reverse ++ .operator .pipe :: splitFrom .closed [] rest
  | q, seen, c :: rest => splitFrom (q.after c) (c :: seen) rest

/-- The parts of a line. -/
def splitLine (line : String) : List Part :=
  splitFrom .closed [] line.toList

end CommandShell
