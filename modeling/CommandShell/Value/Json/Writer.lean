import CommandShell.Value.Text

/-!
# Writing JSON

A value becomes a sequence of pieces: texts, and what may be refused on the way, which is whole
numbers and values that JSON cannot express.  Characters outside ASCII are written as escapes of
UTF-16 units.

## Main definitions

* `Json.Layout`: on one line, or one entry per line with an indentation.
* `Json.pieces`: the pieces of a value.
* `Json.encodeShown`: the JSON text of a value in which the rest is shown as texts.
-/

namespace CommandShell

namespace Json

/-- How the entries of lists and maps are laid out. -/
inductive Layout where
  /-- Everything on one line. -/
  | line
  /-- One entry per line, indented by so many spaces for each level. -/
  | indented (width : Nat)

/-- Numbers in JSON are written as elsewhere, but with the names of the standard for the others. -/
def jsonFloats : FloatLayout :=
  { valueFloats with notANumber := "NaN", infinite := "Infinity" }

/-- One UTF-16 unit as an escape. -/
def unitEscape (n : Nat) : List Char :=
  '\\' :: 'u' :: Chars.hex 4 n

/-- A character inside a JSON text. -/
def escapeChar (c : Char) : List Char :=
  if c = '"' then ['\\', '"']
  else if c = '\\' then ['\\', '\\']
  else if c = '\n' then ['\\', 'n']
  else if c = '\r' then ['\\', 'r']
  else if c = '\t' then ['\\', 't']
  else if c.toNat = 8 then ['\\', 'b']
  else if c.toNat = 12 then ['\\', 'f']
  else if 0x20 ≤ c.toNat ∧ c.toNat < 0x7F then [c]
  else if c.toNat < 0x10000 then unitEscape c.toNat
  else
    let n := c.toNat - 0x10000
    unitEscape (0xD800 + n / 0x400) ++ unitEscape (0xDC00 + n % 0x400)

/-- A text as a JSON text. -/
def encodeText (s : String) : String :=
  String.ofList ('"' :: s.toList.flatMap escapeChar ++ ['"'])

/-- A part of a written value. -/
inductive Piece where
  /-- Finished JSON text. -/
  | json (s : String)
  /-- A whole number, and what is written with it in front of it. -/
  | number (lead : String) (n : Int)
  /-- A value that JSON cannot express, by the text it is shown as. -/
  | foreign (shown : String)

namespace Layout

/-- What stands between a bracket and the first entry, and between the last one and the bracket. -/
def newline (l : Layout) (level : Nat) : String :=
  match l with
  | line => ""
  | indented width => "\n" ++ String.ofList (List.replicate (width * level) ' ')

/-- What stands between two entries. -/
def separator (l : Layout) (level : Nat) : String :=
  match l with
  | line => ", "
  | indented _ => "," ++ l.newline level

end Layout

/-- The pieces of an item of a list behind what stands in front of it, which is written together
with a whole number. -/
def ledBy (lead : String) : Value → List Piece → List Piece
  | .int n, _ => [.number lead n]
  | _, ps => .json lead :: ps

mutual

/-- The pieces of a value whose entries are at a given level. -/
def piecesAt (l : Layout) (level : Nat) : Value → List Piece
  | .null => [.json "null"]
  | .bool b => [.json (if b then "true" else "false")]
  | .int n => [.number "" n]
  | .float x => [.json (jsonFloats.write x)]
  | .text s => [.json (encodeText s)]
  | .foreign s => [.foreign s]
  | .list [] => [.json "[]"]
  | .list (v :: rest) =>
    ledBy ("[" ++ l.newline level) v (piecesAt l (level + 1) v) ++ itemPieces l level rest ++
      [.json (l.newline (level - 1) ++ "]")]
  | .map [] => [.json "\x7b\x7d"]
  | .map ((k, v) :: rest) =>
    .json ("\x7b" ++ l.newline level ++ encodeText k ++ ": ") :: piecesAt l (level + 1) v ++
      entryPieces l level rest ++ [.json (l.newline (level - 1) ++ "\x7d")]

/-- The pieces of the items of a list after the first. -/
def itemPieces (l : Layout) (level : Nat) : List Value → List Piece
  | [] => []
  | v :: rest =>
    ledBy (l.separator level) v (piecesAt l (level + 1) v) ++ itemPieces l level rest

/-- The pieces of the entries of a map after the first. -/
def entryPieces (l : Layout) (level : Nat) : List (String × Value) → List Piece
  | [] => []
  | (k, v) :: rest =>
    .json (l.separator level ++ encodeText k ++ ": ") :: piecesAt l (level + 1) v ++
      entryPieces l level rest

end

/-- The pieces of a value. -/
def pieces (l : Layout) (v : Value) : List Piece :=
  piecesAt l 1 v

/-- The JSON text of a value on one line, with what cannot be expressed shown as a text. -/
def encodeShown (v : Value) : String :=
  String.join ((pieces .line v).map fun
    | .json s => s
    | .number lead n => lead ++ toString n
    | .foreign s => encodeText s)

end Json

end CommandShell
