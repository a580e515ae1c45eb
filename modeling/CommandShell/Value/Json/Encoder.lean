import CommandShell.Value.Json.Reader
import CommandShell.Value.Json.Writer

/-!
# Encoding as JSON

A value is written on one line, or refused: for a part that JSON cannot express, for a whole number
of more than `maxDigits` digits, or for lists and maps that are nested deeper than `maxNesting`.
Of several reasons the one that comes first in the text counts.  A value that is written piece by
piece is written up to what is refused.

## Main definitions

* `Json.WriteError`: why a value is refused.
* `Json.encode`: the JSON text of a value.
* `Json.encodePart`: the JSON text up to the first part that is refused.
-/

namespace CommandShell

namespace Json

/-- Why a value cannot be written as JSON. -/
inductive WriteError where
  /-- A part of the given kind has no JSON form. -/
  | notEncodable (kind : String)
  /-- A whole number has too many digits. -/
  | tooManyDigits
  /-- Lists and maps are nested too deeply. -/
  | tooDeep
deriving DecidableEq, Repr

/-- What is reported for a value that is refused. -/
def WriteError.message : WriteError → String
  | notEncodable kind => s!"Object of type {kind} is not JSON serializable"
  | tooManyDigits =>
    s!"Exceeds the limit ({maxDigits} digits) for integer string conversion; " ++
      "use sys.set_int_max_str_digits() to increase the limit"
  | tooDeep => "maximum recursion depth exceeded while encoding a JSON object"

/-- Why a whole number is refused, if it is. -/
def numberRefusal? (n : Int) : Option WriteError :=
  if maxDigits < (Nat.toDigits 10 n.natAbs).length then some .tooManyDigits else none

/-- The text of some pieces up to the first that is refused, and why it is, if one is. -/
def joinPart : List Piece → String × Option WriteError
  | [] => ("", none)
  | .json s :: rest =>
    let (t, e) := joinPart rest
    (s ++ t, e)
  | .number lead n :: rest =>
    match numberRefusal? n with
    | some e => ("", some e)
    | none =>
      let (t, e) := joinPart rest
      (lead ++ toString n ++ t, e)
  | .foreign shown :: _ => ("", some (.notEncodable (Value.foreign shown).kind))

/-- The JSON text of a value up to the first part that is refused, and why it is, if one is. -/
def encodePart (l : Layout) (v : Value) : String × Option WriteError :=
  joinPart (pieces l v)

mutual

/-- Why a value is refused, if it is; `room` is how deep lists and maps may still be nested. -/
def refusal? (room : Nat) : Value → Option WriteError
  | .null | .bool _ | .float _ | .text _ => none
  | .int n => numberRefusal? n
  | .foreign shown => some (.notEncodable (Value.foreign shown).kind)
  | .list items =>
    match room with
    | 0 => some .tooDeep
    | room + 1 => itemsRefusal? room items
  | .map entries =>
    match room with
    | 0 => some .tooDeep
    | room + 1 => entriesRefusal? room entries

/-- Why one of the items of a list is refused. -/
def itemsRefusal? (room : Nat) : List Value → Option WriteError
  | [] => none
  | v :: rest => (refusal? room v).or (itemsRefusal? room rest)

/-- Why the value of one of the entries of a map is refused. -/
def entriesRefusal? (room : Nat) : List (String × Value) → Option WriteError
  | [] => none
  | (_, v) :: rest => (refusal? room v).or (entriesRefusal? room rest)

end

/-- The JSON text of a value on one line. -/
def encode (v : Value) : Except WriteError String :=
  match refusal? maxNesting v with
  | some e => .error e
  | none => .ok (encodePart .line v).1

end Json

end CommandShell
