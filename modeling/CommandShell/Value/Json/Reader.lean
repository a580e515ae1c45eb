import CommandShell.Text.Digit
import CommandShell.Value.Basic

/-!
# Reading JSON

A value from its JSON text.  Besides the standard, the names `NaN`, `Infinity` and `-Infinity` are
numbers.  Of two entries with one key the later one counts.  Whole numbers of more than
`maxDigits` digits are refused, and so are lists and maps that are nested deeper than `maxNesting`.

## Main definitions

* `Json.ReadError`: why a text cannot be read.
* `Json.read`: the value of a JSON text.
-/

namespace CommandShell

/-- The greatest number of digits that a whole number may be written with. -/
def maxDigits : Nat := 4300

namespace Json

/-- How deep lists and maps may be nested. -/
def maxNesting : Nat := 980

/-- Why a text cannot be read as JSON. -/
inductive ReadError where
  /-- The text does not follow the grammar. -/
  | malformed
  /-- A whole number has too many digits. -/
  | tooManyDigits (count : Nat)
  /-- Lists and maps are nested too deeply; the one that is too deep is of the given kind. -/
  | tooDeep (kind : String)
deriving DecidableEq, Repr

/-- The text from the first character that is not JSON white space. -/
def skipSpace (cs : List Char) : List Char :=
  cs.dropWhile fun c => c = ' ' || c = '\t' || c = '\n' || c = '\r'

/-- The value of a hexadecimal digit. -/
def hexValue? (c : Char) : Option Nat :=
  if '0' ≤ c ∧ c ≤ '9' then some (c.toNat - '0'.toNat)
  else if 'a' ≤ c ∧ c ≤ 'f' then some (c.toNat - 'a'.toNat + 10)
  else if 'A' ≤ c ∧ c ≤ 'F' then some (c.toNat - 'A'.toNat + 10)
  else none

/-- The number written by four hexadecimal digits. -/
def unit? (a b c d : Char) : Option Nat := do
  return (((← hexValue? a) * 16 + (← hexValue? b)) * 16 + (← hexValue? c)) * 16 + (← hexValue? d)

/-- The character that a one-letter escape stands for. -/
def escape? : Char → Option Char
  | '"' => some '"'
  | '\\' => some '\\'
  | '/' => some '/'
  | 'b' => some '\x08'
  | 'f' => some '\x0c'
  | 'n' => some '\n'
  | 'r' => some '\r'
  | 't' => some '\t'
  | _ => none

/-- The UTF-16 units and characters of a text up to its closing quote. -/
def readUnits : List Char → Except ReadError (List Nat × List Char)
  | [] => .error .malformed
  | '"' :: rest => .ok ([], rest)
  | '\\' :: 'u' :: a :: b :: c :: d :: rest =>
    match unit? a b c d with
    | some n => do let (units, rest) ← readUnits rest; return (n :: units, rest)
    | none => .error .malformed
  | '\\' :: e :: rest =>
    match escape? e with
    | some c => do let (units, rest) ← readUnits rest; return (c.toNat :: units, rest)
    | none => .error .malformed
  | c :: rest =>
    if c.toNat < 0x20 || c = '\\' then .error .malformed
    else do let (units, rest) ← readUnits rest; return (c.toNat :: units, rest)

/-- The characters of some units, with each surrogate pair joined. -/
def joinUnits : List Nat → List Char
  | [] => []
  | h :: l :: rest =>
    if 0xD800 ≤ h ∧ h < 0xDC00 ∧ 0xDC00 ≤ l ∧ l < 0xE000 then
      Char.ofNat (0x10000 + (h - 0xD800) * 0x400 + (l - 0xDC00)) :: joinUnits rest
    else (if 0xD800 ≤ h ∧ h < 0xE000 then '\ufffd' else Char.ofNat h) :: joinUnits (l :: rest)
  | [h] => [if 0xD800 ≤ h ∧ h < 0xE000 then '\ufffd' else Char.ofNat h]

/-- A text after its opening quote. -/
def readText (cs : List Char) : Except ReadError (String × List Char) := do
  let (units, rest) ← readUnits cs
  return (String.ofList (joinUnits units), rest)

/-- Whether a character is an ASCII digit. -/
def isAsciiDigit (c : Char) : Bool :=
  '0' ≤ c ∧ c ≤ '9'

/-- The digits after a point, if a point with a digit comes next. -/
def readFraction : List Char → Option (List Char × List Char)
  | '.' :: c :: rest =>
    if isAsciiDigit c then
      some (c :: rest.takeWhile isAsciiDigit, rest.dropWhile isAsciiDigit)
    else none
  | _ => none

/-- The power of ten of an exponent part, if one comes next. -/
def readExponent : List Char → Option (Int × List Char)
  | e :: rest =>
    if e = 'e' || e = 'E' then
      let (negative, digits) := match rest with
        | '-' :: ds => (true, ds)
        | '+' :: ds => (false, ds)
        | ds => (false, ds)
      let ds := digits.takeWhile isAsciiDigit
      if ds.isEmpty then none
      else
        let n : Int := digitsToNat ds
        some (if negative then -n else n, digits.dropWhile isAsciiDigit)
    else none
  | [] => none

/-- The whole part of a number: a single zero, or digits that do not start with one. -/
def readWhole : List Char → Option (List Char × List Char)
  | '0' :: rest => some (['0'], rest)
  | c :: rest =>
    if isAsciiDigit c then
      some (c :: rest.takeWhile isAsciiDigit, rest.dropWhile isAsciiDigit)
    else none
  | [] => none

/-- The floating-point number with given digits before and after the point. -/
def floatOf (whole fraction : List Char) (exponent : Int) : Float :=
  Decimal.toFloat ⟨digitsToNat (whole ++ fraction), exponent - fraction.length⟩

/-- A number without its sign. -/
def readNumber (negative : Bool) (cs : List Char) : Except ReadError (Value × List Char) :=
  match readWhole cs with
  | none => .error .malformed
  | some (whole, rest) =>
    let fraction := readFraction rest
    let rest := (fraction.map (·.2)).getD rest
    let exponent := readExponent rest
    let rest := (exponent.map (·.2)).getD rest
    if fraction.isNone && exponent.isNone then
      if maxDigits < whole.length then .error (.tooManyDigits whole.length)
      else
        let n : Int := digitsToNat whole
        .ok (.int (if negative then -n else n), rest)
    else
      let x := floatOf whole ((fraction.map (·.1)).getD []) ((exponent.map (·.1)).getD 0)
      .ok (.float (if negative then -x else x), rest)

/-- The rest of a text after a word that it starts with. -/
def afterWord? (word : String) (cs : List Char) : Option (List Char) :=
  if word.toList.isPrefixOf cs then some (cs.drop word.length) else none

/-- The names that stand for a value. -/
def names : List (String × Value) :=
  [("null", .null), ("true", .bool true), ("false", .bool false), ("NaN", .float (0.0 / 0.0)),
    ("Infinity", .float (1.0 / 0.0)), ("-Infinity", .float (-1.0 / 0.0))]

/-- A name or a number. -/
def readScalar (cs : List Char) : Except ReadError (Value × List Char) :=
  -- The names go first: `-Infinity` starts like a number.
  match names.findSome? fun (word, v) => (afterWord? word cs).map fun rest => (v, rest) with
  | some r => .ok r
  | none =>
    match cs with
    | '-' :: rest => readNumber true rest
    | _ => readNumber false cs

mutual

/-- A value at the start of a text; every nested value takes one from `fuel`, and `room` is how deep
lists and maps may still be nested. -/
def readValue : Nat → Nat → List Char → Except ReadError (Value × List Char)
  | 0, _, _ => .error .malformed
  | fuel + 1, room, cs =>
    match cs, room with
    | '"' :: rest, _ => do let (s, rest) ← readText rest; return (.text s, rest)
    -- The bracket that is one too deep is refused before anything behind it is read.
    | '[' :: _, 0 => .error (.tooDeep "array")
    | '[' :: rest, room + 1 =>
      match skipSpace rest with
      | ']' :: rest => .ok (.list [], rest)
      | rest => do let (items, rest) ← readItems fuel room rest; return (.list items, rest)
    | '\x7b' :: _, 0 => .error (.tooDeep "object")
    | '\x7b' :: rest, room + 1 =>
      match skipSpace rest with
      | '\x7d' :: rest => .ok (.map [], rest)
      | rest => do
        let (entries, rest) ← readEntries fuel room rest
        return (.map (Entries.ofPairs entries), rest)
    | cs, _ => readScalar cs

/-- The items of a list up to its closing bracket. -/
def readItems : Nat → Nat → List Char → Except ReadError (List Value × List Char)
  | 0, _, _ => .error .malformed
  | fuel + 1, room, cs => do
    let (v, rest) ← readValue fuel room cs
    match skipSpace rest with
    | ',' :: rest =>
      let (vs, rest) ← readItems fuel room (skipSpace rest)
      return (v :: vs, rest)
    | ']' :: rest => return ([v], rest)
    | _ => .error .malformed

/-- The entries of a map up to its closing bracket. -/
def readEntries : Nat → Nat → List Char → Except ReadError (List (String × Value) × List Char)
  | 0, _, _ => .error .malformed
  | fuel + 1, room, cs => do
    match cs with
    | '"' :: rest =>
      let (k, rest) ← readText rest
      match skipSpace rest with
      | ':' :: rest =>
        let (v, rest) ← readValue fuel room (skipSpace rest)
        match skipSpace rest with
        | ',' :: rest =>
          let (es, rest) ← readEntries fuel room (skipSpace rest)
          return ((k, v) :: es, rest)
        | '\x7d' :: rest => return ([(k, v)], rest)
        | _ => .error .malformed
      | _ => .error .malformed
    | _ => .error .malformed

end

/-- The value of a JSON text. -/
def read (s : String) : Except ReadError Value := do
  let cs := skipSpace s.toList
  let (v, rest) ← readValue (cs.length + 1) maxNesting cs
  match skipSpace rest with
  | [] => return v
  | _ => .error .malformed

end Json

end CommandShell
