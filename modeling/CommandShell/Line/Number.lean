import CommandShell.Text.Digit
import CommandShell.Value.Json.Reader

/-!
# Numbers in flags

The values of flags are texts, except those that look like a number or a truth value.  A number is
an optional sign, digits with at most one point among or around them, and an optional exponent; the
digits may be those of any script, and one line feed may follow.

## Main definitions

* `number?`: the number that a text is.
* `coerce`: the value that the text of a flag stands for.
-/

namespace CommandShell

namespace Chars

/-- A sign at the start, as whether it is a minus, and the rest. -/
def readSign : List Char → Bool × List Char
  | '-' :: rest => (true, rest)
  | '+' :: rest => (false, rest)
  | cs => (false, cs)

/-- The power of ten of an exponent part that fills the text; no text at all is the power zero. -/
def wholeExponent? : List Char → Option Int
  | [] => some 0
  | e :: rest =>
    let (negative, ds) := readSign rest
    if (e = 'e' || e = 'E') && !ds.isEmpty && ds.all isDigit then
      let n : Int := digitsToNat ds
      some (if negative then -n else n)
    else none

/-- Some characters without one line feed at their end. -/
def dropLineFeed (cs : List Char) : List Char :=
  if cs.getLast? = some '\n' then cs.dropLast else cs

/-- The number that some characters without a sign are. -/
def unsignedNumber? (negative : Bool) (cs : List Char) : Option Value :=
  let whole := cs.takeWhile isDigit
  let rest := cs.dropWhile isDigit
  let floating (fraction : List Char) (e : Int) : Value :=
    let x := Json.floatOf whole fraction e
    .float (if negative then -x else x)
  match rest with
  | '.' :: rest =>
    let fraction := rest.takeWhile isDigit
    if whole.isEmpty && fraction.isEmpty then none
    else (wholeExponent? (rest.dropWhile isDigit)).map (floating fraction)
  | [] =>
    if whole.isEmpty then none
    else if maxDigits < whole.length then some (floating [] 0)
    else
      let n : Int := digitsToNat whole
      some (.int (if negative then -n else n))
  | rest => if whole.isEmpty then none else (wholeExponent? rest).map (floating [])

end Chars

/-- The number that a text is, if it has the form of one. -/
def number? (s : String) : Option Value :=
  let (negative, cs) := Chars.readSign (Chars.dropLineFeed s.toList)
  Chars.unsignedNumber? negative cs

/-- The value that the text of a flag stands for. -/
def coerce (s : String) : Value :=
  match number? s with
  | some v => v
  | none => if s = "true" then .bool true else if s = "false" then .bool false else .text s

end CommandShell
