import CommandShell.Text.Quoted
import CommandShell.Value.Basic

/-!
# Values as text

How a value is shown in a message: a text as it is, every other value in its written form.

## Main definitions

* `FloatLayout`: the decisions that turn a shortest decimal into text.
* `Float.written`: the written form of a floating-point number.
* `Value.written`: the written form of a value.
* `Value.shown`: a value as it is shown in a message.
-/

namespace CommandShell

/-- The decisions that turn a shortest decimal into text. -/
structure FloatLayout where
  /-- The least power of ten of a first digit that is written without an exponent. -/
  leastPositional : Int
  /-- The first greater power of ten that is written with an exponent again. -/
  endPositional : Int
  /-- The least number of digits of an exponent. -/
  exponentWidth : Nat
  /-- The text for the value that is not a number. -/
  notANumber : String
  /-- The text for the infinite value. -/
  infinite : String

/-- Numbers are positional from `0.0001` up to below `10 ^ 16`, and an exponent has a sign and two
digits or more. -/
def valueFloats : FloatLayout :=
  ⟨-4, 16, 2, "nan", "inf"⟩

namespace FloatLayout

/-- The digits of a natural number. -/
def digitsOf (n : Nat) : List Char :=
  Nat.toDigits 10 n

/-- The exponent part for a power of ten. -/
def exponentPart (l : FloatLayout) (e : Int) : List Char :=
  let ds := digitsOf e.natAbs
  'e' :: (if e < 0 then '-' else '+') :: (List.replicate (l.exponentWidth - ds.length) '0' ++ ds)

/-- A decimal as text; a whole number keeps one zero after the point. -/
def decimal (l : FloatLayout) (d : Decimal) : List Char :=
  let ds := digitsOf d.digits
  let top := d.exponent + ds.length - 1
  if l.leastPositional ≤ top ∧ top < l.endPositional then
    if top < 0 then '0' :: '.' :: (List.replicate (top.natAbs - 1) '0' ++ ds)
    else
      let whole := top.toNat + 1
      let padded := ds ++ List.replicate (whole - ds.length) '0'
      let rest := padded.drop whole
      padded.take whole ++ '.' :: (if rest.isEmpty then ['0'] else rest)
  else
    match ds with
    | [] => []
    | [c] => c :: l.exponentPart top
    | c :: rest => c :: '.' :: rest ++ l.exponentPart top

/-- A floating-point number as text. -/
def write (l : FloatLayout) (x : Float) : String :=
  let d := DoubleFields.ofFloat x
  let sign := if d.negative then "-" else ""
  if d.isFinite then
    if d.isZero then sign ++ "0.0"
    else sign ++ String.ofList (l.decimal (Decimal.shortest (Binary.ofFields d)))
  else if d.fraction = 0 then sign ++ l.infinite
  else l.notANumber

end FloatLayout

/-- The written form of a floating-point number. -/
def Float.written (x : Float) : String :=
  valueFloats.write x

namespace Value

mutual

/-- The written form of a value. -/
def written : Value → String
  | null => "None"
  | bool b => if b then "True" else "False"
  | int n => toString n
  | float x => Float.written x
  | text s => quoted s
  | list items => "[" ++ ", ".intercalate (writtenItems items) ++ "]"
  | map entries => "\x7b" ++ ", ".intercalate (writtenEntries entries) ++ "\x7d"
  | foreign s => s

/-- The written forms of the items of a list. -/
def writtenItems : List Value → List String
  | [] => []
  | v :: rest => written v :: writtenItems rest

/-- The written forms of the entries of a map. -/
def writtenEntries : List (String × Value) → List String
  | [] => []
  | (k, v) :: rest => (quoted k ++ ": " ++ written v) :: writtenEntries rest

end

/-- A value as it is shown in a message: a text as it is, every other value in its written form. -/
def shown : Value → String
  | text s => s
  | v => v.written

@[simp] theorem shown_text (s : String) : (text s).shown = s := rfl

end Value

end CommandShell
