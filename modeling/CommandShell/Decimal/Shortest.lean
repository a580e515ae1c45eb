/-!
# Shortest decimals

The decimal with the fewest digits that reads back as a given binary floating-point number, and of
those the nearest one.  A positive finite number is `m · 2 ^ q`; the reals that round to it form an
interval between the two midpoints to its neighbours, whose ends belong to it exactly if `m` is
even.  Grids of one, two, … seventeen digits are tried in turn: if a grid has a point in the
interval, then one of the two grid points around the number lies in it.

## Main definitions

* `Decimal`: a number `digits · 10 ^ exponent`.
* `DoubleFields`: the fields of a double.
* `Binary`: a number `mantissa · 2 ^ exponent` with the interval that rounds to it.
* `Decimal.shortest`: the shortest decimal of a positive finite number.
* `Decimal.toFloat`: the floating-point number nearest to a decimal.
-/

namespace CommandShell

/-- The number `digits · 10 ^ exponent`. -/
structure Decimal where
  /-- The digits read as one whole number. -/
  digits : Nat
  /-- The power of ten that the digits are multiplied with. -/
  exponent : Int
deriving DecidableEq, Repr

/-- A quotient of two natural numbers. -/
structure Ratio where
  /-- The numerator. -/
  num : Nat
  /-- The denominator. -/
  den : Nat

/-- Whether one quotient is at most another. -/
def Ratio.le (a b : Ratio) : Bool :=
  a.num * b.den ≤ b.num * a.den

/-- Whether one quotient is below another. -/
def Ratio.lt (a b : Ratio) : Bool :=
  a.num * b.den < b.num * a.den

/-- The quotient `n · base ^ e`. -/
def Ratio.scale (n base : Nat) : Int → Ratio
  | .ofNat e => ⟨n * base.pow e, 1⟩
  | .negSucc e => ⟨n, base.pow (e + 1)⟩

/-- The fields of a double. -/
structure DoubleFields where
  /-- Whether the sign is a minus. -/
  negative : Bool
  /-- The exponent as it is stored. -/
  exponent : Nat
  /-- The fraction as it is stored. -/
  fraction : Nat

namespace DoubleFields

/-- The fields of a floating-point number: one bit, eleven bits, and fifty-two bits. -/
def ofFloat (x : Float) : DoubleFields :=
  let bits := x.toBits.toNat
  ⟨bits >>> 63 == 1, (bits >>> 52) % 0x800, bits % 0x10000000000000⟩

/-- Whether the fields are those of a finite number. -/
def isFinite (d : DoubleFields) : Bool :=
  d.exponent != 0x7FF

/-- Whether the fields are those of a zero. -/
def isZero (d : DoubleFields) : Bool :=
  d.exponent == 0 && d.fraction == 0

end DoubleFields

/-- A positive number `mantissa · 2 ^ exponent` of a binary format. -/
structure Binary where
  /-- The whole number in front of the power of two. -/
  mantissa : Nat
  /-- The power of two. -/
  exponent : Int
  /-- Whether the next smaller number of the format is only half a step away. -/
  narrowBelow : Bool

namespace Binary

/-- The number itself. -/
def value (b : Binary) : Ratio :=
  .scale (4 * b.mantissa) 2 (b.exponent - 2)

/-- The midpoint to the next smaller number. -/
def lower (b : Binary) : Ratio :=
  .scale (4 * b.mantissa - if b.narrowBelow then 1 else 2) 2 (b.exponent - 2)

/-- The midpoint to the next greater number. -/
def upper (b : Binary) : Ratio :=
  .scale (4 * b.mantissa + 2) 2 (b.exponent - 2)

/-- Whether a quotient rounds to the number. -/
def contains (b : Binary) (r : Ratio) : Bool :=
  if b.mantissa % 2 = 0 then b.lower.le r && r.le b.upper else b.lower.lt r && r.lt b.upper

/-- The size of the number with the fields of a finite double. -/
def ofFields (d : DoubleFields) : Binary :=
  if d.exponent = 0 then ⟨d.fraction, -1074, false⟩
  else
    ⟨0x10000000000000 + d.fraction, (d.exponent : Int) - 1075,
      d.fraction == 0 && d.exponent != 1⟩

/-- The power of ten of the number's first digit. -/
def magnitude (b : Binary) : Int :=
  let v := b.value
  let guess := ((Nat.log2 v.num : Int) - Nat.log2 v.den) * 30103 / 100000
  let fits (e : Int) : Bool := (Ratio.scale 1 10 e).le v && v.lt (Ratio.scale 1 10 (e + 1))
  ([guess - 1, guess, guess + 1, guess + 2].find? fits).getD guess

end Binary

namespace Decimal

/-- The quotient that a decimal stands for. -/
def toRatio (d : Decimal) : Ratio :=
  .scale d.digits 10 d.exponent

/-- The same decimal without trailing zeros; `fuel` bounds the zeros that are removed. -/
def trimZeros : Nat → Decimal → Decimal
  | 0, d => d
  | fuel + 1, d =>
    if d.digits ≠ 0 ∧ d.digits % 10 = 0 then trimZeros fuel ⟨d.digits / 10, d.exponent + 1⟩ else d

/-- The nearer of two neighbours `low` and `low + 1` on the grid with exponent `e`; of two equally
near ones the even one. -/
def nearer (v : Ratio) (low : Nat) (e : Int) : Decimal :=
  let middle := Ratio.scale (2 * low + 1) 10 e
  let twice : Ratio := ⟨2 * v.num, v.den⟩
  if twice.lt middle || (twice.le middle && low % 2 == 0) then ⟨low, e⟩ else ⟨low + 1, e⟩

/-- The best point, if any, of the grid with exponent `e` that rounds to a number. -/
def onGrid? (b : Binary) (e : Int) : Option Decimal :=
  let v := b.value
  let step := Ratio.scale 1 10 e
  let low := v.num * step.den / (v.den * step.num)
  match b.contains (toRatio ⟨low, e⟩) && low != 0, b.contains (toRatio ⟨low + 1, e⟩) with
  | true, true => some (nearer v low e)
  | true, false => some ⟨low, e⟩
  | false, true => some ⟨low + 1, e⟩
  | false, false => none

/-- The shortest decimal that rounds to a number, and of those the nearest. -/
def shortest (b : Binary) : Decimal :=
  let top := b.magnitude
  let grids := (List.range 17).map fun (n : Nat) => top - n
  trimZeros 20 ((grids.findSome? (onGrid? b)).getD ⟨0, 0⟩)

/-- The power of ten of a decimal's first digit, up to two. -/
def roughMagnitude (d : Decimal) : Int :=
  (Nat.log2 d.digits * 30103 / 100000 : Nat) + d.exponent

/-- The floating-point number nearest to a decimal; those beyond the greatest one are infinite. -/
def toFloat (d : Decimal) : Float :=
  let size := d.roughMagnitude
  if d.digits = 0 || size < -400 then 0.0
  else if 400 < size then 1.0 / 0.0
  else Float.ofScientific d.digits (d.exponent < 0) d.exponent.natAbs

end Decimal

end CommandShell
