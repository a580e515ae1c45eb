import CommandShell.Decimal.Shortest
import Mathlib.Algebra.Order.Field.Rat
import Mathlib.Algebra.Order.GroupWithZero.Basic
import Mathlib.Tactic.FieldSimp
import Mathlib.Tactic.Linarith
import Mathlib.Tactic.Positivity
import Mathlib.Tactic.Ring
import Mathlib.Tactic.Zify

/-!
# What decimals and binary numbers stand for

The numbers that are written with a power of ten or a power of two are rational numbers, and the
quotients that represent them are compared as these.

## Main definitions

* `Ratio.toRat`: a quotient as a rational number.
* `Decimal.size`, `Binary.size`: the numbers that a decimal and a binary number stand for.
* `Binary.Holds`: a rational number is in the interval that rounds to a binary number.

## Main results

* `Ratio.toRat_scale`: a quotient that is made with a power stands for the multiple of it.
* `Ratio.le_iff`, `Ratio.lt_iff`: quotients are compared by what they stand for.
* `Binary.contains_iff`: which decimals are found to round to a binary number.
-/

namespace CommandShell

/-! ## Quotients -/

namespace Ratio

variable {a b : Ratio}

/-- A quotient as a rational number. -/
def toRat (r : Ratio) : ℚ :=
  r.num / r.den

theorem le_iff (ha : 0 < a.den) (hb : 0 < b.den) : a.le b = true ↔ a.toRat ≤ b.toRat := by
  have ha' : (0 : ℚ) < a.den := Nat.cast_pos.mpr ha
  have hb' : (0 : ℚ) < b.den := Nat.cast_pos.mpr hb
  unfold le toRat
  rw [decide_eq_true_iff, div_le_div_iff₀ ha' hb']
  exact_mod_cast Iff.rfl

theorem lt_iff (ha : 0 < a.den) (hb : 0 < b.den) : a.lt b = true ↔ a.toRat < b.toRat := by
  have ha' : (0 : ℚ) < a.den := Nat.cast_pos.mpr ha
  have hb' : (0 : ℚ) < b.den := Nat.cast_pos.mpr hb
  unfold lt toRat
  rw [decide_eq_true_iff, div_lt_div_iff₀ ha' hb']
  exact_mod_cast Iff.rfl

variable {n base : Nat} {e : Int}

theorem den_scale_pos (hbase : 0 < base) : 0 < (scale n base e).den := by
  cases e with
  | ofNat e => exact Nat.one_pos
  | negSucc e => exact Nat.pow_pos hbase

/-- A quotient that is made with a power stands for the multiple of it. -/
theorem toRat_scale (n base : Nat) (e : Int) : (scale n base e).toRat = n * (base : ℚ) ^ e := by
  cases e with
  | ofNat e =>
    show ((n * base.pow e : Nat) : ℚ) / ((1 : Nat) : ℚ) = n * (base : ℚ) ^ (e : Int)
    rw [Nat.cast_one, div_one, zpow_natCast]
    exact_mod_cast rfl
  | negSucc e =>
    show (n : ℚ) / ((base.pow (e + 1) : Nat) : ℚ) = n * (base : ℚ) ^ Int.negSucc e
    rw [zpow_negSucc, div_eq_mul_inv]
    exact_mod_cast rfl

end Ratio

/-! ## Decimals and binary numbers -/

/-- The number that a decimal stands for. -/
def Decimal.size (d : Decimal) : ℚ :=
  d.digits * 10 ^ d.exponent

theorem Decimal.toRat_toRatio (d : Decimal) : d.toRatio.toRat = d.size :=
  Ratio.toRat_scale _ _ _

namespace Binary

variable {b : Binary} {x : ℚ}

/-- The number that a binary number stands for. -/
def size (b : Binary) : ℚ :=
  b.mantissa * 2 ^ b.exponent

/-- How far the interval that rounds to a number reaches below it, in steps. -/
def gap (b : Binary) : ℚ :=
  if b.narrowBelow then 1 / 4 else 1 / 2

/-- A rational number is in the interval that rounds to a binary number: its ends belong to it only
if the mantissa is even. -/
structure Holds (b : Binary) (x : ℚ) : Prop where
  lower : (b.mantissa - b.gap) * 2 ^ b.exponent ≤ x
  upper : x ≤ (b.mantissa + 1 / 2) * 2 ^ b.exponent
  inside : b.mantissa % 2 = 1 →
    (b.mantissa - b.gap) * 2 ^ b.exponent < x ∧ x < (b.mantissa + 1 / 2) * 2 ^ b.exponent

theorem quarter (q : Int) : (2 : ℚ) ^ (q - 2) = 2 ^ q / 4 := by
  rw [zpow_sub₀ (by norm_num)]
  norm_num

theorem toRat_value (b : Binary) : b.value.toRat = b.size := by
  unfold value size
  rw [Ratio.toRat_scale, Nat.cast_two, quarter]
  push_cast
  ring

theorem toRat_upper (b : Binary) : b.upper.toRat = (b.mantissa + 1 / 2) * 2 ^ b.exponent := by
  unfold upper
  rw [Ratio.toRat_scale, Nat.cast_two, quarter]
  push_cast
  ring

theorem toRat_lower (h : 0 < b.mantissa) :
    b.lower.toRat = (b.mantissa - b.gap) * 2 ^ b.exponent := by
  unfold lower gap
  rw [Ratio.toRat_scale, Nat.cast_two, quarter]
  split
  · rw [Nat.cast_sub (by omega)]
    push_cast
    ring
  · rw [Nat.cast_sub (by omega)]
    push_cast
    ring

/-- The decimals that are found to round to a binary number are those in its interval. -/
theorem contains_iff (h : 0 < b.mantissa) (d : Decimal) :
    b.contains d.toRatio = true ↔ b.Holds d.size := by
  have hlower : 0 < b.lower.den := Ratio.den_scale_pos (by norm_num)
  have hupper : 0 < b.upper.den := Ratio.den_scale_pos (by norm_num)
  have hd : 0 < d.toRatio.den := Ratio.den_scale_pos (by norm_num)
  unfold contains
  split
  · rename_i heven
    rw [Bool.and_eq_true, Ratio.le_iff hlower hd, Ratio.le_iff hd hupper, toRat_lower h,
      toRat_upper, Decimal.toRat_toRatio]
    refine ⟨fun ⟨hl, hu⟩ => ⟨hl, hu, fun hodd => ?_⟩, fun hx => ⟨hx.lower, hx.upper⟩⟩
    omega
  · rename_i hodd
    rw [Bool.and_eq_true, Ratio.lt_iff hlower hd, Ratio.lt_iff hd hupper, toRat_lower h,
      toRat_upper, Decimal.toRat_toRatio]
    exact ⟨fun ⟨hl, hu⟩ => ⟨hl.le, hu.le, fun _ => ⟨hl, hu⟩⟩, fun hx => hx.inside (by omega)⟩

end Binary

end CommandShell
