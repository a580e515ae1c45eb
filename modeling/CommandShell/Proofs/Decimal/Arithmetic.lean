import CommandShell.Proofs.Decimal.Rounding

/-!
# Products and quotients in the format of doubles

The product and the quotient of two numbers are rounded from all of their places, so they are the
number of the format in whose interval they are.  By way of them a decimal becomes such a number.

## Main results

* `Binary.Holds.mul_eq`, `Binary.Holds.div_eq`: what products and quotients are rounded to.
* `Binary.Holds.ofScientific_eq`: a decimal in the interval of a number becomes that number.
-/

namespace CommandShell

open Float.Model Float.Model.UnpackedFloat

theorem le_target_of_normal {m : Nat} {e : Int} (h : 2 ^ 52 ≤ m) :
    e ≤ Format.binary64.targetExponent (totalExponent m e) := by
  have hlog := (Nat.le_log2 (by omega)).mpr h
  rw [targetExponent_eq]
  unfold totalExponent
  omega

/-- What is left of a division says where the quotient is in its step. -/
theorem Describes.fraction {q r k : Nat} (h : r < k) :
    Describes (.ofMantissaAndAccuracy q (accuracyOfFraction r k)) (q + r / k) := by
  have hk : (0 : ℚ) < k := Nat.cast_pos.mpr (Nat.zero_lt_of_lt h)
  have hone : (r / k : ℚ) < 1 := (div_lt_one hk).mpr (by exact_mod_cast h)
  unfold accuracyOfFraction
  by_cases hzero : r = 0
  · rw [if_pos hzero, hzero, Nat.cast_zero, zero_div, add_zero]
    exact Describes.exact q
  · have hpos : (0 : ℚ) < r / k := div_pos (Nat.cast_pos.mpr (Nat.pos_of_ne_zero hzero)) hk
    rw [if_neg hzero]
    -- Twice the remainder says on which side of the middle of its step the quotient is.
    cases hcmp : compare (2 * r) k with
    | lt =>
      have hlt : (2 * r : ℚ) < k := by exact_mod_cast Nat.compare_eq_lt.mp hcmp
      have hhalf : (r / k : ℚ) < 1 / 2 := by
        rw [div_lt_div_iff₀ hk two_pos]
        linarith
      constructor <;> simp [ExtendedMantissa.ofMantissaAndAccuracy, roundPart] <;> linarith
    | eq =>
      have heq : (2 * r : ℚ) = k := by exact_mod_cast Nat.compare_eq_eq.mp hcmp
      have hhalf : (r / k : ℚ) = 1 / 2 := by
        rw [div_eq_div_iff hk.ne' two_ne_zero]
        linarith
      constructor <;> simp [ExtendedMantissa.ofMantissaAndAccuracy, roundPart] <;> linarith
    | gt =>
      have hgt : (k : ℚ) < 2 * r := by exact_mod_cast Nat.compare_eq_gt.mp hcmp
      have hhalf : (1 / 2 : ℚ) < r / k := by
        rw [div_lt_div_iff₀ two_pos hk]
        linarith
      constructor <;> simp [ExtendedMantissa.ofMantissaAndAccuracy, roundPart] <;> linarith

theorem Describes.quotient (m : Nat) {k : Nat} (hk : 0 < k) :
    Describes (.ofMantissaAndAccuracy (m / k) (accuracyOfFraction (m % k) k)) (m / k) := by
  have hdiv : (k * (m / k : Nat) + (m % k : Nat) : ℚ) = m := by
    exact_mod_cast Nat.div_add_mod m k
  have hvalue : (m / k : ℚ) = (m / k : Nat) + (m % k : Nat) / k := by
    have hk' : (k : ℚ) ≠ 0 := Nat.cast_ne_zero.mpr hk.ne'
    rw [← hdiv]
    field_simp
  rw [hvalue]
  exact Describes.fraction (Nat.mod_lt m hk)

namespace Binary

variable {b : Binary} {x : ℚ} {s₁ s₂ : Sign} {m₁ m₂ : Nat} {e₁ e₂ : Int}

theorem Holds.mul_eq (hb : b.Canonical) (h₁ : 0 < m₁) (h₂ : 0 < m₂)
    (hx : b.Holds (m₁ * 2 ^ e₁ * (m₂ * 2 ^ e₂))) (hm : 2 ^ 52 ≤ m₁ * m₂) :
    UnpackedFloat.mul .binary64 (.finite s₁ m₁ e₁ h₁) (.finite s₂ m₂ e₂ h₂) =
      .finite (s₁ * s₂) b.mantissa b.exponent hb.mantissa_pos := by
  have hquotient : (m₁ * 2 ^ e₁ * (m₂ * 2 ^ e₂) / 2 ^ (e₁ + e₂) : ℚ) = (m₁ * m₂ : Nat) := by
    rw [zpow_add₀ two_ne_zero]
    have := (two_zpow_pos e₁).ne'
    have := (two_zpow_pos e₂).ne'
    field_simp
    push_cast
    ring
  refine hx.roundWithAccuracy_eq hb ?_ (le_target_of_normal hm)
  rw [hquotient]
  exact Describes.exact _

/-- The quotient that a division works with describes the quotient of the numbers. -/
theorem describes_divCore (m₁ : Nat) (e₁ e₂ : Int) (h₂ : 0 < m₂) :
    let r := divCore .binary64 m₁ e₁ m₂ e₂
    Describes (.ofMantissaAndAccuracy r.1 r.2.2) (m₁ * 2 ^ e₁ / (m₂ * 2 ^ e₂) / 2 ^ r.2.1) := by
  unfold divCore
  dsimp only
  generalize Format.binary64.targetExponent _ = t
  have hshift : min (e₁ - e₂) t = e₁ - e₂ - ((e₁ - e₂ - min (e₁ - e₂) t).toNat : Int) := by omega
  generalize (e₁ - e₂ - min (e₁ - e₂) t).toNat = k at hshift ⊢
  have hvalue : (m₁ * 2 ^ e₁ / (m₂ * 2 ^ e₂) / 2 ^ min (e₁ - e₂) t : ℚ) =
      (m₁ <<< k : Nat) / m₂ := by
    have hp := (two_zpow_pos e₁).ne'
    have hq := (two_zpow_pos e₂).ne'
    rw [hshift, zpow_sub₀ two_ne_zero, zpow_sub₀ two_ne_zero, zpow_natCast, Nat.shiftLeft_eq]
    push_cast
    field_simp
  rw [hvalue]
  exact Describes.quotient _ h₂

/-- The quotient that a division works with has enough places for the target. -/
theorem le_target_divCore (h₁ : 0 < m₁) (h₂ : 0 < m₂) :
    let r := divCore .binary64 m₁ e₁ m₂ e₂
    r.2.1 ≤ Format.binary64.targetExponent (totalExponent r.1 r.2.1) := by
  intro r
  have hd := describes_divCore m₁ e₁ e₂ h₂
  rw [← mantissa_ofMantissaAndAccuracy r.1 r.2.2]
  have hupper := (div_lt_iff₀ (two_zpow_pos r.2.1)).mp hd.lt_mantissa_add_one
  -- The quotient of the numbers is above the power of two that the target was chosen for.
  have hlower : (2 : ℚ) ^ (m₁.log2 + e₁ - (m₂.log2 + 1 + e₂)) < m₁ * 2 ^ e₁ / (m₂ * 2 ^ e₂) := by
    have hlt : (m₂ : ℚ) < 2 ^ (m₂.log2 + 1 : Int) := by
      linarith [add_one_le_two_zpow_log2 m₂]
    have hpos : (0 : ℚ) < m₂ := Nat.cast_pos.mpr h₂
    rw [zpow_sub₀ two_ne_zero, zpow_add₀ two_ne_zero, zpow_add₀ two_ne_zero _ e₂]
    refine div_lt_div₀' ?_ (mul_lt_mul_of_pos_right hlt (two_zpow_pos e₂)) ?_ ?_
    · exact mul_le_mul_of_nonneg_right (two_zpow_log2_le h₁) (two_zpow_pos e₁).le
    · exact mul_pos (Nat.cast_pos.mpr h₁) (two_zpow_pos e₁)
    · exact mul_pos hpos (two_zpow_pos e₂)
  have hlt : m₁.log2 + e₁ - (m₂.log2 + 1 + e₂) < r.1.log2 + 1 + r.2.1 := by
    refine two_zpow_lt_iff.mp (hlower.trans (hupper.trans_le ?_))
    rw [mantissa_ofMantissaAndAccuracy, zpow_add₀ two_ne_zero _ r.2.1]
    exact mul_le_mul_of_nonneg_right (add_one_le_two_zpow_log2 _) (two_zpow_pos _).le
  have hchosen : r.2.1 ≤ Format.binary64.targetExponent
      (totalExponent m₁ e₁ - totalExponent m₂ e₂) := min_le_right _ _
  rw [mantissa_ofMantissaAndAccuracy, targetExponent_eq]
  rw [targetExponent_eq] at hchosen
  unfold totalExponent at *
  omega

theorem Holds.div_eq (hb : b.Canonical) (h₁ : 0 < m₁) (h₂ : 0 < m₂)
    (hx : b.Holds (m₁ * 2 ^ e₁ / (m₂ * 2 ^ e₂))) :
    UnpackedFloat.div .binary64 (.finite s₁ m₁ e₁ h₁) (.finite s₂ m₂ e₂ h₂) =
      .finite (s₁ / s₂) b.mantissa b.exponent hb.mantissa_pos :=
  hx.roundWithAccuracy_eq hb (describes_divCore m₁ e₁ e₂ h₂) (le_target_divCore h₁ h₂)

/-! ## Decimals -/

theorem Holds.lt (hx : b.Holds x) (hb : b.Canonical) : x < 2 ^ (1024 : Int) := by
  have hm : (b.mantissa + 1 / 2 : ℚ) < 2 ^ (53 : Int) := by
    have hle : (b.mantissa + 1 : ℚ) ≤ 2 ^ 53 := by exact_mod_cast hb.mantissa_lt
    exact (by linarith : (b.mantissa + 1 / 2 : ℚ) < 2 ^ 53)
  have he : (2 : ℚ) ^ b.exponent ≤ 2 ^ (971 : Int) :=
    zpow_le_zpow_right₀ one_le_two hb.exponent_le
  calc
    x ≤ (b.mantissa + 1 / 2) * 2 ^ b.exponent := hx.upper
    _ < 2 ^ (53 : Int) * 2 ^ (971 : Int) := mul_lt_mul hm he (two_zpow_pos _) (by positivity)
    _ = 2 ^ (1024 : Int) := (zpow_add₀ two_ne_zero _ _).symm

theorem Holds.ge (hx : b.Holds x) (hb : b.Canonical) : 2 ^ (-1075 : Int) ≤ x := by
  have hm : (2 : ℚ) ^ (-1 : Int) ≤ b.mantissa - b.gap := by
    have hone : (1 : ℚ) ≤ b.mantissa := by exact_mod_cast hb.mantissa_pos
    norm_num
    linarith [b.gap_le]
  have he : (2 : ℚ) ^ (-1074 : Int) ≤ 2 ^ b.exponent :=
    zpow_le_zpow_right₀ one_le_two hb.exponent_ge
  calc
    (2 : ℚ) ^ (-1075 : Int) = 2 ^ (-1 : Int) * 2 ^ (-1074 : Int) := by
      rw [← zpow_add₀ two_ne_zero]
      norm_num
    _ ≤ (b.mantissa - b.gap) * 2 ^ b.exponent :=
      mul_le_mul hm he (two_zpow_pos _).le ((two_zpow_pos _).le.trans hm)
    _ ≤ x := hx.lower

end Binary

theorem two_zpow_le_ten_zpow {e : Int} (h : 0 ≤ e) : (2 : ℚ) ^ (3 * e) ≤ 10 ^ e := by
  rw [zpow_mul]
  exact zpow_le_zpow_left₀ h (by norm_num) (by norm_num)

theorem ten_zpow_le_two_zpow {e : Int} (h : e ≤ 0) : (10 : ℚ) ^ e ≤ 2 ^ (3 * e) := by
  have hneg := two_zpow_le_ten_zpow (Int.neg_nonneg.mpr h)
  have hinv := inv_anti₀ (two_zpow_pos _) hneg
  rw [← zpow_neg, ← zpow_neg, neg_neg] at hinv
  rwa [mul_neg, neg_neg] at hinv

namespace Decimal

variable {b : Binary} {d : Decimal}

theorem digits_pos_of_holds (hb : b.Canonical) (hx : b.Holds d.size) : 0 < d.digits := by
  by_contra hzero
  have hsize : d.size = 0 := by
    unfold size
    rw [Nat.eq_zero_of_not_pos hzero, Nat.cast_zero, zero_mul]
  have hge := (two_zpow_pos _).trans_le (hx.ge hb)
  rw [hsize] at hge
  exact lt_irrefl _ hge

/-- A decimal that is a number of the format has no great power of ten. -/
theorem exponent_lt_of_holds (hb : b.Canonical) (hx : b.Holds d.size) (he : 0 ≤ d.exponent) :
    3 * d.exponent < 1024 := by
  refine two_zpow_lt_iff.mp (((two_zpow_le_ten_zpow he).trans ?_).trans_lt (hx.lt hb))
  have hone : (1 : ℚ) ≤ d.digits := by exact_mod_cast digits_pos_of_holds hb hx
  exact le_mul_of_one_le_left (zpow_pos (by norm_num) _).le hone

/-- A decimal that is a number of the format has no small power of ten. -/
theorem lt_exponent_of_holds (hb : b.Canonical) (hx : b.Holds d.size) (he : d.exponent ≤ 0)
    {k : Nat} (hk : d.digits < 2 ^ k) : -1075 < k + 3 * d.exponent := by
  refine two_zpow_lt_iff.mp ((hx.ge hb).trans_lt ?_)
  have hk' : (d.digits : ℚ) < 2 ^ (k : Int) := by exact_mod_cast hk
  rw [zpow_add₀ two_ne_zero]
  exact mul_lt_mul hk' (ten_zpow_le_two_zpow he) (zpow_pos (by norm_num) _) (two_zpow_pos _).le

end Decimal

/-- A decimal in the interval of a number becomes that number. -/
theorem Binary.Holds.ofScientific_eq {b : Binary} {d : Decimal} (hx : b.Holds d.size)
    (hb : b.Canonical) :
    UnpackedFloat.ofScientific .binary64 d.digits d.exponent =
      .finite .positive b.mantissa b.exponent hb.mantissa_pos := by
  have hpos := Decimal.digits_pos_of_holds hb hx
  have hgreat := Decimal.exponent_lt_of_holds hb hx
  have hsmall : d.exponent ≤ 0 → _ := fun he =>
    Decimal.lt_exponent_of_holds hb hx he Nat.lt_log2_self
  have hbits : (2 : Int) ^ Format.binary64.exponentBits = 2048 := rfl
  unfold UnpackedFloat.ofScientific
  rw [dif_neg hpos.ne', if_neg (by omega), if_neg (by omega)]
  -- The power of ten is a whole number that is multiplied with, or one that is divided by.
  by_cases he : 0 ≤ d.exponent
  · rw [if_pos he]
    have hten : (10 : ℚ) ^ d.exponent = (10 ^ d.exponent.toNat : Nat) := by
      rw [Nat.cast_pow, ← zpow_natCast, Int.toNat_of_nonneg he]
      rfl
    have hsize : d.size = (d.digits <<< Format.binary64.mantissaBits : Nat) *
        2 ^ (-Format.binary64.mantissaBits : Int) *
          ((10 ^ d.exponent.toNat : Nat) * 2 ^ (0 : Int)) := by
      unfold Decimal.size
      rw [hten, Nat.shiftLeft_eq, Nat.cast_mul, zpow_neg, zpow_natCast, Nat.cast_pow 2,
        Nat.cast_two, mul_inv_cancel_right₀ (by positivity), zpow_zero, mul_one]
    rw [hsize] at hx
    refine hx.mul_eq hb _ _ (le_mul_of_le_of_one_le ?_ (Nat.one_le_pow _ _ (by norm_num)))
    rw [Nat.shiftLeft_eq]
    exact le_mul_of_one_le_of_le hpos (by decide)
  · rw [if_neg he]
    have hten : (10 : ℚ) ^ d.exponent = ((10 ^ (-d.exponent).toNat : Nat) : ℚ)⁻¹ := by
      rw [Nat.cast_pow, ← zpow_natCast, Int.toNat_of_nonneg (by omega), zpow_neg, inv_inv]
      rfl
    have hsize : d.size = d.digits * 2 ^ (0 : Int) /
        ((10 ^ (-d.exponent).toNat : Nat) * 2 ^ (0 : Int)) := by
      unfold Decimal.size
      rw [hten, zpow_zero, mul_one, mul_one, div_eq_mul_inv]
    rw [hsize] at hx
    exact hx.div_eq hb _ _

end CommandShell
