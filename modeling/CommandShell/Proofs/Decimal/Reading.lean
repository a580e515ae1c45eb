import CommandShell.Proofs.Decimal.Arithmetic
import CommandShell.Proofs.Decimal.Fields

/-!
# Decimals as floating-point numbers

A decimal in the interval that rounds to a number of the format of doubles is read as that number,
whether it is made from an exact product or quotient or from all of its places.

## Main results

* `Decimal.toFloat_eq`: which floating-point number a decimal is read as.
-/

namespace CommandShell

open Float.Model Float.Model.UnpackedFloat

namespace Binary

variable {a b p : Binary}

theorem Canonical.mul_toFloat (ha : a.Canonical) (hp : p.Canonical) (hb : b.Canonical)
    (hx : b.Holds (a.size * p.size)) (hm : 2 ^ 52 ≤ a.mantissa * p.mantissa) :
    a.toFloat false ha.mantissa_pos * p.toFloat false hp.mantissa_pos =
      b.toFloat false hb.mantissa_pos := by
  show Float.ofModel (.pack (UnpackedFloat.mul .binary64
    (a.toFloat false ha.mantissa_pos).toModel.unpack
    (p.toFloat false hp.mantissa_pos).toModel.unpack)) = _
  rw [ha.unpack_toFloat, hp.unpack_toFloat, Holds.mul_eq hb _ _ hx hm]
  rfl

theorem Canonical.div_toFloat (ha : a.Canonical) (hp : p.Canonical) (hb : b.Canonical)
    (hx : b.Holds (a.size / p.size)) :
    a.toFloat false ha.mantissa_pos / p.toFloat false hp.mantissa_pos =
      b.toFloat false hb.mantissa_pos := by
  show Float.ofModel (.pack (UnpackedFloat.div .binary64
    (a.toFloat false ha.mantissa_pos).toModel.unpack
    (p.toFloat false hp.mantissa_pos).toModel.unpack)) = _
  rw [ha.unpack_toFloat, hp.unpack_toFloat, Holds.div_eq hb _ _ hx]
  rfl

end Binary

/-- A whole number that has few enough places is a number of the format. -/
theorem exists_toFloat_eq {m : Nat} (hpos : 0 < m) (hlt : m < 2 ^ 53) :
    ∃ (b : Binary) (hb : b.Canonical), b.size = m ∧ 2 ^ 52 ≤ b.mantissa ∧
      m.toUInt64.toFloat = b.toFloat false hb.mantissa_pos := by
  have hlog := (Nat.log2_lt hpos.ne').mpr hlt
  have hself : 2 ^ m.log2 ≤ m := Nat.log2_self_le hpos.ne'
  have hnext : m < 2 ^ (m.log2 + 1) := Nat.lt_log2_self
  -- The number is shifted until its first digit is at the first place of the mantissa.
  obtain ⟨k, hk⟩ : ∃ k, m.log2 + k = 52 := ⟨52 - m.log2, by omega⟩
  let b : Binary := ⟨m <<< k, -k, m <<< k == 2 ^ 52⟩
  have hge : 2 ^ 52 ≤ b.mantissa := by
    show 2 ^ 52 ≤ m <<< k
    rw [Nat.shiftLeft_eq, ← hk, pow_add]
    exact Nat.mul_le_mul_right _ hself
  have hle : b.mantissa < 2 ^ 53 := by
    show m <<< k < 2 ^ (52 + 1)
    rw [Nat.shiftLeft_eq, ← hk, Nat.add_right_comm, pow_add _ (m.log2 + 1)]
    exact Nat.mul_lt_mul_of_pos_right hnext (Nat.two_pow_pos k)
  have hb : b.Canonical := by
    refine ⟨by omega, hle, ?_, ?_, Or.inl hge, ?_⟩
    · show -1074 ≤ (-k : Int)
      omega
    · show (-k : Int) ≤ 971
      omega
    · show (m <<< k == 2 ^ 52) = true ↔ m <<< k = 2 ^ 52 ∧ (-k : Int) ≠ -1074
      rw [beq_iff_eq]
      exact ⟨fun h => ⟨h, by omega⟩, fun h => h.1⟩
  refine ⟨b, hb, ?_, hge, ?_⟩
  · show ((m <<< k : Nat) : ℚ) * 2 ^ (-k : Int) = m
    rw [Nat.shiftLeft_eq, zpow_neg, zpow_natCast]
    push_cast
    rw [mul_inv_cancel_right₀ (by positivity)]
  · have hm : m.toUInt64.toNat = m := UInt64.toNat_ofNat_of_lt' (hlt.trans (by decide))
    have htarget : Format.binary64.targetExponent (totalExponent m 0) = -k := by
      rw [targetExponent_eq]
      unfold totalExponent
      omega
    have hround : UnpackedFloat.round .binary64 .positive m 0 =
        .finite .positive b.mantissa b.exponent hb.mantissa_pos := by
      have hshift : (0 - -(k : Int)).toNat = k := by omega
      unfold UnpackedFloat.round decreaseExponent
      dsimp only
      rw [htarget, hshift, zero_sub]
      refine b.holds_size.roundWithAccuracy_eq hb ?_ (le_target_of_normal hge)
      rw [Binary.size, mul_div_cancel_right₀ _ (two_zpow_pos _).ne']
      exact Describes.exact _
    have hcompare : compare (m : Int) 0 = .gt := compare_gt_iff_gt.mpr (by omega)
    show Float.ofModel (.pack (UnpackedFloat.normalize .binary64 m.toUInt64.toNat 0 .positive)) = _
    unfold UnpackedFloat.normalize
    rw [hm, hcompare]
    dsimp only
    rw [Int.toNat_natCast, hround]
    rfl

/-- Whether a floating-point number is a power of ten up to a factor of the format. -/
def IsPowerOfTen (x : Float) (e : Nat) : Prop :=
  let d := DoubleFields.ofFloat x
  let b := Binary.ofFields d
  d.negative = false ∧ d.exponent < 0x7FF ∧ d.isZero = false ∧ -52 ≤ b.exponent ∧
    b.mantissa * 2 ^ (b.exponent + 52).toNat = 10 ^ e * 2 ^ 52

instance (x : Float) (e : Nat) : Decidable (IsPowerOfTen x e) :=
  inferInstanceAs (Decidable (_ ∧ _ ∧ _ ∧ _ ∧ _))

/-- The powers of ten that are kept are numbers of the format. -/
theorem exists_powerOfTen_eq {e : Nat} (he : e < Float.exactlyRepresentablePowersOfTen.size) :
    ∃ (b : Binary) (hb : b.Canonical), b.size = 10 ^ e ∧
      Float.exactlyRepresentablePowersOfTen[e] = b.toFloat false hb.mantissa_pos := by
  have hall : ∀ i : Fin 23, IsPowerOfTen Float.exactlyRepresentablePowersOfTen[i] i := by
    decide +kernel
  have hpower : IsPowerOfTen Float.exactlyRepresentablePowersOfTen[e] e := hall ⟨e, he⟩
  obtain ⟨hsign, hexponent, hzero, hge, hvalue⟩ := hpower
  have hd : (DoubleFields.ofFloat Float.exactlyRepresentablePowersOfTen[e]).IsNumber :=
    ⟨hexponent, Nat.mod_lt _ (by norm_num), hzero⟩
  refine ⟨_, Binary.canonical_ofFields hd, ?_, ?_⟩
  · generalize Binary.ofFields _ = b at hge hvalue ⊢
    have hpow : (b.mantissa * 2 ^ (b.exponent + 52).toNat : ℚ) = 10 ^ e * 2 ^ 52 := by
      exact_mod_cast hvalue
    rw [← zpow_natCast, Int.toNat_of_nonneg (by omega), zpow_add₀ two_ne_zero, ← mul_assoc] at hpow
    exact mul_right_cancel₀ (by norm_num) hpow
  · have hfloat := Binary.toFloat_ofFields rfl hd
    rw [hsign] at hfloat
    exact hfloat.symm

namespace Decimal

variable {b : Binary} {d : Decimal}

/-- A decimal in the interval of a number is read as that number, also when it is made from a
product or a quotient of numbers of the format. -/
theorem ofScientific_eq (hb : b.Canonical) (hx : b.Holds d.size) :
    Float.ofScientific d.digits (decide (d.exponent < 0)) d.exponent.natAbs =
      b.toFloat false hb.mantissa_pos := by
  have hpos := digits_pos_of_holds hb hx
  -- Few digits and a small exponent are multiplied or divided as numbers of the format; all else is
  -- rounded once.
  unfold Float.ofScientific
  split
  · rename_i hfast
    obtain ⟨a, ha, hsize, hnormal, hdigits⟩ := exists_toFloat_eq hpos hfast.1
    obtain ⟨p, hp, hpower, hten⟩ := exists_powerOfTen_eq (Nat.lt_succ_of_le hfast.2)
    have hsize' : (d.digits : ℚ) = a.size := hsize.symm
    dsimp only
    rw [hdigits]
    by_cases hneg : d.exponent < 0
    · have habs : d.exponent = -(d.exponent.natAbs : Int) := by omega
      rw [size, habs, zpow_neg, zpow_natCast, ← hpower, ← div_eq_mul_inv, hsize'] at hx
      rw [if_pos (decide_eq_true hneg)]
      exact (congrArg _ hten).trans (ha.div_toFloat hp hb hx)
    · have habs : d.exponent = (d.exponent.natAbs : Int) := by omega
      rw [size, habs, zpow_natCast, ← hpower, hsize'] at hx
      rw [if_neg (by rwa [decide_eq_true_iff])]
      have hm : 2 ^ 52 ≤ a.mantissa * p.mantissa := le_mul_of_le_of_one_le hnormal hp.mantissa_pos
      exact (congrArg _ hten).trans (ha.mul_toFloat hp hb hx hm)
  · have hexponent : (if decide (d.exponent < 0) = true then Int.negOfNat d.exponent.natAbs
        else Int.ofNat d.exponent.natAbs) = d.exponent := by
      split
      · rename_i hneg
        rw [Int.negOfNat_eq, Int.ofNat_eq_natCast]
        have := of_decide_eq_true hneg
        omega
      · rename_i hneg
        rw [decide_eq_true_iff] at hneg
        rw [Int.ofNat_eq_natCast]
        omega
    dsimp only
    rw [hexponent]
    show Float.ofModel (.pack (UnpackedFloat.ofScientific .binary64 d.digits d.exponent)) = _
    rw [hx.ofScientific_eq hb]
    rfl

/-- A decimal in the interval of a number is read as that number, unless it has too many digits. -/
theorem toFloat_eq (hb : b.Canonical) (hx : b.Holds d.size) (hdigits : d.digits < 2 ^ 64) :
    d.toFloat = b.toFloat false hb.mantissa_pos := by
  have hpos := digits_pos_of_holds hb hx
  have hgreat := exponent_lt_of_holds hb hx
  have hsmall : d.exponent ≤ 0 → _ := fun he => lt_exponent_of_holds hb hx he hdigits
  have hlog := (Nat.log2_lt hpos.ne').mpr hdigits
  unfold toFloat
  dsimp only
  rw [if_neg, if_neg, ofScientific_eq hb hx]
  · unfold roughMagnitude
    omega
  · rw [Bool.or_eq_true, decide_eq_true_iff, decide_eq_true_iff, not_or]
    unfold roughMagnitude
    omega

end Decimal

end CommandShell
