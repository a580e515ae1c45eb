import CommandShell.Proofs.Decimal.Values
import Mathlib.Algebra.Order.Archimedean.Basic

/-!
# Rounding to a binary number

A rational number is rounded by way of a mantissa and two further bits that say where the number
lies in the step above the mantissa.  Whatever is in the interval of a binary number of the format
of doubles is rounded to that number.

## Main definitions

* `Describes`: a mantissa with its two bits says where a rational number is.
* `Binary.Canonical`: a binary number is one of the format of doubles, in its usual form.

## Main results

* `Describes.roundedMantissa_eq`: a number is rounded to the nearest mantissa, ties to even ones.
* `Binary.Holds.roundWithAccuracy_eq`: what is in an interval is rounded to the number that it
  belongs to.
-/

namespace CommandShell

open Float.Model Float.Model.UnpackedFloat

/-! ## Mantissas with two bits -/

/-- What the round bit of a mantissa stands for. -/
def roundPart (em : ExtendedMantissa) : ℚ :=
  if em.roundBit then 1 / 2 else 0

/-- A mantissa and its two bits say where a rational number is: the round bit counts the first half
of a step, and the sticky bit says whether anything is left. -/
structure Describes (em : ExtendedMantissa) (y : ℚ) : Prop where
  lower : em.mantissa + roundPart em ≤ y
  upper : y < em.mantissa + roundPart em + 1 / 2
  sticky : em.stickyBit = true ↔ em.mantissa + roundPart em < y

theorem mantissa_ofMantissaAndAccuracy (m : Nat) (acc : Accuracy) :
    (ExtendedMantissa.ofMantissaAndAccuracy m acc).mantissa = m := by
  cases acc with
  | exact => rfl
  | inexact o => cases o <;> rfl

namespace Describes

variable {em : ExtendedMantissa} {y : ℚ}

theorem eq_of_not_sticky (h : Describes em y) (hs : em.stickyBit = false) :
    y = em.mantissa + roundPart em := by
  refine le_antisymm (not_lt.mp fun hlt => ?_) h.lower
  rw [h.sticky.mpr hlt] at hs
  cases hs

theorem exact (m : Nat) : Describes (.ofMantissaAndAccuracy m .exact) m := by
  constructor <;> simp [ExtendedMantissa.ofMantissaAndAccuracy, roundPart]

theorem roundPart_cases (em : ExtendedMantissa) :
    em.roundBit = false ∧ roundPart em = 0 ∨ em.roundBit = true ∧ roundPart em = 1 / 2 := by
  unfold roundPart
  cases em.roundBit
  · exact Or.inl ⟨rfl, if_neg Bool.false_ne_true⟩
  · exact Or.inr ⟨rfl, if_pos rfl⟩

/-- The last place of a mantissa becomes the round bit, so nothing is lost of it. -/
theorem mantissa_shiftRightOne (em : ExtendedMantissa) :
    (em.shiftRightOne.mantissa + roundPart em.shiftRightOne : ℚ) = em.mantissa / 2 := by
  have hdiv : ((2 * (em.mantissa / 2) + em.mantissa % 2 : Nat) : ℚ) = em.mantissa :=
    congrArg _ (Nat.div_add_mod em.mantissa 2)
  have hplace : roundPart em.shiftRightOne = (em.mantissa % 2 : Nat) / 2 := by
    unfold roundPart ExtendedMantissa.shiftRightOne
    rcases Nat.mod_two_eq_zero_or_one em.mantissa with h | h <;> simp [h]
  push_cast at hdiv
  rw [hplace, ← hdiv]
  unfold ExtendedMantissa.shiftRightOne
  push_cast
  ring

/-- Half of a number is described by the mantissa that is shifted by one place. -/
theorem shiftRightOne (h : Describes em y) : Describes em.shiftRightOne (y / 2) := by
  have hl := h.lower
  have hu := h.upper
  constructor <;> rw [mantissa_shiftRightOne]
  · rcases roundPart_cases em with ⟨-, hr⟩ | ⟨-, hr⟩ <;> linarith
  · rcases roundPart_cases em with ⟨-, hr⟩ | ⟨-, hr⟩ <;> linarith
  · have hsticky : em.shiftRightOne.stickyBit = (em.roundBit || em.stickyBit) := rfl
    rw [hsticky, Bool.or_eq_true, h.sticky]
    rcases roundPart_cases em with ⟨hbit, hr⟩ | ⟨hbit, hr⟩
    · rw [hbit, hr, add_zero, div_lt_div_iff_of_pos_right two_pos]
      simp
    · rw [hbit]
      refine iff_of_true (Or.inl rfl) ?_
      linarith

theorem shiftRight (h : Describes em y) (n : Nat) : Describes (em >>> n) (y / 2 ^ n) := by
  induction n with
  | zero =>
    rw [pow_zero, div_one]
    exact h
  | succ n ih =>
    have hhalf : y / 2 ^ (n + 1) = y / 2 ^ n / 2 := by
      rw [pow_succ, div_div]
    rw [hhalf]
    exact ih.shiftRightOne

/-- A number is rounded to the nearest mantissa, and of two that are equally near to the even
one. -/
theorem roundedMantissa_eq (h : Describes em y) {n : Nat} (hl : n - 1 / 2 ≤ y)
    (hu : y ≤ n + 1 / 2) (hodd : n % 2 = 1 → (n - 1 / 2 : ℚ) < y ∧ y < n + 1 / 2) :
    em.roundedMantissa = n := by
  obtain ⟨m, round, sticky⟩ := em
  have hlower := h.lower
  have hupper := h.upper
  have hexact := h.eq_of_not_sticky
  have hsticky := h.sticky
  have below : (m : ℚ) < n + 1 → m ≤ n := fun hlt => Nat.lt_succ_iff.mp (by exact_mod_cast hlt)
  have above : (n : ℚ) < m + 1 → n ≤ m := fun hlt => Nat.lt_succ_iff.mp (by exact_mod_cast hlt)
  have beyond : (m : ℚ) < n → m < n := fun hlt => by exact_mod_cast hlt
  have within : (n : ℚ) < m + 2 → n < m + 2 := fun hlt => by exact_mod_cast hlt
  unfold roundPart at hlower hupper hexact hsticky
  unfold ExtendedMantissa.roundedMantissa ExtendedMantissa.accuracy Accuracy.roundToNearestEven
  cases round <;> cases sticky <;> simp only [reduceIte, Bool.false_eq_true] at *
  · have hy := hexact trivial
    exact le_antisymm (below (by linarith)) (above (by linarith))
  · exact le_antisymm (below (by linarith)) (above (by linarith))
  · -- The number is in the middle of the step, so the nearest mantissa has to be even.
    have hy := hexact trivial
    have heven : n % 2 = 0 := by
      by_contra hne
      obtain ⟨h1, h2⟩ := hodd (by omega)
      have hlt := beyond (by linarith)
      have hle := above (by linarith)
      omega
    have hle := below (by linarith)
    have hlt := within (by linarith)
    omega
  · have hmore := hsticky.mp trivial
    have hlt := beyond (by linarith)
    have hle := within (by linarith)
    omega

end Describes

/-! ## The format of doubles -/

/-- A binary number is one of the format of doubles, with as many places in front of the power of
two as the format has. -/
structure Binary.Canonical (b : Binary) : Prop where
  mantissa_pos : 0 < b.mantissa
  mantissa_lt : b.mantissa < 2 ^ 53
  exponent_ge : -1074 ≤ b.exponent
  exponent_le : b.exponent ≤ 971
  normal : 2 ^ 52 ≤ b.mantissa ∨ b.exponent = -1074
  narrow_iff : b.narrowBelow = true ↔ b.mantissa = 2 ^ 52 ∧ b.exponent ≠ -1074

theorem targetExponent_eq (t : Int) : Format.binary64.targetExponent t = max (t - 53) (-1074) :=
  rfl

theorem Describes.mantissa_le {em : ExtendedMantissa} {y : ℚ} (h : Describes em y) :
    em.mantissa ≤ y := by
  rcases roundPart_cases em with ⟨-, hr⟩ | ⟨-, hr⟩ <;> linarith [h.lower]

theorem Describes.lt_mantissa_add_one {em : ExtendedMantissa} {y : ℚ} (h : Describes em y) :
    y < em.mantissa + 1 := by
  rcases roundPart_cases em with ⟨-, hr⟩ | ⟨-, hr⟩ <;> linarith [h.upper]

theorem two_zpow_pos (e : Int) : (0 : ℚ) < 2 ^ e :=
  zpow_pos two_pos e

theorem two_zpow_lt_iff {m n : Int} : (2 : ℚ) ^ m < 2 ^ n ↔ m < n :=
  zpow_lt_zpow_iff_right₀ one_lt_two

theorem two_zpow_log2_le {m : Nat} (h : 0 < m) : (2 : ℚ) ^ (m.log2 : Int) ≤ m := by
  rw [zpow_natCast]
  exact_mod_cast Nat.log2_self_le h.ne'

theorem add_one_le_two_zpow_log2 (m : Nat) : (m + 1 : ℚ) ≤ 2 ^ (m.log2 + 1 : Int) := by
  exact_mod_cast Nat.lt_log2_self

/-- The target of a number between two powers of two, however its mantissa is given. -/
theorem Describes.target_eq {em : ExtendedMantissa} {x : ℚ} {e n : Int}
    (hd : Describes em (x / 2 ^ e))
    (he : e ≤ Format.binary64.targetExponent (totalExponent em.mantissa e))
    (hn : (2 : ℚ) ^ n ≤ x) (hx : x < 2 ^ (n + 1)) :
    Format.binary64.targetExponent (totalExponent em.mantissa e) = max (n - 52) (-1074) := by
  have hlow := (le_div_iff₀ (two_zpow_pos e)).mp hd.mantissa_le
  have hhigh := (div_lt_iff₀ (two_zpow_pos e)).mp hd.lt_mantissa_add_one
  rw [targetExponent_eq] at he ⊢
  unfold totalExponent at he ⊢
  rcases Nat.eq_zero_or_pos em.mantissa with hzero | hpos
  · -- Less than one step: the step is the least one then, and so is the target.
    rw [hzero, Nat.cast_zero, zero_add, one_mul] at hhigh
    have hlt := two_zpow_lt_iff.mp (hn.trans_lt hhigh)
    rw [hzero, Nat.log2_zero] at he ⊢
    omega
  · have hbelow : (2 : ℚ) ^ (em.mantissa.log2 + e) ≤ x := by
      rw [zpow_add₀ two_ne_zero]
      exact (mul_le_mul_of_nonneg_right (two_zpow_log2_le hpos) (two_zpow_pos e).le).trans hlow
    have habove : x < (2 : ℚ) ^ (em.mantissa.log2 + 1 + e) := by
      rw [zpow_add₀ two_ne_zero]
      exact hhigh.trans_le (mul_le_mul_of_nonneg_right (add_one_le_two_zpow_log2 _)
        (two_zpow_pos e).le)
    have hle := two_zpow_lt_iff.mp (hbelow.trans_lt hx)
    have hge := two_zpow_lt_iff.mp (hn.trans_lt habove)
    omega

theorem exponent_shiftToExponent (m : Nat) (acc : Accuracy) {e t : Int} (he : e ≤ t) :
    (shiftToExponent m e acc t).2 = t := by
  show e + ((t - e).toNat : Int) = t
  omega

/-- The mantissa after a shift describes the same number, counted in the steps of the target. -/
theorem Describes.shiftToExponent {m : Nat} {e t : Int} {acc : Accuracy} {x : ℚ}
    (hd : Describes (.ofMantissaAndAccuracy m acc) (x / 2 ^ e)) (he : e ≤ t) :
    Describes (shiftToExponent m e acc t).1 (x / 2 ^ t) := by
  have hsum : e + ((t - e).toNat : Int) = t := by omega
  have hpow : x / 2 ^ t = x / 2 ^ e / 2 ^ (t - e).toNat := by
    rw [div_div, ← zpow_natCast, ← zpow_add₀ two_ne_zero, hsum]
  rw [hpow]
  exact hd.shiftRight _

namespace Binary

variable {b : Binary} {x : ℚ}

theorem gap_cases (b : Binary) :
    b.narrowBelow = true ∧ b.gap = 1 / 4 ∨ b.narrowBelow = false ∧ b.gap = 1 / 2 := by
  unfold gap
  cases b.narrowBelow
  · exact Or.inr ⟨rfl, if_neg Bool.false_ne_true⟩
  · exact Or.inl ⟨rfl, if_pos rfl⟩

theorem gap_le (b : Binary) : b.gap ≤ 1 / 2 := by
  rcases b.gap_cases with ⟨-, h⟩ | ⟨-, h⟩ <;> linarith

/-- A number is in its own interval. -/
theorem holds_size (b : Binary) : b.Holds b.size := by
  have hstep := two_zpow_pos b.exponent
  have hgap : 0 < b.gap := by
    rcases b.gap_cases with ⟨-, h⟩ | ⟨-, h⟩ <;> rw [h] <;> norm_num
  have hlower : (b.mantissa - b.gap) * 2 ^ b.exponent < b.size :=
    mul_lt_mul_of_pos_right (by linarith) hstep
  have hupper : b.size < (b.mantissa + 1 / 2) * 2 ^ b.exponent :=
    mul_lt_mul_of_pos_right (by linarith) hstep
  exact ⟨hlower.le, hupper.le, fun _ => ⟨hlower, hupper⟩⟩

/-- The powers of two around a number in the interval of a binary number: its target is that
number's exponent, or the next smaller one for a number below the least mantissa. -/
theorem Holds.exists_target (hx : b.Holds x) (hb : b.Canonical) :
    ∃ n : Int, (2 : ℚ) ^ n ≤ x ∧ x < 2 ^ (n + 1) ∧ (max (n - 52) (-1074) = b.exponent ∨
      b.mantissa = 2 ^ 52 ∧ b.narrowBelow = true ∧ x < 2 ^ 52 * 2 ^ b.exponent ∧
        max (n - 52) (-1074) = b.exponent - 1) := by
  have hstep := two_zpow_pos b.exponent
  have hgap := b.gap_le
  have hone : (1 : ℚ) ≤ b.mantissa := by exact_mod_cast hb.mantissa_pos
  have hpos : 0 < x := (mul_pos (by linarith) hstep).trans_le hx.lower
  obtain ⟨n, hn, hx'⟩ := exists_mem_Ico_zpow hpos one_lt_two
  refine ⟨n, hn, hx', ?_⟩
  have hle := hb.exponent_ge
  -- Bounds on the mantissa become bounds on the power of two.
  have below : ∀ k : Nat, (b.mantissa + 1 : ℚ) ≤ 2 ^ k → n < k + b.exponent := by
    intro k hk
    refine two_zpow_lt_iff.mp (hn.trans_lt (hx.upper.trans_lt ?_))
    rw [zpow_add₀ two_ne_zero, zpow_natCast]
    exact mul_lt_mul_of_pos_right (by linarith) hstep
  have above : ∀ k : Nat, (2 : ℚ) ^ k * 2 ^ b.exponent ≤ x → k + b.exponent ≤ n := by
    intro k hk
    rw [← zpow_natCast, ← zpow_add₀ two_ne_zero] at hk
    have hlt := two_zpow_lt_iff.mp (hk.trans_lt hx')
    omega
  by_cases hsmall : b.mantissa < 2 ^ 52
  · have he := hb.normal.resolve_left (by omega)
    have hlt := below 52 (by exact_mod_cast hsmall)
    left
    omega
  · have hlt := below 53 (by exact_mod_cast hb.mantissa_lt)
    by_cases hlow : (2 : ℚ) ^ 52 * 2 ^ b.exponent ≤ x
    · have hge := above 52 hlow
      left
      omega
    · -- Below the least mantissa of its exponent there is only the interval of that mantissa.
      rw [not_le] at hlow
      have hmantissa : b.mantissa = 2 ^ 52 := by
        have hlt := lt_of_mul_lt_mul_right (hx.lower.trans_lt hlow) hstep.le
        have hlt' : (b.mantissa : ℚ) < 2 ^ 52 + 1 := by linarith
        have hnat : b.mantissa < 2 ^ 52 + 1 := by exact_mod_cast hlt'
        omega
      have hlower := hx.lower
      rw [hmantissa] at hlower
      push_cast at hlower
      have hge := above 51 <| le_trans (mul_le_mul_of_nonneg_right (by linarith) hstep.le) hlower
      have hlt' : n < 52 + b.exponent := by
        refine two_zpow_lt_iff.mp (hn.trans_lt ?_)
        rw [zpow_add₀ two_ne_zero]
        exact_mod_cast hlow
      by_cases he : b.exponent = -1074
      · left
        omega
      · exact Or.inr ⟨hmantissa, hb.narrow_iff.mpr ⟨hmantissa, he⟩, hlow, by omega⟩

/-- A number of the format is where its own target is. -/
theorem Canonical.target_eq (hb : b.Canonical) :
    Format.binary64.targetExponent (totalExponent b.mantissa b.exponent) = b.exponent := by
  have hge := hb.exponent_ge
  have hlog := (Nat.log2_lt hb.mantissa_pos.ne').mpr hb.mantissa_lt
  rw [targetExponent_eq]
  unfold totalExponent
  rcases hb.normal with hnormal | he
  · have hle := (Nat.le_log2 hb.mantissa_pos.ne').mpr hnormal
    omega
  · omega

theorem finite_congr {s : Sign} {m n : Nat} {e f : Int} (h : m = n) (he : e = f) (hm : 0 < m)
    (hn : 0 < n) : UnpackedFloat.finite s m e hm = .finite s n f hn := by
  subst h he
  rfl

/-- A shift to the target, the rounding of what it leaves, and a second shift make the result. -/
theorem roundWithAccuracy_of_shifts {s : Sign} {m n : Nat} {e t : Int} {acc : Accuracy}
    (hb : 0 < b.mantissa)
    (htarget : Format.binary64.targetExponent (totalExponent m e) = t) (he : e ≤ t)
    (hround : (shiftToExponent m e acc t).1.roundedMantissa = n)
    (hnext : Format.binary64.targetExponent (totalExponent n t) = b.exponent)
    (ht : t ≤ b.exponent)
    (hmantissa : (shiftToExponent n t .exact b.exponent).1.mantissa = b.mantissa) :
    roundWithAccuracy .binary64 s m e acc = .finite s b.mantissa b.exponent hb := by
  unfold roundWithAccuracy shiftToTargetExponent
  dsimp only
  rw [htarget, hround, exponent_shiftToExponent m acc he, hnext, exponent_shiftToExponent n _ ht]
  have hne : (shiftToExponent n t .exact b.exponent).1.mantissa ≠ 0 := by omega
  rw [dif_neg hne]
  exact finite_congr hmantissa rfl _ _

/-- What is in the interval of a number of the format is rounded to that number, from every mantissa
that describes it and has enough places. -/
theorem Holds.roundWithAccuracy_eq (hx : b.Holds x) (hb : b.Canonical) {m : Nat} {e : Int}
    {acc : Accuracy} {s : Sign} (hd : Describes (.ofMantissaAndAccuracy m acc) (x / 2 ^ e))
    (he : e ≤ Format.binary64.targetExponent (totalExponent m e)) :
    roundWithAccuracy .binary64 s m e acc =
      .finite s b.mantissa b.exponent hb.mantissa_pos := by
  have hm := mantissa_ofMantissaAndAccuracy m acc
  -- The exponent that is aimed at is that of the number, or the one below it at the edge of a power
  -- of two.
  obtain ⟨n, hn, hx', hcases⟩ := hx.exists_target hb
  have htarget := hd.target_eq (by rwa [hm]) hn hx'
  rw [hm] at htarget
  have hdescribes := hd.shiftToExponent he
  have hstep := two_zpow_pos b.exponent
  have hlower := (le_div_iff₀ hstep).mpr hx.lower
  have hupper := (div_le_iff₀ hstep).mpr hx.upper
  rcases hcases with hsame | ⟨hmantissa, hnarrow, hbelow, hprev⟩
  · rw [htarget, hsame] at hdescribes he
    have hround := hdescribes.roundedMantissa_eq (by linarith [b.gap_le]) hupper fun hodd => by
      obtain ⟨hl, hu⟩ := hx.inside hodd
      have hl' := (lt_div_iff₀ hstep).mpr hl
      exact ⟨by linarith [b.gap_le], (div_lt_iff₀ hstep).mpr hu⟩
    refine roundWithAccuracy_of_shifts hb.mantissa_pos (htarget.trans hsame) he hround
      hb.target_eq le_rfl ?_
    unfold UnpackedFloat.shiftToExponent
    rw [sub_self]
    rfl
  · -- The steps are half as wide, and the mantissa is rounded up to the next power of two.
    rw [htarget, hprev] at hdescribes he
    have hgap : b.gap = 1 / 4 := if_pos hnarrow
    have hhalf : x / 2 ^ (b.exponent - 1) = 2 * (x / 2 ^ b.exponent) := by
      rw [zpow_sub_one₀ two_ne_zero]
      field_simp
    have hless := (div_lt_iff₀ hstep).mpr hbelow
    rw [hmantissa, hgap] at hlower
    rw [hhalf] at hdescribes
    have hround : (shiftToExponent m e acc (b.exponent - 1)).1.roundedMantissa = 2 ^ 53 := by
      refine hdescribes.roundedMantissa_eq ?_ ?_ fun hodd => absurd hodd (by norm_num)
      · push_cast at hlower ⊢
        linarith
      · push_cast
        linarith
    have hge := hb.exponent_ge
    refine roundWithAccuracy_of_shifts hb.mantissa_pos (htarget.trans hprev) he hround ?_
      (by omega) ?_
    · rw [targetExponent_eq]
      unfold totalExponent
      rw [Nat.log2_two_pow]
      omega
    · have hone : (b.exponent - (b.exponent - 1)).toNat = 1 := by omega
      rw [hmantissa]
      unfold UnpackedFloat.shiftToExponent
      rw [hone]
      rfl

end Binary

end CommandShell
