import CommandShell.Proofs.Decimal.Arithmetic
import Mathlib.Data.Int.Log

/-!
# The shortest decimal

The shortest decimal of a number of the format of doubles is in the interval that rounds to the
number.  The grid of seventeen digits has a point there, since its step is smaller than the
interval; and if a grid has a point in the interval, then one of the two around the number is in
it.

## Main results

* `Binary.magnitude_spec`: the power of ten of a number's first digit.
* `Binary.exists_holds_grid`: the grid of seventeen digits has a point in the interval.
* `Decimal.shortest_spec`: the shortest decimal is in the interval and has at most seventeen digits.
-/

namespace CommandShell

/-! ## The first digit -/

/-- Powers of two are between the powers of ten that are guessed for them. -/
theorem guess_of_nonneg : ∀ k < 1100, 10 ^ (k * 30103 / 100000) ≤ 5 * 2 ^ k ∧
    2 ^ (k + 1) ≤ 10 ^ (k * 30103 / 100000 + 3) := by
  decide +kernel

/-- Negative powers of two are between the powers of ten that are guessed for them. -/
theorem guess_of_neg : ∀ k < 1100, 2 ^ (k + 1) ≤ 10 ^ ((k * 30103 + 99999) / 100000 + 1) ∧
    2 * 10 ^ ((k * 30103 + 99999) / 100000) ≤ 1000 * 2 ^ k := by
  decide +kernel

/-- What is guessed for a power of two is at most one too great and at most two too small. -/
theorem guess_spec {k : Int} (hl : -1100 < k) (hu : k < 1100) :
    (10 : ℚ) ^ (k * 30103 / 100000 - 1) ≤ 2 ^ (k - 1) ∧
      (2 : ℚ) ^ (k + 1) ≤ 10 ^ (k * 30103 / 100000 + 3) := by
  -- The bounds are shown for natural powers; a negative one is the inverse of one of these.
  rcases le_or_gt 0 k with hk | hk
  · obtain ⟨n, rfl⟩ := Int.eq_ofNat_of_zero_le hk
    obtain ⟨hlow, hhigh⟩ := guess_of_nonneg n (by omega)
    have hguess : (n : Int) * 30103 / 100000 = ((n * 30103 / 100000 : Nat) : Int) := by omega
    generalize n * 30103 / 100000 = g at *
    have hlow' : (10 : ℚ) ^ g ≤ 5 * 2 ^ n := by exact_mod_cast hlow
    rw [hguess, zpow_sub_one₀ (by norm_num), zpow_sub_one₀ two_ne_zero, zpow_natCast, zpow_natCast]
    exact ⟨by linarith, by exact_mod_cast hhigh⟩
  · obtain ⟨n, hn⟩ := Int.eq_ofNat_of_zero_le (Int.neg_nonneg.mpr hk.le)
    obtain rfl : k = -n := by omega
    obtain ⟨hlow, hhigh⟩ := guess_of_neg n (by omega)
    have hguess : -(n : Int) * 30103 / 100000 = -((n * 30103 + 99999) / 100000 : Nat) := by omega
    generalize (n * 30103 + 99999) / 100000 = g at *
    have hlow' : (2 : ℚ) ^ (n + 1) ≤ 10 ^ (g + 1) := by exact_mod_cast hlow
    have hhigh' : (2 * 10 ^ g : ℚ) ≤ 1000 * 2 ^ n := by exact_mod_cast hhigh
    rw [hguess]
    constructor
    · have hl : -(g : Int) - 1 = -((g + 1 : Nat) : Int) := by omega
      have hr : -(n : Int) - 1 = -((n + 1 : Nat) : Int) := by omega
      rw [hl, hr, zpow_neg, zpow_neg, zpow_natCast, zpow_natCast]
      exact inv_anti₀ (by positivity) hlow'
    · rw [zpow_add₀ two_ne_zero, zpow_add₀ (by norm_num), zpow_neg, zpow_neg, zpow_natCast,
        zpow_natCast, inv_mul_eq_div, inv_mul_eq_div,
        div_le_div_iff₀ (by positivity) (by positivity)]
      norm_num
      linarith

/-- A quotient is less than a factor of two from the quotient of the powers of two below its
parts. -/
theorem Ratio.two_zpow_lt_toRat {r : Ratio} (hnum : 0 < r.num) (hden : 0 < r.den) :
    (2 : ℚ) ^ ((r.num.log2 : Int) - r.den.log2 - 1) ≤ r.toRat ∧
      r.toRat < 2 ^ ((r.num.log2 : Int) - r.den.log2 + 1) := by
  have hpos : (0 : ℚ) < r.den := Nat.cast_pos.mpr hden
  have hpos' : (0 : ℚ) < r.num := Nat.cast_pos.mpr hnum
  have hnum' : (r.num : ℚ) < 2 ^ (r.num.log2 + 1 : Int) := by
    linarith [add_one_le_two_zpow_log2 r.num]
  have hden' : (r.den : ℚ) ≤ 2 ^ (r.den.log2 + 1 : Int) := by
    linarith [add_one_le_two_zpow_log2 r.den]
  have hl : (r.num.log2 : Int) - r.den.log2 - 1 = r.num.log2 - (r.den.log2 + 1) := by omega
  have hu : (r.num.log2 : Int) - r.den.log2 + 1 = r.num.log2 + 1 - r.den.log2 := by omega
  rw [hl, hu, zpow_sub₀ two_ne_zero, zpow_sub₀ two_ne_zero]
  exact ⟨div_le_div₀ hpos'.le (two_zpow_log2_le hnum) hpos hden',
    div_lt_div₀ hnum' (two_zpow_log2_le hden) (two_zpow_pos _).le (two_zpow_pos _)⟩

namespace Binary

variable {b : Binary} {x y z : ℚ}

theorem size_pos (h : 0 < b.mantissa) : 0 < b.size :=
  mul_pos (Nat.cast_pos.mpr h) (two_zpow_pos _)

theorem num_value_pos (h : 0 < b.mantissa) : 0 < b.value.num := by
  refine Nat.pos_of_ne_zero fun hzero => (size_pos h).ne' ?_
  rw [← toRat_value, Ratio.toRat, hzero, Nat.cast_zero, zero_div]

/-- The power of ten of a number's first digit. -/
theorem magnitude_spec (hb : b.Canonical) :
    (10 : ℚ) ^ b.magnitude ≤ b.size ∧ b.size < 10 ^ (b.magnitude + 1) := by
  have hden : 0 < b.value.den := Ratio.den_scale_pos (by norm_num)
  have hfits : ∀ e : Int, ((Ratio.scale 1 10 e).le b.value &&
      b.value.lt (Ratio.scale 1 10 (e + 1))) = true ↔
        (10 : ℚ) ^ e ≤ b.size ∧ b.size < 10 ^ (e + 1) := by
    intro e
    rw [Bool.and_eq_true, Ratio.le_iff (Ratio.den_scale_pos (by norm_num)) hden,
      Ratio.lt_iff hden (Ratio.den_scale_pos (by norm_num)), Ratio.toRat_scale, Ratio.toRat_scale,
      toRat_value, Nat.cast_one, one_mul, one_mul]
    rfl
  -- The number is between two powers of two, so one of the powers of ten that are tried fits.
  obtain ⟨hlow, hhigh⟩ := Ratio.two_zpow_lt_toRat (num_value_pos hb.mantissa_pos) hden
  rw [toRat_value] at hlow hhigh
  have hl := two_zpow_lt_iff.mp ((b.holds_size.ge hb).trans_lt hhigh)
  have hu := two_zpow_lt_iff.mp (hlow.trans_lt (b.holds_size.lt hb))
  obtain ⟨hbelow, habove⟩ := guess_spec (k := (b.value.num.log2 : Int) - b.value.den.log2)
    (by omega) (by omega)
  have htop : (10 : ℚ) ^ Int.log 10 b.size ≤ b.size :=
    Int.zpow_log_le_self (by norm_num) (size_pos hb.mantissa_pos)
  have hnext : b.size < (10 : ℚ) ^ (Int.log 10 b.size + 1) :=
    Int.lt_zpow_succ_log_self (by norm_num) _
  have hge := (zpow_lt_zpow_iff_right₀ (by norm_num)).mp ((hbelow.trans hlow).trans_lt hnext)
  have hle := (zpow_lt_zpow_iff_right₀ (by norm_num)).mp (htop.trans_lt (hhigh.trans_le habove))
  unfold magnitude
  dsimp only
  generalize ((b.value.num.log2 : Int) - b.value.den.log2) * 30103 / 100000 = g at *
  cases hfind : [g - 1, g, g + 1, g + 2].find? _ with
  | some e =>
    have he := List.find?_some hfind
    exact (hfits e).mp he
  | none =>
    have hmem : Int.log 10 b.size ∈ [g - 1, g, g + 1, g + 2] := by
      simp only [List.mem_cons, List.not_mem_nil, or_false]
      omega
    exact absurd ((hfits _).mpr ⟨htop, hnext⟩) (List.find?_eq_none.mp hfind _ hmem)

/-! ## Grids -/

/-- What is between two numbers of an interval is in it. -/
theorem Holds.convex (hx : b.Holds x) (hz : b.Holds z) (hxy : x ≤ y) (hyz : y ≤ z) : b.Holds y :=
  ⟨hx.lower.trans hxy, hyz.trans hz.upper, fun hodd =>
    ⟨(hx.inside hodd).1.trans_le hxy, hyz.trans_lt (hz.inside hodd).2⟩⟩

/-- The step of the grid of seventeen digits is smaller than the interval. -/
theorem step_lt_width (hb : b.Canonical) :
    (10 : ℚ) ^ (b.magnitude - 16) < (1 / 2 + b.gap) * 2 ^ b.exponent := by
  have hstep := two_zpow_pos b.exponent
  have hsize : (10 : ℚ) ^ (b.magnitude - 16) * 10 ^ 16 ≤ b.mantissa * 2 ^ b.exponent := by
    rw [← zpow_natCast, ← zpow_add₀ (by norm_num)]
    exact (le_of_eq (by norm_num)).trans (magnitude_spec hb).1
  have hlt : (b.mantissa : ℚ) < 2 ^ 53 := by exact_mod_cast hb.mantissa_lt
  rcases b.gap_cases with ⟨hnarrow, hgap⟩ | ⟨-, hgap⟩
  · have hmantissa : (b.mantissa : ℚ) = 2 ^ 52 := by exact_mod_cast (hb.narrow_iff.mp hnarrow).1
    rw [hgap]
    rw [hmantissa] at hsize
    linarith
  · have hless := mul_lt_mul_of_pos_right hlt hstep
    rw [hgap]
    linarith

/-- The grid of seventeen digits has a point in the interval. -/
theorem exists_holds_grid (hb : b.Canonical) :
    ∃ n : Nat, b.Holds (n * 10 ^ (b.magnitude - 16)) := by
  have hwidth := step_lt_width hb
  generalize b.magnitude - 16 = e at *
  have hten : (0 : ℚ) < 10 ^ e := zpow_pos (by norm_num) _
  have hone : (1 : ℚ) ≤ b.mantissa := by exact_mod_cast hb.mantissa_pos
  have hlow : 0 ≤ (b.mantissa - b.gap) * 2 ^ b.exponent / 10 ^ e :=
    div_nonneg (mul_nonneg (by linarith [b.gap_le]) (two_zpow_pos _).le) hten.le
  -- The first point above the lower end is at most one step from it.
  have hfloor := Nat.floor_le hlow
  have hnext := Nat.lt_floor_add_one ((b.mantissa - b.gap) * 2 ^ b.exponent / 10 ^ e)
  generalize ⌊(b.mantissa - b.gap) * 2 ^ b.exponent / 10 ^ e⌋₊ = n at *
  rw [le_div_iff₀ hten] at hfloor
  rw [div_lt_iff₀ hten] at hnext
  have habove : ((n + 1 : Nat) * 10 ^ e : ℚ) < (b.mantissa + 1 / 2) * 2 ^ b.exponent := by
    push_cast
    linarith
  have hbelow : (b.mantissa - b.gap) * 2 ^ b.exponent < ((n + 1 : Nat) * 10 ^ e : ℚ) := by
    push_cast
    exact hnext
  exact ⟨n + 1, hbelow.le, habove.le, fun _ => ⟨hbelow, habove⟩⟩

end Binary

/-- The whole part of a quotient of quotients. -/
theorem Ratio.floor_spec {r s : Ratio} (hr : 0 < r.den) (hnum : 0 < s.num) (hden : 0 < s.den) :
    let n := r.num * s.den / (r.den * s.num)
    n * s.toRat ≤ r.toRat ∧ r.toRat < (n + 1) * s.toRat := by
  intro n
  have hr' : (0 : ℚ) < r.den := Nat.cast_pos.mpr hr
  have hden' : (0 : ℚ) < s.den := Nat.cast_pos.mpr hden
  have hlow : (n * (r.den * s.num) : ℚ) ≤ r.num * s.den := by
    exact_mod_cast Nat.div_mul_le_self _ _
  have hhigh : (r.num * s.den : ℚ) < (n + 1) * (r.den * s.num) := by
    exact_mod_cast (Nat.div_lt_iff_lt_mul (Nat.mul_pos hr hnum)).mp (Nat.lt_succ_self n)
  unfold toRat
  rw [← mul_div_assoc, ← mul_div_assoc, div_le_div_iff₀ hden' hr', div_lt_div_iff₀ hr' hden']
  constructor <;> linarith

namespace Decimal

variable {b : Binary} {d : Decimal} {e : Int}

/-- The grid point below a number. -/
def floorOn (b : Binary) (e : Int) : Nat :=
  b.value.num * (Ratio.scale 1 10 e).den / (b.value.den * (Ratio.scale 1 10 e).num)

theorem floorOn_spec (b : Binary) (e : Int) :
    (floorOn b e * 10 ^ e : ℚ) ≤ b.size ∧ b.size < (floorOn b e + 1) * 10 ^ e := by
  have hstep : (Ratio.scale 1 10 e).toRat = 10 ^ e := by
    rw [Ratio.toRat_scale, Nat.cast_one, one_mul]
    rfl
  have hnum : 0 < (Ratio.scale 1 10 e).num := by
    refine Nat.pos_of_ne_zero fun hzero => (zpow_pos (by norm_num : (0 : ℚ) < 10) e).ne' ?_
    rw [← hstep, Ratio.toRat, hzero, Nat.cast_zero, zero_div]
  have hspec := Ratio.floor_spec (r := b.value) (Ratio.den_scale_pos (by norm_num)) hnum
    (Ratio.den_scale_pos (by norm_num))
  rw [hstep, Binary.toRat_value] at hspec
  exact hspec

theorem nearer_cases (v : Ratio) (low : Nat) (e : Int) :
    nearer v low e = ⟨low, e⟩ ∨ nearer v low e = ⟨low + 1, e⟩ := by
  unfold nearer
  dsimp only
  split
  · exact Or.inl rfl
  · exact Or.inr rfl

theorem onGrid?_def (b : Binary) (e : Int) : onGrid? b e =
    match b.contains (toRatio ⟨floorOn b e, e⟩) && floorOn b e != 0,
      b.contains (toRatio ⟨floorOn b e + 1, e⟩) with
    | true, true => some (nearer b.value (floorOn b e) e)
    | true, false => some ⟨floorOn b e, e⟩
    | false, true => some ⟨floorOn b e + 1, e⟩
    | false, false => none :=
  rfl

/-- The best point of a grid is one of the two around the number, and it is in the interval. -/
theorem onGrid?_eq_some (hb : 0 < b.mantissa) (h : onGrid? b e = some d) :
    b.Holds d.size ∧ (d = ⟨floorOn b e, e⟩ ∨ d = ⟨floorOn b e + 1, e⟩) := by
  rw [← Binary.contains_iff hb]
  rw [onGrid?_def] at h
  split at h
  · rename_i hlow hnext
    rw [Bool.and_eq_true] at hlow
    rcases nearer_cases b.value (floorOn b e) e with hd | hd
    · rw [hd] at h
      cases h
      exact ⟨hlow.1, Or.inl rfl⟩
    · rw [hd] at h
      cases h
      exact ⟨hnext, Or.inr rfl⟩
  · rename_i hlow hnext
    rw [Bool.and_eq_true] at hlow
    cases h
    exact ⟨hlow.1, Or.inl rfl⟩
  · rename_i hlow hnext
    cases h
    exact ⟨hnext, Or.inr rfl⟩
  · cases h

/-- A grid with a point in the interval has a best one. -/
theorem isSome_onGrid? (hb : b.Canonical) {n : Nat} (h : b.Holds (n * 10 ^ e)) :
    (onGrid? b e).isSome = true := by
  obtain ⟨hlow, hhigh⟩ := floorOn_spec b e
  have hten : (0 : ℚ) < 10 ^ e := zpow_pos (by norm_num) _
  -- One of the two points around the number is between it and the point that is given.
  have hone : b.contains (toRatio ⟨floorOn b e, e⟩) = true ∧ floorOn b e ≠ 0 ∨
      b.contains (toRatio ⟨floorOn b e + 1, e⟩) = true := by
    rw [Binary.contains_iff hb.mantissa_pos, Binary.contains_iff hb.mantissa_pos]
    rcases le_or_gt n (floorOn b e) with hle | hgt
    · left
      have hle' : (n : ℚ) ≤ floorOn b e := by exact_mod_cast hle
      have hholds := h.convex b.holds_size (mul_le_mul_of_nonneg_right hle' hten.le) hlow
      exact ⟨hholds, (digits_pos_of_holds (d := ⟨floorOn b e, e⟩) hb hholds).ne'⟩
    · right
      have hgt' : (floorOn b e + 1 : ℚ) ≤ n := by exact_mod_cast hgt
      refine b.holds_size.convex h ?_ ?_
      · unfold size
        push_cast
        exact hhigh.le
      · unfold size
        push_cast
        exact mul_le_mul_of_nonneg_right hgt' hten.le
  rw [onGrid?_def]
  split
  · rfl
  · rfl
  · rfl
  · rename_i hnone hnext
    rw [Bool.and_eq_false_iff, bne_eq_false_iff_eq] at hnone
    rcases hone with ⟨hlow, hne⟩ | hnext'
    · rw [hlow] at hnone
      exact absurd (hnone.resolve_left (by simp)) hne
    · rw [hnext'] at hnext
      cases hnext

/-! ## Trailing zeros -/

theorem size_trimZeros (fuel : Nat) (d : Decimal) : (trimZeros fuel d).size = d.size := by
  induction fuel generalizing d with
  | zero => rfl
  | succ fuel ih =>
    unfold trimZeros
    split
    · rename_i h
      have hdigits : (d.digits : ℚ) = (d.digits / 10 : Nat) * 10 := by
        exact_mod_cast (Nat.div_mul_cancel (Nat.dvd_of_mod_eq_zero h.2)).symm
      rw [ih]
      unfold size
      rw [hdigits, zpow_add_one₀ (by norm_num)]
      ring
    · rfl

theorem digits_trimZeros_le (fuel : Nat) (d : Decimal) :
    (trimZeros fuel d).digits ≤ d.digits := by
  induction fuel generalizing d with
  | zero => exact le_rfl
  | succ fuel ih =>
    unfold trimZeros
    split
    · exact (ih _).trans (Nat.div_le_self _ _)
    · exact le_rfl

/-- The shortest decimal is in the interval and has at most seventeen digits. -/
theorem shortest_spec (hb : b.Canonical) :
    b.Holds (shortest b).size ∧ (shortest b).digits ≤ 10 ^ 17 := by
  obtain ⟨n, hn⟩ := Binary.exists_holds_grid hb
  have hgrid := isSome_onGrid? hb hn
  unfold shortest
  dsimp only
  cases hfind : ((List.range 17).map fun (n : Nat) => b.magnitude - n).findSome? (onGrid? b) with
  | none =>
    have hmem : b.magnitude - 16 ∈ (List.range 17).map fun (n : Nat) => b.magnitude - n :=
      List.mem_map.mpr ⟨16, by decide, rfl⟩
    rw [List.findSome?_eq_none_iff.mp hfind _ hmem] at hgrid
    cases hgrid
  | some d =>
    obtain ⟨e, he, hd⟩ := List.exists_of_findSome?_eq_some hfind
    obtain ⟨k, hk, rfl⟩ := List.mem_map.mp he
    rw [List.mem_range] at hk
    obtain ⟨hholds, hcases⟩ := onGrid?_eq_some hb.mantissa_pos hd
    rw [Option.getD_some, size_trimZeros]
    refine ⟨hholds, (digits_trimZeros_le _ _).trans ?_⟩
    -- The number is below the power of ten after its first digit, and so many steps of the grid.
    have hlow := (floorOn_spec b (b.magnitude - k)).1.trans_lt (Binary.magnitude_spec hb).2
    have hsteps : (10 : ℚ) ^ (b.magnitude + 1) = 10 ^ (k + 1) * 10 ^ (b.magnitude - k) := by
      rw [← zpow_natCast, ← zpow_add₀ (by norm_num)]
      congr 1
      omega
    rw [hsteps] at hlow
    have hlt : (floorOn b (b.magnitude - k) : ℚ) < 10 ^ (k + 1) :=
      lt_of_mul_lt_mul_right hlow (zpow_pos (by norm_num) _).le
    have hnat : floorOn b (b.magnitude - k) < 10 ^ (k + 1) := by exact_mod_cast hlt
    have hpow : 10 ^ (k + 1) ≤ 10 ^ 17 := Nat.pow_le_pow_right (by norm_num) hk
    rcases hcases with rfl | rfl
    · exact (hnat.trans_le hpow).le
    · exact hnat.trans_le hpow

end Decimal

end CommandShell
