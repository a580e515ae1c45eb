import CommandShell.Proofs.Decimal.Rounding

/-!
# Floating-point numbers by their fields

A floating-point number is given by its fields, and a finite one that is not zero is the number of
the format that its fields stand for.

## Main results

* `DoubleFields.ofFloat_inj`: floating-point numbers with the same fields are the same.
* `Binary.canonical_ofFields`: the fields of a finite number are those of a number of the format.
* `Binary.Canonical.unpack_toFloat`: a number of the format is unpacked to what was packed.
* `Binary.toFloat_ofFields`: a finite number is what the number of its fields is packed to.
-/

namespace CommandShell

open Float.Model Float.Model.UnpackedFloat

/-! ## Bits -/

section Bits

variable (v : BitVec 64)

theorem toNat_unpackMantissa :
    (@unpackMantissa .binary64 v).toNat = v.toNat % 0x10000000000000 := by
  simp [unpackMantissa]

theorem toNat_unpackExponent :
    (@unpackExponent .binary64 v).toNat = (v.toNat >>> 52) % 0x800 := by
  simp [unpackExponent]

theorem toNat_unpackSign : (@unpackSign .binary64 v).toNat = v.toNat >>> 63 := by
  have hlt : v.toNat < 2 ^ 64 := v.isLt
  show (v.extractLsb 63 63).toNat = v.toNat >>> 63
  simp
  omega

/-- The sign that a minus or its absence stands for. -/
def signOf (negative : Bool) : Sign :=
  if negative then .negative else .positive

theorem ofBitVec_eq_signOf (s : BitVec 1) : Sign.ofBitVec s = signOf (s.toNat == 1) := by
  rcases BitVec.eq_zero_or_eq_one s with rfl | rfl <;> rfl

theorem toNat_signOf (negative : Bool) : (signOf negative).toBitVec.toNat = negative.toNat := by
  cases negative <;> rfl

theorem toNat_packComponents (s : Sign) (e : BitVec 11) (m : BitVec 52) :
    (packComponents .binary64 s e m).toNat =
      s.toBitVec.toNat * 2 ^ 63 + e.toNat * 2 ^ 52 + m.toNat := by
  have he : e.toNat < 2 ^ 11 := e.isLt
  have hm : m.toNat < 2 ^ 52 := m.isLt
  unfold packComponents
  rw [BitVec.toNat_append, BitVec.toNat_append, ← Nat.shiftLeft_add_eq_or_of_lt hm,
    ← Nat.shiftLeft_add_eq_or_of_lt he, Nat.shiftLeft_eq, Nat.shiftLeft_eq]
  ring

end Bits

namespace DoubleFields

/-- The number that the fields of a floating-point number are the parts of. -/
theorem toNat_toBits (x : Float) :
    x.toBits.toNat = (ofFloat x).negative.toNat * 2 ^ 63 + (ofFloat x).exponent * 2 ^ 52 +
      (ofFloat x).fraction := by
  have hlt : x.toBits.toNat < 2 ^ 64 := x.toBits.toNat_lt
  unfold ofFloat
  dsimp only
  rw [Nat.shiftRight_eq_div_pow, Nat.shiftRight_eq_div_pow]
  have hsign : (x.toBits.toNat / 2 ^ 63 == 1).toNat = x.toBits.toNat / 2 ^ 63 := by
    rcases Nat.le_one_iff_eq_zero_or_eq_one.mp
      (by omega : x.toBits.toNat / 2 ^ 63 ≤ 1) with h | h <;> rw [h] <;> rfl
  rw [hsign]
  omega

/-- Floating-point numbers with the same fields are the same. -/
theorem ofFloat_inj {x y : Float} (h : ofFloat x = ofFloat y) : x = y := by
  have hbits : x.toBits.toNat = y.toBits.toNat := by
    rw [toNat_toBits, toNat_toBits, h]
  obtain ⟨⟨u, hu⟩⟩ := x
  obtain ⟨⟨v, hv⟩⟩ := y
  have huv : u = v := UInt64.toNat_inj.mp hbits
  subst huv
  rfl

/-- The fields of a number that is packed from its parts. -/
theorem ofFloat_of_toNat {x : Float} {negative : Bool} {exponent fraction : Nat}
    (he : exponent < 2 ^ 11) (hf : fraction < 2 ^ 52)
    (h : x.toBits.toNat = negative.toNat * 2 ^ 63 + exponent * 2 ^ 52 + fraction) :
    ofFloat x = ⟨negative, exponent, fraction⟩ := by
  have hsign := Bool.toNat_le negative
  unfold ofFloat
  rw [h]
  dsimp only
  rw [Nat.shiftRight_eq_div_pow, Nat.shiftRight_eq_div_pow]
  congr
  · cases negative <;> simp <;> omega
  · omega
  · omega

end DoubleFields

/-- There is only one floating-point number that is not a number. -/
theorem DoubleFields.eq_of_not_number {x y : Float} (hx : (ofFloat x).exponent = 0x7FF)
    (hx' : (ofFloat x).fraction ≠ 0) (hy : (ofFloat y).exponent = 0x7FF)
    (hy' : (ofFloat y).fraction ≠ 0) : x = y := by
  have hbits : ∀ {z : Float}, (ofFloat z).exponent = 0x7FF → (ofFloat z).fraction ≠ 0 →
      z.toModel.toBits.toBitVec = packedNaN .binary64 := by
    intro z he hf
    refine z.toModel.valid.eq_packedNaN (BitVec.eq_of_toNat_eq ?_) fun hzero => hf ?_
    · rw [toNat_unpackExponent]
      exact he
    · have hfraction := toNat_unpackMantissa z.toModel.toBits.toBitVec
      rw [hzero] at hfraction
      exact hfraction.symm
  have hnat : x.toBits.toNat = y.toBits.toNat :=
    congrArg BitVec.toNat ((hbits hx hx').trans (hbits hy hy').symm)
  refine ofFloat_inj ?_
  unfold ofFloat
  rw [hnat]

/-- What is not a number has the greatest exponent and a fraction. -/
theorem DoubleFields.not_number_of_isNaN {x : Float} (h : x.isNaN = true) :
    (ofFloat x).exponent = 0x7FF ∧ (ofFloat x).fraction ≠ 0 := by
  unfold Float.isNaN Float.Model.isNaN Float.Model.unpack UnpackedFloat.unpack at h
  dsimp only at h
  -- Numbers are unpacked by their exponent and their mantissa, and only one of the kinds is no
  -- number.
  by_cases hexponent : @unpackExponent .binary64 x.toModel.toBits.toBitVec = -1#_
  · rw [if_pos hexponent] at h
    by_cases hmantissa : @unpackMantissa .binary64 x.toModel.toBits.toBitVec = 0#_
    · rw [if_pos hmantissa] at h
      cases h
    · have he := toNat_unpackExponent x.toModel.toBits.toBitVec
      have hf := toNat_unpackMantissa x.toModel.toBits.toBitVec
      rw [hexponent] at he
      refine ⟨he.symm, fun hzero => hmantissa (BitVec.eq_of_toNat_eq ?_)⟩
      exact hf.trans hzero
  · rw [if_neg hexponent] at h
    by_cases hsubnormal : @unpackExponent .binary64 x.toModel.toBits.toBitVec = 0#_
    · rw [if_pos hsubnormal] at h
      by_cases hmantissa : @unpackMantissa .binary64 x.toModel.toBits.toBitVec = 0#_
      · rw [dif_pos hmantissa] at h
        cases h
      · rw [dif_neg hmantissa] at h
        cases h
    · rw [if_neg hsubnormal] at h
      cases h

/-- The fields of a finite number other than zero. -/
structure DoubleFields.IsNumber (d : DoubleFields) : Prop where
  exponent_lt : d.exponent < 0x7FF
  fraction_lt : d.fraction < 2 ^ 52
  not_zero : d.isZero = false

theorem DoubleFields.isNumber_ofFloat {x : Float} (hfinite : (ofFloat x).isFinite = true)
    (hzero : (ofFloat x).isZero = false) : (ofFloat x).IsNumber := by
  refine ⟨?_, Nat.mod_lt _ (by norm_num), hzero⟩
  have hlt : (ofFloat x).exponent < 0x800 := Nat.mod_lt _ (by norm_num)
  have hne := bne_iff_ne.mp hfinite
  omega

namespace Binary

variable {b : Binary} {d : DoubleFields} {x : Float}

/-- The fields of a finite number other than zero are those of a number of the format. -/
theorem canonical_ofFields (hd : d.IsNumber) : (ofFields d).Canonical := by
  have he := hd.exponent_lt
  have hf := hd.fraction_lt
  have hzero := hd.not_zero
  unfold ofFields
  -- The numbers below the least normal one share its exponent, but have a smaller mantissa.
  split
  · rename_i hexponent
    have hpos : d.fraction ≠ 0 := by
      rintro hfraction
      rw [DoubleFields.isZero, hexponent, hfraction] at hzero
      cases hzero
    refine ⟨by dsimp only; omega, by dsimp only; omega, le_rfl, by norm_num, Or.inr rfl, ?_⟩
    refine iff_of_false Bool.false_ne_true fun h => ?_
    have hsame : d.fraction = 2 ^ 52 := h.1
    omega
  · refine ⟨by dsimp only; omega, by dsimp only; omega, by dsimp only; omega, by dsimp only; omega,
      Or.inl (by dsimp only; omega), ?_⟩
    simp
    omega

/-- A floating-point number is unpacked to its sign and the number of its fields. -/
theorem unpack_toModel (hx : DoubleFields.ofFloat x = d) (hd : d.IsNumber) :
    x.toModel.unpack = .finite (signOf d.negative) (ofFields d).mantissa (ofFields d).exponent
      (canonical_ofFields hd).mantissa_pos := by
  have he := hd.exponent_lt
  have hzero := hd.not_zero
  -- The fields of the bits are those of the number.
  have hexponent : (@unpackExponent .binary64 x.toModel.toBits.toBitVec).toNat =
      d.exponent := by
    rw [toNat_unpackExponent, ← hx]
    rfl
  have hmantissa : (@unpackMantissa .binary64 x.toModel.toBits.toBitVec).toNat =
      d.fraction := by
    rw [toNat_unpackMantissa, ← hx]
    rfl
  have hsign : Sign.ofBitVec (@unpackSign .binary64 x.toModel.toBits.toBitVec) =
      signOf d.negative := by
    rw [ofBitVec_eq_signOf, toNat_unpackSign, ← hx]
    rfl
  have hfinite : @unpackExponent .binary64 x.toModel.toBits.toBitVec ≠ -1#_ := by
    intro h
    rw [h] at hexponent
    have hall : d.exponent = 0x7FF := hexponent.symm
    omega
  unfold Float.Model.unpack UnpackedFloat.unpack ofFields
  dsimp only
  rw [if_neg hfinite, hsign]
  -- A subnormal number has no leading bit in front of its fraction.
  by_cases hnormal : d.exponent = 0
  · have hexp : @unpackExponent .binary64 x.toModel.toBits.toBitVec = 0#_ :=
      BitVec.eq_of_toNat_eq (hexponent.trans hnormal)
    have hfraction : @unpackMantissa .binary64 x.toModel.toBits.toBitVec ≠ 0#_ := by
      intro h
      rw [h] at hmantissa
      have hnone : d.fraction = 0 := hmantissa.symm
      rw [DoubleFields.isZero, hnormal, hnone] at hzero
      cases hzero
    rw [if_pos hexp, dif_neg hfraction]
    refine finite_congr ?_ ?_ _ _
    · rw [hmantissa, if_pos hnormal]
    · rw [hexp, if_pos hnormal]
      rfl
  · have hexp : @unpackExponent .binary64 x.toModel.toBits.toBitVec ≠ 0#_ := by
      intro h
      rw [h] at hexponent
      exact hnormal hexponent.symm
    rw [if_neg hexp]
    refine finite_congr ?_ ?_ _ _
    · rw [BitVec.toNat_append, ← Nat.shiftLeft_add_eq_or_of_lt (BitVec.isLt _), hmantissa,
        if_neg hnormal]
      rfl
    · rw [hexponent, if_neg hnormal]
      rfl

/-- The floating-point number that a number of the format is packed to. -/
def toFloat (b : Binary) (negative : Bool) (h : 0 < b.mantissa) : Float :=
  .ofModel (.pack (.finite (signOf negative) b.mantissa b.exponent h))

/-- The fields of a number of the format. -/
def fields (b : Binary) (negative : Bool) : DoubleFields :=
  ⟨negative, if 2 ^ 52 ≤ b.mantissa then (b.exponent + 1075).toNat else 0, b.mantissa % 2 ^ 52⟩

/-- The fields of a finite number other than zero can be had from the number they stand for. -/
theorem fields_ofFields (hd : d.IsNumber) : (ofFields d).fields d.negative = d := by
  have he := hd.exponent_lt
  have hf := hd.fraction_lt
  obtain ⟨negative, exponent, fraction⟩ := d
  unfold fields ofFields
  dsimp only at he hf ⊢
  split
  · rename_i hzero
    dsimp only
    rw [if_neg (not_le.mpr hf), Nat.mod_eq_of_lt hf, hzero]
  · dsimp only
    rw [if_pos (by omega)]
    congr <;> omega

namespace Canonical

variable (hb : b.Canonical) (negative : Bool)

include hb

theorem isNumber_fields : (b.fields negative).IsNumber := by
  have hge := hb.exponent_ge
  have hle := hb.exponent_le
  have hpos := hb.mantissa_pos
  refine ⟨?_, Nat.mod_lt _ (by norm_num), ?_⟩
  · unfold fields
    dsimp only
    split <;> omega
  · unfold fields DoubleFields.isZero
    rw [Bool.and_eq_false_iff, beq_eq_false_iff_ne, beq_eq_false_iff_ne]
    dsimp only
    split <;> omega

theorem ofFields_fields : (ofFields (b.fields negative)).mantissa = b.mantissa ∧
    (ofFields (b.fields negative)).exponent = b.exponent := by
  have hge := hb.exponent_ge
  have hlt := hb.mantissa_lt
  unfold fields
  by_cases hnormal : 2 ^ 52 ≤ b.mantissa
  · rw [if_pos hnormal, ofFields, if_neg (by dsimp only; omega)]
    constructor <;> dsimp only <;> omega
  · rw [if_neg hnormal, ofFields, if_pos rfl]
    exact ⟨Nat.mod_eq_of_lt (not_le.mp hnormal), (hb.normal.resolve_left hnormal).symm⟩

/-- A number of the format is packed to its fields. -/
theorem ofFloat_toFloat :
    DoubleFields.ofFloat (b.toFloat negative hb.mantissa_pos) = b.fields negative := by
  have hd := hb.isNumber_fields negative
  have hlt := hd.exponent_lt
  refine DoubleFields.ofFloat_of_toNat (hlt.trans (by norm_num)) hd.fraction_lt ?_
  have hbias : (Format.binary64.exponentBias : Int) = 1023 := rfl
  have hplaces : Format.binary64.mantissaBits = 53 := rfl
  have hge := hb.exponent_ge
  have hle := hb.exponent_le
  show (UnpackedFloat.pack .binary64 (.finite _ b.mantissa b.exponent hb.mantissa_pos)).toNat = _
  unfold UnpackedFloat.pack
  dsimp only
  rw [hbias, hplaces, if_neg (by omega)]
  -- The leading bit of a normal mantissa is left out of its fraction.
  by_cases hnormal : 2 ^ 52 ≤ b.mantissa
  · have hlog : b.mantissa.log2 + 1 = 53 := by
      have hle := (Nat.le_log2 hb.mantissa_pos.ne').mpr hnormal
      have hlt := (Nat.log2_lt hb.mantissa_pos.ne').mpr hb.mantissa_lt
      omega
    rw [if_pos hnormal, if_pos hlog]
    refine (toNat_packComponents _ _ _).trans ?_
    rw [toNat_signOf, BitVec.toNat_ofNat, BitVec.toNat_ofNat]
    omega
  · have hlog : b.mantissa.log2 + 1 ≠ 53 := by
      have hlt := (Nat.log2_lt hb.mantissa_pos.ne').mpr (not_le.mp hnormal)
      omega
    rw [if_neg hnormal, if_neg hlog]
    refine (toNat_packComponents _ _ _).trans ?_
    rw [toNat_signOf, BitVec.toNat_ofNat]
    rfl

/-- A packed number of the format is unpacked to what was packed. -/
theorem unpack_toFloat : (b.toFloat negative hb.mantissa_pos).toModel.unpack =
    .finite (signOf negative) b.mantissa b.exponent hb.mantissa_pos := by
  obtain ⟨hm, he⟩ := hb.ofFields_fields negative
  rw [unpack_toModel (hb.ofFloat_toFloat negative) (hb.isNumber_fields negative)]
  exact finite_congr hm he _ _

/-- The number with the other sign. -/
theorem neg_toFloat : -(b.toFloat negative hb.mantissa_pos) =
    b.toFloat (!negative) hb.mantissa_pos := by
  show Float.ofModel (.pack (b.toFloat negative hb.mantissa_pos).toModel.unpack.neg) = _
  rw [hb.unpack_toFloat]
  cases negative <;> rfl

end Canonical

/-- A finite number other than zero is what the number of its fields is packed to. -/
theorem toFloat_ofFields {x : Float} (hx : DoubleFields.ofFloat x = d) (hd : d.IsNumber) :
    (ofFields d).toFloat d.negative (canonical_ofFields hd).mantissa_pos = x := by
  refine DoubleFields.ofFloat_inj ?_
  rw [(canonical_ofFields hd).ofFloat_toFloat, fields_ofFields hd, hx]

end Binary

end CommandShell
