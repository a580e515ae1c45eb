import CommandShell.Proofs.Value.FloatText

/-!
# Names and numbers in JSON texts

What is no text, no list and no map is written as a name or a number, and read as what it was.

## Main results

* `Json.readScalar_int`: a whole number is read as it is written, unless it is too long.
* `Json.readScalar_write`: a floating-point number is read as it is written, whichever it is.
-/

namespace CommandShell

namespace Json

variable {c : Char} {cs rest : List Char}

/-! ## Names or numbers -/

theorem digit_ne (h : isAsciiDigit c = true) :
    c ≠ '-' ∧ c ≠ 'n' ∧ c ≠ 't' ∧ c ≠ 'f' ∧ c ≠ 'N' ∧ c ≠ 'I' := by
  refine ⟨?_, ?_, ?_, ?_, ?_, ?_⟩ <;> (rintro rfl; exact absurd h (by decide))

theorem readScalar_digit (h : isAsciiDigit c = true) :
    readScalar (c :: cs) = readNumber false (c :: cs) := by
  obtain ⟨hminus, hn, ht, hf, hN, hI⟩ := digit_ne h
  unfold readScalar
  simp [names, afterWord?, hminus.symm, hn.symm, ht.symm, hf.symm, hN.symm, hI.symm]
  split
  · rename_i heq
    exact absurd (List.cons.inj heq).1 hminus
  · rfl

theorem readScalar_minus (h : isAsciiDigit c = true) :
    readScalar ('-' :: c :: cs) = readNumber true (c :: cs) := by
  obtain ⟨-, -, -, -, -, hI⟩ := digit_ne h
  unfold readScalar
  simp [names, afterWord?, hI.symm]

/-- A number with its sign is read as one. -/
theorem readScalar_sign (negative : Bool) (h : ∀ c ∈ cs.head?, isAsciiDigit c = true)
    (hne : cs ≠ []) :
    readScalar ((if negative then ['-'] else []) ++ cs) = readNumber negative cs := by
  obtain ⟨c, cs, rfl⟩ := List.exists_cons_of_ne_nil hne
  cases negative with
  | false => exact readScalar_digit (h c rfl)
  | true => exact readScalar_minus (h c rfl)

theorem readScalar_null (rest : List Char) :
    readScalar ("null".toList ++ rest) = .ok (.null, rest) := by
  simp [readScalar, names, afterWord?, show "null".length = 4 from rfl]

theorem readScalar_bool (b : Bool) (rest : List Char) :
    readScalar ((if b then "true" else "false").toList ++ rest) = .ok (.bool b, rest) := by
  cases b with
  | false => simp [readScalar, names, afterWord?, show "false".length = 5 from rfl]
  | true => simp [readScalar, names, afterWord?, show "true".length = 4 from rfl]

/-! ## Whole numbers -/

/-- A whole number is read as it is written, unless it is too long. -/
theorem readScalar_int {n : Int} (hrest : Delimited rest)
    (hlength : (Nat.toDigits 10 n.natAbs).length ≤ maxDigits) :
    readScalar ((toString n).toList ++ rest) = .ok (.int n, rest) := by
  have hhead : ∀ c ∈ (Nat.toDigits 10 n.natAbs ++ rest).head?, isAsciiDigit c = true := by
    rw [List.head?_append_of_ne_nil _ Nat.toDigits_ne_nil]
    exact fun c hc => isAsciiDigit_toDigits _ c (List.mem_of_mem_head? hc)
  have hread : ∀ negative : Bool, readScalar ((if negative then ['-'] else []) ++
      (Nat.toDigits 10 n.natAbs ++ rest)) =
        .ok (.int (if negative then -n.natAbs else n.natAbs), rest) := by
    intro negative
    rw [readScalar_sign negative hhead (by simp [Nat.toDigits_ne_nil]),
      readNumber_whole negative hrest hlength]
  rw [Chars.toList_toString, List.append_assoc]
  by_cases hn : n < 0
  · have habs : -(n.natAbs : Int) = n := by omega
    have h := hread true
    rw [if_pos rfl, if_pos rfl, habs] at h
    rw [if_pos hn, h]
  · have habs : (n.natAbs : Int) = n := by omega
    have h := hread false
    rw [if_neg Bool.false_ne_true, if_neg Bool.false_ne_true, habs] at h
    rw [if_neg hn, h]

/-! ## Floating-point numbers -/

/-- The numbers that are not the number of their fields. -/
theorem fields_special : DoubleFields.ofFloat 0.0 = ⟨false, 0, 0⟩ ∧
    DoubleFields.ofFloat (-0.0) = ⟨true, 0, 0⟩ ∧
    DoubleFields.ofFloat (1.0 / 0.0) = ⟨false, 0x7FF, 0⟩ ∧
    DoubleFields.ofFloat (-1.0 / 0.0) = ⟨true, 0x7FF, 0⟩ ∧
    DoubleFields.ofFloat (0.0 / 0.0) = ⟨false, 0x7FF, 2 ^ 51⟩ := by
  refine ⟨?_, ?_, ?_, ?_, ?_⟩ <;>
    exact DoubleFields.ofFloat_of_toNat (by norm_num) (by norm_num) (by decide +kernel)

theorem readScalar_zero (negative : Bool) (hrest : Delimited rest) :
    readScalar ((if negative then ['-'] else []) ++ (['0', '.', '0'] ++ rest)) =
      .ok (.float (if negative then -0.0 else 0.0), rest) := by
  have hzero : floatOf ['0'] ['0'] 0 = 0.0 := by
    unfold floatOf Decimal.toFloat
    exact if_pos rfl
  have hread := readNumber_parts (l := jsonFloats) negative .zero
    (by simp [isAsciiDigit] : ∀ c ∈ ['0'], isAsciiDigit c = true) (Or.inl ⟨rfl, rfl⟩)
    (Or.inl (by simp)) hrest
  rw [hzero] at hread
  rw [readScalar_sign negative (by rintro c ⟨⟩; rfl) (by simp)]
  exact hread

theorem toList_sign (negative : Bool) (s : String) :
    ((if negative then "-" else "") ++ s).toList =
      (if negative then ['-'] else []) ++ s.toList := by
  cases negative <;> simp

theorem IsWholePart.head_digit {whole : List Char} (h : IsWholePart whole) (cs : List Char) :
    whole ++ cs ≠ [] ∧ ∀ c ∈ (whole ++ cs).head?, isAsciiDigit c = true := by
  cases h with
  | zero => exact ⟨nofun, by rintro c ⟨⟩; rfl⟩
  | digits _ hds => exact ⟨nofun, by rintro c ⟨⟩; exact hds _ List.mem_cons_self⟩

/-- A finite number other than zero is read from its shortest decimal. -/
theorem readScalar_decimal {x : Float} {d : DoubleFields} (hx : DoubleFields.ofFloat x = d)
    (hd : d.IsNumber) (hrest : Delimited rest) :
    readScalar ((if d.negative then ['-'] else []) ++
      (jsonFloats.decimal (Decimal.shortest (Binary.ofFields d)) ++ rest)) =
        .ok (.float x, rest) := by
  have hb := Binary.canonical_ofFields hd
  obtain ⟨hholds, hle⟩ := Decimal.shortest_spec hb
  obtain ⟨whole, fs, part, e, h⟩ := jsonFloats.exists_isWritten
    (Decimal.digits_pos_of_holds hb hholds) hle le_rfl
  have hread := readNumber_decimal d.negative hb hrest
  rw [Binary.toFloat_ofFields hx hd] at hread
  rw [← hread, h.chars, List.append_assoc]
  obtain ⟨hne, hhead⟩ := h.whole_part.head_digit (fractionPart fs ++ part ++ rest)
  exact readScalar_sign d.negative hhead hne

/-- The names of the numbers that are not finite are read. -/
theorem readScalar_name (rest : List Char) :
    readScalar ("NaN".toList ++ rest) = .ok (.float (0.0 / 0.0), rest) ∧
      ∀ negative : Bool,
        readScalar ((if negative then ['-'] else []) ++ ("Infinity".toList ++ rest)) =
          .ok (.float (if negative then -1.0 / 0.0 else 1.0 / 0.0), rest) := by
  constructor
  · simp [readScalar, names, afterWord?, show "NaN".length = 3 from rfl]
  · intro negative
    cases negative with
    | false => simp [readScalar, names, afterWord?, show "Infinity".length = 8 from rfl]
    | true => simp [readScalar, names, afterWord?, show "-Infinity".length = 9 from rfl]

/-- A floating-point number is read as it is written, whichever it is. -/
theorem readScalar_write (x : Float) (hrest : Delimited rest) :
    readScalar ((jsonFloats.write x).toList ++ rest) = .ok (.float x, rest) := by
  obtain ⟨hplus, hminus, hinf, hneginf, hnan⟩ := fields_special
  unfold FloatLayout.write
  dsimp only
  generalize hd : DoubleFields.ofFloat x = d
  -- A number is written in decimals, or by a name: zero, the infinities and what is no number.
  by_cases hfinite : d.isFinite = true
  · rw [if_pos hfinite]
    by_cases hzero : d.isZero = true
    · have hx : x = if d.negative then -0.0 else 0.0 := by
        refine DoubleFields.ofFloat_inj ?_
        obtain ⟨negative, exponent, fraction⟩ := d
        obtain ⟨rfl, rfl⟩ : exponent = 0 ∧ fraction = 0 := by
          simpa [DoubleFields.isZero] using hzero
        cases negative <;> simp [hd, hplus, hminus]
      rw [if_pos hzero, toList_sign, List.append_assoc]
      exact (readScalar_zero d.negative hrest).trans (by rw [← hx])
    · rw [Bool.not_eq_true] at hzero
      subst hd
      rw [if_neg (by simp [hzero]), toList_sign, String.toList_ofList, List.append_assoc]
      exact readScalar_decimal rfl (DoubleFields.isNumber_ofFloat hfinite hzero) hrest
  · have hexponent : d.exponent = 0x7FF := by simpa [DoubleFields.isFinite] using hfinite
    rw [if_neg hfinite]
    by_cases hfraction : d.fraction = 0
    · have hx : x = if d.negative then -1.0 / 0.0 else 1.0 / 0.0 := by
        refine DoubleFields.ofFloat_inj ?_
        obtain ⟨negative, exponent, fraction⟩ := d
        obtain ⟨rfl, rfl⟩ : exponent = 0x7FF ∧ fraction = 0 := ⟨hexponent, hfraction⟩
        cases negative <;> simp [hd, hinf, hneginf]
      rw [if_pos hfraction, toList_sign, List.append_assoc]
      exact ((readScalar_name rest).2 d.negative).trans (by rw [← hx])
    · subst hd
      have hx : x = 0.0 / 0.0 := by
        refine DoubleFields.eq_of_not_number hexponent hfraction ?_ ?_
        · rw [hnan]
        · rw [hnan]
          norm_num
      rw [if_neg hfraction]
      exact (readScalar_name rest).1.trans (by rw [← hx])

end Json

end CommandShell
