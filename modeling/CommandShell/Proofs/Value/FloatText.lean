import CommandShell.Proofs.Decimal.Reading
import CommandShell.Proofs.Decimal.Shortest
import CommandShell.Proofs.Value.Numerals

/-!
# Floating-point numbers in JSON texts

A finite floating-point number is written as its shortest decimal, whose digits are laid out with a
point, with zeros or with an exponent.  Whatever the layout, the decimal that is read is the one
that was written, up to zeros at its end, and so the number is the one that was written.

## Main results

* `FloatLayout.exists_isWritten`: the parts that a decimal is written with.
* `Json.readNumber_decimal`: a number is read from its shortest decimal.
-/

namespace CommandShell

open Chars Json

namespace FloatLayout

variable {d : Decimal} {whole fs part : List Char} {e : Int}

/-- Some characters are a decimal in parts: a whole part, a fraction and an exponent. -/
structure IsWritten (l : FloatLayout) (d : Decimal) (cs : List Char) (whole fs part : List Char)
    (e : Int) : Prop where
  chars : cs = whole ++ (fractionPart fs ++ part)
  whole_part : IsWholePart whole
  fraction_digits : ∀ c ∈ fs, isAsciiDigit c = true
  exponent_part : part = [] ∧ e = 0 ∨ part = l.exponentPart e
  floating : fs ≠ [] ∨ part ≠ []
  short : digitsToNat (whole ++ fs) < 2 ^ 64
  same_size : (⟨digitsToNat (whole ++ fs), e - fs.length⟩ : Decimal).size = d.size

theorem size_eq {n : Nat} {i j : Int} (h : i = j) : (⟨n, i⟩ : Decimal).size = n * 10 ^ j := by
  rw [h]
  rfl

section Layouts

variable {ds : List Char} {l : FloatLayout} {top : Int} (hne : ds ≠ [])
  (hdigits : ∀ c ∈ ds, isAsciiDigit c = true) (hhead : ds.head? ≠ some '0')
  (hvalue : digitsToNat ds = d.digits) (hle : d.digits ≤ 10 ^ 17)
  (htop : top = d.exponent + ds.length - 1)

include hne hdigits hvalue hle htop

/-- A zero, the point, and zeros in front of the digits. -/
theorem isWritten_small (hneg : top < 0) :
    l.IsWritten d ('0' :: '.' :: (List.replicate (top.natAbs - 1) '0' ++ ds)) ['0']
      (List.replicate (top.natAbs - 1) '0' ++ ds) [] 0 := by
  have hfs : List.replicate (top.natAbs - 1) '0' ++ ds ≠ [] :=
    List.append_ne_nil_of_right_ne_nil _ hne
  have hall : digitsToNat (['0'] ++ (List.replicate (top.natAbs - 1) '0' ++ ds)) = d.digits :=
    (digitsToNat_zeros_append 1 _).trans ((digitsToNat_zeros_append _ ds).trans hvalue)
  refine ⟨?_, .zero, ?_, Or.inl ⟨rfl, rfl⟩, Or.inl hfs, ?_, ?_⟩
  · rw [fractionPart, if_neg (by simpa using hfs), List.append_nil]
    rfl
  · intro c hc
    rcases List.mem_append.mp hc with hc | hc
    · rw [List.eq_of_mem_replicate hc]
      rfl
    · exact hdigits c hc
  · rw [hall]
    omega
  · rw [hall]
    refine size_eq ?_
    rw [List.length_append, List.length_replicate]
    omega

include hhead

omit hle in
/-- The digits, zeros behind them up to the point, and a zero. -/
theorem isWritten_whole (hlt : d.digits < 10 ^ ds.length) {k : Nat}
    (hk : ds.length + k = top.toNat + 1) (hnonneg : 0 ≤ top) (hend : top < 16) :
    l.IsWritten d (ds ++ List.replicate k '0' ++ ['.', '0']) (ds ++ List.replicate k '0') ['0']
      [] 0 := by
  have hpadded : ∀ c ∈ ds ++ List.replicate k '0', isAsciiDigit c = true := by
    intro c hc
    rcases List.mem_append.mp hc with hc | hc
    · exact hdigits c hc
    · rw [List.eq_of_mem_replicate hc]
      rfl
  -- The point does not count, so all digits together are the digits with one zero more behind them.
  have hall : digitsToNat (ds ++ List.replicate k '0' ++ ['0']) = d.digits * 10 ^ (k + 1) := by
    rw [List.append_assoc, ← hvalue]
    exact (congrArg _ (congrArg _ List.replicate_succ'.symm)).trans
      (digitsToNat_append_zeros ds (k + 1))
  refine ⟨rfl, isWholePart_of_head (List.append_ne_nil_of_left_ne_nil hne _) hpadded ?_, ?_,
    Or.inl ⟨rfl, rfl⟩, Or.inl (by simp), ?_, ?_⟩
  · rwa [List.head?_append_of_ne_nil _ hne]
  · simp [isAsciiDigit]
  · have hpow : 10 ^ ds.length * 10 ^ (k + 1) ≤ 10 ^ 17 := by
      rw [← pow_add]
      exact Nat.pow_le_pow_right (by norm_num) (by omega)
    have hmul := Nat.mul_lt_mul_of_pos_right hlt (Nat.pow_pos (n := k + 1) (by norm_num : 0 < 10))
    rw [hall]
    omega
  · have hlength := List.length_pos_iff.mpr hne
    have hexponent : d.exponent = (k + 1 : Nat) + (0 - (['0'].length : Nat)) := by
      simp only [List.length_singleton]
      omega
    rw [hall]
    unfold Decimal.size
    dsimp only
    rw [hexponent, zpow_add₀ (by norm_num) ((k + 1 : Nat) : Int), zpow_natCast]
    push_cast
    ring

omit hne in
/-- The digits with the point among them. -/
theorem isWritten_split (hnonneg : 0 ≤ top) (hlong : top.toNat + 1 < ds.length) :
    l.IsWritten d (ds.take (top.toNat + 1) ++ '.' :: ds.drop (top.toNat + 1))
      (ds.take (top.toNat + 1)) (ds.drop (top.toNat + 1)) [] 0 := by
  have hrest : ds.drop (top.toNat + 1) ≠ [] := by
    rw [← List.length_pos_iff, List.length_drop]
    omega
  have hall : digitsToNat (ds.take (top.toNat + 1) ++ ds.drop (top.toNat + 1)) = d.digits := by
    rw [List.take_append_drop, hvalue]
  refine ⟨?_, isWholePart_of_head ?_ ?_ ?_, ?_, Or.inl ⟨rfl, rfl⟩, Or.inl hrest, ?_, ?_⟩
  · rw [fractionPart, if_neg (by simpa using hrest), List.append_nil]
  · rw [← List.length_pos_iff, List.length_take]
    omega
  · exact fun c hc => hdigits c (List.mem_of_mem_take hc)
  · rwa [List.head?_take, if_neg (by omega)]
  · exact fun c hc => hdigits c (List.mem_of_mem_drop hc)
  · rw [hall]
    omega
  · rw [hall]
    refine size_eq ?_
    rw [List.length_drop]
    omega

/-- The digits with the point behind them or among them. -/
theorem isWritten_positional (hlt : d.digits < 10 ^ ds.length) (hnonneg : 0 ≤ top)
    (hend : top < 16) :
    let padded := ds ++ List.replicate (top.toNat + 1 - ds.length) '0'
    let rest := padded.drop (top.toNat + 1)
    l.IsWritten d (padded.take (top.toNat + 1) ++ '.' :: (if rest.isEmpty then ['0'] else rest))
      (padded.take (top.toNat + 1)) (if rest.isEmpty then ['0'] else rest) [] 0 := by
  intro padded rest
  -- Few digits are padded up to the point, and of many some come behind it.
  rcases le_or_gt ds.length (top.toNat + 1) with hshort | hlong
  · have hlength : padded.length = top.toNat + 1 := by
      rw [List.length_append, List.length_replicate]
      omega
    have hrest : rest = [] := List.drop_of_length_le hlength.le
    rw [hrest, List.take_of_length_le hlength.le]
    exact isWritten_whole hne hdigits hhead hvalue htop hlt (by omega) hnonneg hend
  · have hpadded : padded = ds := by
      show ds ++ List.replicate (top.toNat + 1 - ds.length) '0' = ds
      rw [Nat.sub_eq_zero_of_le hlong.le]
      exact List.append_nil ds
    have hrest : rest = ds.drop (top.toNat + 1) := congrArg _ hpadded
    have hsome : rest.isEmpty = false := by
      rw [hrest, List.isEmpty_eq_false_iff, ← List.length_pos_iff, List.length_drop]
      omega
    rw [hsome, hpadded, hrest]
    exact isWritten_split hdigits hhead hvalue hle htop hnonneg hlong

/-- One digit, the point, the other digits and an exponent. -/
theorem isWritten_exponent :
    ∃ whole fs, l.IsWritten d
      (match ds with
        | [] => []
        | [c] => c :: l.exponentPart top
        | c :: rest => c :: '.' :: rest ++ l.exponentPart top)
      whole fs (l.exponentPart top) top := by
  obtain ⟨c, fs, rfl⟩ := List.exists_cons_of_ne_nil hne
  refine ⟨[c], fs, ?_, ?_, ?_, Or.inr rfl, Or.inr nofun, ?_, ?_⟩
  · cases fs <;> rfl
  · refine isWholePart_of_head (by simp) (fun d hd => ?_) hhead
    rw [List.mem_singleton.mp hd]
    exact hdigits c List.mem_cons_self
  · exact fun d hd => hdigits d (List.mem_cons_of_mem c hd)
  · show digitsToNat (c :: fs) < 2 ^ 64
    omega
  · show (⟨digitsToNat (c :: fs), _⟩ : Decimal).size = _
    rw [hvalue]
    refine size_eq ?_
    rw [List.length_cons] at htop
    omega

end Layouts

theorem exists_isWritten (l : FloatLayout) (hpos : 0 < d.digits) (hle : d.digits ≤ 10 ^ 17)
    (hend : l.endPositional ≤ 16) :
    ∃ whole fs part e, l.IsWritten d (l.decimal d) whole fs part e := by
  have hdigits := isAsciiDigit_toDigits d.digits
  have hhead := head?_toDigits_ne_zero hpos
  have hvalue := digitsToNat_toDigits d.digits
  have hne : Nat.toDigits 10 d.digits ≠ [] := Nat.toDigits_ne_nil
  have hlt : d.digits < 10 ^ (Nat.toDigits 10 d.digits).length :=
    (Nat.length_toDigits_le_iff (by norm_num) Nat.length_toDigits_pos).mp le_rfl
  unfold decimal digitsOf
  dsimp only
  generalize Nat.toDigits 10 d.digits = ds at *
  split
  · rename_i htop
    split
    · rename_i hneg
      exact ⟨_, _, _, _, isWritten_small hne hdigits hvalue hle rfl hneg⟩
    · exact ⟨_, _, _, _, isWritten_positional hne hdigits hhead hvalue hle rfl hlt (by omega)
        (by omega)⟩
  · obtain ⟨whole, fs, h⟩ := isWritten_exponent (l := l) hne hdigits hhead hvalue hle rfl
    exact ⟨_, _, _, _, h⟩

end FloatLayout

namespace Json

variable {b : Binary} {rest : List Char}

/-- A number is read from its shortest decimal. -/
theorem readNumber_decimal (negative : Bool) (hb : b.Canonical) (hrest : Delimited rest) :
    readNumber negative (jsonFloats.decimal (Decimal.shortest b) ++ rest) =
      .ok (.float (b.toFloat negative hb.mantissa_pos), rest) := by
  obtain ⟨hholds, hle⟩ := Decimal.shortest_spec hb
  obtain ⟨whole, fs, part, e, h⟩ := jsonFloats.exists_isWritten
    (Decimal.digits_pos_of_holds hb hholds) hle le_rfl
  have hread := Decimal.toFloat_eq hb (by rwa [h.same_size]) h.short
  rw [h.chars, List.append_assoc, List.append_assoc, readNumber_parts negative h.whole_part
    h.fraction_digits h.exponent_part h.floating hrest, floatOf, hread]
  cases negative with
  | false => rfl
  | true => rw [if_pos rfl, hb.neg_toFloat, Bool.not_false]

end Json

end CommandShell
