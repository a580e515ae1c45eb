import CommandShell.Line.Number
import CommandShell.Proofs.Text.Trim
import Mathlib.Data.List.Basic
import Mathlib.Data.List.TakeWhile

/-!
# Which texts are numbers

The form of a number as a grammar: an optional sign, digits with at most one point among or around
them, an optional exponent, and at most one line feed at the end.  A text is read as a number just
where it has this form, and whole numbers are read as they are written.

## Main definitions

* `NumberLike`: the texts that have the form of a number.

## Main results

* `isSome_number?_iff`: the texts that are read as numbers.
* `number?_toString`: a whole number is read as it is written.
-/

namespace CommandShell

namespace Chars

/-- No sign or one. -/
def IsSign (cs : List Char) : Prop :=
  cs = [] ∨ cs = ['+'] ∨ cs = ['-']

/-- Digits of any script and nothing else. -/
def AllDigits (cs : List Char) : Prop :=
  ∀ c ∈ cs, isDigit c = true

/-- Digits with at most one point among or around them. -/
inductive IsMantissa : List Char → Prop
  | whole {ds : List Char} : ds ≠ [] → AllDigits ds → IsMantissa ds
  | point {ds fs : List Char} : ds ≠ [] ∨ fs ≠ [] → AllDigits ds → AllDigits fs →
    IsMantissa (ds ++ '.' :: fs)

/-- No exponent or one: a letter, an optional sign and digits. -/
inductive IsExponent : List Char → Prop
  | none : IsExponent []
  | some {e : Char} {sign ds : List Char} : e = 'e' ∨ e = 'E' → IsSign sign → ds ≠ [] →
    AllDigits ds → IsExponent (e :: (sign ++ ds))

end Chars

/-- The texts that have the form of a number: a sign, digits with a point, an exponent and a line
feed, of which only the digits are required. -/
def NumberLike (s : String) : Prop :=
  ∃ sign mantissa exponent feed : List Char, s.toList = sign ++ (mantissa ++ exponent) ++ feed ∧
    Chars.IsSign sign ∧ Chars.IsMantissa mantissa ∧ Chars.IsExponent exponent ∧
    (feed = [] ∨ feed = ['\n'])

namespace Chars

variable {c : Char} {cs ds fs sign rest : List Char}

/-! ### Digits -/

theorem AllDigits.not_sign (h : AllDigits ds) : ∀ c ∈ ds.head?, c ≠ '+' ∧ c ≠ '-' := by
  intro c hc
  have hdigit := h c (List.mem_of_mem_head? hc)
  constructor <;> (rintro rfl; exact absurd hdigit (by decide))

theorem allDigits_takeWhile (cs : List Char) : AllDigits (cs.takeWhile isDigit) :=
  fun _ hc => List.mem_takeWhile_imp hc

/-! ### Signs and exponents -/

theorem exists_sign (cs : List Char) : ∃ sign, IsSign sign ∧ cs = sign ++ (readSign cs).2 := by
  unfold readSign
  split
  · exact ⟨['-'], Or.inr (Or.inr rfl), rfl⟩
  · exact ⟨['+'], Or.inr (Or.inl rfl), rfl⟩
  · exact ⟨[], Or.inl rfl, rfl⟩

theorem readSign_of_head (h : ∀ c ∈ rest.head?, c ≠ '+' ∧ c ≠ '-') :
    readSign rest = (false, rest) := by
  unfold readSign
  split
  · exact absurd rfl (h '-' rfl).2
  · exact absurd rfl (h '+' rfl).1
  · rfl

theorem readSign_sign (h : IsSign sign) (hrest : ∀ c ∈ rest.head?, c ≠ '+' ∧ c ≠ '-') :
    (readSign (sign ++ rest)).2 = rest := by
  rcases h with rfl | rfl | rfl
  · rw [List.nil_append, readSign_of_head hrest]
  · rfl
  · rfl

theorem isSome_wholeExponent?_iff : (wholeExponent? cs).isSome = true ↔ IsExponent cs := by
  cases cs with
  | nil => exact ⟨fun _ => .none, fun _ => rfl⟩
  | cons e rest =>
    have hform : (wholeExponent? (e :: rest)).isSome = true ↔
        (e = 'e' ∨ e = 'E') ∧ (readSign rest).2 ≠ [] ∧ AllDigits (readSign rest).2 := by
      unfold wholeExponent? AllDigits
      dsimp only
      split <;> simp_all
    rw [hform]
    constructor
    · rintro ⟨he, hne, hall⟩
      obtain ⟨sign, hsign, hrest⟩ := exists_sign rest
      rw [hrest]
      exact .some he hsign hne hall
    · intro h
      cases h with
      | some he hsign hne hall =>
        rw [readSign_sign hsign hall.not_sign]
        exact ⟨he, hne, hall⟩

theorem IsExponent.not_digit (h : IsExponent cs) : ∀ c ∈ cs.head?, isDigit c = false := by
  intro c hc
  cases h with
  | none => cases hc
  | some he =>
    cases hc
    rcases he with rfl | rfl <;> decide

theorem IsExponent.not_point (h : IsExponent cs) : cs.head? ≠ Option.some '.' := by
  cases h with
  | none => simp
  | some he => rcases he with rfl | rfl <;> simp

/-! ### Numbers -/

/-- Digits that are followed by a point are a number with what follows the point. -/
theorem isSome_unsignedNumber?_point (negative : Bool) (hds : AllDigits ds) :
    (unsignedNumber? negative (ds ++ '.' :: rest)).isSome = true ↔
      (ds ≠ [] ∨ rest.takeWhile isDigit ≠ []) ∧ IsExponent (rest.dropWhile isDigit) := by
  have hpoint : ∀ c ∈ ('.' :: rest).head?, isDigit c = false := by
    rintro c ⟨⟩
    decide
  obtain ⟨htake, hdrop⟩ := scan_append hds hpoint
  unfold unsignedNumber?
  rw [htake, hdrop]
  by_cases hnone : (ds.isEmpty && (rest.takeWhile isDigit).isEmpty) = true
  · simp only [if_pos hnone]
    rw [Bool.and_eq_true, List.isEmpty_iff, List.isEmpty_iff] at hnone
    simp [hnone]
  · simp only [if_neg hnone, Option.isSome_map, isSome_wholeExponent?_iff]
    rw [Bool.and_eq_true, List.isEmpty_iff, List.isEmpty_iff, not_and_or] at hnone
    exact (and_iff_right hnone).symm

/-- Digits that no point follows are a number with what follows them. -/
theorem isSome_unsignedNumber?_whole (negative : Bool) (hds : AllDigits ds)
    (hrest : ∀ c ∈ rest.head?, isDigit c = false) (hpoint : rest.head? ≠ some '.') :
    (unsignedNumber? negative (ds ++ rest)).isSome = true ↔ ds ≠ [] ∧ IsExponent rest := by
  obtain ⟨htake, hdrop⟩ := scan_append hds hrest
  unfold unsignedNumber?
  rw [htake, hdrop]
  dsimp only
  split
  · exact absurd rfl hpoint
  · split
    · simp_all
    · split <;> simp_all [IsExponent.none]
  · split
    · simp_all
    · rw [Option.isSome_map, isSome_wholeExponent?_iff]
      simp_all

theorem isSome_unsignedNumber?_iff (negative : Bool) :
    (unsignedNumber? negative cs).isSome = true ↔
      ∃ mantissa exponent, cs = mantissa ++ exponent ∧ IsMantissa mantissa ∧
        IsExponent exponent := by
  constructor
  · intro h
    -- The digits at the start, and what the first character behind them is.
    have hcs : cs = cs.takeWhile isDigit ++ cs.dropWhile isDigit :=
      List.takeWhile_append_dropWhile.symm
    have hds := allDigits_takeWhile cs
    have hrest : ∀ c ∈ (cs.dropWhile isDigit).head?, isDigit c = false := head_dropWhile
    generalize cs.takeWhile isDigit = ds at hcs hds
    generalize cs.dropWhile isDigit = rest at hcs hrest
    subst hcs
    by_cases hpoint : rest.head? = some '.'
    · obtain ⟨rest, rfl⟩ := List.head?_eq_some_iff.mp hpoint
      obtain ⟨hne, hexponent⟩ := (isSome_unsignedNumber?_point negative hds).mp h
      refine ⟨ds ++ '.' :: rest.takeWhile isDigit, _, ?_,
        .point hne hds (allDigits_takeWhile rest), hexponent⟩
      rw [List.append_assoc, List.cons_append, List.takeWhile_append_dropWhile]
    · obtain ⟨hne, hexponent⟩ := (isSome_unsignedNumber?_whole negative hds hrest hpoint).mp h
      exact ⟨ds, rest, rfl, .whole hne hds, hexponent⟩
  · rintro ⟨mantissa, exponent, rfl, hmantissa, hexponent⟩
    cases hmantissa with
    | whole hne hds =>
      have hwhole := isSome_unsignedNumber?_whole negative hds hexponent.not_digit
        hexponent.not_point
      exact hwhole.mpr ⟨hne, hexponent⟩
    | @point ds fs hne hds hfs =>
      obtain ⟨htake, hdrop⟩ := scan_append hfs hexponent.not_digit
      rw [List.append_assoc, List.cons_append, isSome_unsignedNumber?_point negative hds, htake,
        hdrop]
      exact ⟨hne, hexponent⟩

/-! ### The line feed and the sign -/

theorem dropLineFeed_cases (cs : List Char) :
    ∃ feed, (feed = [] ∨ feed = ['\n']) ∧ cs = dropLineFeed cs ++ feed := by
  unfold dropLineFeed
  split
  · rename_i hlast
    refine ⟨['\n'], Or.inr rfl, ?_⟩
    exact (List.dropLast_append_getLast? '\n' hlast).symm
  · exact ⟨[], Or.inl rfl, (List.append_nil cs).symm⟩

theorem dropLineFeed_append (h : '\n' ∉ cs) {feed : List Char} (hfeed : feed = [] ∨ feed = ['\n']) :
    dropLineFeed (cs ++ feed) = cs := by
  unfold dropLineFeed
  rcases hfeed with rfl | rfl
  · rw [List.append_nil, if_neg fun hlast => h (List.mem_of_getLast? hlast)]
  · simp

theorem AllDigits.lineFeed_notMem (h : AllDigits ds) : '\n' ∉ ds := by
  intro hmem
  have hdigit := h '\n' hmem
  exact absurd hdigit (by decide)

theorem IsSign.lineFeed_notMem (h : IsSign sign) : '\n' ∉ sign := by
  rcases h with rfl | rfl | rfl <;> decide

theorem IsMantissa.lineFeed_notMem (h : IsMantissa cs) : '\n' ∉ cs := by
  cases h with
  | whole _ hds => exact hds.lineFeed_notMem
  | point _ hds hfs => simp [hds.lineFeed_notMem, hfs.lineFeed_notMem]

theorem IsExponent.lineFeed_notMem (h : IsExponent cs) : '\n' ∉ cs := by
  cases h with
  | none => simp
  | some he hsign _ hds =>
    rcases he with rfl | rfl <;> simp [hsign.lineFeed_notMem, hds.lineFeed_notMem]

/-- A mantissa starts with a digit or a point. -/
theorem IsMantissa.not_sign (h : IsMantissa cs) :
    ∀ c ∈ (cs ++ rest).head?, c ≠ '+' ∧ c ≠ '-' := by
  have hdigits : ∀ ds : List Char, ds ≠ [] → AllDigits ds → ∀ rest,
      ∀ c ∈ (ds ++ rest).head?, c ≠ '+' ∧ c ≠ '-' := by
    intro ds hne hds rest c hc
    obtain ⟨d, ds', rfl⟩ := List.exists_cons_of_ne_nil hne
    exact hds.not_sign c hc
  cases h with
  | whole hne hds => exact hdigits _ hne hds rest
  | @point ds fs _ hds _ =>
    rw [List.append_assoc]
    by_cases hnil : ds = []
    · subst hnil
      rintro c ⟨⟩
      decide
    · exact hdigits ds hnil hds _

end Chars

open Chars in
/-- A text is read as a number just where it has the form of one. -/
theorem isSome_number?_iff (s : String) : (number? s).isSome = true ↔ NumberLike s := by
  unfold number?
  dsimp only
  rw [isSome_unsignedNumber?_iff]
  constructor
  · rintro ⟨mantissa, exponent, hrest, hmantissa, hexponent⟩
    obtain ⟨feed, hfeed, hs⟩ := dropLineFeed_cases s.toList
    obtain ⟨sign, hsign, hcs⟩ := exists_sign (dropLineFeed s.toList)
    rw [hrest] at hcs
    rw [hcs] at hs
    exact ⟨sign, mantissa, exponent, feed, hs, hsign, hmantissa, hexponent, hfeed⟩
  · rintro ⟨sign, mantissa, exponent, feed, hs, hsign, hmantissa, hexponent, hfeed⟩
    have hfree : '\n' ∉ sign ++ (mantissa ++ exponent) := by
      simp [hsign.lineFeed_notMem, hmantissa.lineFeed_notMem, hexponent.lineFeed_notMem]
    rw [hs, dropLineFeed_append hfree hfeed, readSign_sign hsign hmantissa.not_sign]
    exact ⟨mantissa, exponent, rfl, hmantissa, hexponent⟩

/-! ### Whole numbers -/

namespace Chars

theorem digitValue?_of_isDigit (h : c.isDigit = true) :
    digitValue? c = some (c.toNat - '0'.toNat) := by
  simp only [Char.isDigit, Bool.and_eq_true, decide_eq_true_eq] at h
  have hlt : c.toNat < 0x80 := by
    have hle : c.toNat ≤ '9'.toNat := h.2
    exact Nat.lt_of_le_of_lt hle (by decide)
  unfold digitValue?
  rw [if_pos hlt, if_pos ⟨h.1, h.2⟩]

theorem digitValue?_toDigits (n : Nat) :
    ∀ c ∈ Nat.toDigits 10 n, digitValue? c = some (c.toNat - '0'.toNat) :=
  fun _ hc => digitValue?_of_isDigit (Nat.isDigit_of_mem_toDigits (by decide) (by decide) hc)

theorem allDigits_toDigits (n : Nat) : AllDigits (Nat.toDigits 10 n) := by
  intro c hc
  unfold isDigit
  rw [digitValue?_toDigits n c hc]
  rfl

theorem digitsToNat_toDigits (n : Nat) : digitsToNat (Nat.toDigits 10 n) = n := by
  have hfold : digitsToNat (Nat.toDigits 10 n) = Nat.ofDigitChars 10 (Nat.toDigits 10 n) 0 := by
    refine List.foldl_ext _ _ _ fun m c hc => ?_
    rw [digitValue?_toDigits n c hc]
    rfl
  rw [hfold, Nat.ofDigitChars_toDigits (by decide) (by decide)]

theorem unsignedNumber?_toDigits (negative : Bool) {n : Nat}
    (h : (Nat.toDigits 10 n).length ≤ maxDigits) :
    unsignedNumber? negative (Nat.toDigits 10 n) = some (.int (if negative then -n else n)) := by
  have hend : ∀ c ∈ ([] : List Char).head?, isDigit c = false := by simp
  obtain ⟨htake, hdrop⟩ := scan_append (allDigits_toDigits n) hend
  rw [List.append_nil] at htake hdrop
  have hne : (Nat.toDigits 10 n).isEmpty = false :=
    List.isEmpty_eq_false_iff.mpr Nat.toDigits_ne_nil
  unfold unsignedNumber?
  rw [htake, hdrop]
  dsimp only
  rw [hne, if_neg (by simp), if_neg (by omega), digitsToNat_toDigits]

/-- A whole number is written with a minus if it is negative, and the digits of its size. -/
theorem toList_toString (n : Int) :
    (toString n).toList = (if n < 0 then ['-'] else []) ++ Nat.toDigits 10 n.natAbs := by
  cases n with
  | ofNat n =>
    have htext : (toString (Int.ofNat n)).toList = Nat.toDigits 10 n := Nat.toList_repr
    rw [htext, if_neg (by simp)]
    rfl
  | negSucc n =>
    have htext : (toString (Int.negSucc n)).toList = ("-" ++ (n + 1).repr).toList := rfl
    rw [htext, String.toList_append, Nat.toList_repr, if_pos (Int.negSucc_lt_zero n)]
    rfl

end Chars

open Chars in
/-- A whole number that is written with at most as many digits as are read is read back. -/
theorem number?_toString (n : Int) (h : (toString n.natAbs).length ≤ maxDigits) :
    number? (toString n) = some (.int n) := by
  have hlength : (Nat.toDigits 10 n.natAbs).length ≤ maxDigits := by
    rw [← Nat.toList_repr, String.length_toList]
    exact h
  have hdigits := allDigits_toDigits n.natAbs
  have hfree : '\n' ∉ (toString n).toList := by
    rw [toList_toString]
    split <;> simp [hdigits.lineFeed_notMem]
  have hfeed := dropLineFeed_append hfree (Or.inl rfl)
  rw [List.append_nil] at hfeed
  unfold number?
  rw [hfeed, toList_toString]
  -- The sign is written apart from the digits, which are those of the size.
  by_cases hn : n < 0
  · rw [if_pos hn]
    have habs : -(n.natAbs : Int) = n := by omega
    refine (unsignedNumber?_toDigits true hlength).trans ?_
    rw [if_pos rfl, habs]
  · rw [if_neg hn, List.nil_append, readSign_of_head hdigits.not_sign]
    have habs : (n.natAbs : Int) = n := by omega
    refine (unsignedNumber?_toDigits false hlength).trans ?_
    rw [if_neg Bool.false_ne_true, habs]

/-- Whether a text has the form of a number is found out by reading it. -/
instance (s : String) : Decidable (NumberLike s) :=
  decidable_of_iff _ (isSome_number?_iff s)

end CommandShell
