import CommandShell.Proofs.Line.Numeral
import CommandShell.Proofs.Text.Trim
import CommandShell.Value.Json.Writer
import Mathlib.Tactic.Ring

/-!
# Numbers in JSON texts

A number is a whole part, a fraction or none, and an exponent or none, each of which is read up to
the first character that cannot belong to it.

## Main definitions

* `Json.IsWholePart`: a single zero, or digits that do not start with one.
* `Json.Delimited`: what may follow a value.

## Main results

* `Json.readNumber_whole`: whole numbers are read as they are written.
* `Json.readNumber_parts`: how the parts of a floating-point number are read.
-/

namespace CommandShell

namespace Json

open Chars

/-- The whole part of a number: a single zero, or digits that do not start with one. -/
inductive IsWholePart : List Char → Prop
  | zero : IsWholePart ['0']
  | digits {c : Char} {ds : List Char} : c ≠ '0' → (∀ d ∈ c :: ds, isAsciiDigit d = true) →
    IsWholePart (c :: ds)

/-- What may follow a value: nothing, a mark after an entry, or the end of its line. -/
def Delimited (rest : List Char) : Prop :=
  ∀ c ∈ rest.head?, c = ',' ∨ c = ']' ∨ c = '\x7d' ∨ c = '\n'

/-- A fraction with its point, or nothing. -/
def fractionPart (fs : List Char) : List Char :=
  if fs.isEmpty then [] else '.' :: fs

variable {whole fs part ds rest : List Char} {c : Char} {e : Int}

theorem Delimited.not_digit (h : Delimited rest) : ∀ c ∈ rest.head?, isAsciiDigit c = false := by
  intro c hc
  rcases h c hc with rfl | rfl | rfl | rfl <;> rfl

theorem Delimited.ne (h : Delimited rest) :
    ∀ c ∈ rest.head?, c ≠ '.' ∧ c ≠ 'e' ∧ c ≠ 'E' := by
  intro c hc
  rcases h c hc with rfl | rfl | rfl | rfl <;> decide

theorem isAsciiDigit_toDigits (n : Nat) : ∀ c ∈ Nat.toDigits 10 n, isAsciiDigit c = true := by
  intro c hc
  have hdigit := Nat.isDigit_of_mem_toDigits (by decide) (by decide) hc
  unfold Char.isDigit at hdigit
  rw [Bool.and_eq_true, decide_eq_true_iff, decide_eq_true_iff] at hdigit
  exact decide_eq_true hdigit

/-- The digits of a positive number do not start with a zero. -/
theorem head?_toDigits_ne_zero {n : Nat} (h : 0 < n) : (Nat.toDigits 10 n).head? ≠ some '0' := by
  induction n using Nat.strong_induction_on with
  | _ n ih =>
    by_cases hlt : n < 10
    · rw [Nat.toDigits_of_lt_base hlt]
      have hall : ∀ m < 10, 0 < m → [m.digitChar].head? ≠ some '0' := by decide
      exact hall n hlt h
    · rw [Nat.toDigits_of_base_le (by decide) (by omega),
        List.head?_append_of_ne_nil _ Nat.toDigits_ne_nil]
      exact ih (n / 10) (by omega) (by omega)

theorem isWholePart_of_head {ds : List Char} (hne : ds ≠ [])
    (hds : ∀ d ∈ ds, isAsciiDigit d = true) (hhead : ds.head? ≠ some '0') : IsWholePart ds := by
  obtain ⟨c, ds, rfl⟩ := List.exists_cons_of_ne_nil hne
  exact .digits (fun h => hhead (congrArg some h)) hds

theorem digitsToNat_append (ds fs : List Char) :
    digitsToNat (ds ++ fs) = fs.foldl (fun n c => 10 * n + (digitValue? c).getD 0)
      (digitsToNat ds) :=
  List.foldl_append

theorem digitsToNat_zeros (k : Nat) : digitsToNat (List.replicate k '0') = 0 := by
  induction k with
  | zero => rfl
  | succ k ih =>
    rw [List.replicate_succ', digitsToNat_append, ih]
    rfl

/-- Zeros in front of digits do not count. -/
theorem digitsToNat_zeros_append (k : Nat) (ds : List Char) :
    digitsToNat (List.replicate k '0' ++ ds) = digitsToNat ds := by
  rw [digitsToNat_append, digitsToNat_zeros]
  rfl

/-- Zeros behind digits multiply them. -/
theorem digitsToNat_append_zeros (ds : List Char) (k : Nat) :
    digitsToNat (ds ++ List.replicate k '0') = digitsToNat ds * 10 ^ k := by
  induction k with
  | zero => simp
  | succ k ih =>
    rw [List.replicate_succ', ← List.append_assoc, digitsToNat_append, ih, Nat.pow_succ]
    show 10 * (digitsToNat ds * 10 ^ k) + 0 = _
    ring

/-! ## Parts -/

theorem readWhole_of_isWholePart (h : IsWholePart whole)
    (hrest : ∀ c ∈ rest.head?, isAsciiDigit c = false) :
    readWhole (whole ++ rest) = some (whole, rest) := by
  cases h with
  | zero => rfl
  | @digits c ds hc hds =>
    obtain ⟨htake, hdrop⟩ := scan_append (fun d hd => hds d (List.mem_cons_of_mem c hd)) hrest
    rw [List.cons_append]
    unfold readWhole
    split
    · rename_i heq
      exact absurd (List.cons.inj heq).1 hc
    · rename_i heq
      obtain ⟨rfl, rfl⟩ := List.cons.inj heq
      rw [if_pos (hds _ List.mem_cons_self), htake, hdrop]
    · rename_i heq
      cases heq

theorem readFraction_fractionPart (hfs : ∀ c ∈ fs, isAsciiDigit c = true)
    (hrest : ∀ c ∈ rest.head?, isAsciiDigit c = false ∧ c ≠ '.') :
    readFraction (fractionPart fs ++ rest) = if fs.isEmpty then none else some (fs, rest) := by
  cases fs with
  | nil =>
    show readFraction rest = none
    unfold readFraction
    split
    · exact absurd rfl (hrest '.' rfl).2
    · rfl
  | cons f fs =>
    obtain ⟨htake, hdrop⟩ := scan_append (fun d hd => hfs d (List.mem_cons_of_mem f hd))
      fun c hc => (hrest c hc).1
    show readFraction ('.' :: f :: (fs ++ rest)) = some (f :: fs, rest)
    simp [readFraction, hfs f List.mem_cons_self, htake, hdrop]

theorem readExponent_of_head (h : ∀ c ∈ rest.head?, c ≠ 'e' ∧ c ≠ 'E') :
    readExponent rest = none := by
  cases rest with
  | nil => rfl
  | cons c rest =>
    obtain ⟨he, hE⟩ := h c rfl
    unfold readExponent
    dsimp only
    rw [if_neg (by simp [he, hE])]

/-- The exponent that is written is read. -/
theorem readExponent_exponentPart (l : FloatLayout) (e : Int)
    (hrest : ∀ c ∈ rest.head?, isAsciiDigit c = false) :
    readExponent (l.exponentPart e ++ rest) = some (e, rest) := by
  have hdigits : ∀ k, ∀ c ∈ List.replicate k '0' ++ Nat.toDigits 10 e.natAbs,
      isAsciiDigit c = true := by
    intro k c hc
    rcases List.mem_append.mp hc with hc | hc
    · rw [List.eq_of_mem_replicate hc]
      rfl
    · exact isAsciiDigit_toDigits _ c hc
  unfold FloatLayout.exponentPart FloatLayout.digitsOf
  dsimp only
  -- The zeros in front fill up the width, and count nothing.
  generalize l.exponentWidth - (Nat.toDigits 10 e.natAbs).length = k
  obtain ⟨htake, hdrop⟩ := scan_append (hdigits k) hrest
  have hvalue := digitsToNat_zeros_append k (Nat.toDigits 10 e.natAbs)
  rw [digitsToNat_toDigits] at hvalue
  have hne : (List.replicate k '0' ++ Nat.toDigits 10 e.natAbs).isEmpty = false := by
    rw [List.isEmpty_eq_false_iff]
    exact List.append_ne_nil_of_right_ne_nil _ Nat.toDigits_ne_nil
  generalize List.replicate k '0' ++ Nat.toDigits 10 e.natAbs = ds at *
  generalize hn : e.natAbs = n at *
  by_cases hneg : e < 0
  · rw [if_pos hneg]
    have hexponent : -(n : Int) = e := by omega
    simp [readExponent, htake, hdrop, hne, hvalue, hexponent]
  · rw [if_neg hneg]
    have hexponent : (n : Int) = e := by omega
    simp [readExponent, htake, hdrop, hne, hvalue, hexponent]

/-! ## Numbers -/

/-- A whole number that is not too long is read as it is. -/
theorem readNumber_whole (negative : Bool) {n : Nat} (hrest : Delimited rest)
    (hlength : (Nat.toDigits 10 n).length ≤ maxDigits) :
    readNumber negative (Nat.toDigits 10 n ++ rest) =
      .ok (.int (if negative then -n else n), rest) := by
  have hwhole : IsWholePart (Nat.toDigits 10 n) := by
    rcases Nat.eq_zero_or_pos n with rfl | hn
    · exact .zero
    · exact isWholePart_of_head Nat.toDigits_ne_nil (isAsciiDigit_toDigits n)
        (head?_toDigits_ne_zero hn)
  have hfraction : readFraction (fractionPart [] ++ rest) = none :=
    readFraction_fractionPart (by simp) fun c hc => ⟨hrest.not_digit c hc, (hrest.ne c hc).1⟩
  rw [show fractionPart [] ++ rest = rest from rfl] at hfraction
  have hexponent := readExponent_of_head fun c hc => (hrest.ne c hc).2
  have hlong : ¬maxDigits < (Nat.toDigits 10 n).length := by omega
  simp [readNumber, readWhole_of_isWholePart hwhole hrest.not_digit, hfraction, hexponent, hlong,
    digitsToNat_toDigits]

/-- The parts of a floating-point number are read. -/
theorem readNumber_parts (negative : Bool) {l : FloatLayout} (hwhole : IsWholePart whole)
    (hfs : ∀ c ∈ fs, isAsciiDigit c = true)
    (hpart : part = [] ∧ e = 0 ∨ part = l.exponentPart e) (hfloat : fs ≠ [] ∨ part ≠ [])
    (hrest : Delimited rest) :
    readNumber negative (whole ++ (fractionPart fs ++ (part ++ rest))) =
      .ok (.float (if negative then -floatOf whole fs e else floatOf whole fs e), rest) := by
  -- What follows the digits of each part goes on with none.
  have hafter : ∀ c ∈ (part ++ rest).head?, isAsciiDigit c = false ∧ c ≠ '.' := by
    rcases hpart with ⟨rfl, rfl⟩ | rfl
    · exact fun c hc => ⟨hrest.not_digit c hc, (hrest.ne c hc).1⟩
    · rintro c ⟨⟩
      decide
  have hfraction := readFraction_fractionPart hfs hafter
  have hpoint : ∀ c ∈ (fractionPart fs ++ (part ++ rest)).head?, isAsciiDigit c = false := by
    cases fs with
    | nil => exact fun c hc => (hafter c hc).1
    | cons f fs =>
      rintro c ⟨⟩
      rfl
  have hexponent : readExponent (part ++ rest) = if part.isEmpty then none else some (e, rest) := by
    rcases hpart with ⟨rfl, rfl⟩ | rfl
    · exact readExponent_of_head fun c hc => (hrest.ne c hc).2
    · exact readExponent_exponentPart l e hrest.not_digit
  have hread := readWhole_of_isWholePart hwhole hpoint
  by_cases hfs : fs = []
  · have hnone : part.isEmpty = false := by simpa [hfs] using hfloat
    rw [hnone, if_neg Bool.false_ne_true] at hexponent
    subst hfs
    simp only [fractionPart, List.isEmpty_nil, if_true, List.nil_append] at hread hfraction ⊢
    simp [readNumber, hread, hfraction, hexponent]
  · have hnone : fs.isEmpty = false := List.isEmpty_eq_false_iff.mpr hfs
    rw [hnone, if_neg Bool.false_ne_true] at hfraction
    by_cases hpart' : part = []
    · obtain ⟨rfl, rfl⟩ : part = [] ∧ e = 0 := hpart.resolve_right (by rw [hpart']; nofun)
      rw [List.nil_append] at hread hfraction hexponent ⊢
      simp [readNumber, hread, hfraction, hexponent]
    · have hsome : part.isEmpty = false := List.isEmpty_eq_false_iff.mpr hpart'
      rw [hsome, if_neg Bool.false_ne_true] at hexponent
      simp [readNumber, hread, hfraction, hexponent]

end Json

end CommandShell
