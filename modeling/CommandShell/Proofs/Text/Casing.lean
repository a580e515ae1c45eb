import CommandShell.Text.Blank
import CommandShell.Text.Casing
import Mathlib.Data.Nat.ModEq
import Mathlib.Tactic.SplitIfs

/-!
# Texts in lower case

A text in lower case stays as it is when it is put in lower case again: no character that the rules
give has a lower case of its own, and the form of a sigma is decided once.

## Main definitions

* `CaseRow.leadsPast`: no character that one row leads to is covered by another one.
* `Chars.IsLower`: the characters that stay as they are, wherever they stand.

## Main results

* `isLower_mapByRows`: the tables lead to such characters only.
* `lowerCase_lowerCase`: to put a text in lower case twice is to do so once.
* `lowerCase_eq_empty_iff`: no text vanishes.
* `no_blank_lowerCase_iff`: blanks stay blanks, and nothing else becomes one.
-/

namespace CommandShell

/-! ### The tables -/

namespace CaseRow

variable {row other : CaseRow} {n : Nat}

theorem covers_iff :
    row.covers n = true ↔ row.first ≤ n ∧ n ≤ row.last ∧ (n - row.first) % row.step = 0 := by
  simp [covers, and_assoc]

/-- Whether no character that a row leads to is covered by another one: the two runs lie apart, or
their steps never meet. -/
def leadsPast (row other : CaseRow) : Bool :=
  let start := (row.first + row.shift).toNat
  start + (row.last - row.first) < other.first || other.last < start ||
    ((row.first = row.last || row.step % other.step = 0) &&
      start % other.step ≠ other.first % other.step)

theorem covers_of_leadsPast (h : row.leadsPast other = true) (hstart : 0 ≤ row.first + row.shift)
    (hn : row.covers n = true) : other.covers (n + row.shift).toNat = false := by
  obtain ⟨hfirst, hlast, hstep⟩ := covers_iff.mp hn
  obtain ⟨start, hs⟩ := Int.eq_ofNat_of_zero_le hstart
  have himage : (n + row.shift).toNat = start + (n - row.first) := by omega
  unfold leadsPast at h
  simp only [hs, Int.toNat_natCast, Bool.or_eq_true, Bool.and_eq_true,
    decide_eq_true_eq] at h
  rw [himage, ← Bool.not_eq_true, covers_iff]
  rintro ⟨hfirst', hlast', hstep'⟩
  rcases h with (h | h) | ⟨h, hne⟩
  · omega
  · omega
  · -- Both runs would meet in the character, which is whole steps away from the start of each.
    have hmeet : start + (n - row.first) ≡ other.first [MOD other.step] :=
      ((Nat.modEq_iff_dvd' hfirst').mpr (Nat.dvd_of_mod_eq_zero hstep')).symm
    have hdvd : other.step ∣ n - row.first := by
      rcases h with h | h
      · rw [show n - row.first = 0 by omega]
        exact Nat.dvd_zero _
      · exact (Nat.dvd_of_mod_eq_zero h).trans (Nat.dvd_of_mod_eq_zero hstep)
    have hsame : start + (n - row.first) ≡ start [MOD other.step] := by
      unfold Nat.ModEq
      rw [Nat.add_mod, Nat.mod_eq_zero_of_dvd hdvd, Nat.add_zero, Nat.mod_mod]
    exact hne (hsame.symm.trans hmeet)

end CaseRow

/-- The capital with a dot, whose lower case has two characters, as a row of its own. -/
def dottedRow : CaseRow :=
  ⟨0x130, 0x130, 1, 0⟩

/-- The characters that the rows lead to are covered by no row. -/
theorem lowerRows_leadPast {row : CaseRow} (h : row ∈ lowerRows) :
    0 ≤ row.first + row.shift ∧ ∀ other ∈ dottedRow :: lowerRows, row.leadsPast other = true := by
  have htable : lowerRows.all (fun row => 0 ≤ row.first + row.shift &&
      (dottedRow :: lowerRows).all row.leadsPast) = true := by decide +kernel
  have hrow := List.all_eq_true.mp htable row h
  rw [Bool.and_eq_true, decide_eq_true_eq, List.all_eq_true] at hrow
  exact hrow

/-- The codes of the blank characters. -/
def blankCodes : List Nat :=
  [0x09, 0x0A, 0x0B, 0x0C, 0x0D, 0x1C, 0x1D, 0x1E, 0x1F, 0x20, 0x85, 0xA0, 0x1680, 0x2000, 0x2001,
    0x2002, 0x2003, 0x2004, 0x2005, 0x2006, 0x2007, 0x2008, 0x2009, 0x200A, 0x2028, 0x2029, 0x202F,
    0x205F, 0x3000]

theorem isBlank_iff_mem_blankCodes {c : Char} : isBlank c = true ↔ c.toNat ∈ blankCodes := by
  unfold isBlank blankCodes
  simp
  omega

/-- The rows neither cover a blank nor lead to one. -/
theorem lowerRows_not_blank {row : CaseRow} (h : row ∈ lowerRows) {n : Nat} (hn : n ∈ blankCodes) :
    row.covers n = false ∧
      ((n : Int) < row.first + row.shift ∨ (row.last : Int) + row.shift < n) := by
  have htable : lowerRows.all (fun row => blankCodes.all fun n => !row.covers n &&
      ((n : Int) < row.first + row.shift || (row.last : Int) + row.shift < n)) = true := by
    decide +kernel
  have hrow := List.all_eq_true.mp (List.all_eq_true.mp htable row h) n hn
  simpa using hrow

namespace Chars

variable {c d : Char} {cs before after : List Char}

/-! ### Characters in lower case -/

/-- A character that is its own lower case, whatever stands around it. -/
def IsLower (c : Char) : Prop :=
  ∀ before after, lowerAt before c after = [c]

theorem isLower_ascii (h : c.toNat < 0x80) (hc : c.toLower = c) : IsLower c := by
  intro before after
  rw [lowerAt, if_pos h, hc]

/-- What no row covers is its own lower case. -/
theorem isLower_of_uncovered
    (h : ∀ row ∈ dottedRow :: lowerRows, row.covers c.toNat = false) : IsLower c := by
  -- The capitals that the rules treat apart are covered as well.
  have hcapital : ¬ (lowerRows.any (·.covers c.toNat)) = true := by
    simpa using fun row hrow => h row (List.mem_cons_of_mem _ hrow)
  by_cases hascii : c.toNat < 0x80
  · have hall : ∀ n < 0x80, (Char.ofNat n).toLower = Char.ofNat n ∨
        lowerRows.any (·.covers n) = true := by decide +kernel
    have hc := (hall c.toNat hascii).resolve_right hcapital
    rw [Char.ofNat_toNat] at hc
    exact isLower_ascii hascii hc
  · have hsigma : c ≠ 'Σ' := by
      rintro rfl
      exact hcapital (by decide +kernel)
    have hdot : c ≠ 'İ' := by
      rintro rfl
      exact absurd (h dottedRow List.mem_cons_self) (by decide)
    have hnone : lowerRows.find? (·.covers c.toNat) = none := by
      refine List.find?_eq_none.mpr fun row hrow => ?_
      simp [h row (List.mem_cons_of_mem _ hrow)]
    intro before after
    rw [lowerAt, if_neg hascii, if_neg hsigma, if_neg hdot, mapByRows, hnone]

theorem isLower_toLower (h : c.toNat < 0x80) : IsLower c.toLower := by
  have hall : ∀ n < 0x80, (Char.ofNat n).toLower.toNat < 0x80 ∧
      (Char.ofNat n).toLower.toLower = (Char.ofNat n).toLower := by decide +kernel
  obtain ⟨hascii, hc⟩ := hall c.toNat h
  rw [Char.ofNat_toNat] at hascii hc
  exact isLower_ascii hascii hc

/-- The tables lead to characters only that are their own lower case. -/
theorem isLower_mapByRows (hsigma : c ≠ 'Σ') (hdot : c ≠ 'İ') (h : ¬ c.toNat < 0x80) :
    IsLower (mapByRows lowerRows c) := by
  unfold mapByRows
  split
  · rename_i row hrow
    have hcovers := List.find?_some hrow
    obtain ⟨hstart, hpast⟩ := lowerRows_leadPast (List.mem_of_find?_eq_some hrow)
    by_cases hvalid : (c.toNat + row.shift).toNat.isValidChar
    · refine isLower_of_uncovered fun other hother => ?_
      rw [Char.ofNat, dif_pos hvalid]
      exact CaseRow.covers_of_leadsPast (hpast other hother) hstart hcovers
    · rw [Char.ofNat, dif_neg hvalid]
      exact isLower_ascii (by decide) (by decide)
  · rename_i hnone
    intro before after
    rw [lowerAt, if_neg h, if_neg hsigma, if_neg hdot, mapByRows, hnone]

/-- Only characters that are their own lower case stand in a text in lower case. -/
theorem isLower_of_mem_lowerAt (h : d ∈ lowerAt before c after) : IsLower d := by
  have hspecial : ['ς', 'σ', '\u0307'].all (fun d =>
      (dottedRow :: lowerRows).all fun row => !row.covers d.toNat) = true := by decide +kernel
  have hgiven : d ∈ ['ς', 'σ', '\u0307'] → IsLower d := by
    intro hd
    refine isLower_of_uncovered fun row hrow => ?_
    simpa using List.all_eq_true.mp (List.all_eq_true.mp hspecial d hd) row hrow
  unfold lowerAt at h
  -- The cases are those of the rule: plain letters, a sigma at its place, the dotted capital.
  split_ifs at h with hascii hsigma hfinal hdot
  · rw [List.mem_singleton.mp h]
    exact isLower_toLower hascii
  · exact hgiven (by simp [List.mem_singleton.mp h])
  · exact hgiven (by simp [List.mem_singleton.mp h])
  · rcases List.mem_cons.mp h with rfl | h
    · exact isLower_ascii (by decide) (by decide)
    · exact hgiven (by simp [List.mem_singleton.mp h])
  · rw [List.mem_singleton.mp h]
    exact isLower_mapByRows hsigma hdot hascii

theorem isLower_of_mem_lowerAfter (h : d ∈ lowerAfter before cs) : IsLower d := by
  induction cs generalizing before with
  | nil => cases h
  | cons c cs ih =>
    rcases List.mem_append.mp h with h | h
    · exact isLower_of_mem_lowerAt h
    · exact ih h

theorem lowerAfter_of_isLower (h : ∀ c ∈ cs, IsLower c) : lowerAfter before cs = cs := by
  induction cs generalizing before with
  | nil => rfl
  | cons c cs ih =>
    rw [lowerAfter, h c List.mem_cons_self, ih fun d hd => h d (List.mem_cons_of_mem _ hd)]
    rfl

theorem lowerAt_ne_nil : lowerAt before c after ≠ [] := by
  unfold lowerAt
  split_ifs <;> exact List.cons_ne_nil _ _

/-! ### Blanks -/

theorem isBlank_toLower (h : c.toNat < 0x80) : isBlank c.toLower = isBlank c := by
  have hall : ∀ n < 0x80, isBlank (Char.ofNat n).toLower = isBlank (Char.ofNat n) := by
    decide +kernel
  simpa [Char.ofNat_toNat] using hall c.toNat h

theorem isBlank_mapByRows : isBlank (mapByRows lowerRows c) = isBlank c := by
  unfold mapByRows
  split
  · rename_i row hrow
    have hcovers := List.find?_some hrow
    have hmem := List.mem_of_find?_eq_some hrow
    have hc : isBlank c = false := by
      by_contra hblank
      have hcode := isBlank_iff_mem_blankCodes.mp (by simpa using hblank)
      exact absurd ((lowerRows_not_blank hmem hcode).1.symm.trans hcovers) (by decide)
    rw [hc]
    by_contra hblank
    have hcode := isBlank_iff_mem_blankCodes.mp (by simpa using hblank)
    -- A code that is none leads to the character zero, which is no blank.
    by_cases hvalid : (c.toNat + row.shift).toNat.isValidChar
    · rw [Char.ofNat, dif_pos hvalid] at hcode
      have hout := (lowerRows_not_blank hmem hcode).2
      have hto : (Char.ofNatAux (c.toNat + row.shift).toNat hvalid).toNat =
          (c.toNat + row.shift).toNat := rfl
      rw [hto] at hout
      obtain ⟨hfirst, hlast, -⟩ := CaseRow.covers_iff.mp hcovers
      have hstart := (lowerRows_leadPast hmem).1
      omega
    · rw [Char.ofNat, dif_neg hvalid] at hcode
      exact absurd hcode (by decide)
  · rfl

/-- Blanks become blanks, and nothing else does. -/
theorem isBlank_of_mem_lowerAt (h : d ∈ lowerAt before c after) : isBlank d = isBlank c := by
  unfold lowerAt at h
  split_ifs at h with hascii hsigma hfinal hdot
  · rw [List.mem_singleton.mp h, isBlank_toLower hascii]
  · rw [List.mem_singleton.mp h, hsigma]
    decide
  · rw [List.mem_singleton.mp h, hsigma]
    decide
  · rw [hdot]
    rcases List.mem_cons.mp h with rfl | h
    · decide
    · rw [List.mem_singleton.mp h]
      decide
  · rw [List.mem_singleton.mp h, isBlank_mapByRows]

theorem no_blank_lowerAfter_iff :
    (∀ d ∈ lowerAfter before cs, isBlank d = false) ↔ ∀ c ∈ cs, isBlank c = false := by
  induction cs generalizing before with
  | nil => simp [lowerAfter]
  | cons c cs ih =>
    rw [lowerAfter, List.forall_mem_append, List.forall_mem_cons, ih]
    refine and_congr_left fun _ => ⟨fun h => ?_, fun h d hd => ?_⟩
    · have hne : lowerAt before c cs ≠ [] := lowerAt_ne_nil
      obtain ⟨d, hd⟩ := List.exists_mem_of_ne_nil _ hne
      rw [← isBlank_of_mem_lowerAt hd, h d hd]
    · rw [isBlank_of_mem_lowerAt hd, h]

end Chars

variable {s : String}

/-- To put a text in lower case twice is to do so once. -/
@[simp] theorem lowerCase_lowerCase (s : String) : lowerCase (lowerCase s) = lowerCase s := by
  unfold lowerCase
  rw [String.toList_ofList,
    Chars.lowerAfter_of_isLower fun c hc => Chars.isLower_of_mem_lowerAfter hc]

/-- No text vanishes in lower case. -/
@[simp] theorem lowerCase_eq_empty_iff : lowerCase s = "" ↔ s = "" := by
  constructor
  · intro h
    have hlist : Chars.lowerAfter [] s.toList = [] := by
      have := congrArg String.toList h
      rwa [lowerCase, String.toList_ofList] at this
    cases hs : s.toList with
    | nil => exact String.toList_inj.mp hs
    | cons c cs =>
      rw [hs, Chars.lowerAfter] at hlist
      exact absurd (List.append_eq_nil_iff.mp hlist).1 Chars.lowerAt_ne_nil
  · rintro rfl
    rfl

/-- A text has blanks in lower case just where it has some. -/
theorem no_blank_lowerCase_iff :
    (∀ d ∈ (lowerCase s).toList, isBlank d = false) ↔ ∀ c ∈ s.toList, isBlank c = false := by
  rw [lowerCase, String.toList_ofList, Chars.no_blank_lowerAfter_iff]

end CommandShell
