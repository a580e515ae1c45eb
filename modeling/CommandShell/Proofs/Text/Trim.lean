import CommandShell.Text.Blank
import Mathlib.Data.List.TakeWhile

/-!
# Scans and trimmed texts

A scan takes characters of one class up to the first that is not in it.  To trim a text cuts off
blanks at its two ends and nothing else, and it cuts off all of them: where some characters neither
begin nor end with a blank, they are what is left when blanks around them are cut off.

## Main definitions

* `Chars.Trimmed`: some characters that neither begin nor end with a blank.

## Main results

* `scan_append`: where a scan stops.
* `trimmed_trim`, `exists_pads`: what trimming leaves, and what it cuts off.
* `trim_pads`: blanks around trimmed characters are cut off.
-/

namespace CommandShell.Chars

/-- Characters that neither begin nor end with a blank. -/
structure Trimmed (cs : List Char) : Prop where
  head : ∀ c ∈ cs.head?, isBlank c = false
  last : ∀ c ∈ cs.getLast?, isBlank c = false

variable {cs rest pad pad' : List Char}

/-- A scan stops at the first character that is not in the class. -/
theorem scan_append {p : Char → Bool} (h : ∀ c ∈ cs, p c = true)
    (hrest : ∀ c ∈ rest.head?, p c = false) :
    (cs ++ rest).takeWhile p = cs ∧ (cs ++ rest).dropWhile p = rest := by
  induction cs with
  | nil =>
    cases rest with
    | nil => exact ⟨rfl, rfl⟩
    | cons c rest => simp [hrest c rfl]
  | cons d cs ih =>
    have hd := h d List.mem_cons_self
    obtain ⟨htake, hdrop⟩ := ih fun c hc => h c (List.mem_cons_of_mem _ hc)
    simp [hd, htake, hdrop]

/-- What is left after a scan does not start with a character of the class. -/
theorem head_dropWhile {p : Char → Bool} : ∀ c ∈ (cs.dropWhile p).head?, p c = false := by
  intro c hc
  have hhead := List.head?_dropWhile_not p cs
  rw [Option.mem_def.mp hc] at hhead
  exact hhead

theorem trimmed_nil : Trimmed [] where
  head _ h := by cases h
  last _ h := by cases h

theorem trimmed_trim (cs : List Char) : Trimmed (trim cs) := by
  constructor
  · intro c hc
    -- What is cut off at the end is cut off behind the first character that stays.
    unfold trim trimRight trimLeft at hc
    rw [List.head?_reverse] at hc
    have hsuffix := List.dropWhile_suffix isBlank (l := (cs.dropWhile isBlank).reverse)
    have hlast : c ∈ ((cs.dropWhile isBlank).reverse).getLast? := by
      obtain ⟨cut, hcut⟩ := hsuffix
      rw [← hcut, List.getLast?_append, Option.mem_def.mp hc]
      rfl
    rw [List.getLast?_reverse] at hlast
    exact head_dropWhile c hlast
  · intro c hc
    unfold trim trimRight at hc
    rw [List.getLast?_reverse] at hc
    exact head_dropWhile c hc

/-- What stands between trimmed characters is not at an end. -/
theorem Trimmed.append {cs' : List Char} (h : Trimmed cs) (hne : cs ≠ []) (h' : Trimmed cs')
    (hne' : cs' ≠ []) (mid : List Char) : Trimmed (cs ++ (mid ++ cs')) := by
  constructor
  · intro c hc
    obtain ⟨d, ds, rfl⟩ := List.exists_cons_of_ne_nil hne
    exact h.head c hc
  · intro c hc
    rw [List.getLast?_append, List.getLast?_append, List.getLast?_eq_some_getLast hne'] at hc
    refine h'.last c ?_
    rw [List.getLast?_eq_some_getLast hne']
    exact hc

/-- To trim cuts off blanks at the two ends and nothing else. -/
theorem exists_pads (cs : List Char) :
    ∃ pad pad' : List Char, cs = pad ++ trim cs ++ pad' ∧ (∀ c ∈ pad, isBlank c = true) ∧
      ∀ c ∈ pad', isBlank c = true := by
  have hleft : cs = cs.takeWhile isBlank ++ trimLeft cs := List.takeWhile_append_dropWhile.symm
  have hright : trimLeft cs = trim cs ++ ((trimLeft cs).reverse.takeWhile isBlank).reverse := by
    unfold trim trimRight
    rw [← List.reverse_append, List.takeWhile_append_dropWhile, List.reverse_reverse]
  refine ⟨cs.takeWhile isBlank, ((trimLeft cs).reverse.takeWhile isBlank).reverse, ?_, ?_, ?_⟩
  · rw [List.append_assoc, ← hright]
    exact hleft
  · intro c hc
    exact List.mem_takeWhile_imp hc
  · intro c hc
    exact List.mem_takeWhile_imp (List.mem_reverse.mp hc)

/-- Blanks around trimmed characters are cut off. -/
theorem trim_pads (hpad : ∀ c ∈ pad, isBlank c = true) (hpad' : ∀ c ∈ pad', isBlank c = true)
    (h : Trimmed cs) : trim (pad ++ cs ++ pad') = cs := by
  by_cases hnil : cs = []
  · subst hnil
    have hall : (pad ++ [] ++ pad').dropWhile isBlank = [] := by
      rw [List.append_nil]
      exact List.dropWhile_eq_nil_iff.mpr fun c hc =>
        (List.mem_append.mp hc).elim (hpad c) (hpad' c)
    unfold trim trimRight trimLeft
    rw [hall]
    rfl
  · have hhead : ∀ c ∈ (cs ++ pad').head?, isBlank c = false := by
      intro c hc
      obtain ⟨d, ds, rfl⟩ := List.exists_cons_of_ne_nil hnil
      exact h.head c hc
    have hlast : ∀ c ∈ cs.reverse.head?, isBlank c = false := by
      intro c hc
      rw [List.head?_reverse] at hc
      exact h.last c hc
    unfold trim trimRight trimLeft
    have hpad'' : ∀ c ∈ pad'.reverse, isBlank c = true :=
      fun c hc => hpad' c (List.mem_reverse.mp hc)
    rw [List.append_assoc, (scan_append hpad hhead).2, List.reverse_append,
      (scan_append hpad'' hlast).2, List.reverse_reverse]

end CommandShell.Chars
