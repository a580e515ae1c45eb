import CommandShell.Proofs.Text.Casing
import Mathlib.Data.List.TakeWhile

/-!
# Lower case of the start of a text

The lower case of a text starts with that of each of its prefixes, with one exception.  A capital
sigma that ends a word in the prefix is written `ς` there, and if the word goes on in the whole text
it is written `σ`.

## Main definitions

* `Chars.OpensSigma`: a final sigma of a prefix is none in the whole text.
* `Chars.lowerBefore`: the lower case of some characters in front of others.

## Main results

* `Chars.lowerBefore_eq_iff`: the lower case of a prefix is that in the whole text just where no
  sigma is opened.
* `startsWith_lowerCase_append_iff`: the same for texts.
-/

namespace CommandShell

namespace Chars

variable {c : Char} {cs post before : List Char}

/-- In `cs` a word ends with a capital sigma that goes on in `post`; `before` stands in front of
`cs`, in reverse. -/
def OpensSigma (before cs post : List Char) : Prop :=
  ∃ pre skipped, cs = pre ++ 'Σ' :: skipped ∧ meetsCased (pre.reverse ++ before) = true ∧
    (∀ c ∈ skipped, isCaseIgnorable c = true) ∧ meetsCased post = true

theorem not_opensSigma_nil : ¬ OpensSigma before [] post := by
  rintro ⟨pre, skipped, h, -⟩
  simp at h

/-- A sigma is opened at the first character, or behind it. -/
theorem opensSigma_cons_iff :
    OpensSigma before (c :: cs) post ↔
      (c = 'Σ' ∧ meetsCased before = true ∧ (∀ d ∈ cs, isCaseIgnorable d = true) ∧
          meetsCased post = true) ∨
        OpensSigma (c :: before) cs post := by
  constructor
  · rintro ⟨pre, skipped, hcs, hbefore, hskipped, hpost⟩
    cases pre with
    | nil =>
      obtain ⟨rfl, rfl⟩ := List.cons.inj hcs
      exact Or.inl ⟨rfl, hbefore, hskipped, hpost⟩
    | cons d pre =>
      obtain ⟨rfl, rfl⟩ := List.cons.inj hcs
      refine Or.inr ⟨pre, skipped, rfl, ?_, hskipped, hpost⟩
      rwa [List.reverse_cons, List.append_assoc] at hbefore
  · rintro (⟨rfl, hbefore, hskipped, hpost⟩ | ⟨pre, skipped, rfl, hbefore, hskipped, hpost⟩)
    · exact ⟨[], cs, rfl, hbefore, hskipped, hpost⟩
    · refine ⟨c :: pre, skipped, rfl, ?_, hskipped, hpost⟩
      rwa [List.reverse_cons, List.append_assoc]

/-! ### What follows a sigma -/

/-- What follows goes on with a letter if it did before, or if all of it is skipped and the letter
comes behind. -/
theorem meetsCased_append :
    meetsCased (cs ++ post) =
      (meetsCased cs || (cs.all isCaseIgnorable && meetsCased post)) := by
  induction cs with
  | nil => rfl
  | cons c cs ih =>
    by_cases hc : isCaseIgnorable c = true
    · have hskip : ∀ l, meetsCased (c :: l) = meetsCased l := by
        intro l
        rw [meetsCased, List.dropWhile_cons_of_pos hc, meetsCased]
      rw [List.cons_append, hskip, hskip, ih, List.all_cons, hc, Bool.true_and]
    · have hstop : ∀ l, meetsCased (c :: l) = isCased c := by
        intro l
        rw [meetsCased, List.dropWhile_cons_of_neg hc]
      rw [List.cons_append, hstop, hstop, List.all_cons, Bool.eq_false_iff.mpr hc]
      simp

/-- What follows a character decides its lower case only if it is a capital sigma behind a
letter. -/
theorem lowerAt_append_eq_iff :
    lowerAt before c (cs ++ post) = lowerAt before c cs ↔
      ¬ (c = 'Σ' ∧ meetsCased before = true ∧ (∀ d ∈ cs, isCaseIgnorable d = true) ∧
        meetsCased post = true) := by
  by_cases hc : c = 'Σ'
  · subst hc
    have hignored : cs.all isCaseIgnorable = true → meetsCased cs = false := by
      intro h
      rw [meetsCased, List.dropWhile_eq_nil_iff.mpr (List.all_eq_true.mp h)]
    have hsigma : ∀ l, lowerAt before 'Σ' l =
        if meetsCased before && !meetsCased l then ['ς'] else ['σ'] := fun _ => rfl
    rw [hsigma, hsigma, meetsCased_append, ← List.all_eq_true]
    cases hbefore : meetsCased before <;> cases hcased : meetsCased cs <;>
      cases hall : cs.all isCaseIgnorable <;> cases hpost : meetsCased post <;> simp_all
  · have hsame : lowerAt before c (cs ++ post) = lowerAt before c cs := by
      unfold lowerAt
      rw [if_neg hc, if_neg hc]
    simp [hsame, hc]

theorem length_lowerAt (post : List Char) :
    (lowerAt before c (cs ++ post)).length = (lowerAt before c cs).length := by
  unfold lowerAt
  split_ifs <;> rfl

/-! ### A prefix in the whole text -/

/-- The lower case of some characters between `before`, which is given in reverse, and `post`. -/
def lowerBefore (before post : List Char) : List Char → List Char
  | [] => []
  | c :: rest => lowerAt before c (rest ++ post) ++ lowerBefore (c :: before) post rest

theorem lowerAfter_append :
    lowerAfter before (cs ++ post) =
      lowerBefore before post cs ++ lowerAfter (cs.reverse ++ before) post := by
  induction cs generalizing before with
  | nil => rfl
  | cons c cs ih =>
    rw [List.cons_append, lowerAfter, ih, lowerBefore, List.append_assoc, List.reverse_cons,
      List.append_assoc]
    rfl

theorem length_lowerBefore :
    (lowerBefore before post cs).length = (lowerAfter before cs).length := by
  induction cs generalizing before with
  | nil => rfl
  | cons c cs ih =>
    rw [lowerBefore, lowerAfter, List.length_append, List.length_append, ih, length_lowerAt]

/-- The lower case of a prefix is that in the whole text just where no sigma is opened. -/
theorem lowerBefore_eq_iff :
    lowerBefore before post cs = lowerAfter before cs ↔ ¬ OpensSigma before cs post := by
  induction cs generalizing before with
  | nil => exact iff_of_true rfl not_opensSigma_nil
  | cons c cs ih =>
    rw [lowerBefore, lowerAfter, opensSigma_cons_iff, not_or, ← lowerAt_append_eq_iff, ← ih]
    constructor
    · intro h
      exact List.append_inj h (length_lowerAt post)
    · rintro ⟨hfirst, hrest⟩
      rw [hfirst, hrest]

/-- The lower case of a text starts with that of a prefix just where no sigma is opened. -/
theorem lowerAfter_prefix_iff :
    lowerAfter before cs <+: lowerAfter before (cs ++ post) ↔ ¬ OpensSigma before cs post := by
  rw [lowerAfter_append, ← lowerBefore_eq_iff]
  constructor
  · rintro ⟨rest, h⟩
    exact (List.append_inj h length_lowerBefore.symm).1.symm
  · intro h
    rw [h]
    exact List.prefix_append _ _

end Chars

/-- The lower case of a text starts with that of a prefix, unless a final sigma of the prefix is
none in the whole text. -/
theorem startsWith_lowerCase_append_iff (pre post : String) :
    (lowerCase (pre ++ post)).startsWith (lowerCase pre) = true ↔
      ¬ Chars.OpensSigma [] pre.toList post.toList := by
  rw [String.startsWith_string_iff, lowerCase, lowerCase, String.toList_ofList,
    String.toList_ofList, String.toList_append, Chars.lowerAfter_prefix_iff]

end CommandShell
