import CommandShell.Proofs.Line.FreeText
import CommandShell.Proofs.Line.Substitutions
import CommandShell.Proofs.Line.Writing

/-!
# What stands behind an alias

The words of a segment are separated by any blanks, but what stands behind an alias is sought in the
pieces between single spaces.  It is found as it was written if a space follows the alias.  Behind
any other blank the alias is no piece of its own; what is found then is at most what follows a later
piece that reads like it.

## Main definitions

* `textBehind`: what is found behind the first word of a segment.
* `Chars.solidCount`: how many characters of a text are no blanks.

## Main results

* `wordsOf_append`: the first word of a segment.
* `textBehind_space`, `solidCount_textBehind_blank_lt`: what is found behind a space and behind any
  other blank.
* `alias_keeps_text_iff`: when an alias keeps what stands behind it, and what the segment does then.
-/

namespace CommandShell

variable {segment text w r : String} {ws back names : List String} {cs : List Char} {g : Char}

/-- What is found behind the first word of a segment. -/
def textBehind (w segment : String) : String :=
  (textAfterWord? segment [w]).getD ""

/-! ### The first word of a segment -/

theorem tokens_append (hw : IsWord w) (hdash : w.toList.head? ≠ some '-')
    (hcs : ∀ c ∈ cs.head?, isBlank c = true) :
    Chars.tokens (w.toList ++ cs) = .word w :: Chars.tokens cs := by
  have hsolid : ∀ c ∈ w.toList, Chars.isWordChar c = true := by
    intro c hc
    simp [Chars.isWordChar, hw.no_blank c hc]
  have hstop : ∀ c ∈ cs.head?, Chars.isWordChar c = false := by
    intro c hc
    simp [Chars.isWordChar, hcs c hc]
  -- The word is scanned up to the blank behind it.
  obtain ⟨htake, hdrop⟩ := Chars.scan_append hsolid hstop
  obtain ⟨c, tail, hchars⟩ := List.exists_cons_of_ne_nil hw.toList_ne_nil
  have hhead : (w.toList ++ cs).head? ≠ some '-' := by
    rw [hchars] at hdash ⊢
    exact hdash
  have hnext : Chars.nextToken (w.toList ++ cs) = (.word w, cs) := by
    rw [nextToken_word hhead, htake, hdrop, String.ofList_toList]
  have hc : isBlank c = false := hw.no_blank c (by simp [hchars])
  rw [hchars, List.cons_append] at hnext ⊢
  rw [Chars.tokens, dif_neg (by simp [hc]), hnext]

/-- A word in front of a blank is the first word of a segment. -/
theorem wordsOf_append (hw : IsWord w) (hdash : w.toList.head? ≠ some '-')
    (htext : ∀ c ∈ text.toList.head?, isBlank c = true) :
    wordsOf (w ++ text) = w :: wordsOf text := by
  have hword : (Token.word w).word? = some w := by
    refine if_neg ?_
    rwa [startsWith_dash]
  unfold wordsOf
  rw [String.toList_append, tokens_append hw hdash htext, List.filterMap_cons_some hword]

/-- What a segment stands for whose first word is an alias of a value. -/
theorem expand?_append {s : Session} {v : Value} (hw : IsWord w)
    (hdash : w.toList.head? ≠ some '-') (htext : ∀ c ∈ text.toList.head?, isBlank c = true)
    (htarget : s.aliasTable.target? w = some v) (hv : v.truthy = true) :
    s.expand? (w ++ text) =
      some (trimBlanks (v.shown ++ " " ++ textBehind w (w ++ text))) := by
  have hfirst : (splitWords (readSegment (w ++ text)).name).headD "" = w := by
    have hwords := wordsOf_append hw hdash htext
    have hne : wordsOf (w ++ text) ≠ [] := by
      rw [hwords]
      exact List.cons_ne_nil _ _
    rw [readSegment_name, splitWords_intercalate (fun _ => isWord_of_mem_wordsOf) hne, hwords]
    rfl
  unfold Session.expand? Session.expansion?
  rw [hfirst, htarget, Option.filter_some, if_pos hv]
  rfl

/-! ### Pieces between single spaces -/

theorem textAfterWord?_eq (hw : IsWord w) (text : String) :
    textAfterWord? text [w] =
      (wordsAfter? [lowerCase w] (splitWords text)).map
        fun rest => trimBlanks (" ".intercalate rest) := by
  simp [textAfterWord?, hw.ne_empty]

/-- A text stands behind a word as it was written if a space follows the word. -/
theorem textBehind_space (hw : IsWord w) (text : String) :
    textBehind w (w ++ " " ++ text) = trimBlanks text := by
  unfold textBehind
  rw [textAfterWord?_eq hw, splitWords_space hw.no_space, wordsAfter?, if_pos (by simp),
    Option.map_some, intercalate_splitWords]
  rfl

theorem textBehind_self (hw : IsWord w) : textBehind w w = "" := by
  unfold textBehind
  rw [textAfterWord?_eq hw, splitWords_eq_singleton hw.no_space, wordsAfter?, if_pos (by simp)]
  rfl

/-! ### Texts behind other blanks -/

namespace Chars

variable {cs' : List Char}

/-- How many characters are no blanks. -/
def solidCount (cs : List Char) : Nat :=
  cs.countP fun c => !isBlank c

theorem solidCount_append : solidCount (cs ++ cs') = solidCount cs + solidCount cs' :=
  List.countP_append

theorem solidCount_of_blank (h : ∀ c ∈ cs, isBlank c = true) : solidCount cs = 0 := by
  refine List.countP_eq_zero.mpr fun c hc => ?_
  simp [h c hc]

theorem solidCount_trim (cs : List Char) : solidCount (trim cs) = solidCount cs := by
  obtain ⟨pad, pad', hcs, hpad, hpad'⟩ := exists_pads cs
  conv => rhs; rw [hcs]
  rw [solidCount_append, solidCount_append, solidCount_of_blank hpad, solidCount_of_blank hpad',
    Nat.zero_add, Nat.add_zero]

theorem solidCount_pos_of_mem {c : Char} (hc : c ∈ cs) (h : isBlank c = false) :
    0 < solidCount cs :=
  List.countP_pos_iff.mpr ⟨c, hc, by simp [h]⟩

theorem Trimmed.solidCount_pos (h : Trimmed cs) (hne : cs ≠ []) : 0 < solidCount cs := by
  obtain ⟨c, rest, rfl⟩ := List.exists_cons_of_ne_nil hne
  exact solidCount_pos_of_mem List.mem_cons_self (h.head c rfl)

end Chars

open Chars

theorem IsWord.solidCount_pos (hw : IsWord w) : 0 < solidCount w.toList := by
  obtain ⟨c, rest, hchars⟩ := List.exists_cons_of_ne_nil hw.toList_ne_nil
  have hc : c ∈ w.toList := by simp [hchars]
  exact solidCount_pos_of_mem hc (hw.no_blank c hc)

theorem solidCount_intercalate_cons :
    solidCount (" ".intercalate (w :: ws)).toList =
      solidCount w.toList + solidCount (" ".intercalate ws).toList := by
  have hspace : solidCount " ".toList = 0 := by decide
  cases ws with
  | nil => simp [solidCount]
  | cons v ws =>
    rw [String.intercalate_cons_cons, String.toList_append, String.toList_append,
      solidCount_append, solidCount_append, hspace, Nat.add_zero]

/-- Pieces behind a word have fewer characters than all pieces have. -/
theorem solidCount_wordsAfter?_lt (h : wordsAfter? names ws = some back)
    (hnames : ∀ w, lowerCase w ∈ names → IsWord w) :
    solidCount (" ".intercalate back).toList < solidCount (" ".intercalate ws).toList := by
  induction ws with
  | nil => cases h
  | cons w ws ih =>
    rw [solidCount_intercalate_cons]
    unfold wordsAfter? at h
    split at h
    · rename_i hmem
      obtain rfl := Option.some.inj h
      have hpos := (hnames w (by simpa using hmem)).solidCount_pos
      omega
    · have hlt := ih h
      omega

/-- What follows a word in a text has fewer characters than the text. -/
theorem solidCount_textBehind_lt {n : Nat} (hw : IsWord w) (hn : 0 < n)
    (htext : solidCount text.toList ≤ n) : solidCount (textBehind w text).toList < n := by
  unfold textBehind
  rw [textAfterWord?_eq hw]
  cases hback : wordsAfter? [lowerCase w] (splitWords text) with
  | none => exact hn
  | some back =>
    have hnames : ∀ v, lowerCase v ∈ [lowerCase w] → IsWord v := by
      intro v hv
      rw [← isWord_lowerCase_iff, List.mem_singleton.mp hv]
      exact isWord_lowerCase_iff.mpr hw
    have hlt := solidCount_wordsAfter?_lt hback hnames
    rw [intercalate_splitWords] at hlt
    rw [Option.map_some, Option.getD_some, trimBlanks, String.toList_ofList, solidCount_trim]
    exact hlt.trans_le htext

section Pieces

variable {piece : String}

/-- A piece that is not the word is passed over. -/
theorem textBehind_piece (hw : IsWord w) (hpiece : ' ' ∉ piece.toList)
    (hne : lowerCase piece ≠ lowerCase w) (text : String) :
    textBehind w (piece ++ " " ++ text) = textBehind w text := by
  unfold textBehind
  rw [textAfterWord?_eq hw, textAfterWord?_eq hw, splitWords_space hpiece, wordsAfter?,
    if_neg (by simpa using hne)]

theorem textBehind_eq_empty (hw : IsWord w) (hpiece : ' ' ∉ piece.toList)
    (hne : lowerCase piece ≠ lowerCase w) : textBehind w piece = "" := by
  unfold textBehind
  rw [textAfterWord?_eq hw, splitWords_eq_singleton hpiece, wordsAfter?,
    if_neg (by simpa using hne)]
  rfl

end Pieces

/-- Behind a blank that is no space, what is found follows a later piece of the text there. -/
theorem solidCount_textBehind_blank_lt {n : Nat} (hw : IsWord w) (hg : isBlank g = true)
    (hspace : g ≠ ' ') (hn : 0 < n) (htext : solidCount text.toList ≤ n) :
    solidCount (textBehind w (w ++ String.singleton g ++ text)).toList < n := by
  -- The first piece begins with the word and the blank, and is never the word itself, since a text
  -- has its blanks in lower case as well.
  have hpiece : ∀ cs, ' ' ∉ cs → ' ' ∉ (w ++ String.singleton g ++ String.ofList cs).toList ∧
      lowerCase (w ++ String.singleton g ++ String.ofList cs) ≠ lowerCase w := by
    intro cs hcs
    constructor
    · simpa [hcs, hw.no_space] using hspace.symm
    · intro hsame
      have hword : IsWord (w ++ String.singleton g ++ String.ofList cs) := by
        rw [← isWord_lowerCase_iff, hsame]
        exact isWord_lowerCase_iff.mpr hw
      exact absurd ((hword.no_blank g (by simp)).symm.trans hg) (by decide)
  -- The search goes on behind the first space, or finds nothing.
  by_cases hmem : ' ' ∈ text.toList
  · obtain ⟨pre, suf, hcut, hpre⟩ := List.eq_append_cons_of_mem hmem
    obtain ⟨hno, hne⟩ := hpiece pre hpre
    have hsegment : w ++ String.singleton g ++ text =
        w ++ String.singleton g ++ String.ofList pre ++ " " ++ String.ofList suf := by
      refine String.toList_inj.mp ?_
      simp [hcut]
    have hle : solidCount suf ≤ solidCount text.toList := by
      rw [hcut, List.append_cons, solidCount_append]
      exact Nat.le_add_left _ _
    rw [hsegment, textBehind_piece hw hno hne]
    refine solidCount_textBehind_lt hw hn ?_
    rw [String.toList_ofList]
    exact hle.trans htext
  · obtain ⟨hno, hne⟩ := hpiece text.toList hmem
    rw [String.ofList_toList] at hno hne
    rwa [textBehind_eq_empty hw hno hne]

theorem trimmed_textBehind (w segment : String) : Trimmed (textBehind w segment).toList := by
  unfold textBehind textAfterWord?
  dsimp only
  cases wordsAfter? _ (splitWords segment) with
  | none => exact trimmed_nil
  | some back =>
    rw [Option.map_some, Option.getD_some, trimBlanks, String.toList_ofList]
    exact trimmed_trim _

/-! ### What an alias keeps -/

section Gap

variable {gap : String}

/-- What stands behind a word and a space is found as it was written. -/
theorem textBehind_of_space (hw : IsWord w) (hgap : ∀ c ∈ cs, isBlank c = true)
    (hr : Trimmed r.toList) : textBehind w (w ++ " " ++ (String.ofList cs ++ r)) = r := by
  have htrim := trim_pads hgap (by simp : ∀ c ∈ ([] : List Char), isBlank c = true) hr
  rw [List.append_nil] at htrim
  rw [textBehind_space hw, trimBlanks, String.toList_append, String.toList_ofList, htrim,
    String.ofList_toList]

/-- What stands behind a word and some blanks is found as it was written if the first of them is a
space, or if nothing stands there; else less is found. -/
theorem textBehind_cases (hw : IsWord w) (hgap : ∀ c ∈ gap.toList, isBlank c = true)
    (hsep : gap = "" → r = "") (hr : Trimmed r.toList) :
    textBehind w (w ++ gap ++ r) = r ∧ (r = "" ∨ gap.toList.head? = some ' ') ∨
      solidCount (textBehind w (w ++ gap ++ r)).toList < solidCount r.toList ∧
        r ≠ "" ∧ gap.toList.head? ≠ some ' ' := by
  cases hchars : gap.toList with
  | nil =>
    obtain rfl : gap = "" := String.toList_inj.mp hchars
    obtain rfl := hsep rfl
    refine Or.inl ⟨?_, Or.inl rfl⟩
    rw [String.append_empty, String.append_empty, textBehind_self hw]
  | cons g gs =>
    rw [hchars, List.forall_mem_cons] at hgap
    obtain ⟨hg, hgs⟩ := hgap
    have hsegment : w ++ gap ++ r = w ++ String.singleton g ++ (String.ofList gs ++ r) := by
      refine String.toList_inj.mp ?_
      simp [hchars]
    rw [hsegment, List.head?_cons]
    by_cases hspace : g = ' '
    · subst hspace
      exact Or.inl ⟨textBehind_of_space hw hgs hr, Or.inr rfl⟩
    -- The search goes on for a space behind the blank, so it misses what stands in between.
    have hcount : solidCount (String.ofList gs ++ r).toList = solidCount r.toList := by
      rw [String.toList_append, solidCount_append, String.toList_ofList,
        solidCount_of_blank hgs, Nat.zero_add]
    have hlt := fun n hn hle => solidCount_textBehind_blank_lt (n := n) hw hg hspace hn
      (hcount.trans_le hle)
    by_cases hempty : r = ""
    · refine Or.inl ⟨?_, Or.inl hempty⟩
      subst hempty
      by_contra hne
      have hpos := (trimmed_textBehind w (w ++ String.singleton g ++
        (String.ofList gs ++ ""))).solidCount_pos fun hnil => hne (String.toList_inj.mp hnil)
      have hone := hlt 1 Nat.one_pos (Nat.zero_le 1)
      omega
    · have hpos := hr.solidCount_pos fun hnil => hempty (String.toList_inj.mp hnil)
      exact Or.inr ⟨hlt _ hpos le_rfl, hempty, fun h => hspace (Option.some.inj h)⟩

end Gap

namespace Run

/-- When an alias is replaced and nothing else.  Let the first word of a segment be an alias of a
value that counts as true, let blanks and then a text stand behind it, and let the segment lead to
no processor.  The segment gives way to the value, a space, and what is found behind the word.  That
is the text just where the first of the blanks is a space, or there is no text; else it has fewer
characters.  If the substitutions that follow end within the bound, the segment does what the one
does that it gives way to, whatever lines it runs and whatever is piped into it, and gets to the
same handler with the same command. -/
theorem alias_keeps_text_iff {s : Session} {gap : String} {v : Value} (hw : IsWord w)
    (hdash : w.toList.head? ≠ some '-') (hgap : ∀ c ∈ gap.toList, isBlank c = true)
    (hsep : gap = "" → r = "") (hr : Trimmed r.toList)
    (htarget : s.aliasTable.target? w = some v) (hv : v.truthy = true)
    (hnone : s.resolve? (w ++ gap ++ r) = none) :
    let kept := textBehind w (w ++ gap ++ r)
    let expanded := trimBlanks (v.shown ++ " " ++ kept)
    s.substitute? (w ++ gap ++ r) = some expanded ∧
      (kept = r ↔ r = "" ∨ gap.toList.head? = some ' ') ∧
      (kept ≠ r → solidCount kept.toList < solidCount r.toList) ∧
      ∀ k last, k < maxExpansions → s.substituted? k expanded = some last →
        s.substitute? last = none → ∀ rerun data,
          runSegment rerun (w ++ gap ++ r) data s = runSegment rerun expanded data s ∧
            ∀ p i c u, Dispatches s (w ++ gap ++ r) data p i c u ↔
              Dispatches s expanded data p i c u := by
  intro kept expanded
  -- What stands right behind the word is a blank, or nothing.
  have htext : ∀ c ∈ (gap ++ r).toList.head?, isBlank c = true := by
    intro c hc
    by_cases hempty : gap = ""
    · rw [hempty, hsep hempty] at hc
      cases hc
    · obtain ⟨g, gs, hchars⟩ :=
        List.exists_cons_of_ne_nil fun hnil => hempty (String.toList_inj.mp hnil)
      rw [String.toList_append, hchars] at hc
      obtain rfl : g = c := Option.some.inj hc
      exact hgap g (by simp [hchars])
  have hsubstitute : s.substitute? (w ++ gap ++ r) = some expanded := by
    refine Session.substitute?_eq_some_iff.mpr ⟨hnone, ?_⟩
    have hexpand := expand?_append hw hdash htext htarget hv
    rwa [← String.append_assoc] at hexpand
  have hrun : ∀ k last, k < maxExpansions → s.substituted? k expanded = some last →
      s.substitute? last = none → ∀ rerun data,
        runSegment rerun (w ++ gap ++ r) data s = runSegment rerun expanded data s ∧
          ∀ p i c u, Dispatches s (w ++ gap ++ r) data p i c u ↔
            Dispatches s expanded data p i c u :=
    fun k last hk hlast hend rerun data => runSegment_of_substitute hsubstitute hk hlast hend
  rcases textBehind_cases hw hgap hsep hr with ⟨hkept, hwhen⟩ | ⟨hless, hempty, hhead⟩
  · exact ⟨hsubstitute, ⟨fun _ => hwhen, fun _ => hkept⟩, fun hne => absurd hkept hne, hrun⟩
  · refine ⟨hsubstitute, ⟨fun hkept => ?_, fun hwhen => ?_⟩, fun _ => hless, hrun⟩
    · exact absurd hless (by rw [show textBehind w _ = r from hkept]; exact lt_irrefl _)
    · exact absurd hwhen (by simp [hempty, hhead])

/-- A shell with an alias of a command and its first word. -/
def greetingShell : Session :=
  (execute "alias --hi=\"echo hello\"" (.offering builtinProcessors)).2

theorem greetingShell_target? : ∃ v, greetingShell.aliasTable.target? "hi" = some v ∧
    v.truthy = true ∧ v.shown = "echo hello" := by
  have hany : ((greetingShell.aliasTable.target? "hi").any fun v =>
      v.truthy && v.shown == "echo hello") = true := by
    decide +kernel
  obtain ⟨v, hv, htext⟩ := (Option.any_eq_true _ _).mp hany
  rw [Bool.and_eq_true, beq_iff_eq] at htext
  exact ⟨v, hv, htext⟩

/-- An alias in front of a space. -/
theorem alias_before_space_keeps_text :
    textBehind "hi" "hi world" = "world" ∧
      runSegment rerun "hi world" .null greetingShell =
        runSegment rerun "echo hello world" .null greetingShell := by
  obtain ⟨v, htarget, htruthy, hshown⟩ := greetingShell_target?
  have hword : IsWord "hi" :=
    ⟨by decide, fun c hc => (isPlain_of_all (by decide) c hc).1⟩
  have hgap : ∀ c ∈ " ".toList, isBlank c = true := List.all_eq_true.mp (by decide)
  have hr : Trimmed "world".toList := by
    constructor <;> (rintro c ⟨⟩; decide)
  have hnone : greetingShell.resolve? ("hi" ++ " " ++ "world") = none :=
    Option.isNone_iff_eq_none.mp (by decide +kernel)
  obtain ⟨-, hiff, -, hrun⟩ := alias_keeps_text_iff hword (by decide) hgap
    (fun h => absurd h (by decide)) hr htarget htruthy hnone
  have hkept : textBehind "hi" "hi world" = "world" := hiff.mpr (Or.inr rfl)
  have hexpanded : trimBlanks (v.shown ++ " " ++ textBehind "hi" "hi world") =
      "echo hello world" := by
    rw [hshown, hkept]
    decide +kernel
  have hend : greetingShell.substitute? "echo hello world" = none :=
    Option.isNone_iff_eq_none.mp (by decide +kernel)
  refine ⟨hkept, ?_⟩
  rw [← hexpanded]
  exact (hrun 0 _ (by decide) rfl (hexpanded ▸ hend) rerun .null).1

/-- An alias in front of a tab loses the text behind it. -/
theorem alias_before_tab_loses_text :
    (greetingShell.aliasTable.target? "hi").map Value.shown = some "echo hello" ∧
      greetingShell.resolve? "hi\tworld" = none ∧ textBehind "hi" "hi\tworld" = "" ∧
      (dispatch? greetingShell "hi\tworld" .null).map (·.2.1.text) = some (some "hello") ∧
      (dispatch? greetingShell "echo hello world" .null).map (·.2.1.text) =
        some (some "hello world") ∧
      (runSegment rerun "hi\tworld" .null greetingShell).2.process.payload.shown = "hello" ∧
      (runSegment rerun "echo hello world" .null greetingShell).2.process.payload.shown =
        "hello world" := by
  refine ⟨by decide +kernel, Option.isNone_iff_eq_none.mp (by decide +kernel), ?_⟩
  decide +kernel

end Run

end CommandShell
