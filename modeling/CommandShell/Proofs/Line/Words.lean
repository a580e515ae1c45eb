import CommandShell.Line.Arguments
import CommandShell.Proofs.Text.Casing
import CommandShell.Proofs.Text.Trim

/-!
# Words of a segment

The bare words of a segment hold characters and no blanks, so that nothing is lost when they are
joined by single spaces and cut again.

## Main definitions

* `wordsOf`: the bare words of a segment.
* `IsWord`: a text that holds characters and no blanks.

## Main results

* `isWord_of_mem_wordsOf`: the bare words of a segment are words.
* `splitWords_intercalate`, `trimBlanks_intercalate`: words that are joined are cut apart again, and
  have no blanks around them.
* `intercalate_splitWords`: the pieces of a text that are joined make the text again.
* `intercalate_append_eq_iff`: words in front of others can be told.
-/

namespace CommandShell

/-- The bare words of a segment. -/
def wordsOf (segment : String) : List String :=
  (Chars.tokens segment.toList).filterMap Token.word?

/-- A text that holds characters and no blanks. -/
structure IsWord (s : String) : Prop where
  ne_empty : s ≠ ""
  no_blank : ∀ c ∈ s.toList, isBlank c = false

variable {s w segment : String} {ws front rest : List String}

theorem isWord_lowerCase_iff : IsWord (lowerCase s) ↔ IsWord s := by
  constructor
  · intro h
    exact ⟨fun hs => h.ne_empty (lowerCase_eq_empty_iff.mpr hs),
      no_blank_lowerCase_iff.mp h.no_blank⟩
  · intro h
    exact ⟨fun hs => h.ne_empty (lowerCase_eq_empty_iff.mp hs),
      no_blank_lowerCase_iff.mpr h.no_blank⟩

theorem readSegment_name (segment : String) :
    (readSegment segment).name = " ".intercalate (wordsOf segment) :=
  rfl

/-! ### What words are made of -/

/-- A bare word is what stands in front of the next blank. -/
theorem nextToken_eq_word {cs : List Char} (h : (Chars.nextToken cs).1 = .word w) :
    w = String.ofList (cs.takeWhile Chars.isWordChar) := by
  unfold Chars.nextToken at h
  dsimp only at h
  split at h
  · split at h
    · exact (Token.word.inj h).symm
    · -- A flag is no word, whether it has a value or not.
      split at h
      · split at h <;> cases h
      · cases h
  · exact (Token.word.inj h).symm

theorem isWord_of_mem_tokens {cs : List Char} (h : .word w ∈ Chars.tokens cs) : IsWord w := by
  fun_induction Chars.tokens cs with
  | case1 => cases h
  | case2 c cs hc ih => exact ih h
  | case3 c cs hc ih =>
    rcases List.mem_cons.mp h with hw | hw
    · have hword : Chars.isWordChar c = true := by simpa [Chars.isWordChar] using hc
      obtain rfl := nextToken_eq_word hw.symm
      constructor
      · simp [hword]
      · intro d hd
        rw [String.toList_ofList] at hd
        simpa [Chars.isWordChar] using List.mem_takeWhile_imp hd
    · exact ih hw

theorem isWord_of_mem_wordsOf (h : w ∈ wordsOf segment) : IsWord w := by
  obtain ⟨token, htoken, hw⟩ := List.mem_filterMap.mp h
  cases token with
  | flag => cases hw
  | word text =>
    unfold Token.word? at hw
    dsimp only at hw
    split_ifs at hw
    obtain rfl := Option.some.inj hw
    exact isWord_of_mem_tokens htoken

/-! ### Joining and cutting -/

theorem IsWord.toList_ne_nil (h : IsWord w) : w.toList ≠ [] :=
  fun hnil => h.ne_empty (String.toList_inj.mp hnil)

theorem IsWord.no_space (h : IsWord w) : ' ' ∉ w.toList := by
  intro hmem
  exact absurd (h.no_blank ' ' hmem) (by decide)

theorem splitWords_intercalate (h : ∀ w ∈ ws, IsWord w) (hne : ws ≠ []) :
    splitWords (" ".intercalate ws) = ws := by
  have hcut : (" ".intercalate ws).toList.splitOn ' ' = ws.map String.toList := by
    rw [String.toList_intercalate]
    refine List.splitOn_intercalate ' ' ?_ (by simpa using hne)
    intro cs hcs
    obtain ⟨w, hw, rfl⟩ := List.mem_map.mp hcs
    exact (h w hw).no_space
  rw [splitWords, splitText, hcut, List.map_map]
  simp [Function.comp_def]

/-- The pieces between single spaces make the text again when they are joined. -/
theorem intercalate_splitWords (text : String) : " ".intercalate (splitWords text) = text := by
  refine String.toList_inj.mp ?_
  rw [String.toList_intercalate, splitWords, splitText, List.map_map]
  have hchars : String.toList ∘ String.ofList = id := funext fun _ => String.toList_ofList
  rw [hchars, List.map_id]
  exact List.intercalate_splitOn ' '

theorem splitWords_space (h : ' ' ∉ w.toList) :
    splitWords (w ++ " " ++ s) = w :: splitWords s := by
  have hcut : (w ++ " " ++ s).toList = w.toList ++ ' ' :: s.toList := by simp
  rw [splitWords, splitText, hcut, List.splitOn_append_cons_self_of_not_mem h, List.map_cons,
    String.ofList_toList]
  rfl

theorem splitWords_eq_singleton (h : ' ' ∉ w.toList) : splitWords w = [w] := by
  rw [splitWords, splitText, List.splitOn_eq_singleton h, List.map_singleton,
    String.ofList_toList]

theorem intercalate_ne_empty (h : ∀ w ∈ ws, IsWord w) (hne : ws ≠ []) :
    " ".intercalate ws ≠ "" := by
  obtain ⟨w, ws, rfl⟩ := List.exists_cons_of_ne_nil hne
  have hw := (h w List.mem_cons_self).ne_empty
  cases ws <;> simp [hw]

/-- Words in front of others can be told when all are joined. -/
theorem intercalate_append_eq_iff (h : ∀ w ∈ front ++ rest, IsWord w) :
    " ".intercalate (front ++ rest) = " ".intercalate rest ↔ front = [] := by
  constructor
  · intro heq
    by_contra hne
    have hall : front ++ rest ≠ [] := fun hnil => hne (List.append_eq_nil_iff.mp hnil).1
    by_cases hrest : rest = []
    · rw [hrest, String.intercalate_nil] at heq
      exact intercalate_ne_empty (hrest ▸ h) (hrest ▸ hall) heq
    · have hsplit := congrArg splitWords heq
      rw [splitWords_intercalate h hall,
        splitWords_intercalate (fun w hw => h w (List.mem_append_right _ hw)) hrest] at hsplit
      exact hne (List.self_eq_append_left.mp hsplit.symm)
  · rintro rfl
    rfl

theorem trimmed_intercalate (h : ∀ w ∈ ws, IsWord w) :
    Chars.Trimmed (" ".intercalate ws).toList := by
  have hword : ∀ w, IsWord w → Chars.Trimmed w.toList := fun w hw =>
    ⟨fun c hc => hw.no_blank c (List.mem_of_mem_head? hc),
      fun c hc => hw.no_blank c (List.mem_of_getLast? hc)⟩
  induction ws with
  | nil => exact Chars.trimmed_nil
  | cons w ws ih =>
    have hw := h w List.mem_cons_self
    have hws : ∀ w ∈ ws, IsWord w := fun v hv => h v (List.mem_cons_of_mem _ hv)
    by_cases hnil : ws = []
    · subst hnil
      simpa using hword w hw
    · rw [String.intercalate_cons_of_ne_nil hnil, String.append_assoc, String.toList_append,
        String.toList_append]
      refine (hword w hw).append hw.toList_ne_nil (ih hws) ?_ [' ']
      intro hempty
      exact intercalate_ne_empty hws hnil (String.toList_inj.mp hempty)

/-- Words that are joined have no blanks around them. -/
theorem trimBlanks_intercalate (h : ∀ w ∈ ws, IsWord w) :
    trimBlanks (" ".intercalate ws) = " ".intercalate ws := by
  have hnone : ∀ c ∈ ([] : List Char), isBlank c = true := by simp
  have htrim := Chars.trim_pads hnone hnone (trimmed_intercalate h)
  rw [List.nil_append, List.append_nil] at htrim
  rw [trimBlanks, htrim, String.ofList_toList]

end CommandShell
