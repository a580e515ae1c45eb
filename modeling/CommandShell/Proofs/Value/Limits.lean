import CommandShell.Proofs.Text.Trim
import CommandShell.Value.Json.Reader

/-!
# The limits of reading JSON

Where a text is not read for another reason than that it does not follow the grammar, a limit of the
reader is exceeded, and the text itself shows it: more digits in a row than a whole number may have,
or more opening brackets than lists and maps may be nested.

The reader leaves the rest of the text that it has not come to yet, so whatever it meets later on
stands in the text from the start.

## Main definitions

* `Json.Exceeds`: a text exceeds the limit that an error tells.
* `Json.Proper`: what reading a part of a text gives leaves a rest of it, or its error is justified.
* `Json.WithinLimits`: a text has neither too many digits in a row nor too many brackets.

## Main results

* `Json.proper_readValue`: reading a value is proper.
* `Json.exceeds_of_read`: a text that is refused for a limit exceeds it.
* `Json.eq_malformed_of_withinLimits`: a text within the limits is refused only for the grammar.
-/

namespace CommandShell

namespace Json

/-- Whether a character opens a list or a map. -/
def isOpening (c : Char) : Bool :=
  c = '[' || c = '\x7b'

/-- Some characters exceed the limit that an error tells, where lists and maps may be nested `room`
deep. -/
def Exceeds (room : Nat) (cs : List Char) : ReadError → Prop
  | .malformed => True
  | .tooManyDigits n => maxDigits < n ∧
    ∃ ds, ds <:+: cs ∧ ds.length = n ∧ ∀ d ∈ ds, isAsciiDigit d = true
  | .tooDeep _ => room < cs.countP isOpening

/-- What reading the first of some characters gives leaves the rest of them, or its error is
justified by them. -/
def Proper {α : Type} (room : Nat) (cs : List Char) : Except ReadError (α × List Char) → Prop
  | .ok (_, rest) => rest <:+ cs
  | .error e => Exceeds room cs e

/-- A text has neither too many digits in a row nor too many brackets. -/
structure WithinLimits (cs : List Char) : Prop where
  digits : ∀ ds, ds <:+: cs → (∀ d ∈ ds, isAsciiDigit d = true) → ds.length ≤ maxDigits
  openings : cs.countP isOpening ≤ maxNesting

/-- A text that is not longer than the limits is within them. -/
theorem withinLimits_of_length_le {cs : List Char} (h : cs.length ≤ maxNesting) :
    WithinLimits cs where
  digits _ hds _ := hds.length_le.trans (h.trans (by decide))
  openings := List.countP_le_length.trans h

section Laws

variable {α β : Type} {room : Nat} {cs rest : List Char} {e : ReadError}
  {x : Except ReadError (α × List Char)} {f : α × List Char → Except ReadError (β × List Char)}

theorem Exceeds.of_suffix (h : Exceeds room rest e) (hrest : rest <:+ cs) : Exceeds room cs e := by
  cases e with
  | malformed => trivial
  | tooManyDigits n =>
    obtain ⟨hn, ds, hds, hlength, hdigits⟩ := h
    exact ⟨hn, ds, hds.trans hrest.isInfix, hlength, hdigits⟩
  | tooDeep kind => exact Nat.lt_of_lt_of_le h (hrest.sublist.countP_le)

/-- What is proper for a rest of some characters is proper for all of them. -/
theorem Proper.of_suffix (h : Proper room rest x) (hrest : rest <:+ cs) : Proper room cs x := by
  rcases x with e | ⟨a, rest'⟩
  · exact Exceeds.of_suffix h hrest
  · exact List.IsSuffix.trans h hrest

theorem Proper.bind (hx : Proper room cs x)
    (hf : ∀ a rest, rest <:+ cs → Proper room rest (f (a, rest))) : Proper room cs (x >>= f) := by
  rcases x with e | ⟨a, rest⟩
  · exact hx
  · exact (hf a rest hx).of_suffix hx

theorem proper_malformed : Proper (α := α) room cs (.error .malformed) :=
  trivial

theorem proper_pure (a : α) (rest : List Char) : Proper room rest (pure (a, rest)) :=
  List.suffix_refl rest

/-- Behind an opening bracket there is room for one less. -/
theorem Proper.behind_opening {c : Char} (hc : isOpening c = true) (h : Proper room rest x) :
    Proper (room + 1) (c :: rest) x := by
  have hsuffix : rest <:+ c :: rest := List.suffix_cons _ _
  rcases x with e | ⟨a, rest'⟩
  · cases e with
    | tooDeep kind =>
      show room + 1 < (c :: rest).countP isOpening
      rw [List.countP_cons_of_pos hc]
      exact Nat.succ_lt_succ h
    | malformed => trivial
    | tooManyDigits n =>
      have hexceeds : Exceeds (room + 1) rest (.tooManyDigits n) := h
      exact hexceeds.of_suffix hsuffix
  · exact List.IsSuffix.trans h hsuffix

end Laws

/-! ### Texts and scalars -/

variable {room fuel : Nat} {cs rest : List Char}

theorem skipSpace_suffix (cs : List Char) : skipSpace cs <:+ cs :=
  List.dropWhile_suffix _

theorem proper_readUnits (cs : List Char) : Proper room cs (readUnits cs) := by
  fun_induction readUnits cs with
  | case1 => exact proper_malformed
  | case2 rest => exact List.suffix_cons _ _
  | case3 a b c d rest n hn ih =>
    refine (ih.bind fun _ _ _ => ?_).of_suffix (List.suffix_append ['\\', 'u', a, b, c, d] rest)
    exact proper_pure _ _
  | case4 => exact proper_malformed
  | case5 e rest hne c hc ih =>
    refine (ih.bind fun _ _ _ => ?_).of_suffix (List.suffix_append ['\\', e] rest)
    exact proper_pure _ _
  | case6 => exact proper_malformed
  | case7 => exact proper_malformed
  | case8 c rest hquote hunit hescape hc ih =>
    refine (ih.bind fun _ _ _ => ?_).of_suffix (List.suffix_cons _ _)
    exact proper_pure _ _

theorem proper_readText (cs : List Char) : Proper room cs (readText cs) :=
  (proper_readUnits cs).bind fun _ _ _ => proper_pure _ _

theorem suffix_of_readFraction {fs : List Char} (h : readFraction cs = some (fs, rest)) :
    rest <:+ cs := by
  unfold readFraction at h
  split at h
  · rename_i c after
    split at h
    · obtain ⟨-, rfl⟩ := Prod.mk.inj (Option.some.inj h)
      exact (List.dropWhile_suffix _).trans (List.suffix_append ['.', c] after)
    · cases h
  · cases h

theorem suffix_of_readExponent {n : Int} (h : readExponent cs = some (n, rest)) :
    rest <:+ cs := by
  cases cs with
  | nil => cases h
  | cons c after =>
    -- The digits come behind a sign, or behind the letter.
    have hdigits : ∀ signed : Bool × List Char, signed.2 <:+ after →
        (if (signed.2.takeWhile isAsciiDigit).isEmpty then none
          else some (if signed.1 then -(digitsToNat (signed.2.takeWhile isAsciiDigit) : Int)
            else digitsToNat (signed.2.takeWhile isAsciiDigit),
            signed.2.dropWhile isAsciiDigit)) = some (n, rest) → rest <:+ c :: after := by
      intro signed hsigned h
      split at h
      · cases h
      · obtain ⟨-, rfl⟩ := Prod.mk.inj (Option.some.inj h)
        exact ((List.dropWhile_suffix _).trans hsigned).trans (List.suffix_cons _ _)
    unfold readExponent at h
    dsimp only at h
    split at h
    · refine hdigits _ ?_ h
      split
      · exact List.suffix_cons _ _
      · exact List.suffix_cons _ _
      · exact List.suffix_refl _
    · cases h

/-- The whole part of a number is made of digits, and the rest comes behind it. -/
theorem readWhole_spec {whole : List Char} (h : readWhole cs = some (whole, rest)) :
    whole ++ rest = cs ∧ ∀ d ∈ whole, isAsciiDigit d = true := by
  unfold readWhole at h
  split at h
  · obtain ⟨rfl, rfl⟩ := Prod.mk.inj (Option.some.inj h)
    exact ⟨rfl, List.forall_mem_singleton.mpr rfl⟩
  · rename_i c after _
    split at h
    · rename_i hc
      obtain ⟨rfl, rfl⟩ := Prod.mk.inj (Option.some.inj h)
      refine ⟨congrArg (c :: ·) List.takeWhile_append_dropWhile, ?_⟩
      exact List.forall_mem_cons.mpr ⟨hc, fun _ => List.mem_takeWhile_imp⟩
    · cases h
  · cases h

theorem proper_readNumber (negative : Bool) (cs : List Char) :
    Proper room cs (readNumber negative cs) := by
  unfold readNumber
  cases hread : readWhole cs with
  | none => exact proper_malformed
  | some found =>
    obtain ⟨whole, rest⟩ := found
    obtain ⟨rfl, hdigits⟩ := readWhole_spec hread
    have hfraction : ((readFraction rest).map (·.2)).getD rest <:+ rest := by
      cases h : readFraction rest with
      | none => exact List.suffix_refl _
      | some found => exact suffix_of_readFraction h
    dsimp only
    generalize ((readFraction rest).map (·.2)).getD rest = after at hfraction
    have hexponent : ((readExponent after).map (·.2)).getD after <:+ after := by
      cases h : readExponent after with
      | none => exact List.suffix_refl _
      | some found => exact suffix_of_readExponent h
    -- What is left stands behind all three parts, whichever of them are there.
    have hsuffix := (hexponent.trans hfraction).trans (List.suffix_append whole rest)
    split
    · split
      · exact ⟨‹_›, whole, (List.prefix_append _ _).isInfix, rfl, hdigits⟩
      · exact hsuffix
    · exact hsuffix

theorem proper_readScalar (cs : List Char) : Proper room cs (readScalar cs) := by
  unfold readScalar
  split
  · rename_i found hfound
    obtain ⟨⟨word, v⟩, -, hword⟩ := List.exists_of_findSome?_eq_some hfound
    obtain ⟨rest, hafter, rfl⟩ := Option.map_eq_some_iff.mp hword
    unfold afterWord? at hafter
    split at hafter
    · obtain rfl := Option.some.inj hafter
      exact List.drop_suffix _ _
    · cases hafter
  · split
    · exact (proper_readNumber true _).of_suffix (List.suffix_cons _ _)
    · exact proper_readNumber false _

/-! ### Values -/

theorem proper_tooDeep {α : Type} {c : Char} {kind : String} (hc : isOpening c = true) :
    Proper (α := α) 0 (c :: rest) (.error (.tooDeep kind)) := by
  show 0 < (c :: rest).countP isOpening
  rw [List.countP_cons_of_pos hc]
  exact Nat.succ_pos _

/-- A mark that stands behind some spaces leaves what follows it. -/
theorem suffix_of_mark {c : Char} {after : List Char} (h : skipSpace cs = c :: after) :
    after <:+ cs :=
  (List.suffix_cons c after).trans (h ▸ skipSpace_suffix cs)

theorem skipSpace_suffix_of_mark {c : Char} {after : List Char} (h : skipSpace cs = c :: after) :
    skipSpace after <:+ cs :=
  (skipSpace_suffix after).trans (suffix_of_mark h)

mutual

/-- Reading a value leaves a rest of the text, or fails for what the text shows. -/
theorem proper_readValue (fuel room : Nat) (cs : List Char) :
    Proper room cs (readValue fuel room cs) := by
  cases fuel with
  | zero => exact proper_malformed
  | succ fuel =>
    unfold readValue
    split
    · refine ((proper_readText _).bind fun _ _ _ => ?_).of_suffix (List.suffix_cons _ _)
      exact proper_pure _ _
    · exact proper_tooDeep (by decide)
    · refine Proper.behind_opening (by decide) ?_
      split
      · rename_i heq
        exact suffix_of_mark heq
      · refine ((proper_readItems fuel _ _).bind fun _ _ _ => ?_).of_suffix (skipSpace_suffix _)
        exact proper_pure _ _
    · exact proper_tooDeep (by decide)
    · refine Proper.behind_opening (by decide) ?_
      split
      · rename_i heq
        exact suffix_of_mark heq
      · refine ((proper_readEntries fuel _ _).bind fun _ _ _ => ?_).of_suffix (skipSpace_suffix _)
        exact proper_pure _ _
    · exact proper_readScalar _

theorem proper_readItems (fuel room : Nat) (cs : List Char) :
    Proper room cs (readItems fuel room cs) := by
  cases fuel with
  | zero => exact proper_malformed
  | succ fuel =>
    unfold readItems
    refine (proper_readValue fuel room cs).bind fun v rest _ => ?_
    dsimp only
    split
    · rename_i heq
      refine ((proper_readItems fuel room _).bind fun _ _ _ => ?_).of_suffix
        (skipSpace_suffix_of_mark heq)
      exact proper_pure _ _
    · rename_i heq
      exact suffix_of_mark heq
    · exact proper_malformed

theorem proper_readEntries (fuel room : Nat) (cs : List Char) :
    Proper room cs (readEntries fuel room cs) := by
  cases fuel with
  | zero => exact proper_malformed
  | succ fuel =>
    unfold readEntries
    split
    · refine ((proper_readText _).bind fun k rest _ => ?_).of_suffix (List.suffix_cons _ _)
      dsimp only
      split
      · rename_i heq
        refine ((proper_readValue fuel room _).bind fun v rest _ => ?_).of_suffix
          (skipSpace_suffix_of_mark heq)
        dsimp only
        split
        · rename_i heq
          refine ((proper_readEntries fuel room _).bind fun _ _ _ => ?_).of_suffix
            (skipSpace_suffix_of_mark heq)
          exact proper_pure _ _
        · rename_i heq
          exact suffix_of_mark heq
        · exact proper_malformed
      · exact proper_malformed
    · exact proper_malformed

end

/-- A text that is refused for a limit exceeds it. -/
theorem exceeds_of_read {s : String} {e : ReadError} (h : read s = .error e) :
    Exceeds maxNesting s.toList e := by
  have hproper := proper_readValue ((skipSpace s.toList).length + 1) maxNesting (skipSpace s.toList)
  suffices hexceeds : Exceeds maxNesting (skipSpace s.toList) e from
    hexceeds.of_suffix (skipSpace_suffix _)
  unfold read at h
  dsimp only at h
  cases hread : readValue ((skipSpace s.toList).length + 1) maxNesting (skipSpace s.toList) with
  | error e' =>
    rw [hread] at h hproper
    cases h
    exact hproper
  | ok found =>
    rw [hread] at h
    simp only [bind, Except.bind] at h
    split at h
    · cases h
    · cases h
      trivial

/-- A text within the limits is refused only where it does not follow the grammar. -/
theorem eq_malformed_of_withinLimits {s : String} {e : ReadError} (hs : WithinLimits s.toList)
    (h : read s = .error e) : e = .malformed := by
  have hexceeds := exceeds_of_read h
  cases e with
  | malformed => rfl
  | tooManyDigits n =>
    obtain ⟨hn, ds, hds, rfl, hdigits⟩ := hexceeds
    exact absurd (hs.digits ds hds hdigits) (Nat.not_le.mpr hn)
  | tooDeep kind => exact absurd hs.openings (Nat.not_le.mpr hexceeds)

end Json

end CommandShell
