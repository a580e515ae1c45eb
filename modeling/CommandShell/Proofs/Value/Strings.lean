import CommandShell.Value.Json.Reader
import CommandShell.Value.Json.Writer

/-!
# Texts in JSON texts

A text is written as UTF-16 units, some of them as escapes, and read as these units again.  The
units of a character outside the first plane are a pair, and no character has a unit of a pair, so
the characters are found in their units.

## Main definitions

* `Json.unitsOf`: the UTF-16 units of a character.

## Main results

* `Json.readUnits_escapeChar`: a written character is read as its units.
* `Json.joinUnits_unitsOf`: the units of some characters are joined to these.
* `Json.readText_escaped`: a text is read as it is written.
-/

namespace CommandShell

namespace Json

variable {c : Char} {cs rest : List Char}

/-- The UTF-16 units of a character. -/
def unitsOf (c : Char) : List Nat :=
  if c.toNat < 0x10000 then [c.toNat]
  else [0xD800 + (c.toNat - 0x10000) / 0x400, 0xDC00 + (c.toNat - 0x10000) % 0x400]

/-- Some units in front of those that are read. -/
def withUnits (us : List Nat) (r : Except ReadError (List Nat × List Char)) :
    Except ReadError (List Nat × List Char) :=
  r.map fun p => (us ++ p.1, p.2)

theorem withUnits_withUnits (us vs : List Nat) (r : Except ReadError (List Nat × List Char)) :
    withUnits us (withUnits vs r) = withUnits (us ++ vs) r := by
  cases r with
  | error e => rfl
  | ok p => exact congrArg (fun ws => Except.ok (ws, p.2)) (List.append_assoc us vs p.1).symm

/-! ## Units -/

theorem hexValue?_hexDigit : ∀ n < 16, hexValue? (Chars.hexDigit n) = some n := by
  decide

theorem hex_four (n : Nat) : Chars.hex 4 n = [Chars.hexDigit (n / 4096 % 16),
    Chars.hexDigit (n / 256 % 16), Chars.hexDigit (n / 16 % 16), Chars.hexDigit (n % 16)] := by
  simp [Chars.hex, Nat.div_div_eq_div_mul]

theorem unit?_hex {n : Nat} (h : n < 0x10000) :
    unit? (Chars.hexDigit (n / 4096 % 16)) (Chars.hexDigit (n / 256 % 16))
      (Chars.hexDigit (n / 16 % 16)) (Chars.hexDigit (n % 16)) = some n := by
  unfold unit?
  rw [hexValue?_hexDigit _ (by omega), hexValue?_hexDigit _ (by omega),
    hexValue?_hexDigit _ (by omega), hexValue?_hexDigit _ (by omega)]
  refine congrArg some ?_
  show ((n / 4096 % 16 * 16 + n / 256 % 16) * 16 + n / 16 % 16) * 16 + n % 16 = n
  omega

theorem readUnits_unitEscape {n : Nat} (h : n < 0x10000) (rest : List Char) :
    readUnits (unitEscape n ++ rest) = withUnits [n] (readUnits rest) := by
  unfold unitEscape
  rw [hex_four]
  simp only [List.cons_append, List.nil_append, readUnits, unit?_hex h]
  rfl

theorem readUnits_escape {e : Char} (h : escape? e = some c) (rest : List Char) :
    readUnits ('\\' :: e :: rest) = withUnits [c.toNat] (readUnits rest) := by
  have hu : e ≠ 'u' := by
    rintro rfl
    cases h
  rw [readUnits.eq_def]
  split
  · rename_i heq
    cases heq
  · rename_i heq
    cases heq
  · rename_i heq
    exact absurd (List.cons.inj (List.cons.inj heq).2).1 hu
  · rename_i heq
    obtain ⟨rfl, rfl⟩ := List.cons.inj (List.cons.inj heq).2
    rw [h]
    rfl
  · rename_i hnone heq
    obtain ⟨rfl, rfl⟩ := List.cons.inj heq
    exact absurd rfl (hnone e rest rfl)

theorem readUnits_plain (hquote : c ≠ '"') (hslash : c ≠ '\\') (h : 0x20 ≤ c.toNat)
    (rest : List Char) : readUnits (c :: rest) = withUnits [c.toNat] (readUnits rest) := by
  rw [readUnits.eq_def]
  split
  · rename_i heq
    cases heq
  · rename_i heq
    exact absurd (List.cons.inj heq).1 hquote
  · rename_i heq
    exact absurd (List.cons.inj heq).1 hslash
  · rename_i heq
    exact absurd (List.cons.inj heq).1 hslash
  · rename_i heq
    obtain ⟨rfl, rfl⟩ := List.cons.inj heq
    have hplain : ¬(decide (c.toNat < 0x20) || decide (c = '\\')) = true := by
      simp [hslash, h]
    rw [if_neg hplain]
    rfl

/-- No character has a unit of a pair. -/
theorem not_surrogate (c : Char) : c.toNat < 0xD800 ∨ 0xE000 ≤ c.toNat ∧ c.toNat < 0x110000 := by
  rcases c.valid with h | h
  · exact Or.inl h
  · exact Or.inr ⟨h.1, h.2⟩

/-- A character outside the first plane is written as the escapes of a pair of units. -/
theorem escapeChar_of_le (h : 0x10000 ≤ c.toNat) :
    escapeChar c = unitEscape (0xD800 + (c.toNat - 0x10000) / 0x400) ++
      unitEscape (0xDC00 + (c.toNat - 0x10000) % 0x400) := by
  have hne : ∀ d : Char, d.toNat < 0x10000 → c ≠ d := by
    rintro d hd rfl
    exact absurd hd (Nat.not_lt.mpr h)
  unfold escapeChar
  rw [if_neg (hne _ (by decide)), if_neg (hne _ (by decide)), if_neg (hne _ (by decide)),
    if_neg (hne _ (by decide)), if_neg (hne _ (by decide)), if_neg (by omega),
    if_neg (by omega), if_neg (by omega), if_neg (by omega)]

/-- A character of the first plane is read as one unit, in whichever way it is written. -/
theorem readUnits_escapeChar_of_lt (h : c.toNat < 0x10000) (rest : List Char) :
    readUnits (escapeChar c ++ rest) = withUnits [c.toNat] (readUnits rest) := by
  unfold escapeChar
  -- The characters that have a short escape come first.
  split
  · subst c
    exact readUnits_escape rfl rest
  split
  · subst c
    exact readUnits_escape rfl rest
  split
  · subst c
    exact readUnits_escape rfl rest
  split
  · subst c
    exact readUnits_escape rfl rest
  split
  · subst c
    exact readUnits_escape rfl rest
  split
  · rename_i h8
    rw [h8]
    exact readUnits_escape (c := '\x08') rfl rest
  split
  · rename_i h12
    rw [h12]
    exact readUnits_escape (c := '\x0c') rfl rest
  -- A character that can be printed stands for itself, and all others are written as units.
  split
  · rename_i hquote hslash _ _ _ _ _ hplain
    exact readUnits_plain hquote hslash hplain.1 rest
  · exact readUnits_unitEscape h rest

/-- A written character is read as its units. -/
theorem readUnits_escapeChar (c : Char) (rest : List Char) :
    readUnits (escapeChar c ++ rest) = withUnits (unitsOf c) (readUnits rest) := by
  have htop := not_surrogate c
  by_cases hsmall : c.toNat < 0x10000
  · have hunits : unitsOf c = [c.toNat] := if_pos hsmall
    rw [hunits]
    exact readUnits_escapeChar_of_lt hsmall rest
  · have hunits : unitsOf c = [0xD800 + (c.toNat - 0x10000) / 0x400] ++
        [0xDC00 + (c.toNat - 0x10000) % 0x400] := if_neg hsmall
    rw [escapeChar_of_le (Nat.not_lt.mp hsmall), hunits, List.append_assoc,
      readUnits_unitEscape (by omega), readUnits_unitEscape (by omega), withUnits_withUnits]

theorem readUnits_flatMap (cs : List Char) (rest : List Char) :
    readUnits (cs.flatMap escapeChar ++ '"' :: rest) = .ok (cs.flatMap unitsOf, rest) := by
  induction cs with
  | nil => rfl
  | cons c cs ih =>
    rw [List.flatMap_cons, List.append_assoc, readUnits_escapeChar, ih]
    rfl

/-! ## Characters -/

theorem joinUnits_cons (h : c.toNat < 0x10000) (us : List Nat) :
    joinUnits (c.toNat :: us) = c :: joinUnits us := by
  have hplain : ¬(0xD800 ≤ c.toNat ∧ c.toNat < 0xE000) := by
    have := not_surrogate c
    omega
  cases us with
  | nil => simp only [joinUnits, if_neg hplain, Char.ofNat_toNat]
  | cons l us => rw [joinUnits, if_neg (by omega), if_neg hplain, Char.ofNat_toNat]

theorem joinUnits_pair (h : ¬c.toNat < 0x10000) (us : List Nat) :
    joinUnits ((0xD800 + (c.toNat - 0x10000) / 0x400) ::
      (0xDC00 + (c.toNat - 0x10000) % 0x400) :: us) = c :: joinUnits us := by
  have htop := not_surrogate c
  have hvalue : 0x10000 + (0xD800 + (c.toNat - 0x10000) / 0x400 - 0xD800) * 0x400 +
      (0xDC00 + (c.toNat - 0x10000) % 0x400 - 0xDC00) = c.toNat := by
    omega
  rw [joinUnits, if_pos (by omega), hvalue, Char.ofNat_toNat]

/-- The units of some characters are joined to these. -/
theorem joinUnits_unitsOf (cs : List Char) : joinUnits (cs.flatMap unitsOf) = cs := by
  induction cs with
  | nil => rfl
  | cons c cs ih =>
    rw [List.flatMap_cons]
    unfold unitsOf
    split
    · rename_i h
      exact (joinUnits_cons h _).trans (congrArg _ ih)
    · rename_i h
      exact (joinUnits_pair h _).trans (congrArg _ ih)

/-- A text is read as it is written. -/
theorem readText_escaped (s : String) (rest : List Char) :
    readText (s.toList.flatMap escapeChar ++ '"' :: rest) = .ok (s, rest) := by
  unfold readText
  rw [readUnits_flatMap]
  show Except.ok (String.ofList (joinUnits (s.toList.flatMap unitsOf)), rest) = _
  rw [joinUnits_unitsOf, String.ofList_toList]

end Json

end CommandShell
