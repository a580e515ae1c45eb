/-!
# Blank characters

The characters that separate words: the Unicode white space characters together with the four
information separators `U+001C` to `U+001F`.  Zero-width characters such as `U+200B` and `U+FEFF`
are not blank.

## Main definitions

* `isBlank`: the class of blank characters.
* `trimBlanks`: a text without the blanks at its two ends.
-/

namespace CommandShell

/-- Whether a character is blank. -/
def isBlank (c : Char) : Bool :=
  let n := c.toNat
  (0x09 ≤ n && n ≤ 0x0D) || (0x1C ≤ n && n ≤ 0x20) || n == 0x85 || n == 0xA0 || n == 0x1680 ||
    (0x2000 ≤ n && n ≤ 0x200A) || n == 0x2028 || n == 0x2029 || n == 0x202F || n == 0x205F ||
    n == 0x3000

/-- Every character that core calls white space is blank. -/
theorem isBlank_of_isWhitespace {c : Char} (h : c.isWhitespace = true) : isBlank c = true := by
  simp only [Char.isWhitespace, Bool.or_eq_true, decide_eq_true_eq] at h
  rcases h with ((rfl | rfl) | rfl) | rfl <;> rfl

namespace Chars

/-- The characters from the first one that is not blank. -/
def trimLeft (cs : List Char) : List Char :=
  cs.dropWhile isBlank

/-- The characters up to the last one that is not blank. -/
def trimRight (cs : List Char) : List Char :=
  (cs.reverse.dropWhile isBlank).reverse

/-- The characters between the first and the last one that are not blank. -/
def trim (cs : List Char) : List Char :=
  trimRight (trimLeft cs)

end Chars

/-- A text without the blanks at its two ends. -/
def trimBlanks (s : String) : String :=
  String.ofList (Chars.trim s.toList)

/-- Whether a text holds nothing but blanks. -/
def allBlank (s : String) : Bool :=
  s.toList.all isBlank

end CommandShell
