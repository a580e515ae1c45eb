import CommandShell.Text.CaseTable

/-!
# Letter case

Lower case and capitalised forms of whole texts by the full Unicode rules: a character may become
several, and a capital sigma at the end of a word becomes the final form `ς`.

## Main definitions

* `lowerCase`: a text in lower case.
* `capitalize`: a text with its first character in title case and the rest in lower case.
-/

namespace CommandShell

namespace Chars

/-- Whether a code lies in one of some inclusive ranges. -/
def inRanges (ranges : List (Nat × Nat)) (n : Nat) : Bool :=
  ranges.any fun r => r.1 ≤ n && n ≤ r.2

/-- Whether a character is skipped when the neighbours of a sigma are inspected. -/
def isCaseIgnorable (c : Char) : Bool :=
  inRanges caseIgnorableRanges c.toNat

/-- Whether a character is a letter with case. -/
def isCased (c : Char) : Bool :=
  if c.toNat < 0x80 then c.isAlpha else inRanges casedRanges c.toNat

/-- The image of a character under the first row that covers it. -/
def mapByRows (rows : List CaseRow) (c : Char) : Char :=
  match rows.find? (·.covers c.toNat) with
  | some row => Char.ofNat (Int.toNat (c.toNat + row.shift))
  | none => c

/-- Whether the nearest character that is not case-ignorable exists and is cased. -/
def meetsCased (cs : List Char) : Bool :=
  match cs.dropWhile isCaseIgnorable with
  | c :: _ => isCased c
  | [] => false

/-- The lower case of one character between its neighbours; `before` is given in reverse. -/
def lowerAt (before : List Char) (c : Char) (after : List Char) : List Char :=
  if c.toNat < 0x80 then [c.toLower]
  else if c = 'Σ' then
    if meetsCased before && !meetsCased after then ['ς'] else ['σ']
  else if c = 'İ' then ['i', '\u0307']
  else [mapByRows lowerRows c]

/-- The lower case of the characters that follow `before`, which is given in reverse. -/
def lowerAfter (before : List Char) : List Char → List Char
  | [] => []
  | c :: rest => lowerAt before c rest ++ lowerAfter (c :: before) rest

/-- The title case of one character. -/
def titleOf (c : Char) : List Char :=
  if c.toNat < 0x80 then [c.toUpper]
  else
    match titleExpansions.find? (·.1 == c.toNat) with
    | some (_, codes) => codes.map Char.ofNat
    | none => [mapByRows titleRows c]

end Chars

/-- A text in lower case. -/
def lowerCase (s : String) : String :=
  String.ofList (Chars.lowerAfter [] s.toList)

/-- A text with its first character in title case and the rest in lower case. -/
def capitalize (s : String) : String :=
  match s.toList with
  | [] => ""
  | c :: rest => String.ofList (Chars.titleOf c ++ Chars.lowerAfter [c] rest)

end CommandShell
