/-!
# Markup

Printed texts may hold tags in square brackets.  A text that is not meant as markup is escaped: in
front of everything that would be read as a tag a backslash is put, and backslashes that stand
there already are doubled.

## Main definitions

* `escapeMarkup`: a text that is printed as it is.
* `coloured`: an escaped text between the two tags of a colour.
* `plainText`: a text as it is seen, without tags.
-/

namespace CommandShell

namespace Chars

/-- Whether a tag can start with a character. -/
def isTagStart (c : Char) : Bool :=
  ('a' ≤ c && c ≤ 'z') || c = '#' || c = '/' || c = '@'

/-- Whether the characters after an opening bracket complete a tag: its first character is a tag
start, and a closing bracket comes before the next opening one. -/
def completesTag : List Char → Bool
  | [] => false
  | c :: rest => isTagStart c && (rest.dropWhile fun d => d ≠ '[' && d ≠ ']').head? = some ']'

/-- The escaped form of some characters that follow `slashes` backslashes. -/
def escapeTagsAfter : Nat → List Char → List Char
  | slashes, [] => List.replicate slashes '\\'
  | slashes, c :: rest =>
    if c = '\\' then escapeTagsAfter (slashes + 1) rest
    else if c = '[' && completesTag rest then
      List.replicate (2 * slashes + 1) '\\' ++ c :: escapeTagsAfter 0 rest
    else List.replicate slashes '\\' ++ c :: escapeTagsAfter 0 rest

/-- Some characters with a single backslash at their end doubled. -/
def closeSlash (cs : List Char) : List Char :=
  match cs.reverse with
  | '\\' :: '\\' :: _ => cs
  | '\\' :: _ => cs ++ ['\\']
  | _ => cs

/-- What is seen of some characters that follow `slashes` backslashes; inside a tag, nothing is seen
up to its end. -/
def plainAfter : Bool → Nat → List Char → List Char
  | _, slashes, [] => List.replicate slashes '\\'
  | true, _, c :: rest => plainAfter (c ≠ ']') 0 rest
  | false, slashes, c :: rest =>
    if c = '\\' then plainAfter false (slashes + 1) rest
    else if c = '[' && completesTag rest then
      List.replicate (slashes / 2) '\\' ++
        if slashes % 2 = 1 then c :: plainAfter false 0 rest else plainAfter true 0 rest
    else List.replicate slashes '\\' ++ c :: plainAfter false 0 rest

end Chars

/-- A text that is printed as it is. -/
def escapeMarkup (s : String) : String :=
  String.ofList (Chars.closeSlash (Chars.escapeTagsAfter 0 s.toList))

/-- An escaped text between the two tags of a colour. -/
def coloured (color s : String) : String :=
  "[" ++ color ++ "]" ++ escapeMarkup s ++ "[/" ++ color ++ "]"

/-- A text as it is seen: tags are left out, and escaped ones are there. -/
def plainText (s : String) : String :=
  String.ofList (Chars.plainAfter false 0 s.toList)

end CommandShell
