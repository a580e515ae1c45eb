import CommandShell.Text.Printable

/-!
# Quoted texts

The written form of a text inside lists, maps and messages: between quotes, with escapes for the
backslash, the quote in use and every character that is not printable.  The quote is `'` unless the
text holds a `'` and no `"`.

## Main definitions

* `quoted`: a text in its written form.
-/

namespace CommandShell

namespace Chars

/-- The digit with a given value below sixteen, in lower case. -/
def hexDigit (n : Nat) : Char :=
  if n < 10 then Char.ofNat ('0'.toNat + n) else Char.ofNat ('a'.toNat + (n - 10))

/-- The last `width` hexadecimal digits of a number. -/
def hex : Nat → Nat → List Char
  | 0, _ => []
  | width + 1, n => hex width (n / 16) ++ [hexDigit (n % 16)]

/-- The quote that a text is written in. -/
def quoteFor (cs : List Char) : Char :=
  if cs.contains '\'' && !cs.contains '"' then '"' else '\''

/-- A character as it is written between two quotes `q`. -/
def quotedChar (q c : Char) : List Char :=
  if c = '\\' || c = q then ['\\', c]
  else if c = '\n' then ['\\', 'n']
  else if c = '\r' then ['\\', 'r']
  else if c = '\t' then ['\\', 't']
  else if isPrintable c then [c]
  else if c.toNat < 0x100 then '\\' :: 'x' :: hex 2 c.toNat
  else if c.toNat < 0x10000 then '\\' :: 'u' :: hex 4 c.toNat
  else '\\' :: 'U' :: hex 8 c.toNat

end Chars

/-- A text in its written form. -/
def quoted (s : String) : String :=
  let cs := s.toList
  let q := Chars.quoteFor cs
  String.ofList (q :: cs.flatMap (Chars.quotedChar q) ++ [q])

end CommandShell
