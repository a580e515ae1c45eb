/-!
# Shortened texts

## Main definitions

* `truncate`: a text of limited length that ends in a suffix if something was cut off.
-/

namespace CommandShell

/-- Some characters up to a position; a negative one counts from the end. -/
def Chars.upTo (stop : Int) (cs : List Char) : List Char :=
  if 0 ≤ stop then cs.take stop.toNat else cs.take (cs.length - stop.natAbs)

/-- A text as it is if it has at most `limit` characters; else its beginning with a suffix, so that
both together have `limit` characters where the suffix leaves room. -/
def truncate (s : String) (limit : Int) (suffix : String) : String :=
  if (s.length : Int) ≤ limit then s
  else String.ofList (Chars.upTo (limit - suffix.length) s.toList) ++ suffix

end CommandShell
