/-!
# Splitting texts

A text is cut at every place where a character stands; the pieces may be empty, and there is always
one more of them than there are such places.

## Main definitions

* `splitText`: the pieces of a text.
-/

namespace CommandShell

/-- The pieces of a text between the places where a character stands. -/
def splitText (separator : Char) (s : String) : List String :=
  (s.toList.splitOn separator).map String.ofList

end CommandShell
