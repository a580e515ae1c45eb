import CommandShell.Line.Number
import CommandShell.Text.Blank

/-!
# Segments

A segment is a sequence of tokens: bare words, and flags `-name` or `--name` with an optional
`=value`, whose value may be quoted.  The words joined by single spaces are the path of a command.

## Main definitions

* `Token`: a word or a flag.
* `tokens`: the tokens of a segment.
* `Segment`: a command path and its flags with their values.
* `readSegment`: the segment that a text is.
-/

namespace CommandShell

/-- A token of a segment. -/
inductive Token where
  /-- A flag and the text of its value, if it has one. -/
  | flag (name : String) (raw : Option String)
  /-- A bare word. -/
  | word (text : String)
deriving DecidableEq, Repr

namespace Chars

/-- Whether a character can stand in the name of a flag. -/
def isFlagChar (c : Char) : Bool :=
  c.isAlphanum || c = '_' || c = '-'

/-- Whether a character belongs to a word. -/
def isWordChar (c : Char) : Bool :=
  !isBlank c

/-- The characters up to the next `q`, with `q` itself, if there is one. -/
def upTo? (q : Char) (cs : List Char) : Option (List Char × List Char) :=
  match cs.dropWhile (· ≠ q) with
  | [] => none
  | c :: rest => some (cs.takeWhile (· ≠ q) ++ [c], rest)

/-- The text of a flag's value after the equals sign, and the rest: a quoted text if it is closed,
else the characters up to the next blank, if there are any. -/
def flagValue? (cs : List Char) : Option (List Char × List Char) :=
  let plain := cs.takeWhile isWordChar
  let unquoted := if plain.isEmpty then none else some (plain, cs.dropWhile isWordChar)
  match cs with
  | c :: rest =>
    if c = '"' || c = '\'' then
      match upTo? c rest with
      | some (text, rest) => some (c :: text, rest)
      | none => unquoted
    else unquoted
  | [] => none

/-- The name of a flag after its first dash, and the rest.  A second dash belongs to the name only
if no other character could start it. -/
def flagName? (cs : List Char) : Option (List Char × List Char) :=
  let split (cs : List Char) := (cs.takeWhile isFlagChar, cs.dropWhile isFlagChar)
  match cs with
  | '-' :: c :: rest => some (if isFlagChar c then split (c :: rest) else split cs)
  | c :: _ => if isFlagChar c then some (split cs) else none
  | [] => none

/-- The token at the start of some characters that do not start with a blank, and the rest. -/
def nextToken (cs : List Char) : Token × List Char :=
  let word := (Token.word (String.ofList (cs.takeWhile isWordChar)), cs.dropWhile isWordChar)
  match cs with
  | '-' :: rest =>
    match flagName? rest with
    -- A dash that no name follows starts a word.
    | none => word
    | some (name, rest) =>
      let bare := (Token.flag (String.ofList name) none, rest)
      match rest with
      | '=' :: value =>
        match flagValue? value with
        | some (raw, rest) => (.flag (String.ofList name) (some (String.ofList raw)), rest)
        -- An equals sign without a value behind it does not belong to the flag.
        | none => bare
      | _ => bare
  | _ => word

/-! ### A token takes at least one character -/

theorem length_dropWhile_le (p : Char → Bool) (cs : List Char) :
    (cs.dropWhile p).length ≤ cs.length := by
  simpa using (List.dropWhile_sublist p (l := cs)).length_le

theorem length_upTo?_lt {q : Char} {cs text rest : List Char}
    (h : upTo? q cs = some (text, rest)) : rest.length < cs.length := by
  unfold upTo? at h
  have hle := length_dropWhile_le (· ≠ q) cs
  split at h
  · simp at h
  · next c r hd =>
    rw [hd] at hle
    simp only [Option.some.injEq, Prod.mk.injEq] at h
    obtain ⟨-, rfl⟩ := h
    simp only [List.length_cons] at hle
    omega

theorem length_flagValue?_le {cs raw rest : List Char}
    (h : flagValue? cs = some (raw, rest)) : rest.length ≤ cs.length := by
  have hplain := length_dropWhile_le isWordChar cs
  unfold flagValue? at h
  cases cs with
  | nil => simp at h
  | cons c r =>
    dsimp only at h
    split at h
    · split at h
      · next hq =>
        have := length_upTo?_lt hq
        simp only [Option.some.injEq, Prod.mk.injEq] at h
        obtain ⟨-, rfl⟩ := h
        simp only [List.length_cons]
        omega
      · split at h
        · simp at h
        · simp only [Option.some.injEq, Prod.mk.injEq] at h
          obtain ⟨-, rfl⟩ := h
          exact hplain
    · split at h
      · simp at h
      · simp only [Option.some.injEq, Prod.mk.injEq] at h
        obtain ⟨-, rfl⟩ := h
        exact hplain

theorem length_flagName?_le {cs name rest : List Char}
    (h : flagName? cs = some (name, rest)) : rest.length ≤ cs.length := by
  have hall := length_dropWhile_le isFlagChar cs
  unfold flagName? at h
  dsimp only at h
  split at h
  · next c r =>
    have htail := length_dropWhile_le isFlagChar (c :: r)
    simp only [Option.some.injEq] at h
    split at h
    · obtain ⟨-, rfl⟩ := Prod.mk.inj h
      simp only [List.length_cons] at *
      omega
    · obtain ⟨-, rfl⟩ := Prod.mk.inj h
      exact hall
  · split at h
    · simp only [Option.some.injEq, Prod.mk.injEq] at h
      obtain ⟨-, rfl⟩ := h
      exact hall
    · simp at h
  · simp at h

theorem length_nextToken_lt {c : Char} {cs : List Char} (hc : isBlank c = false) :
    (nextToken (c :: cs)).2.length < (c :: cs).length := by
  -- A word takes the first character at least.
  have hword : ((c :: cs).dropWhile isWordChar).length < (c :: cs).length := by
    have := length_dropWhile_le isWordChar cs
    have hw : isWordChar c = true := by simp [isWordChar, hc]
    simp only [List.dropWhile, hw, List.length_cons]
    omega
  unfold nextToken
  dsimp only
  split
  · next rest heq =>
    obtain ⟨rfl, rfl⟩ := List.cons.inj heq
    split
    · exact hword
    · next name r hname =>
      have hn := length_flagName?_le hname
      split
      · next value =>
        split
        · next raw r' hv =>
          have := length_flagValue?_le hv
          simp only [List.length_cons] at *
          omega
        · simp only [List.length_cons] at *
          omega
      · simp only [List.length_cons] at *
        omega
  · exact hword

/-- The tokens of some characters; blanks between them are skipped. -/
def tokens : List Char → List Token
  | [] => []
  | c :: cs =>
    if _hc : isBlank c then tokens cs
    else (nextToken (c :: cs)).1 :: tokens (nextToken (c :: cs)).2
termination_by cs => cs.length
decreasing_by
  · simp
  · exact length_nextToken_lt (by simp_all)

end Chars

/-- A text without a pair of equal quotes around it. -/
def stripQuotes (s : String) : String :=
  match s.toList with
  | q :: rest =>
    if (q = '"' || q = '\'') && rest.getLast? = some q then String.ofList rest.dropLast else s
  | [] => s

/-- A flag and its value. -/
structure Flag where
  /-- The name without dashes. -/
  name : String
  /-- The value; a flag given without one is true. -/
  value : Value

/-- A command path and the flags given with it. -/
structure Segment where
  /-- The bare words joined by single spaces. -/
  name : String
  /-- The flags in the order in which they were given. -/
  flags : List Flag

namespace Token

/-- The flag that a token is, if it is one. -/
def flag? : Token → Option Flag
  | flag name none => some ⟨name, .bool true⟩
  | flag name (some raw) => some ⟨name, coerce (stripQuotes raw)⟩
  | word _ => none

/-- The word that a token adds to the command path; a word that starts with a dash adds none. -/
def word? : Token → Option String
  | flag _ _ => none
  | word s => if s.startsWith "-" then none else some s

end Token

/-- The segment that a text is. -/
def readSegment (s : String) : Segment :=
  let ts := Chars.tokens s.toList
  ⟨" ".intercalate (ts.filterMap Token.word?), ts.filterMap Token.flag?⟩

/-- The flags of a segment as a map, in which later flags count. -/
def Segment.flagMap (s : Segment) : Entries Value :=
  Entries.ofPairs (s.flags.map fun f => (f.name, f.value))

end CommandShell
