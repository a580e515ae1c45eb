import CommandShell.Line.Segment
import CommandShell.Proofs.Line.Cutting
import CommandShell.Proofs.Line.Numeral

/-!
# Lines as they are written

A grammar of lines: commands with operators between them, where a command is a sequence of words and
flags with blanks between them.  The data of the grammar carry what makes them well-formed.  A line
that is written from such data is cut into its commands, and each of these is read as the words and
the typed flags it was written from.

## Main definitions

* `BareWord`, `FlagName`, `FlagText`, `WrittenItem`: the words and flags of a command.
* `Gap`, `Separated`: sequences with something between each two of their elements.
* `WrittenCommand`, `WrittenLine`: commands and lines with their texts.

## Main results

* `nextToken_item`, `flag?_token`, `word?_token`: an item is read as what it was written from.
* `readSegment_text`, `splitLine_text`: so are commands and lines.
* `splitLine_written`: both together.
-/

namespace CommandShell

/-! ## The grammar -/

/-- A character that is no blank, no quote and in no operator. -/
def IsPlain (c : Char) : Prop :=
  isBlank c = false ∧ c ∉ ['\'', '"', '&', '|', '>']

instance : DecidablePred IsPlain :=
  fun _ => inferInstanceAs (Decidable (_ ∧ _))

/-- A word without quotes and operators that does not start with a dash. -/
structure BareWord where
  /-- The characters of the word. -/
  chars : List Char
  ne_nil : chars ≠ []
  plain : ∀ c ∈ chars, IsPlain c
  no_dash : chars.head? ≠ some '-'

/-- The name of a flag. -/
structure FlagName where
  /-- The characters of the name. -/
  chars : List Char
  ne_nil : chars ≠ []
  named : ∀ c ∈ chars, c.isAlphanum = true ∨ c = '_' ∨ c = '-'

/-- What is written as the value of a flag. -/
inductive FlagText where
  /-- No value. -/
  | absent
  /-- A whole number that is not too long to be read. -/
  | int (n : Int) (short : (toString n.natAbs).length ≤ maxDigits)
  /-- A truth value. -/
  | bool (b : Bool)
  /-- A text between double quotes that would not be read as a number or a truth value. -/
  | text (s : String) (unquoted : '"' ∉ s.toList) (number : ¬ NumberLike s)
    (truth : s ≠ "true" ∧ s ≠ "false")

/-- A word or a flag of a command. -/
inductive WrittenItem where
  | word (w : BareWord)
  | flag (name : FlagName) (value : FlagText)

/-- Blanks between two items. -/
structure Gap where
  /-- The blanks. -/
  chars : List Char
  ne_nil : chars ≠ []
  blank : ∀ c ∈ chars, isBlank c = true

/-- A sequence of at least one element with a separator between each two of them. -/
inductive Separated (σ α : Type) where
  | last (x : α)
  | cons (x : α) (sep : σ) (rest : Separated σ α)

namespace Separated

variable {σ α : Type}

/-- The elements in their order. -/
def elements : Separated σ α → List α
  | last x => [x]
  | cons x _ rest => x :: rest.elements

/-- The characters of a sequence, from those of its elements and separators. -/
def chars (element : α → List Char) (separator : σ → List Char) : Separated σ α → List Char
  | last x => element x
  | cons x sep rest => element x ++ (separator sep ++ rest.chars element separator)

end Separated

/-- The characters behind the name of a flag. -/
def FlagText.chars : FlagText → List Char
  | absent => []
  | int n _ => '=' :: (toString n).toList
  | bool b => '=' :: (toString b).toList
  | text s _ _ _ => '=' :: '"' :: (s.toList ++ ['"'])

/-- The value that is written; a flag without one is true. -/
def FlagText.value : FlagText → Value
  | absent => .bool true
  | int n _ => .int n
  | bool b => .bool b
  | text s _ _ _ => .text s

namespace WrittenItem

/-- An item as it is written. -/
def chars : WrittenItem → List Char
  | word w => w.chars
  | flag name value => '-' :: '-' :: (name.chars ++ value.chars)

/-- The word that an item is, if it is one. -/
def word? : WrittenItem → Option String
  | word w => some (String.ofList w.chars)
  | flag _ _ => none

/-- The flag that an item is, if it is one. -/
def flag? : WrittenItem → Option Flag
  | word _ => none
  | flag name value => some ⟨String.ofList name.chars, value.value⟩

end WrittenItem

/-- A command: words and flags in any order with blanks between them. -/
abbrev WrittenCommand := Separated Gap WrittenItem

namespace WrittenCommand

/-- A command as it is written. -/
def text (c : WrittenCommand) : String :=
  String.ofList (c.chars WrittenItem.chars Gap.chars)

/-- The words of a command as its path, and its flags in their order. -/
def segment (c : WrittenCommand) : Segment :=
  ⟨" ".intercalate (c.elements.filterMap WrittenItem.word?), c.elements.filterMap WrittenItem.flag?⟩

end WrittenCommand

/-- A line: commands with operators between them. -/
abbrev WrittenLine := Separated Operator WrittenCommand

namespace WrittenLine

/-- A line as it is written, with a space on each side of an operator. -/
def text (l : WrittenLine) : String :=
  String.ofList (l.chars (fun c => c.text.toList) fun op => ' ' :: (op.symbol.toList ++ [' ']))

/-- The commands and operators of a line. -/
def parts : WrittenLine → List Part
  | .last c => [.segment c.text]
  | .cons c op rest => .segment c.text :: .operator op :: parts rest

end WrittenLine

/-! ## Characters of items -/

section Characters

variable {c : Char} {cs pad rest : List Char} {q : Quoting}

theorem isPlain_of_all (h : cs.all (decide <| IsPlain ·) = true) : ∀ c ∈ cs, IsPlain c :=
  fun c hc => of_decide_eq_true (List.all_eq_true.mp h c hc)

theorem isPlain_of_isAlphanum (h : c.isAlphanum = true) : IsPlain c := by
  have hrange : 48 ≤ c.toNat ∧ c.toNat ≤ 57 ∨ 65 ≤ c.toNat ∧ c.toNat ≤ 90 ∨
      97 ≤ c.toNat ∧ c.toNat ≤ 122 := by
    unfold Char.isAlphanum Char.isAlpha Char.isUpper Char.isLower Char.isDigit at h
    simp only [Bool.or_eq_true, Bool.and_eq_true, decide_eq_true_eq,
      UInt32.le_iff_toNat_le] at h
    have hval : c.toNat = c.val.toNat := rfl
    simp at h
    omega
  constructor
  · unfold isBlank
    simp
    omega
  · intro hmem
    have hcodes : c.toNat ∈ [39, 34, 38, 124, 62] := List.mem_map_of_mem hmem
    simp at hcodes
    omega

theorem isFlagChar_iff :
    Chars.isFlagChar c = true ↔ c.isAlphanum = true ∨ c = '_' ∨ c = '-' := by
  unfold Chars.isFlagChar
  simp [or_assoc]

theorem isPlain_of_isFlagChar (h : Chars.isFlagChar c = true) : IsPlain c := by
  rcases isFlagChar_iff.mp h with h | rfl | rfl
  · exact isPlain_of_isAlphanum h
  · decide
  · decide

theorem FlagName.isFlagChar (name : FlagName) : ∀ c ∈ name.chars, Chars.isFlagChar c = true :=
  fun c hc => isFlagChar_iff.mpr (name.named c hc)

theorem FlagName.isPlain (name : FlagName) : ∀ c ∈ name.chars, IsPlain c :=
  fun c hc => isPlain_of_isFlagChar (name.isFlagChar c hc)

theorem isPlain_toString (n : Int) : ∀ c ∈ (toString n).toList, IsPlain c := by
  intro c hc
  rw [Chars.toList_toString] at hc
  rcases List.mem_append.mp hc with hsign | hdigit
  · have hminus : c = '-' := by
      split at hsign <;> simp_all
    rw [hminus]
    decide
  · have hdigit := Nat.isDigit_of_mem_toDigits (by decide) (by decide) hdigit
    refine isPlain_of_isAlphanum ?_
    unfold Char.isAlphanum
    rw [hdigit, Bool.or_true]

theorem isPlain_toString_bool (b : Bool) : ∀ c ∈ (toString b).toList, IsPlain c := by
  refine isPlain_of_all ?_
  cases b <;> decide

/-! ## Items in a line -/

theorem Quoting.after_of_isPlain (h : IsPlain c) : Quoting.closed.after c = .closed := by
  have hsingle : c ≠ '\'' := by rintro rfl; exact absurd h.2 (by decide)
  have hdouble : c ≠ '"' := by rintro rfl; exact absurd h.2 (by decide)
  simp [Quoting.after, hsingle, hdouble]

theorem operatorAt?_of_isPlain (h : IsPlain c) : operatorAt? (c :: cs) = none :=
  operatorAt?_of_notMem fun hmem => h.2 (List.mem_cons_of_mem _ (List.mem_cons_of_mem _ hmem))

/-- Characters in front of which quotes are closed, among which no operator starts whatever comes
next, and behind which quotes are closed again. -/
def Transparent (cs : List Char) : Prop :=
  (∀ rest, Clear .closed cs rest) ∧ Quoting.closed.through cs = .closed

theorem Transparent.append {cs' : List Char} (h : Transparent cs) (h' : Transparent cs') :
    Transparent (cs ++ cs') := by
  refine ⟨fun rest => clear_append_iff.mpr ⟨h.1 _, ?_⟩, ?_⟩
  · rw [h.2]
    exact h'.1 rest
  · rw [Quoting.through_append, h.2, h'.2]

theorem transparent_of_isPlain (h : ∀ c ∈ cs, IsPlain c) : Transparent cs := by
  induction cs with
  | nil => exact ⟨fun _ => clear_nil, rfl⟩
  | cons c cs ih =>
    have hc := h c List.mem_cons_self
    obtain ⟨hclear, hthrough⟩ := ih fun d hd => h d (List.mem_cons_of_mem _ hd)
    constructor
    · intro rest
      rw [clear_cons_iff, Quoting.after_of_isPlain hc]
      exact ⟨fun _ => operatorAt?_of_isPlain hc, hclear rest⟩
    · rw [Quoting.through_cons, Quoting.after_of_isPlain hc, hthrough]

theorem Gap.transparent (g : Gap) : Transparent g.chars :=
  ⟨fun _ => clear_of_blank g.blank, Quoting.through_of_blank g.blank⟩

/-- Between double quotes nothing but a double quote counts. -/
theorem clear_double (h : '"' ∉ cs) :
    (∀ rest, Clear .double cs rest) ∧ Quoting.double.through cs = .double := by
  induction cs with
  | nil => exact ⟨fun _ => clear_nil, rfl⟩
  | cons c cs ih =>
    have hc : Quoting.double.after c = .double := if_neg fun hc => h (by simp [hc])
    obtain ⟨hclear, hthrough⟩ := ih fun hmem => h (List.mem_cons_of_mem _ hmem)
    constructor
    · intro rest
      rw [clear_cons_iff, hc]
      exact ⟨fun hclosed => absurd hclosed (by decide), hclear rest⟩
    · rw [Quoting.through_cons, hc, hthrough]

/-- A quoted text hides its operators and single quotes. -/
theorem transparent_quoted (h : '"' ∉ cs) : Transparent ('"' :: (cs ++ ['"'])) := by
  obtain ⟨hclear, hthrough⟩ := clear_double h
  constructor
  · intro rest
    rw [clear_cons_iff, clear_append_iff]
    refine ⟨fun _ => rfl, hclear _, ?_⟩
    show Clear (Quoting.double.through cs) ['"'] rest
    rw [hthrough, clear_cons_iff]
    exact ⟨fun hclosed => absurd hclosed (by decide), clear_nil⟩
  · show (Quoting.double.through (cs ++ ['"'])) = .closed
    rw [Quoting.through_append, hthrough]
    rfl

theorem FlagText.transparent (value : FlagText) : Transparent value.chars := by
  have hequals : ∀ cs : List Char, (∀ c ∈ cs, IsPlain c) → Transparent ('=' :: cs) := by
    intro cs h
    refine transparent_of_isPlain (List.forall_mem_cons.mpr ⟨by decide, h⟩)
  cases value with
  | absent => exact ⟨fun _ => clear_nil, rfl⟩
  | int n _ => exact hequals _ (isPlain_toString n)
  | bool b => exact hequals _ (isPlain_toString_bool b)
  | text s unquoted _ _ => exact (hequals [] (by simp)).append (transparent_quoted unquoted)

theorem WrittenItem.transparent (item : WrittenItem) : Transparent item.chars := by
  cases item with
  | word w => exact transparent_of_isPlain w.plain
  | flag name value =>
    have hdashes : ∀ c ∈ ['-', '-'], IsPlain c := isPlain_of_all (by decide)
    have hname := (transparent_of_isPlain hdashes).append (transparent_of_isPlain name.isPlain)
    exact hname.append value.transparent

theorem WrittenItem.chars_ne_nil (item : WrittenItem) : item.chars ≠ [] := by
  cases item with
  | word w => exact w.ne_nil
  | flag name value => exact List.cons_ne_nil _ _

theorem last_of_isPlain (h : ∀ c ∈ cs, IsPlain c) : ∀ c ∈ cs.getLast?, isBlank c = false :=
  fun c hc => (h c (List.mem_of_getLast? hc)).1

/-- A value ends with a plain character or with its quote. -/
theorem FlagText.last (value : FlagText) : ∀ c ∈ value.chars.getLast?, isBlank c = false := by
  have hequals : ∀ cs : List Char, (∀ c ∈ cs, IsPlain c) →
      ∀ c ∈ ('=' :: cs).getLast?, isBlank c = false := by
    intro cs h
    exact last_of_isPlain (List.forall_mem_cons.mpr ⟨by decide, h⟩)
  cases value with
  | absent =>
    rintro c ⟨⟩
  | int n _ => exact hequals _ (isPlain_toString n)
  | bool b => exact hequals _ (isPlain_toString_bool b)
  | text s _ _ _ =>
    intro c hc
    have hchars : FlagText.chars (.text s ‹_› ‹_› ‹_›) = ('=' :: '"' :: s.toList) ++ ['"'] := rfl
    rw [hchars, List.getLast?_append] at hc
    cases hc
    decide

theorem WrittenItem.trimmed (item : WrittenItem) : Chars.Trimmed item.chars := by
  cases item with
  | word w =>
    exact ⟨fun c hc => (w.plain c (List.mem_of_mem_head? hc)).1, last_of_isPlain w.plain⟩
  | flag name value =>
    constructor
    · rintro c ⟨⟩
      decide
    · intro c hc
      have hchars : (WrittenItem.flag name value).chars =
          ('-' :: '-' :: name.chars) ++ value.chars := rfl
      have hname : ∀ c ∈ '-' :: '-' :: name.chars, IsPlain c :=
        List.forall_mem_cons.mpr ⟨by decide, List.forall_mem_cons.mpr ⟨by decide, name.isPlain⟩⟩
      rw [hchars, List.getLast?_append] at hc
      -- What is written last is the last character of the value, or of the name if there is none.
      cases hlast : value.chars.getLast? with
      | none =>
        rw [hlast] at hc
        exact last_of_isPlain hname c hc
      | some d =>
        rw [hlast] at hc
        cases hc
        exact value.last c hlast

end Characters

/-! ## Cutting a written line -/

section Cutting

theorem WrittenCommand.trimmed (c : WrittenCommand) :
    c.text.toList ≠ [] ∧ Chars.Trimmed c.text.toList ∧ Transparent c.text.toList := by
  unfold WrittenCommand.text
  rw [String.toList_ofList]
  induction c with
  | last item => exact ⟨item.chars_ne_nil, item.trimmed, item.transparent⟩
  | cons item gap rest ih =>
    obtain ⟨hne, htrimmed, htransparent⟩ := ih
    refine ⟨?_, item.trimmed.append item.chars_ne_nil htrimmed hne gap.chars,
      item.transparent.append (gap.transparent.append htransparent)⟩
    exact List.append_ne_nil_of_left_ne_nil item.chars_ne_nil _

theorem WrittenCommand.isSegmentText (c : WrittenCommand) :
    IsSegmentText c.text.toList ∧ Transparent c.text.toList := by
  obtain ⟨hne, htrimmed, htransparent⟩ := c.trimmed
  exact ⟨⟨hne, htrimmed, htransparent.1 []⟩, htransparent⟩

theorem WrittenLine.canonical_parts (l : WrittenLine) : Canonical l.parts := by
  induction l with
  | last c => exact canonical_segment_iff.mpr c.isSegmentText.1
  | cons c op rest ih =>
    obtain ⟨htext, htransparent⟩ := c.isSegmentText
    exact canonical_segment_operator_iff.mpr ⟨htext, htransparent.2, ih⟩

/-- A line is written as its parts are joined. -/
theorem WrittenLine.text_eq_joinParts (l : WrittenLine) : l.text = joinParts l.parts := by
  refine String.toList_inj.mp ?_
  unfold WrittenLine.text
  rw [String.toList_ofList]
  induction l with
  | last c => rw [parts, joinParts_cons, if_pos rfl, List.append_nil]; rfl
  | cons c op rest ih =>
    have hne : parts rest ≠ [] := by cases rest <;> simp [parts]
    rw [Separated.chars, ih, parts, joinParts_cons, if_neg (by simp), joinParts_cons, if_neg hne]
    simp [Part.text]

theorem splitLine_text (l : WrittenLine) : splitLine l.text = l.parts := by
  have hpad : ∀ c ∈ ([] : List Char), isBlank c = true := by simp
  rw [l.text_eq_joinParts]
  exact splitFrom_join l.canonical_parts hpad

end Cutting

/-! ## Reading a written command -/

/-- The text of a value as it is found behind the name of a flag, with its quotes. -/
def FlagText.raw? : FlagText → Option String
  | absent => none
  | int n _ => some (toString n)
  | bool b => some (toString b)
  | text s _ _ _ => some (String.ofList ('"' :: (s.toList ++ ['"'])))

theorem FlagText.eq_absent {value : FlagText} (h : value.raw? = none) : value = absent := by
  cases value with
  | absent => rfl
  | int | bool | text => cases h

/-- The token that an item is. -/
def WrittenItem.token : WrittenItem → Token
  | word w => .word (String.ofList w.chars)
  | flag name value => .flag (String.ofList name.chars) value.raw?

section Reading

variable {c : Char} {cs rest : List Char}

/-- Plain characters make a word up to the next blank. -/
theorem scan_word (hplain : ∀ c ∈ cs, IsPlain c) (hrest : ∀ c ∈ rest.head?, isBlank c = true) :
    (cs ++ rest).takeWhile Chars.isWordChar = cs ∧
      (cs ++ rest).dropWhile Chars.isWordChar = rest := by
  refine Chars.scan_append (fun c hc => ?_) fun c hc => ?_
  · unfold Chars.isWordChar
    rw [(hplain c hc).1]
    rfl
  · unfold Chars.isWordChar
    rw [hrest c hc]
    rfl

theorem flagValue?_plain (hplain : ∀ c ∈ cs, IsPlain c) (hne : cs ≠ [])
    (hrest : ∀ c ∈ rest.head?, isBlank c = true) :
    Chars.flagValue? (cs ++ rest) = some (cs, rest) := by
  obtain ⟨htake, hdrop⟩ := scan_word hplain hrest
  obtain ⟨c, cs, rfl⟩ := List.exists_cons_of_ne_nil hne
  have hc := hplain c List.mem_cons_self
  have hquote : ¬ (c = '"' ∨ c = '\'') := by
    rintro (rfl | rfl) <;> exact absurd hc (by decide)
  unfold Chars.flagValue?
  rw [htake, hdrop]
  simp [hquote]

theorem flagValue?_quoted (h : '"' ∉ cs) :
    Chars.flagValue? ('"' :: (cs ++ '"' :: rest)) = some ('"' :: (cs ++ ['"']), rest) := by
  have hinside : ∀ c ∈ cs, decide (c ≠ '"') = true := by
    intro c hc
    refine decide_eq_true ?_
    rintro rfl
    exact h hc
  have hend : ∀ c ∈ ('"' :: rest).head?, decide (c ≠ '"') = false := by
    rintro c ⟨⟩
    rfl
  obtain ⟨htake, hdrop⟩ := Chars.scan_append hinside hend
  have hupTo : Chars.upTo? '"' (cs ++ '"' :: rest) = some (cs ++ ['"'], rest) := by
    unfold Chars.upTo?
    rw [htake, hdrop]
  unfold Chars.flagValue?
  simp [hupTo]

/-- A value is found behind its equals sign. -/
theorem flagValue?_chars {value : FlagText} {raw : String} (hraw : value.raw? = some raw)
    (hrest : ∀ c ∈ rest.head?, isBlank c = true) :
    ∃ cs, value.chars = '=' :: cs ∧ Chars.flagValue? (cs ++ rest) = some (raw.toList, rest) := by
  cases value with
  | absent => cases hraw
  | int n _ =>
    cases hraw
    have hne : (toString n).toList ≠ [] := by
      rw [Chars.toList_toString]
      exact List.append_ne_nil_of_right_ne_nil _ Nat.toDigits_ne_nil
    exact ⟨_, rfl, flagValue?_plain (isPlain_toString n) hne hrest⟩
  | bool b =>
    cases hraw
    have hne : (toString b).toList ≠ [] := by cases b <;> decide
    exact ⟨_, rfl, flagValue?_plain (isPlain_toString_bool b) hne hrest⟩
  | text s unquoted _ _ =>
    cases hraw
    refine ⟨_, rfl, ?_⟩
    rw [List.cons_append, List.append_assoc, String.toList_ofList]
    exact flagValue?_quoted unquoted

/-- The name of a flag ends where its value begins, or at a blank. -/
theorem flagName?_name (name : FlagName) (hrest : ∀ c ∈ rest.head?, Chars.isFlagChar c = false) :
    Chars.flagName? ('-' :: (name.chars ++ rest)) = some (name.chars, rest) := by
  obtain ⟨htake, hdrop⟩ := Chars.scan_append name.isFlagChar hrest
  obtain ⟨c, cs, hchars⟩ := List.exists_cons_of_ne_nil name.ne_nil
  have hc : Chars.isFlagChar c = true := name.isFlagChar c (by simp [hchars])
  rw [hchars, List.cons_append] at htake hdrop
  rw [hchars, List.cons_append]
  unfold Chars.flagName?
  simp only [hc, if_true]
  rw [htake, hdrop]

theorem nextToken_word (h : cs.head? ≠ some '-') :
    Chars.nextToken cs =
      (.word (String.ofList (cs.takeWhile Chars.isWordChar)), cs.dropWhile Chars.isWordChar) := by
  unfold Chars.nextToken
  dsimp only
  split
  · exact absurd rfl h
  · rfl

theorem nextToken_bare {name : List Char} (hname : Chars.flagName? cs = some (name, rest))
    (hrest : rest.head? ≠ some '=') :
    Chars.nextToken ('-' :: cs) = (.flag (String.ofList name) none, rest) := by
  unfold Chars.nextToken
  simp only [hname]
  split
  · exact absurd rfl hrest
  · rfl

theorem nextToken_value {name value raw : List Char}
    (hname : Chars.flagName? cs = some (name, '=' :: value))
    (hvalue : Chars.flagValue? value = some (raw, rest)) :
    Chars.nextToken ('-' :: cs) =
      (.flag (String.ofList name) (some (String.ofList raw)), rest) := by
  unfold Chars.nextToken
  simp only [hname, hvalue]

theorem nextToken_item (item : WrittenItem) (hrest : ∀ c ∈ rest.head?, isBlank c = true) :
    Chars.nextToken (item.chars ++ rest) = (item.token, rest) := by
  cases item with
  | word w =>
    obtain ⟨htake, hdrop⟩ := scan_word w.plain hrest
    have hdash : (w.chars ++ rest).head? ≠ some '-' := by
      obtain ⟨c, cs, hchars⟩ := List.exists_cons_of_ne_nil w.ne_nil
      have hc := w.no_dash
      rw [hchars] at hc ⊢
      exact hc
    rw [WrittenItem.chars, nextToken_word hdash, htake, hdrop]
    rfl
  | flag name value =>
    have hchars : (WrittenItem.flag name value).chars ++ rest =
        '-' :: '-' :: (name.chars ++ (value.chars ++ rest)) := by
      simp [WrittenItem.chars]
    rw [hchars]
    cases hraw : value.raw? with
    | none =>
      have hvalue : value.chars = [] := by
        rw [FlagText.eq_absent hraw]
        rfl
      -- A blank follows, which neither goes on with the name nor starts a value.
      have hend : ∀ c ∈ rest.head?, Chars.isFlagChar c = false ∧ c ≠ '=' := by
        intro c hc
        have hblank := hrest c hc
        constructor
        · by_contra hflag
          have hplain := isPlain_of_isFlagChar (by simpa using hflag)
          exact absurd (hplain.1.symm.trans hblank) (by decide)
        · rintro rfl
          exact absurd hblank (by decide)
      rw [hvalue, List.nil_append,
        nextToken_bare (flagName?_name name fun c hc => (hend c hc).1) fun h => (hend _ h).2 rfl]
      rw [WrittenItem.token, hraw]
    | some raw =>
      obtain ⟨cs, hvalue, hread⟩ := flagValue?_chars hraw hrest
      have hend : ∀ c ∈ ('=' :: (cs ++ rest)).head?, Chars.isFlagChar c = false := by
        rintro c ⟨⟩
        decide
      rw [hvalue, List.cons_append, nextToken_value (flagName?_name name hend) hread,
        WrittenItem.token, hraw, String.ofList_toList]

/-! ### Words and flags -/

theorem startsWith_dash (s : String) : s.startsWith "-" = true ↔ s.toList.head? = some '-' := by
  rw [String.startsWith_string_iff]
  constructor
  · rintro ⟨cs, hcs⟩
    rw [← hcs]
    rfl
  · intro h
    obtain ⟨cs, hcs⟩ := List.head?_eq_some_iff.mp h
    exact ⟨cs, hcs.symm⟩

theorem word?_token (item : WrittenItem) : item.token.word? = item.word? := by
  cases item with
  | word w =>
    have hdash : ¬ (String.ofList w.chars).startsWith "-" = true := by
      rw [startsWith_dash, String.toList_ofList]
      exact w.no_dash
    exact if_neg hdash
  | flag name value => rfl

theorem stripQuotes_plain {s : String} (h : ∀ c ∈ s.toList, IsPlain c) : stripQuotes s = s := by
  unfold stripQuotes
  split
  · rename_i q rest heq
    have hq : ¬ (q = '"' ∨ q = '\'') := by
      have hplain := h q (by simp [heq])
      rintro (rfl | rfl) <;> exact absurd hplain (by decide)
    simp [hq]
  · rfl

theorem stripQuotes_quoted (cs : List Char) :
    stripQuotes (String.ofList ('"' :: (cs ++ ['"']))) = String.ofList cs := by
  unfold stripQuotes
  rw [String.toList_ofList]
  simp

/-- What is written as the value of a flag is what its text stands for. -/
theorem coerce_raw {value : FlagText} {raw : String} (h : value.raw? = some raw) :
    coerce (stripQuotes raw) = value.value := by
  cases value with
  | absent => cases h
  | int n short =>
    cases h
    rw [stripQuotes_plain (isPlain_toString n)]
    unfold coerce
    rw [number?_toString n short]
    rfl
  | bool b =>
    cases h
    rw [stripQuotes_plain (isPlain_toString_bool b)]
    have hnone : number? (toString b) = none := by
      refine Option.not_isSome_iff_eq_none.mp ?_
      cases b <;> decide +kernel
    unfold coerce
    rw [hnone]
    cases b <;> rfl
  | text s unquoted number truth =>
    cases h
    -- The text is none that reads as a number or a truth value.
    have hnone : number? s = none :=
      Option.not_isSome_iff_eq_none.mp (mt (isSome_number?_iff s).mp number)
    rw [stripQuotes_quoted, String.ofList_toList]
    unfold coerce
    rw [hnone]
    simp [truth, FlagText.value]

theorem flag?_token (item : WrittenItem) : item.token.flag? = item.flag? := by
  cases item with
  | word w => rfl
  | flag name value =>
    cases hraw : value.raw? with
    | none =>
      obtain rfl := FlagText.eq_absent hraw
      rfl
    | some raw =>
      show (Token.flag (String.ofList name.chars) value.raw?).flag? =
        some ⟨String.ofList name.chars, value.value⟩
      rw [hraw, ← coerce_raw hraw]
      rfl

/-! ### Whole commands -/

theorem tokens_blank (h : ∀ c ∈ cs, isBlank c = true) :
    Chars.tokens (cs ++ rest) = Chars.tokens rest := by
  induction cs with
  | nil => rfl
  | cons c cs ih =>
    rw [List.cons_append, Chars.tokens, dif_pos (h c List.mem_cons_self)]
    exact ih fun d hd => h d (List.mem_cons_of_mem _ hd)

theorem tokens_item (item : WrittenItem) (hrest : ∀ c ∈ rest.head?, isBlank c = true) :
    Chars.tokens (item.chars ++ rest) = item.token :: Chars.tokens rest := by
  have htoken := nextToken_item item hrest
  obtain ⟨c, cs, hchars⟩ := List.exists_cons_of_ne_nil item.chars_ne_nil
  have hblank : isBlank c = false := item.trimmed.head c (by simp [hchars])
  rw [hchars, List.cons_append] at htoken ⊢
  rw [Chars.tokens, dif_neg (by simp [hblank]), htoken]

theorem tokens_text (c : WrittenCommand) :
    Chars.tokens c.text.toList = c.elements.map WrittenItem.token := by
  unfold WrittenCommand.text
  rw [String.toList_ofList]
  induction c with
  | last item =>
    have htokens : Chars.tokens (item.chars ++ []) = _ := tokens_item item (by simp)
    rw [List.append_nil, Chars.tokens] at htokens
    exact htokens
  | cons item gap rest ih =>
    have hgap : ∀ c ∈ (gap.chars ++ Separated.chars WrittenItem.chars Gap.chars rest).head?,
        isBlank c = true := by
      obtain ⟨d, ds, hchars⟩ := List.exists_cons_of_ne_nil gap.ne_nil
      rw [hchars]
      rintro c ⟨⟩
      exact gap.blank d (by simp [hchars])
    rw [Separated.chars, tokens_item item hgap, tokens_blank gap.blank, ih]
    rfl

theorem readSegment_text (c : WrittenCommand) : readSegment c.text = c.segment := by
  unfold readSegment
  dsimp only
  rw [tokens_text, List.filterMap_map, List.filterMap_map]
  have hwords : Token.word? ∘ WrittenItem.token = WrittenItem.word? := funext word?_token
  have hflags : Token.flag? ∘ WrittenItem.token = WrittenItem.flag? := funext flag?_token
  rw [hwords, hflags]
  rfl

end Reading

/-- A line is cut into the commands and operators it was written from, and each of its commands is
read as its words with single spaces between them and its flags in their order. -/
theorem splitLine_written (l : WrittenLine) :
    splitLine l.text = l.parts ∧ ∀ c ∈ l.elements, readSegment c.text = c.segment :=
  ⟨splitLine_text l, fun c _ => readSegment_text c⟩

/-- A flag between two words, with an operator and single quotes inside its quoted value. -/
example :
    let gap : Gap := ⟨[' ', '\t'], by decide, List.all_eq_true.mp (by decide)⟩
    let echo : WrittenItem :=
      .word ⟨['e', 'c', 'h', 'o'], by decide, isPlain_of_all (by decide), by decide⟩
    let name : FlagName := ⟨['m', '-'], by decide, by simp⟩
    let value : FlagText := .text "'a && b" (by decide) (by decide +kernel) (by decide)
    let count : FlagText := .int (-7) (by decide +kernel)
    let l : WrittenLine := .cons (.cons echo gap (.last (.flag name value))) .append
      (.last (.cons (.flag name count) gap (.last echo)))
    l.text = "echo \t--m-=\"'a && b\" >> --m-=-7 \techo" := by
  decide +kernel

end CommandShell
