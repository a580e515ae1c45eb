import CommandShell.Proofs.State.Values
import CommandShell.Proofs.Value.Scalars
import CommandShell.Proofs.Value.Strings
import CommandShell.Value.Json.Encoder

/-!
# What is encoded is read back

The text of a value that is not refused is read as the value, or rather as what the value reads as
once it is held: a map has every key once then.  The text of a value is read up to its end, whatever
mark follows, and this goes from the parts of a list or map to the whole.  It does not matter how
the text is laid out.

## Main definitions

* `Json.Piece.refusal?`: why a piece is refused.
* `Json.textAt`: the characters that a value is written as.
* `Json.itemsText`, `Json.entriesText`: those of what stands between two brackets.

## Main results

* `Json.refusal?_eq_none_iff`: a value is refused for its pieces or for how deep it is nested.
* `Json.readValue_textAt`: what is written of a value is read, whatever mark follows.
* `Json.read_textAt`: the text of a value is read as the value.
* `Json.read_of_encode`: a text that a value is encoded as is read as the value.
-/

namespace CommandShell

open Value (held heldItems heldEntries)

/-- Holding a value leaves floating-point numbers as they are: there is only one that is not a
number. -/
theorem Value.held_float (x : Float) : (Value.float x).held = .float x := by
  obtain ⟨-, -, -, -, hnan⟩ := Json.fields_special
  rw [held]
  split
  · rename_i h
    obtain ⟨hexponent, hfraction⟩ := DoubleFields.not_number_of_isNaN h
    have hx : x = 0.0 / 0.0 := by
      refine DoubleFields.eq_of_not_number hexponent hfraction ?_ ?_
      · rw [hnan]
      · rw [hnan]
        norm_num
    rw [hx]
  · rfl

namespace Json

variable {v : Value} {items : List Value} {entries : List (String × Value)} {ps : List Piece}
  {room fuel : Nat} {c : Char} {cs rest : List Char}

/-! ## What is refused -/

mutual

/-- What is not refused can be expressed. -/
theorem isExpressible_of_refusal? {room : Nat} {v : Value} (h : refusal? room v = none) :
    v.isExpressible = true := by
  cases v with
  | foreign shown => cases h
  | list items =>
    cases room with
    | zero => cases h
    | succ room => exact allExpressible_of_itemsRefusal? h
  | map entries =>
    cases room with
    | zero => cases h
    | succ room => exact entriesExpressible_of_entriesRefusal? h
  | _ => rfl

theorem allExpressible_of_itemsRefusal? {room : Nat} {items : List Value}
    (h : itemsRefusal? room items = none) : Value.allExpressible items = true := by
  cases items with
  | nil => rfl
  | cons v items =>
    rw [itemsRefusal?, Option.or_eq_none_iff] at h
    rw [Value.allExpressible, Bool.and_eq_true]
    exact ⟨isExpressible_of_refusal? h.1, allExpressible_of_itemsRefusal? h.2⟩

theorem entriesExpressible_of_entriesRefusal? {room : Nat} {entries : List (String × Value)}
    (h : entriesRefusal? room entries = none) : Value.entriesExpressible entries = true := by
  cases entries with
  | nil => rfl
  | cons e entries =>
    obtain ⟨k, v⟩ := e
    rw [entriesRefusal?, Option.or_eq_none_iff] at h
    rw [Value.entriesExpressible, Bool.and_eq_true]
    exact ⟨isExpressible_of_refusal? h.1, entriesExpressible_of_entriesRefusal? h.2⟩

end

/-! ## The text of pieces -/

/-- Why a piece is refused, if it is. -/
def Piece.refusal? : Piece → Option WriteError
  | .json _ => none
  | .number _ n => numberRefusal? n
  | .foreign shown => some (.notEncodable (Value.foreign shown).kind)

@[simp] theorem Piece.refusal?_json (s : String) : (json s).refusal? = none := rfl

/-- The characters of a piece. -/
def Piece.chars : Piece → List Char
  | .json s => s.toList
  | .number lead n => lead.toList ++ (toString n).toList
  | .foreign _ => []

/-- Some pieces are refused for the first of them that is. -/
theorem joinPart_snd (ps : List Piece) : (joinPart ps).2 = ps.findSome? Piece.refusal? := by
  induction ps with
  | nil => rfl
  | cons p ps ih =>
    rw [List.findSome?_cons]
    cases p with
    | json s => exact ih
    | foreign shown => rfl
    | number lead n =>
      rw [joinPart, Piece.refusal?]
      cases numberRefusal? n with
      | some e => rfl
      | none => exact ih

theorem joinPart_of_accepted (h : ∀ p ∈ ps, p.refusal? = none) :
    joinPart ps = (String.ofList (ps.flatMap Piece.chars), none) := by
  induction ps with
  | nil => rfl
  | cons p ps ih =>
    rw [List.forall_mem_cons] at h
    cases p with
    | foreign shown => cases h.1
    | json s =>
      rw [joinPart, ih h.2]
      simp [Piece.chars, String.ofList_append, String.ofList_toList]
    | number lead n =>
      rw [joinPart, show numberRefusal? n = none from h.1, ih h.2]
      simp [Piece.chars, String.ofList_append, String.ofList_toList, String.append_assoc]

/-- What stands in front of an item is not refused, so the item alone decides. -/
theorem forall_mem_ledBy_iff {l : Layout} {lead : String} {level : Nat} :
    (∀ p ∈ ledBy lead v (piecesAt l level v), p.refusal? = none) ↔
      ∀ p ∈ piecesAt l level v, p.refusal? = none := by
  cases v <;> simp [ledBy, piecesAt, Piece.refusal?]

section Pieces

variable (l : Layout)

mutual

/-- A value is refused if one of its pieces is, or if it is nested too deeply. -/
theorem refusal?_eq_none_iff (level : Nat) {room : Nat} {v : Value} :
    refusal? room v = none ↔
      (∀ p ∈ piecesAt l level v, p.refusal? = none) ∧ v.nesting ≤ room := by
  -- A list and a map need one level of room for what they hold.
  cases v with
  | list items =>
    rw [Value.nesting]
    cases room with
    | zero => simp [refusal?]
    | succ room =>
      rw [refusal?, itemsRefusal?_eq_none_iff level, Nat.succ_le_succ_iff]
      cases items with
      | nil => simp [itemPieces, piecesAt, Piece.refusal?]
      | cons v items =>
        simp only [itemPieces, piecesAt, List.forall_mem_append, forall_mem_ledBy_iff,
          List.forall_mem_singleton, Piece.refusal?_json, and_true]
  | map entries =>
    rw [Value.nesting]
    cases room with
    | zero => simp [refusal?]
    | succ room =>
      rw [refusal?, entriesRefusal?_eq_none_iff level, Nat.succ_le_succ_iff]
      cases entries with
      | nil => simp [entryPieces, piecesAt, Piece.refusal?]
      | cons e entries =>
        obtain ⟨k, v⟩ := e
        simp only [entryPieces, piecesAt, List.forall_mem_append, List.forall_mem_cons,
          Piece.refusal?_json, true_and, List.not_mem_nil, false_implies, implies_true, and_true]
  | _ => simp [refusal?, piecesAt, Piece.refusal?, Value.nesting]

theorem itemsRefusal?_eq_none_iff (level : Nat) {room : Nat} {items : List Value} :
    itemsRefusal? room items = none ↔
      (∀ p ∈ itemPieces l level items, p.refusal? = none) ∧
        Value.nestingOfItems items ≤ room := by
  cases items with
  | nil => simp [itemsRefusal?, itemPieces, Value.nestingOfItems]
  | cons v items =>
    rw [itemsRefusal?, Option.or_eq_none_iff, refusal?_eq_none_iff (level + 1),
      itemsRefusal?_eq_none_iff level, itemPieces, List.forall_mem_append, forall_mem_ledBy_iff,
      Value.nestingOfItems, max_le_iff]
    tauto

theorem entriesRefusal?_eq_none_iff (level : Nat) {room : Nat} {entries : List (String × Value)} :
    entriesRefusal? room entries = none ↔
      (∀ p ∈ entryPieces l level entries, p.refusal? = none) ∧
        Value.nestingOfEntries entries ≤ room := by
  cases entries with
  | nil => simp [entriesRefusal?, entryPieces, Value.nestingOfEntries]
  | cons e entries =>
    obtain ⟨k, v⟩ := e
    rw [entriesRefusal?, Option.or_eq_none_iff, refusal?_eq_none_iff (level + 1),
      entriesRefusal?_eq_none_iff level, entryPieces, List.forall_mem_append,
      List.forall_mem_cons, Value.nestingOfEntries, max_le_iff]
    simp only [Piece.refusal?_json, true_and]
    tauto

end

end Pieces

/-- The characters that a value is written as. -/
def textAt (l : Layout) (level : Nat) (v : Value) : List Char :=
  (piecesAt l level v).flatMap Piece.chars

/-- The characters of the items of a list. -/
def itemsText (l : Layout) (level : Nat) : List Value → List Char
  | [] => []
  | v :: rest => textAt l (level + 1) v ++ (itemPieces l level rest).flatMap Piece.chars

/-- The characters of an entry of a map. -/
def entryText (l : Layout) (level : Nat) (k : String) (v : Value) : List Char :=
  '"' :: (k.toList.flatMap escapeChar ++ '"' :: ':' :: ' ' :: textAt l (level + 1) v)

/-- The characters of the entries of a map. -/
def entriesText (l : Layout) (level : Nat) : List (String × Value) → List Char
  | [] => []
  | (k, v) :: rest => entryText l level k v ++ (entryPieces l level rest).flatMap Piece.chars

/-- The characters between the comma behind an entry and the next one. -/
def Layout.gap (l : Layout) (level : Nat) : List Char :=
  match l with
  | line => [' ']
  | indented _ => (l.newline level).toList

section Texts

variable (l : Layout) (level : Nat)

theorem separator_toList : (l.separator level).toList = ',' :: l.gap level := by
  cases l <;> simp [Layout.separator, Layout.gap]

theorem chars_ledBy (lead : String) (v : Value) :
    (ledBy lead v (piecesAt l level v)).flatMap Piece.chars =
      lead.toList ++ textAt l level v := by
  cases v <;> simp [ledBy, textAt, piecesAt, Piece.chars]

theorem textAt_list (hne : items ≠ []) :
    textAt l level (.list items) = '[' :: ((l.newline level).toList ++
      (itemsText l level items ++ ((l.newline (level - 1)).toList ++ [']']))) := by
  obtain ⟨v, rest, rfl⟩ := List.exists_cons_of_ne_nil hne
  rw [textAt, piecesAt, List.flatMap_append, List.flatMap_append, chars_ledBy]
  simp [itemsText, Piece.chars]

theorem textAt_map (hne : entries ≠ []) :
    textAt l level (.map entries) = '\x7b' :: ((l.newline level).toList ++
      (entriesText l level entries ++ ((l.newline (level - 1)).toList ++ ['\x7d']))) := by
  obtain ⟨⟨k, v⟩, rest, rfl⟩ := List.exists_cons_of_ne_nil hne
  simp [textAt, entriesText, entryText, piecesAt, Piece.chars, encodeText]

theorem itemsText_singleton (v : Value) : itemsText l level [v] = textAt l (level + 1) v := by
  simp [itemsText, itemPieces]

theorem itemsText_cons_cons (v w : Value) (rest : List Value) :
    itemsText l level (v :: w :: rest) =
      textAt l (level + 1) v ++ ',' :: (l.gap level ++ itemsText l level (w :: rest)) := by
  rw [itemsText, itemPieces, List.flatMap_append, chars_ledBy, separator_toList]
  simp [itemsText]

theorem entriesText_singleton (k : String) (v : Value) :
    entriesText l level [(k, v)] = entryText l level k v := by
  simp [entriesText, entryPieces]

theorem entriesText_cons_cons (k k' : String) (v v' : Value) (rest : List (String × Value)) :
    entriesText l level ((k, v) :: (k', v') :: rest) =
      entryText l level k v ++ ',' :: (l.gap level ++ entriesText l level ((k', v') :: rest)) := by
  simp [entriesText, entryPieces, entryText, textAt, Piece.chars, separator_toList, encodeText]

end Texts

/-! ## Names and numbers -/

/-- The characters of white space. -/
def spaces : List Char := [' ', '\t', '\n', '\r']

/-- The characters that neither a name nor a number starts with. -/
def marks : List Char := spaces ++ ['"', '[', ']', '\x7b', '\x7d', ',', ':']

/-- Whether a text goes on with a value right away. -/
def LeadsOn (cs : List Char) : Prop :=
  ∃ c ∈ cs.head?, c ∉ spaces ∧ c ≠ ']' ∧ c ≠ '\x7d'

theorem skipSpace_cons (h : c ∉ spaces) : skipSpace (c :: cs) = c :: cs := by
  simp [spaces] at h
  simp [skipSpace, h]

/-- White space in front of a text is skipped. -/
theorem skipSpace_append {bs : List Char} (h : ∀ c ∈ bs, c ∈ spaces) (cs : List Char) :
    skipSpace (bs ++ cs) = skipSpace cs := by
  induction bs with
  | nil => rfl
  | cons b bs ih =>
    rw [List.forall_mem_cons] at h
    have hb := h.1
    simp only [spaces, List.mem_cons, List.not_mem_nil, or_false] at hb
    rw [List.cons_append, ← ih h.2]
    simp [skipSpace, hb, or_assoc]

theorem newline_mem_spaces (l : Layout) (level : Nat) :
    ∀ c ∈ (l.newline level).toList, c ∈ spaces := by
  cases l with
  | line => nofun
  | indented width =>
    intro c hc
    simp only [Layout.newline, String.toList_append, String.toList_ofList, List.mem_append,
      List.mem_replicate] at hc
    rcases hc with hc | ⟨-, rfl⟩
    · obtain rfl : c = '\n' := by simpa using hc
      decide
    · decide

theorem gap_mem_spaces (l : Layout) (level : Nat) : ∀ c ∈ l.gap level, c ∈ spaces := by
  cases l with
  | line =>
    intro c hc
    rw [List.mem_singleton.mp hc]
    decide
  | indented width => exact newline_mem_spaces (.indented width) level

theorem LeadsOn.exists_cons (h : LeadsOn cs) :
    ∃ c cs', cs = c :: cs' ∧ c ∉ spaces ∧ c ≠ ']' ∧ c ≠ '\x7d' := by
  obtain ⟨c, hc, hspace⟩ := h
  obtain ⟨cs', rfl⟩ := List.head?_eq_some_iff.mp hc
  exact ⟨c, cs', rfl, hspace⟩

theorem LeadsOn.skipSpace_eq (h : LeadsOn cs) : skipSpace cs = cs := by
  obtain ⟨c, cs', rfl, hspace, -⟩ := h.exists_cons
  exact skipSpace_cons hspace

theorem LeadsOn.skipSpace_append (h : LeadsOn cs) {bs : List Char} (hbs : ∀ c ∈ bs, c ∈ spaces) :
    skipSpace (bs ++ cs) = cs :=
  (Json.skipSpace_append hbs cs).trans h.skipSpace_eq

theorem LeadsOn.append (h : LeadsOn cs) (rest : List Char) : LeadsOn (cs ++ rest) := by
  obtain ⟨c, cs', rfl, hspace⟩ := h.exists_cons
  exact ⟨c, rfl, hspace⟩

theorem readScalar_mark (h : c ∈ marks) : readScalar (c :: cs) = .error .malformed := by
  simp only [marks, spaces, List.cons_append, List.nil_append, List.mem_cons, List.not_mem_nil,
    or_false] at h
  rcases h with rfl | rfl | rfl | rfl | rfl | rfl | rfl | rfl | rfl | rfl | rfl <;>
    simp [readScalar, names, afterWord?, readNumber, readWhole, isAsciiDigit]

/-- What is read as a name or a number starts with none of the marks. -/
theorem exists_cons_of_readScalar {r : Value × List Char} (h : readScalar cs = .ok r) :
    ∃ c cs', cs = c :: cs' ∧ c ∉ marks := by
  cases cs with
  | nil => exact absurd h (by simp [readScalar, names, afterWord?, readNumber, readWhole])
  | cons c cs =>
    refine ⟨c, cs, rfl, fun hc => ?_⟩
    rw [readScalar_mark hc] at h
    cases h

theorem readValue_of_readScalar {r : Value × List Char} (h : readScalar cs = .ok r) :
    readValue (fuel + 1) room cs = .ok r := by
  obtain ⟨c, cs, rfl, hc⟩ := exists_cons_of_readScalar h
  simp [marks, spaces] at hc
  unfold readValue
  split
  · simp_all
  · simp_all
  · simp_all
  · simp_all
  · simp_all
  · exact h

theorem delimited_nil : Delimited [] := nofun

/-- Whether a value is written as a name or a number. -/
def isScalar : Value → Bool
  | .null | .bool _ | .int _ | .float _ => true
  | _ => false

section Values

variable (l : Layout)

/-- A name or a number is read as it is written, unless it is refused. -/
theorem readScalar_textAt (level : Nat) (hscalar : isScalar v = true)
    (h : refusal? room v = none) (hrest : Delimited rest) :
    readScalar (textAt l level v ++ rest) = .ok (v.held, rest) := by
  cases v with
  | null => simpa [textAt, piecesAt, Piece.chars, held] using readScalar_null rest
  | bool b => simpa [textAt, piecesAt, Piece.chars, held] using readScalar_bool b rest
  | int n =>
    have hlength : (Nat.toDigits 10 n.natAbs).length ≤ maxDigits := by
      by_contra hlong
      rw [refusal?, numberRefusal?, if_pos (not_le.mp hlong)] at h
      cases h
    simpa [textAt, piecesAt, Piece.chars, held] using readScalar_int hrest hlength
  | float x =>
    rw [Value.held_float]
    simpa [textAt, piecesAt, Piece.chars] using readScalar_write x hrest
  | _ => cases hscalar

/-- What is written of a value goes on with it right away. -/
theorem leadsOn_textAt (level : Nat) (h : refusal? room v = none) :
    LeadsOn (textAt l level v) := by
  -- What is read as a scalar starts with none of the marks; all else starts with a mark of its own.
  by_cases hscalar : isScalar v = true
  · have hread := readScalar_textAt l level hscalar h delimited_nil
    rw [List.append_nil] at hread
    obtain ⟨c, cs, htext, hc⟩ := exists_cons_of_readScalar hread
    simp [marks] at hc
    rw [htext]
    exact ⟨c, rfl, hc.1, hc.2.2.2.1, hc.2.2.2.2.2.1⟩
  · cases v with
    | text s => exact ⟨'"', by simp [textAt, piecesAt, Piece.chars, encodeText], by decide⟩
    | list items =>
      cases items with
      | nil => exact ⟨'[', rfl, by decide⟩
      | cons v items =>
        rw [textAt_list l level (List.cons_ne_nil v items)]
        exact ⟨'[', rfl, by decide⟩
    | map entries =>
      cases entries with
      | nil => exact ⟨'\x7b', rfl, by decide⟩
      | cons e entries =>
        rw [textAt_map l level (List.cons_ne_nil e entries)]
        exact ⟨'\x7b', rfl, by decide⟩
    | foreign shown => cases h
    | _ => exact absurd rfl hscalar

/-! ### Lists and maps -/

theorem readValue_list {tail bs : List Char} (hlead : LeadsOn cs) (hbs : ∀ c ∈ bs, c ∈ spaces)
    (h : readItems fuel room cs = .ok (items, tail)) :
    readValue (fuel + 1) (room + 1) ('[' :: (bs ++ cs)) = .ok (.list items, tail) := by
  obtain ⟨c, cs, rfl, -, hc, -⟩ := hlead.exists_cons
  simp only [readValue, hlead.skipSpace_append hbs]
  split
  · rename_i heq
    exact absurd (List.cons.inj heq).1 hc
  · rw [h]
    rfl

theorem readValue_map {tail bs : List Char} (hlead : LeadsOn cs) (hbs : ∀ c ∈ bs, c ∈ spaces)
    (h : readEntries fuel room cs = .ok (entries, tail)) :
    readValue (fuel + 1) (room + 1) ('\x7b' :: (bs ++ cs)) =
      .ok (.map (Entries.ofPairs entries), tail) := by
  obtain ⟨c, cs, rfl, -, -, hc⟩ := hlead.exists_cons
  simp only [readValue, hlead.skipSpace_append hbs]
  split
  · rename_i heq
    exact absurd (List.cons.inj heq).1 hc
  · rw [h]
    rfl

theorem readItems_last {tail : List Char} (h : readValue fuel room cs = .ok (v, rest))
    (hrest : skipSpace rest = ']' :: tail) :
    readItems (fuel + 1) room cs = .ok ([v], tail) := by
  rw [readItems]
  simp only [bind, Except.bind, h, hrest]
  rfl

theorem readItems_more {more gap tail : List Char}
    (h : readValue fuel room cs = .ok (v, ',' :: gap)) (hgap : skipSpace gap = more)
    (hmore : readItems fuel room more = .ok (items, tail)) :
    readItems (fuel + 1) room cs = .ok (v :: items, tail) := by
  have hcomma : skipSpace (',' :: gap) = ',' :: gap := skipSpace_cons (by decide)
  rw [readItems]
  simp only [bind, Except.bind, h, hcomma, hgap, hmore]
  rfl

section Entry

variable {k : String} {tail : List Char}

theorem skipSpace_colon (hlead : LeadsOn cs) :
    skipSpace (':' :: ' ' :: cs) = ':' :: ' ' :: cs ∧ skipSpace (' ' :: cs) = cs :=
  ⟨skipSpace_cons (by decide), hlead.skipSpace_eq⟩

theorem readEntries_last (hlead : LeadsOn cs) (h : readValue fuel room cs = .ok (v, rest))
    (hrest : skipSpace rest = '\x7d' :: tail) :
    readEntries (fuel + 1) room
        ('"' :: (k.toList.flatMap escapeChar ++ '"' :: ':' :: ' ' :: cs)) =
      .ok ([(k, v)], tail) := by
  obtain ⟨hcolon, hskip⟩ := skipSpace_colon hlead
  rw [readEntries]
  simp only [readText_escaped, bind, Except.bind, hcolon, hskip, h, hrest]
  rfl

theorem readEntries_more {more gap : List Char} (hlead : LeadsOn cs)
    (h : readValue fuel room cs = .ok (v, ',' :: gap)) (hgap : skipSpace gap = more)
    (hmore : readEntries fuel room more = .ok (entries, tail)) :
    readEntries (fuel + 1) room
        ('"' :: (k.toList.flatMap escapeChar ++ '"' :: ':' :: ' ' :: cs)) =
      .ok ((k, v) :: entries, tail) := by
  obtain ⟨hcolon, hskip⟩ := skipSpace_colon hlead
  have hcomma : skipSpace (',' :: gap) = ',' :: gap := skipSpace_cons (by decide)
  rw [readEntries]
  simp only [readText_escaped, bind, Except.bind, hcolon, hskip, h, hcomma, hgap, hmore]
  rfl

end Entry

/-! ### Values -/

theorem delimited_comma (cs : List Char) : Delimited (',' :: cs) := by
  rintro c ⟨⟩
  exact Or.inl rfl

/-- What closes a list or map follows an entry, on the same line or on a line of its own. -/
theorem delimited_close (level : Nat) (hc : c = ']' ∨ c = '\x7d') (cs : List Char) :
    Delimited ((l.newline level).toList ++ c :: cs) := by
  cases l with
  | line =>
    rintro d ⟨⟩
    exact Or.inr (hc.imp_right Or.inl)
  | indented width =>
    intro d hd
    obtain rfl : '\n' = d := by simpa [Layout.newline] using hd
    exact Or.inr (Or.inr (Or.inr rfl))

theorem skipSpace_close (level : Nat) (hc : c ∉ spaces) (cs : List Char) :
    skipSpace ((l.newline level).toList ++ c :: cs) = c :: cs :=
  (skipSpace_append (newline_mem_spaces l level) _).trans (skipSpace_cons hc)

theorem leadsOn_itemsText (level : Nat) (hne : items ≠ [])
    (h : itemsRefusal? room items = none) : LeadsOn (itemsText l level items) := by
  obtain ⟨v, items, rfl⟩ := List.exists_cons_of_ne_nil hne
  rw [itemsRefusal?, Option.or_eq_none_iff] at h
  exact (leadsOn_textAt l (level + 1) h.1).append _

theorem leadsOn_entriesText (level : Nat) (hne : entries ≠ []) :
    LeadsOn (entriesText l level entries) := by
  obtain ⟨⟨k, v⟩, entries, rfl⟩ := List.exists_cons_of_ne_nil hne
  exact ⟨'"', rfl, by decide⟩

mutual

/-- What is written of a value is read, whatever mark follows. -/
theorem readValue_textAt (level : Nat) {room fuel : Nat} {v : Value} {rest : List Char}
    (h : refusal? room v = none) (hfuel : (textAt l level v).length < fuel)
    (hrest : Delimited rest) :
    readValue fuel room (textAt l level v ++ rest) = .ok (v.held, rest) := by
  -- Every value takes a character at least, so there is fuel for one more step.
  obtain ⟨fuel, rfl⟩ := Nat.exists_eq_add_one_of_ne_zero (Nat.ne_zero_of_lt hfuel)
  cases v with
  | text s =>
    have htext : textAt l level (.text s) ++ rest =
        '"' :: (s.toList.flatMap escapeChar ++ '"' :: rest) := by
      simp [textAt, piecesAt, Piece.chars, encodeText]
    rw [htext]
    simp only [readValue, readText_escaped]
    rfl
  | list items =>
    cases room with
    | zero => cases h
    | succ room =>
      by_cases hne : items = []
      · subst hne
        rfl
      · rw [textAt_list l level hne] at hfuel ⊢
        simp only [List.length_cons, List.length_append] at hfuel
        simp only [List.cons_append, List.append_assoc, List.nil_append]
        refine readValue_list ((leadsOn_itemsText l level hne h).append _)
          (newline_mem_spaces l level) ?_
        exact readItems_itemsText level hne h (by omega)
  | map entries =>
    cases room with
    | zero => cases h
    | succ room =>
      by_cases hne : entries = []
      · subst hne
        rfl
      · rw [textAt_map l level hne] at hfuel ⊢
        simp only [List.length_cons, List.length_append] at hfuel
        simp only [List.cons_append, List.append_assoc, List.nil_append]
        refine readValue_map ((leadsOn_entriesText l level hne).append _)
          (newline_mem_spaces l level) ?_
        exact readEntries_entriesText level hne h (by omega)
  | foreign shown => cases h
  | _ => exact readValue_of_readScalar (readScalar_textAt l level rfl h hrest)

/-- What is written of the items of a list is read up to the closing bracket. -/
theorem readItems_itemsText (level : Nat) {room fuel : Nat} {items : List Value}
    {rest : List Char} (hne : items ≠ []) (h : itemsRefusal? room items = none)
    (hfuel : (itemsText l level items).length + 1 < fuel) :
    readItems fuel room
        (itemsText l level items ++ ((l.newline (level - 1)).toList ++ ']' :: rest)) =
      .ok (heldItems items, rest) := by
  obtain ⟨fuel, rfl⟩ := Nat.exists_eq_add_one_of_ne_zero (Nat.ne_zero_of_lt hfuel)
  cases items with
  | nil => exact absurd rfl hne
  | cons v items =>
    rw [itemsRefusal?, Option.or_eq_none_iff] at h
    -- The last item is followed by the closing bracket, any other one by a comma.
    cases items with
    | nil =>
      rw [itemsText_singleton] at hfuel ⊢
      refine readItems_last ?_ (skipSpace_close l (level - 1) (by decide) rest)
      exact readValue_textAt (level + 1) h.1 (by omega) (delimited_close l _ (by simp) rest)
    | cons w items =>
      rw [itemsText_cons_cons] at hfuel ⊢
      rw [List.length_append, List.length_cons, List.length_append] at hfuel
      rw [List.append_assoc, List.cons_append, List.append_assoc]
      have hnext := leadsOn_itemsText l level (List.cons_ne_nil w items) h.2
      have hgap := (hnext.append ((l.newline (level - 1)).toList ++ ']' :: rest)).skipSpace_append
        (gap_mem_spaces l level)
      refine readItems_more ?_ hgap ?_
      · exact readValue_textAt (level + 1) h.1 (by omega) (delimited_comma _)
      · exact readItems_itemsText level (List.cons_ne_nil w items) h.2 (by omega)

/-- What is written of the entries of a map is read up to the closing bracket. -/
theorem readEntries_entriesText (level : Nat) {room fuel : Nat}
    {entries : List (String × Value)} {rest : List Char} (hne : entries ≠ [])
    (h : entriesRefusal? room entries = none)
    (hfuel : (entriesText l level entries).length + 1 < fuel) :
    readEntries fuel room
        (entriesText l level entries ++ ((l.newline (level - 1)).toList ++ '\x7d' :: rest)) =
      .ok (heldEntries entries, rest) := by
  obtain ⟨fuel, rfl⟩ := Nat.exists_eq_add_one_of_ne_zero (Nat.ne_zero_of_lt hfuel)
  cases entries with
  | nil => exact absurd rfl hne
  | cons e entries =>
    obtain ⟨k, v⟩ := e
    rw [entriesRefusal?, Option.or_eq_none_iff] at h
    have hlead := leadsOn_textAt l (level + 1) h.1
    -- The last entry is followed by the closing bracket, any other one by a comma.
    cases entries with
    | nil =>
      rw [entriesText_singleton] at hfuel ⊢
      simp only [entryText, List.cons_append, List.append_assoc, List.length_cons,
        List.length_append] at hfuel ⊢
      refine readEntries_last (hlead.append _) ?_ (skipSpace_close l (level - 1) (by decide) rest)
      exact readValue_textAt (level + 1) h.1 (by omega) (delimited_close l _ (by simp) rest)
    | cons e' entries =>
      obtain ⟨k', v'⟩ := e'
      rw [entriesText_cons_cons] at hfuel ⊢
      simp only [entryText, List.cons_append, List.append_assoc, List.length_cons,
        List.length_append] at hfuel ⊢
      have hnext := leadsOn_entriesText l level (List.cons_ne_nil (k', v') entries)
      have hbehind := hnext.append ((l.newline (level - 1)).toList ++ '\x7d' :: rest)
      have hgap := hbehind.skipSpace_append (gap_mem_spaces l level)
      refine readEntries_more (hlead.append _) ?_ hgap ?_
      · exact readValue_textAt (level + 1) h.1 (by omega) (delimited_comma _)
      · exact readEntries_entriesText level (List.cons_ne_nil (k', v') entries) h.2 (by omega)

end

/-- The text of a value is read as the value. -/
theorem read_textAt (h : refusal? maxNesting v = none) :
    read (String.ofList (textAt l 1 v)) = .ok v.held := by
  have hskip := (leadsOn_textAt l 1 h).skipSpace_eq
  have hread := readValue_textAt l 1 h (Nat.lt_succ_self _) delimited_nil
  rw [List.append_nil] at hread
  unfold read
  simp only [String.toList_ofList, hskip, hread]
  rfl

end Values

/-! ## Encoding -/

/-- What the characters of a value that is not refused are joined to. -/
theorem encodePart_of_accepted (l : Layout) (h : refusal? room v = none) :
    encodePart l v = (String.ofList (textAt l 1 v), none) :=
  joinPart_of_accepted ((refusal?_eq_none_iff l 1).mp h).1

theorem encode_eq_ok_iff {text : String} :
    encode v = .ok text ↔
      refusal? maxNesting v = none ∧ text = String.ofList (textAt .line 1 v) := by
  unfold encode
  cases h : refusal? maxNesting v with
  | some e => simp
  | none => simp [encodePart_of_accepted .line h, eq_comm]

/-- A text that a value is encoded as is read as the value. -/
theorem read_of_encode {text : String} (h : encode v = .ok text) : read text = .ok v.held := by
  obtain ⟨hrefusal, rfl⟩ := encode_eq_ok_iff.mp h
  exact read_textAt .line hrefusal

end Json

end CommandShell
