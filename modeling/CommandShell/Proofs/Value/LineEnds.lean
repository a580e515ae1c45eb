import CommandShell.Proofs.Value.Encoding
import CommandShell.Storage.FileSystem

/-!
# Line ends of JSON texts

A JSON text that is written has line feeds at most, since other line ends in a text are written as
escapes.  So a file gives the text back as it was written, whatever it makes of line ends.

## Main results

* `Json.return_notMem_textAt`: no carriage return is written.
* `unifyLineEnds_eq_self_iff`: just a text without one keeps its line ends.
-/

namespace CommandShell

theorem Chars.unifyLineEnds_of_notMem {cs : List Char} (h : '\r' ∉ cs) : unifyLineEnds cs = cs := by
  induction cs with
  | nil => rfl
  | cons c cs ih =>
    rw [List.mem_cons, not_or] at h
    unfold unifyLineEnds
    split
    · rename_i heq
      exact absurd (List.cons.inj heq).1.symm h.1
    · rename_i heq
      exact absurd (List.cons.inj heq).1.symm h.1
    · rename_i heq
      obtain ⟨rfl, rfl⟩ := List.cons.inj heq
      rw [ih h.2]
    · rename_i heq
      cases heq

/-- A text without carriage returns keeps its line ends. -/
theorem unifyLineEnds_of_notMem {s : String} (h : '\r' ∉ s.toList) : unifyLineEnds s = s := by
  unfold unifyLineEnds
  rw [Chars.unifyLineEnds_of_notMem h, String.ofList_toList]

theorem Chars.return_notMem_unifyLineEnds (cs : List Char) : '\r' ∉ unifyLineEnds cs := by
  fun_induction unifyLineEnds cs with
  | case1 rest ih => simpa using ih
  | case2 rest _ ih => simpa using ih
  | case3 c rest _ hc ih => exact List.not_mem_cons_of_ne_of_not_mem (Ne.symm hc) ih
  | case4 => nofun

/-- A text with carriage returns does not. -/
theorem unifyLineEnds_eq_self_iff {s : String} : unifyLineEnds s = s ↔ '\r' ∉ s.toList := by
  refine ⟨fun h => ?_, unifyLineEnds_of_notMem⟩
  rw [← h, unifyLineEnds, String.toList_ofList]
  exact Chars.return_notMem_unifyLineEnds _

namespace Json

theorem return_notMem_toDigits (n : Nat) : '\r' ∉ Nat.toDigits 10 n := by
  intro h
  cases isAsciiDigit_toDigits n _ h

theorem return_notMem_toString (n : Int) : '\r' ∉ (toString n).toList := by
  rw [Chars.toList_toString]
  split <;> simp [return_notMem_toDigits]

theorem return_notMem_hex (width n : Nat) : '\r' ∉ Chars.hex width n := by
  have hdigit : ∀ n < 16, '\r' ≠ Chars.hexDigit n := by decide
  induction width generalizing n with
  | zero => nofun
  | succ width ih =>
    rw [Chars.hex, List.mem_append, List.mem_singleton, not_or]
    exact ⟨ih _, hdigit _ (Nat.mod_lt n (by decide))⟩

/-- A carriage return in a text is written as an escape. -/
theorem return_notMem_escapeChar (c : Char) : '\r' ∉ escapeChar c := by
  unfold escapeChar unitEscape
  split_ifs <;> simp_all [return_notMem_hex]
  rintro rfl
  contradiction

theorem return_notMem_encodeText (s : String) : '\r' ∉ (encodeText s).toList := by
  simp [encodeText, return_notMem_escapeChar]

theorem return_notMem_decimal (l : FloatLayout) (d : Decimal) : '\r' ∉ l.decimal d := by
  have hdigits : '\r' ∉ FloatLayout.digitsOf d.digits := return_notMem_toDigits _
  have hexponent : ∀ e, '\r' ∉ l.exponentPart e := by
    intro e
    have hdigits : '\r' ∉ FloatLayout.digitsOf e.natAbs := return_notMem_toDigits _
    unfold FloatLayout.exponentPart
    split <;> simp [hdigits, List.mem_replicate]
  -- Only digits, zeros, points and signs are written.
  unfold FloatLayout.decimal
  dsimp only
  generalize FloatLayout.digitsOf d.digits = ds at *
  have hpadded : ∀ k, '\r' ∉ ds ++ List.replicate k '0' := by
    intro k
    simp [hdigits, List.mem_replicate]
  split
  · split
    · simp [hdigits, List.mem_replicate]
    · rw [List.mem_append, List.mem_cons, not_or, not_or]
      refine ⟨fun h => hpadded _ (List.mem_of_mem_take h), by decide, ?_⟩
      split
      · decide
      · exact fun h => hpadded _ (List.mem_of_mem_drop h)
  · split
    · nofun
    · simp_all
    · simp_all

theorem return_notMem_write (x : Float) : '\r' ∉ (jsonFloats.write x).toList := by
  have hsign : ∀ (negative : Bool) (s : String), '\r' ∉ s.toList →
      '\r' ∉ ((if negative then "-" else "") ++ s).toList := by
    intro negative s hs
    rw [toList_sign]
    cases negative <;> simp [hs]
  unfold FloatLayout.write
  dsimp only
  split
  · split
    · exact hsign _ _ (by decide)
    · refine hsign _ _ ?_
      rw [String.toList_ofList]
      exact return_notMem_decimal _ _
  · split
    · exact hsign _ _ (by decide)
    · decide

section Pieces

variable (l : Layout)

theorem return_notMem_newline (level : Nat) : '\r' ∉ (l.newline level).toList := by
  cases l with
  | line => nofun
  | indented width => simp [Layout.newline, List.mem_replicate]

theorem return_notMem_separator (level : Nat) : '\r' ∉ (l.separator level).toList := by
  cases l with
  | line => simp [Layout.separator]
  | indented width =>
    simp [Layout.separator, return_notMem_newline (.indented width) level]

theorem return_notMem_number {lead : String} (hlead : '\r' ∉ lead.toList) (n : Int) :
    '\r' ∉ (Piece.number lead n).chars := by
  rw [Piece.chars, List.mem_append, not_or]
  exact ⟨hlead, return_notMem_toString n⟩

theorem return_notMem_ledBy {lead : String} {level : Nat} {v : Value}
    (hlead : '\r' ∉ lead.toList) (h : ∀ p ∈ piecesAt l level v, '\r' ∉ p.chars) :
    ∀ p ∈ ledBy lead v (piecesAt l level v), '\r' ∉ p.chars := by
  cases v with
  | int n => simpa [ledBy] using return_notMem_number hlead n
  | _ => exact List.forall_mem_cons.mpr ⟨hlead, h⟩

mutual

theorem return_notMem_piecesAt (level : Nat) (v : Value) :
    ∀ p ∈ piecesAt l level v, '\r' ∉ p.chars := by
  -- Line ends come from the layout, which breaks lines with line feeds; those of texts are escaped.
  cases v with
  | list items =>
    cases items with
    | nil => simp [piecesAt, Piece.chars]
    | cons v items =>
      have hlead : '\r' ∉ ("[" ++ l.newline level).toList := by
        simp [return_notMem_newline l level]
      simp only [piecesAt, List.forall_mem_append, List.forall_mem_singleton]
      refine ⟨⟨return_notMem_ledBy l hlead (return_notMem_piecesAt (level + 1) v),
        return_notMem_itemPieces level items⟩, ?_⟩
      simp [Piece.chars, return_notMem_newline]
  | map entries =>
    cases entries with
    | nil => simp [piecesAt, Piece.chars]
    | cons e entries =>
      obtain ⟨k, v⟩ := e
      simp only [piecesAt, List.forall_mem_append, List.forall_mem_cons]
      refine ⟨⟨⟨?_, return_notMem_piecesAt (level + 1) v⟩,
        return_notMem_entryPieces level entries⟩, ?_, nofun⟩
      · simp [Piece.chars, return_notMem_newline, return_notMem_encodeText]
      · simp [Piece.chars, return_notMem_newline]
  | text s => simp [piecesAt, Piece.chars, return_notMem_encodeText]
  | float x => simp [piecesAt, Piece.chars, return_notMem_write]
  | int n => simpa [piecesAt] using return_notMem_number (by decide) n
  | bool b => cases b <;> simp [piecesAt, Piece.chars]
  | _ => simp [piecesAt, Piece.chars]

theorem return_notMem_itemPieces (level : Nat) (items : List Value) :
    ∀ p ∈ itemPieces l level items, '\r' ∉ p.chars := by
  cases items with
  | nil => nofun
  | cons v items =>
    rw [itemPieces, List.forall_mem_append]
    exact ⟨return_notMem_ledBy l (return_notMem_separator l level)
      (return_notMem_piecesAt (level + 1) v), return_notMem_itemPieces level items⟩

theorem return_notMem_entryPieces (level : Nat) (entries : List (String × Value)) :
    ∀ p ∈ entryPieces l level entries, '\r' ∉ p.chars := by
  cases entries with
  | nil => nofun
  | cons e entries =>
    obtain ⟨k, v⟩ := e
    simp only [entryPieces, List.forall_mem_append, List.forall_mem_cons]
    refine ⟨⟨?_, return_notMem_piecesAt (level + 1) v⟩, return_notMem_entryPieces level entries⟩
    simp [Piece.chars, return_notMem_separator, return_notMem_encodeText]

end

/-- No carriage return is written, in whatever layout. -/
theorem return_notMem_textAt (level : Nat) (v : Value) : '\r' ∉ textAt l level v := by
  intro h
  obtain ⟨p, hp, hmem⟩ := List.mem_flatMap.mp h
  exact return_notMem_piecesAt l level v p hp hmem

end Pieces

end Json

end CommandShell
