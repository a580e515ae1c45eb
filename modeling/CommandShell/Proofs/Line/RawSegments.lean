import CommandShell.Proofs.Line.Cutting

/-!
# Lines taken apart

A line can be taken apart into raw segments, which keep their blanks, with an operator between any
two.  If every operator is the leftmost one outside quotes behind the operator in front of it, the
longest one that stands there, and none is left in the raw segments, nothing else is to be chosen:
a line is taken apart in exactly one way, and its parts are the operators and what is left of the
raw segments without their blanks.

## Main definitions

* `Operator.StandsBehind`: an operator that stands in a line outside quotes.
* `RawLine`: raw segments with operators between them.
* `RawLine.text`, `RawLine.cuts`, `RawLine.parts`: what is written, where it is cut, and the parts
  that are made of it.
* `RawLine.TakesApart`: a line cut at its leftmost operators.

## Main results

* `clear_iff_standsBehind`, `isLeftmost_iff`: characters up to the leftmost operator are clear.
* `takesApart_last_iff`, `takesApart_cut_iff`: a line is taken apart from its start.
* `exists_takesApart`, `TakesApart.eq`: this can be done, and in one way only.
* `splitLine_leftmost`: the parts of a line are those of the line taken apart.
-/

namespace CommandShell

/-- Outside quotes an operator stands in some characters, with `pre` in front of it. -/
def Operator.StandsBehind (op : Operator) (pre cs : List Char) : Prop :=
  Quoting.closed.through pre = .closed ∧ pre ++ op.symbol.toList <+: cs

/-- A line taken apart: raw segments, which keep their blanks, with an operator between any two. -/
inductive RawLine where
  /-- The last raw segment. -/
  | last (raw : List Char)
  /-- A raw segment, the operator behind it and what comes next. -/
  | cut (raw : List Char) (op : Operator) (rest : RawLine)
deriving DecidableEq, Repr

/-- A place where a line is cut. -/
structure Cut where
  /-- What is written in front of the raw segment that ends here. -/
  before : List Char
  /-- The raw segment that ends here. -/
  raw : List Char
  /-- The operator behind it. -/
  op : Operator

namespace Cut

/-- A cut of what comes behind the characters `front`. -/
def behind (front : List Char) (c : Cut) : Cut :=
  { c with before := front ++ c.before }

/-- Behind `before` no operator of the line stands further left, and none that stands in the same
place is longer. -/
def IsLeftmost (c : Cut) (line : List Char) : Prop :=
  ∀ (op : Operator) (pre : List Char), op.StandsBehind (c.before ++ pre) line →
    c.raw.length ≤ pre.length ∧ (pre = c.raw → op.symbol.length ≤ c.op.symbol.length)

end Cut

namespace RawLine

/-- What is written when the raw segments and operators are put one after another. -/
def text : RawLine → List Char
  | last raw => raw
  | cut raw op rest => raw ++ (op.symbol.toList ++ rest.text)

/-- The raw segments. -/
def segments : RawLine → List (List Char)
  | last raw => [raw]
  | cut raw _ rest => raw :: rest.segments

/-- The places of the operators. -/
def cuts : RawLine → List Cut
  | last _ => []
  | cut raw op rest =>
    ⟨[], raw, op⟩ :: rest.cuts.map (Cut.behind (raw ++ op.symbol.toList))

/-- A raw segment without the blanks around it, if it is not blank. -/
def keptPart (raw : List Char) : List Part :=
  if raw.all isBlank then [] else [.segment (String.ofList (Chars.trim raw))]

/-- The operators, and between them the raw segments that are not blank, without the blanks around
them. -/
def parts : RawLine → List Part
  | last raw => keptPart raw
  | cut raw op rest => keptPart raw ++ .operator op :: rest.parts

/-- A line is taken apart at its leftmost operators. -/
structure TakesApart (r : RawLine) (line : List Char) : Prop where
  /-- Nothing is lost. -/
  written : r.text = line
  /-- Quotes are closed in front of every operator. -/
  closed : ∀ c ∈ r.cuts, Quoting.closed.through (c.before ++ c.raw) = .closed
  /-- No raw segment holds an operator outside quotes. -/
  clear : ∀ raw ∈ r.segments, ∀ (op : Operator) (pre : List Char), ¬ op.StandsBehind pre raw
  /-- Every operator is the leftmost one behind the operator in front of it. -/
  leftmost : ∀ c ∈ r.cuts, c.IsLeftmost line

end RawLine

section StandsBehind

variable {op : Operator} {c : Cut} {front pre raw cs rest line : List Char}

/-! ### Operators that stand in a line -/

theorem operatorAt?_eq_none_iff :
    operatorAt? cs = none ↔ ∀ op : Operator, ¬ op.symbol.toList <+: cs := by
  constructor
  · rintro hnone op ⟨rest, rfl⟩
    cases op with
    | pipe => exact operatorAt?_bar_ne_none hnone
    | _ => cases hnone
  · intro h
    cases hop : operatorAt? cs with
    | none => rfl
    | some found => exact absurd ⟨found.2, (eq_symbol_of_operatorAt? hop).symm⟩ (h found.1)

/-- The operator at the start of some characters is the longest one that is written there. -/
theorem operatorAt?_symbol_iff :
    operatorAt? (op.symbol.toList ++ rest) = some (op, rest) ↔
      ∀ op' : Operator, op'.symbol.toList <+: op.symbol.toList ++ rest →
        op'.symbol.length ≤ op.symbol.length := by
  constructor
  · rintro hop op' ⟨rest', hop'⟩
    cases op with
    | pipe =>
      -- In front of a single bar the one longer operator would be a pair of bars.
      cases op' with
      | pipe => exact le_rfl
      | or =>
        obtain rfl := (List.cons.inj hop').2
        exact absurd rfl (head?_ne_bar_of_pipe hop)
      | and | append => cases hop'
    | _ => cases op' <;> decide
  · intro hlongest
    refine operatorAt?_symbol_of_pipe ?_
    rintro rfl hbar
    obtain ⟨rest, rfl⟩ := List.head?_eq_some_iff.mp hbar
    exact absurd (hlongest .or ⟨rest, rfl⟩) (by decide)

theorem standsBehind_append_iff (hq : Quoting.closed.through front = .closed) :
    op.StandsBehind (front ++ pre) (front ++ line) ↔ op.StandsBehind pre line := by
  unfold Operator.StandsBehind
  rw [Quoting.through_append, hq, List.append_assoc, List.prefix_append_right_inj]

/-- Characters are clear if no operator stands further left than what follows them. -/
theorem clear_iff_standsBehind :
    Clear .closed cs rest ↔ ∀ (op : Operator) (pre : List Char),
      op.StandsBehind pre (cs ++ rest) → cs.length ≤ pre.length := by
  constructor
  · rintro hclear op pre ⟨hq, hpre⟩
    by_contra hlength
    -- An operator further left starts at a character of `cs`, where none is read.
    have hprefix : pre <+: cs := List.prefix_of_prefix_length_le
      ((List.prefix_append pre _).trans hpre) (List.prefix_append cs rest) (by omega)
    obtain ⟨post, rfl⟩ := hprefix
    cases post with
    | nil => simp at hlength
    | cons c post =>
      rw [List.append_assoc, List.prefix_append_right_inj] at hpre
      exact operatorAt?_eq_none_iff.mp (hclear pre c post rfl hq) op hpre
  · intro h pre c post hcs hq
    refine operatorAt?_eq_none_iff.mpr fun op hop => ?_
    have hlength := h op pre ⟨hq, by
      rw [hcs, List.append_assoc]
      exact (List.prefix_append_right_inj pre).mpr hop⟩
    rw [hcs, List.length_append, List.length_cons] at hlength
    omega

theorem clear_iff_not_standsBehind :
    Clear .closed cs [] ↔ ∀ (op : Operator) (pre : List Char), ¬ op.StandsBehind pre cs := by
  rw [clear_iff_standsBehind, List.append_nil]
  refine forall₂_congr fun op pre => ⟨fun h hstands => ?_, fun h hstands => absurd hstands h⟩
  -- There is no room for an operator behind all of the characters.
  have hroom := hstands.2.length_le
  have hsymbol := op.length_symbol_pos
  have hbehind := h hstands
  rw [List.length_append] at hroom
  omega

/-! ### Leftmost operators -/

/-- The first cut of a line is leftmost if what is in front of it is clear and its operator is the
one that is read there. -/
theorem isLeftmost_iff (hq : Quoting.closed.through raw = .closed) :
    (⟨[], raw, op⟩ : Cut).IsLeftmost (raw ++ (op.symbol.toList ++ rest)) ↔
      Clear .closed raw (op.symbol.toList ++ rest) ∧
        operatorAt? (op.symbol.toList ++ rest) = some (op, rest) := by
  have hstands : ∀ op' : Operator, op'.StandsBehind raw (raw ++ (op.symbol.toList ++ rest)) ↔
      op'.symbol.toList <+: op.symbol.toList ++ rest := by
    intro op'
    unfold Operator.StandsBehind
    rw [List.prefix_append_right_inj]
    exact and_iff_right hq
  rw [clear_iff_standsBehind, operatorAt?_symbol_iff]
  constructor
  · intro h
    exact ⟨fun op' pre hop' => (h op' pre hop').1,
      fun op' hop' => (h op' raw ((hstands op').mpr hop')).2 rfl⟩
  · rintro ⟨hclear, hlongest⟩ op' pre hop'
    refine ⟨hclear op' pre hop', ?_⟩
    rintro rfl
    exact hlongest op' ((hstands op').mp hop')

theorem isLeftmost_behind_iff (hq : Quoting.closed.through front = .closed) :
    (c.behind front).IsLeftmost (front ++ line) ↔ c.IsLeftmost line := by
  refine forall₂_congr fun op pre => ?_
  show op.StandsBehind (front ++ c.before ++ pre) (front ++ line) → _ ↔ _
  rw [List.append_assoc, standsBehind_append_iff hq]
  rfl

theorem through_behind (hq : Quoting.closed.through front = .closed) :
    Quoting.closed.through ((c.behind front).before ++ (c.behind front).raw) =
      Quoting.closed.through (c.before ++ c.raw) := by
  show Quoting.closed.through (front ++ c.before ++ c.raw) = _
  rw [List.append_assoc, Quoting.through_append, hq]

/-- Operators leave quotes closed. -/
theorem through_symbol (op : Operator) (hq : Quoting.closed.through raw = .closed) :
    Quoting.closed.through (raw ++ op.symbol.toList) = .closed := by
  rw [Quoting.through_append, hq]
  cases op <;> rfl

end StandsBehind

/-! ### Taking a line apart -/

namespace RawLine

variable {op : Operator} {raw line : List Char} {r r' rest : RawLine}

theorem keptPart_eq_segmentPart (raw : List Char) : keptPart raw = segmentPart raw := by
  unfold keptPart
  split
  · rename_i hblank
    exact (segmentPart_of_blank (List.all_eq_true.mp hblank)).symm
  · rename_i hsolid
    rcases segmentPart_cases raw with ⟨htrim, -⟩ | ⟨-, hpart⟩
    · obtain ⟨pad, pad', hraw, hpad, hpad'⟩ := Chars.exists_pads raw
      rw [htrim, List.append_nil] at hraw
      rw [hraw, List.all_eq_true] at hsolid
      exact absurd (List.forall_mem_append.mpr ⟨hpad, hpad'⟩) hsolid
    · exact hpart.symm

theorem takesApart_last_iff :
    (last raw).TakesApart line ↔ raw = line ∧ Clear .closed raw [] := by
  rw [clear_iff_not_standsBehind]
  constructor
  · intro h
    exact ⟨h.written, h.clear raw List.mem_cons_self⟩
  · rintro ⟨hwritten, hclear⟩
    refine ⟨hwritten, nofun, ?_, nofun⟩
    intro raw' hraw'
    cases List.mem_singleton.mp hraw'
    exact hclear

theorem forall_mem_cuts_iff {P : Cut → Prop} :
    (∀ c ∈ (cut raw op rest).cuts, P c) ↔
      P ⟨[], raw, op⟩ ∧ ∀ c ∈ rest.cuts, P (c.behind (raw ++ op.symbol.toList)) := by
  rw [cuts, List.forall_mem_cons, List.forall_mem_map]

/-- A line is taken apart if it is cut at its first operator and what follows that is taken apart by
itself. -/
theorem takesApart_cut_iff :
    (cut raw op rest).TakesApart line ↔
      raw ++ (op.symbol.toList ++ rest.text) = line ∧
        Quoting.closed.through raw = .closed ∧
        Clear .closed raw (op.symbol.toList ++ rest.text) ∧
        operatorAt? (op.symbol.toList ++ rest.text) = some (op, rest.text) ∧
        rest.TakesApart rest.text := by
  constructor
  · rintro ⟨rfl, hclosed, hclear, hleftmost⟩
    obtain ⟨hq, hclosed⟩ : Quoting.closed.through raw = .closed ∧ _ :=
      forall_mem_cuts_iff.mp hclosed
    obtain ⟨hfirst, hleftmost⟩ := forall_mem_cuts_iff.mp hleftmost
    obtain ⟨hraw, hop⟩ := (isLeftmost_iff hq).mp hfirst
    -- Quotes are closed in front of the rest, so its cuts are the later cuts of the line.
    have hfront := through_symbol op hq
    refine ⟨rfl, hq, hraw, hop, rfl, fun c hc => ?_, (List.forall_mem_cons.mp hclear).2,
      fun c hc => ?_⟩
    · rw [← through_behind hfront]
      exact hclosed c hc
    · rw [← isLeftmost_behind_iff hfront, List.append_assoc raw _ rest.text]
      exact hleftmost c hc
  · rintro ⟨rfl, hq, hraw, hop, -, hclosed, hclear, hleftmost⟩
    have hfront := through_symbol op hq
    refine ⟨rfl, forall_mem_cuts_iff.mpr ⟨hq, fun c hc => ?_⟩, ?_,
      forall_mem_cuts_iff.mpr ⟨(isLeftmost_iff hq).mpr ⟨hraw, hop⟩, fun c hc => ?_⟩⟩
    · rw [through_behind hfront]
      exact hclosed c hc
    · exact List.forall_mem_cons.mpr ⟨clear_iff_not_standsBehind.mp hraw.of_append, hclear⟩
    · rw [← List.append_assoc, isLeftmost_behind_iff hfront]
      exact hleftmost c hc

instance TakesApart.decidable : (r : RawLine) → (line : List Char) → Decidable (r.TakesApart line)
  | last _, _ => decidable_of_iff' _ takesApart_last_iff
  | cut _ _ rest, _ =>
    have := TakesApart.decidable rest rest.text
    decidable_of_iff' _ takesApart_cut_iff

/-- Every line can be taken apart. -/
theorem exists_takesApart (line : List Char) : ∃ r : RawLine, r.TakesApart line := by
  induction line using cut_induction with
  | clear cs hclear => exact ⟨last cs, takesApart_last_iff.mpr ⟨rfl, hclear⟩⟩
  | cut cs op rest hclear hq hop ih =>
    obtain ⟨r, hr⟩ := ih
    obtain rfl := hr.written
    exact ⟨cut cs op r, takesApart_cut_iff.mpr ⟨rfl, hq, hclear, hop, hr⟩⟩

/-- The operator of the first cut stands in the line. -/
theorem TakesApart.standsBehind (h : (cut raw op rest).TakesApart line) :
    op.StandsBehind raw line := by
  obtain ⟨rfl, hq, -⟩ := takesApart_cut_iff.mp h
  exact ⟨hq, (List.prefix_append_right_inj raw).mpr (List.prefix_append _ _)⟩

/-- A line is taken apart in one way only. -/
theorem TakesApart.eq (h : r.TakesApart line) (h' : r'.TakesApart line) : r = r' := by
  induction r generalizing r' line with
  | last raw =>
    obtain ⟨rfl, hclear⟩ := takesApart_last_iff.mp h
    cases r' with
    | last raw' => rw [(takesApart_last_iff.mp h').1]
    | cut => exact absurd h'.standsBehind (clear_iff_not_standsBehind.mp hclear _ _)
  | cut raw op rest ih =>
    cases r' with
    | last raw' =>
      obtain ⟨rfl, hclear⟩ := takesApart_last_iff.mp h'
      exact absurd h.standsBehind (clear_iff_not_standsBehind.mp hclear _ _)
    | cut raw' op' rest' =>
      obtain ⟨hline, -, hclear, hop, hrest⟩ := takesApart_cut_iff.mp h
      obtain ⟨hline', -, hclear', hop', hrest'⟩ := takesApart_cut_iff.mp h'
      -- Both first operators stand in the line, so neither stands further left than the other.
      have hle : raw.length ≤ raw'.length :=
        clear_iff_standsBehind.mp hclear op' raw' (hline ▸ h'.standsBehind)
      have hle' : raw'.length ≤ raw.length :=
        clear_iff_standsBehind.mp hclear' op raw (hline' ▸ h.standsBehind)
      obtain ⟨rfl, hbehind⟩ := List.append_inj (hline.trans hline'.symm) (le_antisymm hle hle')
      -- In one place one operator is read.
      rw [hbehind, hop'] at hop
      obtain ⟨rfl, htext⟩ := Prod.mk.inj (Option.some.inj hop)
      rw [ih hrest (htext ▸ hrest')]

/-- The parts of a line are those of the line taken apart. -/
theorem TakesApart.splitFrom_eq (h : r.TakesApart line) :
    splitFrom .closed [] line = r.parts := by
  induction r generalizing line with
  | last raw =>
    obtain ⟨rfl, hclear⟩ := takesApart_last_iff.mp h
    rw [parts, keptPart_eq_segmentPart]
    exact splitFrom_of_clear hclear
  | cut raw op rest ih =>
    obtain ⟨rfl, hq, hclear, hop, hrest⟩ := takesApart_cut_iff.mp h
    rw [parts, keptPart_eq_segmentPart, splitFrom_of_cut hclear hq hop, ih hrest]

end RawLine

/-- Every line can be taken apart at its leftmost operators in exactly one way, and its parts are
the operators, with the raw segments that are not blank between them, trimmed. -/
theorem splitLine_leftmost (line : String) :
    (∃! r : RawLine, r.TakesApart line.toList) ∧
      ∀ r : RawLine, r.TakesApart line.toList → splitLine line = r.parts := by
  refine ⟨?_, fun r h => h.splitFrom_eq⟩
  obtain ⟨r, h⟩ := RawLine.exists_takesApart line.toList
  exact ⟨r, h, fun r' h' => h'.eq h⟩

/-- Operators side by side, characters of operators that can be taken together in several ways, and
a quote that stays open. -/
theorem splitLine_leftmost_bars :
    let line := "a '|' |||b >>>\" && "
    let r : RawLine := .cut "a '|' ".toList .or <| .cut [] .pipe <| .cut "b ".toList .append <|
      .last ">\" && ".toList
    r.TakesApart line.toList ∧ (∀ r' : RawLine, r'.TakesApart line.toList → r' = r) ∧
      splitLine line = [.segment "a '|'", .operator .or, .operator .pipe, .segment "b",
        .operator .append, .segment ">\" &&"] := by
  intro line r
  have h : r.TakesApart line.toList := by decide +kernel
  have hparts : r.parts = [.segment "a '|'", .operator .or, .operator .pipe, .segment "b",
      .operator .append, .segment ">\" &&"] := by decide +kernel
  obtain ⟨hunique, hsplit⟩ := splitLine_leftmost line
  exact ⟨h, fun r' h' => hunique.unique h' h, (hsplit r h).trans hparts⟩

end CommandShell
