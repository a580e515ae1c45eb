import CommandShell.Line.Part
import CommandShell.Proofs.Text.Trim
import Mathlib.Data.List.Chain

/-!
# Where lines are cut

A line is cut at the leftmost operator outside quotes, and what is left of it is cut in the same
way.  The texts of the segments are trimmed, which leaves the quoting alone, so the parts of a line
can be written one after another with single spaces, and are read back from there.

## Main definitions

* `operatorAt?`: the operator at the start of some characters.
* `Quoting.through`: the quoting after some characters.
* `Clear`: no operator starts outside quotes.
* `IsSegmentText`, `Canonical`: the texts of segments, and the parts of lines.
* `joinParts`: parts as they are written one after another.

## Main results

* `splitFrom_clear`, `splitFrom_operator`: what is read up to an operator, and from there on.
* `clear_or_cut`: a line is clear, or has a leftmost operator.
* `cut_induction`: the induction along the leftmost operators.
* `canonical_splitFrom`, `splitFrom_join`: the parts of lines are the canonical ones.
* `splitLine_canonical`: both for lines.
-/

namespace CommandShell

/-! ### Operators outside quotes -/

/-- Every operator is written with a character. -/
theorem Operator.length_symbol_pos (op : Operator) : 0 < op.symbol.toList.length := by
  cases op <;> exact Nat.succ_pos _

/-- The operator at the start of some characters, if there is one, and what follows it. -/
def operatorAt? : List Char → Option (Operator × List Char)
  | '&' :: '&' :: rest => some (.and, rest)
  | '|' :: '|' :: rest => some (.or, rest)
  | '>' :: '>' :: rest => some (.append, rest)
  | '|' :: rest => some (.pipe, rest)
  | _ => none

/-- The quoting after some characters. -/
def Quoting.through (q : Quoting) (cs : List Char) : Quoting :=
  cs.foldl Quoting.after q

/-- Outside quotes no operator starts among the characters `cs` when `rest` follows them; `q` is the
quoting in front of them. -/
def Clear (q : Quoting) (cs rest : List Char) : Prop :=
  ∀ pre c post, cs = pre ++ c :: post → q.through pre = .closed →
    operatorAt? (c :: post ++ rest) = none

section Cutting

variable {q : Quoting} {c d : Char} {cs cs' pre post rest seen pad : List Char} {op : Operator}

@[simp] theorem Quoting.through_nil (q : Quoting) : q.through [] = q := rfl

@[simp] theorem Quoting.through_cons (q : Quoting) (c : Char) (cs : List Char) :
    q.through (c :: cs) = (q.after c).through cs := rfl

@[simp] theorem Quoting.through_append (q : Quoting) (cs cs' : List Char) :
    q.through (cs ++ cs') = (q.through cs).through cs' :=
  List.foldl_append

theorem clear_nil : Clear q [] rest := by
  intro pre c post h
  simp at h

theorem clear_cons_iff :
    Clear q (c :: cs) rest ↔
      (q = .closed → operatorAt? (c :: cs ++ rest) = none) ∧ Clear (q.after c) cs rest := by
  constructor
  · intro h
    refine ⟨h [] c cs rfl, fun pre d post hcs hq => ?_⟩
    exact h (c :: pre) d post (by rw [hcs]; rfl) hq
  · rintro ⟨hfirst, hrest⟩ pre d post hcs hq
    cases pre with
    | nil =>
      obtain ⟨rfl, rfl⟩ := List.cons.inj hcs
      exact hfirst hq
    | cons e pre =>
      obtain ⟨rfl, rfl⟩ := List.cons.inj hcs
      exact hrest pre d post rfl hq

instance Clear.decidable : (q : Quoting) → (cs rest : List Char) → Decidable (Clear q cs rest)
  | _, [], _ => .isTrue clear_nil
  | q, c :: cs, rest =>
    have := Clear.decidable (q.after c) cs rest
    decidable_of_iff' _ clear_cons_iff

theorem clear_append_iff :
    Clear q (cs ++ cs') rest ↔ Clear q cs (cs' ++ rest) ∧ Clear (q.through cs) cs' rest := by
  induction cs generalizing q with
  | nil => simp [clear_nil]
  | cons c cs ih =>
    rw [List.cons_append, clear_cons_iff, clear_cons_iff, ih, Quoting.through_cons]
    simp [and_assoc]

/-- With every bar an operator starts. -/
theorem operatorAt?_bar_ne_none : operatorAt? ('|' :: cs) ≠ none := by
  unfold operatorAt?
  split <;> simp_all

/-- A character and the next one decide whether an operator starts: one does with every bar, and
with an ampersand or an angle bracket that is doubled. -/
theorem operatorAt?_cons_eq_none_iff :
    operatorAt? (c :: cs) = none ↔ c ≠ '|' ∧ (c = '&' ∨ c = '>' → cs.head? ≠ some c) := by
  constructor
  · intro h
    refine ⟨?_, fun hc hhead => ?_⟩
    · rintro rfl
      exact operatorAt?_bar_ne_none h
    · obtain ⟨rest, rfl⟩ := List.head?_eq_some_iff.mp hhead
      rcases hc with rfl | rfl <;> cases h
  · rintro ⟨hbar, hpair⟩
    unfold operatorAt?
    split <;> simp_all

/-- No operator starts with a character that is in none. -/
theorem operatorAt?_of_notMem (h : c ∉ ['&', '|', '>']) : operatorAt? (c :: cs) = none := by
  simp only [List.mem_cons, List.not_mem_nil, or_false, not_or] at h
  obtain ⟨hand, hbar, hafter⟩ := h
  refine operatorAt?_cons_eq_none_iff.mpr ⟨hbar, ?_⟩
  rintro (rfl | rfl)
  · exact absurd rfl hand
  · exact absurd rfl hafter

/-- An operator that is not there does not appear when what follows is taken away. -/
theorem operatorAt?_of_append (h : operatorAt? (cs ++ rest) = none) : operatorAt? cs = none := by
  cases cs with
  | nil => rfl
  | cons c cs =>
    rw [List.cons_append] at h
    obtain ⟨hbar, hpair⟩ := operatorAt?_cons_eq_none_iff.mp h
    refine operatorAt?_cons_eq_none_iff.mpr ⟨hbar, fun hc hhead => hpair hc ?_⟩
    rw [List.head?_append, hhead, Option.some_or]

theorem Clear.of_append (h : Clear q cs rest) : Clear q cs [] := by
  intro pre c post hcs hq
  have hnone := h pre c post hcs hq
  rw [List.append_nil]
  exact operatorAt?_of_append hnone

/-- An operator is read where it is written, unless a bar makes a single one a pair. -/
theorem operatorAt?_symbol (h : rest.head? ≠ some '|') :
    operatorAt? (op.symbol.toList ++ rest) = some (op, rest) := by
  cases op with
  | pipe =>
    show operatorAt? ('|' :: rest) = some (.pipe, rest)
    cases rest with
    | nil => rfl
    | cons c rest =>
      have hc : c ≠ '|' := fun hc => h (by rw [hc]; rfl)
      unfold operatorAt?
      split <;> simp_all
  | _ => rfl

/-- An operator is read in front of other characters as well, as long as no second bar makes a pair
of a single one. -/
theorem operatorAt?_symbol_of_pipe (h : op = .pipe → rest.head? ≠ some '|') :
    operatorAt? (op.symbol.toList ++ rest) = some (op, rest) := by
  cases op with
  | pipe => exact operatorAt?_symbol (h rfl)
  | _ => rfl

/-! ### Blanks -/

theorem Quoting.after_of_isBlank (hc : isBlank c = true) : q.after c = q := by
  have hsingle : c ≠ '\'' := by rintro rfl; cases hc
  have hdouble : c ≠ '"' := by rintro rfl; cases hc
  cases q <;> simp [Quoting.after, hsingle, hdouble]

theorem operatorAt?_of_isBlank (hc : isBlank c = true) : operatorAt? (c :: cs) = none := by
  refine operatorAt?_of_notMem fun hmem => ?_
  have hsolid : ['&', '|', '>'].all (fun d => !isBlank d) = true := by decide
  have hsolid := List.all_eq_true.mp hsolid c hmem
  rw [hc] at hsolid
  cases hsolid

/-- A blank makes no operator of what stands in front of it. -/
theorem operatorAt?_before_blank (h : operatorAt? (c :: cs) = none) (hd : isBlank d = true) :
    operatorAt? (c :: cs ++ d :: rest) = none := by
  obtain ⟨hbar, hpair⟩ := operatorAt?_cons_eq_none_iff.mp h
  refine operatorAt?_cons_eq_none_iff.mpr ⟨hbar, fun hc => ?_⟩
  cases cs with
  | nil =>
    rintro ⟨⟩
    rcases hc with rfl | rfl <;> cases hd
  | cons e cs => exact hpair hc

theorem Clear.before_blank (h : Clear q cs []) (hd : isBlank d = true) :
    Clear q cs (d :: rest) := by
  intro pre c post hcs hq
  have hnone := h pre c post hcs hq
  rw [List.append_nil] at hnone
  exact operatorAt?_before_blank hnone hd

theorem Quoting.through_of_blank (h : ∀ c ∈ pad, isBlank c = true) : q.through pad = q := by
  induction pad with
  | nil => rfl
  | cons c pad ih =>
    rw [Quoting.through_cons, Quoting.after_of_isBlank (h c List.mem_cons_self)]
    exact ih fun d hd => h d (List.mem_cons_of_mem _ hd)

theorem clear_of_blank (h : ∀ c ∈ pad, isBlank c = true) : Clear q pad rest := by
  intro pre c post hpad _
  exact operatorAt?_of_isBlank (h c (by simp [hpad]))

/-! ### Reading up to an operator -/

/-- An operator is where it is written. -/
theorem eq_symbol_of_operatorAt? (h : operatorAt? cs = some (op, rest)) :
    cs = op.symbol.toList ++ rest := by
  unfold operatorAt? at h
  split at h
  all_goals
    simp only [Option.some.injEq, Prod.mk.injEq, reduceCtorEq] at h
  all_goals
    obtain ⟨rfl, rfl⟩ := h
    rfl

theorem head?_ne_bar_of_pipe (h : operatorAt? cs = some (.pipe, rest)) :
    rest.head? ≠ some '|' := by
  rintro hbar
  obtain ⟨rest, rfl⟩ := List.head?_eq_some_iff.mp hbar
  rw [eq_symbol_of_operatorAt? h] at h
  cases h

theorem splitFrom_operator (h : operatorAt? cs = some (op, rest)) :
    splitFrom .closed seen cs =
      segmentPart seen.reverse ++ .operator op :: splitFrom .closed [] rest := by
  unfold operatorAt? at h
  split at h
  all_goals
    simp only [Option.some.injEq, Prod.mk.injEq, reduceCtorEq] at h
  all_goals
    obtain ⟨rfl, rfl⟩ := h
    rw [splitFrom]
  -- A single bar is an operator of its own if no second one follows.
  assumption

theorem splitFrom_cons (h : q = .closed → operatorAt? (c :: cs) = none) :
    splitFrom q seen (c :: cs) = splitFrom (q.after c) (c :: seen) cs := by
  rw [splitFrom]
  -- In the other cases an operator would start here.
  · rintro rest rfl rfl rfl
    cases h rfl
  · rintro rest rfl rfl rfl
    cases h rfl
  · rintro rest rfl rfl rfl
    cases h rfl
  · rintro rfl rfl
    exact operatorAt?_bar_ne_none (h rfl)

/-- What is clear is read as a part of a segment. -/
theorem splitFrom_clear (h : Clear q cs rest) :
    splitFrom q seen (cs ++ rest) = splitFrom (q.through cs) (cs.reverse ++ seen) rest := by
  induction cs generalizing q seen with
  | nil => rfl
  | cons c cs ih =>
    obtain ⟨hfirst, hrest⟩ := clear_cons_iff.mp h
    rw [List.cons_append] at hfirst ⊢
    rw [splitFrom_cons hfirst, ih hrest, Quoting.through_cons,
      List.reverse_cons, List.append_assoc]
    rfl

theorem splitFrom_of_clear (h : Clear .closed cs []) :
    splitFrom .closed [] cs = segmentPart cs := by
  have hcs : splitFrom .closed [] (cs ++ []) = _ := splitFrom_clear h
  rw [List.append_nil, List.append_nil] at hcs
  rw [hcs, splitFrom, List.reverse_reverse]

theorem splitFrom_of_cut (h : Clear .closed cs cs') (hq : Quoting.closed.through cs = .closed)
    (hop : operatorAt? cs' = some (op, rest)) :
    splitFrom .closed [] (cs ++ cs') =
      segmentPart cs ++ .operator op :: splitFrom .closed [] rest := by
  rw [splitFrom_clear h, hq, splitFrom_operator hop, List.append_nil, List.reverse_reverse]

/-- Some characters are clear, or there is a leftmost operator among them. -/
theorem clear_or_cut (q : Quoting) (cs : List Char) :
    Clear q cs [] ∨ ∃ pre post op rest, cs = pre ++ post ∧ Clear q pre post ∧
      q.through pre = .closed ∧ operatorAt? post = some (op, rest) := by
  induction cs generalizing q with
  | nil => exact Or.inl clear_nil
  | cons c cs ih =>
    by_cases hfirst : q = .closed → operatorAt? (c :: cs) = none
    · rcases ih (q.after c) with hclear | ⟨pre, post, op, rest, rfl, hclear, hq, hop⟩
      · refine Or.inl (clear_cons_iff.mpr ⟨?_, hclear⟩)
        rw [List.append_nil]
        exact hfirst
      · exact Or.inr ⟨c :: pre, post, op, rest, rfl, clear_cons_iff.mpr ⟨hfirst, hclear⟩, hq, hop⟩
    · obtain ⟨hq, hop⟩ := Classical.not_imp.mp hfirst
      obtain ⟨⟨op, rest⟩, hop⟩ := Option.ne_none_iff_exists'.mp hop
      exact Or.inr ⟨[], c :: cs, op, rest, rfl, clear_nil, hq, hop⟩

/-- What holds of clear characters, and of characters with a leftmost operator if it holds of what
follows that, holds of all characters. -/
theorem cut_induction {motive : List Char → Prop}
    (clear : ∀ cs, Clear .closed cs [] → motive cs)
    (cut : ∀ cs op rest, Clear .closed cs (op.symbol.toList ++ rest) →
      Quoting.closed.through cs = .closed →
      operatorAt? (op.symbol.toList ++ rest) = some (op, rest) → motive rest →
      motive (cs ++ (op.symbol.toList ++ rest)))
    (cs : List Char) : motive cs := by
  -- The induction is on the length, since what follows an operator is shorter.
  induction hn : cs.length using Nat.strongRecOn generalizing cs with
  | _ n ih =>
    rcases clear_or_cut .closed cs with hclear | ⟨pre, post, op, rest, rfl, hclear, hq, hop⟩
    · exact clear cs hclear
    · obtain rfl := eq_symbol_of_operatorAt? hop
      have hlength : rest.length < n := by
        have hsymbol := op.length_symbol_pos
        rw [← hn, List.length_append, List.length_append]
        omega
      exact cut pre op rest hclear hq hop (ih rest.length hlength rest rfl)

/-! ### Texts of segments -/

/-- Characters that can be the text of a segment: some that are trimmed, with no operator outside
quotes. -/
structure IsSegmentText (cs : List Char) : Prop where
  ne_nil : cs ≠ []
  trimmed : Chars.Trimmed cs
  clear : Clear .closed cs []

theorem segmentPart_cases (cs : List Char) :
    Chars.trim cs = [] ∧ segmentPart cs = [] ∨
      Chars.trim cs ≠ [] ∧ segmentPart cs = [.segment (String.ofList (Chars.trim cs))] := by
  unfold segmentPart
  split
  · rename_i htrim
    exact Or.inl ⟨htrim, rfl⟩
  · rename_i htrim
    exact Or.inr ⟨htrim, rfl⟩

theorem isSegmentText_trim (h : Clear .closed cs []) (hne : Chars.trim cs ≠ []) :
    IsSegmentText (Chars.trim cs) := by
  refine ⟨hne, Chars.trimmed_trim cs, ?_⟩
  obtain ⟨pad, pad', hcs, hpad, -⟩ := Chars.exists_pads cs
  rw [hcs] at h
  have hmid := (clear_append_iff.mp (clear_append_iff.mp h).1).2
  rw [Quoting.through_of_blank hpad] at hmid
  exact hmid.of_append

/-- To trim some characters leaves the quoting behind them alone. -/
theorem Quoting.through_trim (q : Quoting) (cs : List Char) :
    q.through (Chars.trim cs) = q.through cs := by
  obtain ⟨pad, pad', hcs, hpad, hpad'⟩ := Chars.exists_pads cs
  conv => rhs; rw [hcs]
  rw [Quoting.through_append, Quoting.through_append, Quoting.through_of_blank hpad,
    Quoting.through_of_blank hpad']

theorem segmentPart_of_blank (h : ∀ c ∈ pad, isBlank c = true) : segmentPart pad = [] := by
  have htrim : Chars.trim (pad ++ [] ++ []) = [] :=
    Chars.trim_pads h (by simp) Chars.trimmed_nil
  rw [List.append_nil, List.append_nil] at htrim
  unfold segmentPart
  rw [htrim]

theorem segmentPart_of_pads {text : String} (h : IsSegmentText text.toList)
    (hpad : ∀ c ∈ pad, isBlank c = true) (hpost : ∀ c ∈ post, isBlank c = true) :
    segmentPart (pad ++ text.toList ++ post) = [.segment text] := by
  have htrim := Chars.trim_pads hpad hpost h.trimmed
  rcases segmentPart_cases (pad ++ text.toList ++ post) with ⟨hnil, -⟩ | ⟨-, hpart⟩
  · exact absurd (htrim.symm.trans hnil) h.ne_nil
  · rw [hpart, htrim, String.ofList_toList]

end Cutting

/-! ## Canonical parts -/

/-- Parts as they come from a line: no two segments stand side by side, the texts of segments are
trimmed and hold no operator outside quotes, and quotes are closed in front of every further
part. -/
structure Canonical (parts : List Part) : Prop where
  apart : parts.IsChain fun p q => ¬ (p.isSegment = true ∧ q.isSegment = true)
  segments : ∀ text, .segment text ∈ parts → IsSegmentText text.toList
  closed : ∀ pre text next post, parts = pre ++ .segment text :: next :: post →
    Quoting.closed.through text.toList = .closed

/-- Parts as they are written one after another, with single spaces between them. -/
def joinParts (parts : List Part) : String :=
  " ".intercalate (parts.map Part.text)

section Canonical

variable {text : String} {op : Operator} {part : Part} {parts : List Part} {pad cs : List Char}

theorem canonical_nil : Canonical [] where
  apart := .nil
  segments _ h := by cases h
  closed pre text next post h := by simp at h

/-- In front of canonical parts any operator may stand. -/
theorem canonical_operator_iff : Canonical (.operator op :: parts) ↔ Canonical parts := by
  constructor
  · rintro ⟨hapart, hsegments, hclosed⟩
    refine ⟨hapart.tail, fun t ht => hsegments t (List.mem_cons_of_mem _ ht), ?_⟩
    intro pre t next post hparts
    exact hclosed (.operator op :: pre) t next post (by rw [hparts]; rfl)
  · rintro ⟨hapart, hsegments, hclosed⟩
    refine ⟨?_, ?_, ?_⟩
    · -- An operator that comes in front stands between no two segments.
      cases parts with
      | nil => exact .singleton _
      | cons part parts =>
        refine List.isChain_cons_cons.mpr ⟨?_, hapart⟩
        rintro ⟨hop, -⟩
        cases hop
    · intro t ht
      rcases List.mem_cons.mp ht with hop | ht
      · cases hop
      · exact hsegments t ht
    · intro pre t next post hparts
      cases pre with
      | nil => cases hparts
      | cons p pre => exact hclosed pre t next post (List.cons.inj hparts).2

theorem canonical_segment_iff : Canonical [.segment text] ↔ IsSegmentText text.toList := by
  constructor
  · intro h
    exact h.segments text List.mem_cons_self
  · intro h
    refine ⟨.singleton _, ?_, ?_⟩
    · intro t ht
      cases List.mem_singleton.mp ht
      exact h
    · intro pre t next post hparts
      have hlength := congrArg List.length hparts
      simp only [List.length_append, List.length_cons, List.length_nil] at hlength
      omega

/-- In front of canonical parts that start with an operator a segment may stand with its quotes
closed. -/
theorem canonical_segment_operator_iff :
    Canonical (.segment text :: .operator op :: parts) ↔
      IsSegmentText text.toList ∧ Quoting.closed.through text.toList = .closed ∧
        Canonical parts := by
  constructor
  · intro h
    refine ⟨h.segments text List.mem_cons_self, h.closed [] text _ parts rfl,
      canonical_operator_iff.mp ⟨h.apart.tail, ?_, ?_⟩⟩
    · exact fun t ht => h.segments t (List.mem_cons_of_mem _ ht)
    · intro pre t next post hparts
      exact h.closed (.segment text :: pre) t next post (by rw [hparts]; rfl)
  · rintro ⟨htext, hq, hparts⟩
    have hrest : Canonical (.operator op :: parts) := canonical_operator_iff.mpr hparts
    refine ⟨List.isChain_cons_cons.mpr ⟨?_, hrest.apart⟩, ?_, ?_⟩
    · rintro ⟨-, hop⟩
      cases hop
    · intro t ht
      rcases List.mem_cons.mp ht with heq | ht
      · cases heq
        exact htext
      · exact hrest.segments t ht
    · -- The segment in front is the only new one that an operator follows.
      intro pre t next post heq
      cases pre with
      | nil =>
        cases heq
        exact hq
      | cons p pre => exact hrest.closed pre t next post (List.cons.inj heq).2

theorem not_canonical_segments {text' : String} :
    ¬ Canonical (.segment text :: .segment text' :: parts) := by
  intro h
  exact (List.isChain_cons_cons.mp h.apart).1 ⟨rfl, rfl⟩

/-- The parts of some characters are canonical. -/
theorem canonical_splitFrom (cs : List Char) : Canonical (splitFrom .closed [] cs) := by
  induction cs using cut_induction with
  | clear cs hclear =>
    rw [splitFrom_of_clear hclear]
    rcases segmentPart_cases cs with ⟨-, hpart⟩ | ⟨hne, hpart⟩
    · rw [hpart]
      exact canonical_nil
    · rw [hpart, canonical_segment_iff, String.toList_ofList]
      exact isSegmentText_trim hclear hne
  -- In front of the first operator there is one segment, or none if there are but blanks.
  | cut cs op rest hclear hq hop hrest =>
    rw [splitFrom_of_cut hclear hq hop]
    rcases segmentPart_cases cs with ⟨-, hpart⟩ | ⟨hne, hpart⟩
    · rw [hpart]
      exact canonical_operator_iff.mpr hrest
    · rw [hpart]
      refine canonical_segment_operator_iff.mpr ⟨?_, ?_, hrest⟩
      · rw [String.toList_ofList]
        exact isSegmentText_trim hclear.of_append hne
      · rw [String.toList_ofList, Quoting.through_trim]
        exact hq

/-! ### Joined parts -/

theorem joinParts_cons (part : Part) (parts : List Part) :
    (joinParts (part :: parts)).toList =
      part.text.toList ++ if parts = [] then [] else ' ' :: (joinParts parts).toList := by
  unfold joinParts
  cases parts with
  | nil => simp
  | cons q parts => simp [String.toList_intercalate, List.intercalate]

/-- Behind an operator there is nothing, or there are further parts behind a space. -/
theorem exists_joinParts_operator (op : Operator)
    (h : ∀ pad, (∀ c ∈ pad, isBlank c = true) →
      splitFrom .closed [] (pad ++ (joinParts rest).toList) = rest) :
    ∃ cs, (joinParts (.operator op :: rest)).toList = op.symbol.toList ++ cs ∧
      cs.head? ≠ some '|' ∧ splitFrom .closed [] cs = rest := by
  refine ⟨_, joinParts_cons (.operator op) rest, ?_, ?_⟩
  · split <;> simp
  · split
    · rename_i hnil
      rw [hnil]
      rfl
    · exact h [' '] (List.all_eq_true.mp (by decide))

/-- Canonical parts that are written one after another are read back, also behind blanks. -/
theorem splitFrom_join (h : Canonical parts) (hpad : ∀ c ∈ pad, isBlank c = true) :
    splitFrom .closed [] (pad ++ (joinParts parts).toList) = parts := by
  induction hn : parts.length using Nat.strongRecOn generalizing parts pad with
  | _ n ih =>
    match parts, h with
    | [], _ =>
      have hjoin : (joinParts []).toList = [] := rfl
      rw [hjoin, List.append_nil, splitFrom_of_clear (clear_of_blank hpad)]
      exact segmentPart_of_blank hpad
    | .operator op :: rest, h =>
      have hlength : rest.length < n := by
        rw [← hn]
        exact Nat.lt_succ_self _
      obtain ⟨cs, hjoin, hbar, hcs⟩ := exists_joinParts_operator op fun _ hblank =>
        ih rest.length hlength (canonical_operator_iff.mp h) hblank rfl
      rw [hjoin, splitFrom_of_cut (clear_of_blank hpad) (Quoting.through_of_blank hpad)
        (operatorAt?_symbol hbar), segmentPart_of_blank hpad, hcs]
      rfl
    | [.segment text], h =>
      have htext := canonical_segment_iff.mp h
      have hclear : Clear .closed (pad ++ text.toList) [] := by
        rw [clear_append_iff, Quoting.through_of_blank hpad]
        exact ⟨clear_of_blank hpad, htext.clear⟩
      have hpart : segmentPart (pad ++ text.toList ++ []) = _ :=
        segmentPart_of_pads htext hpad (by simp)
      rw [List.append_nil] at hpart
      rw [joinParts_cons, if_pos rfl, List.append_nil]
      exact (splitFrom_of_clear hclear).trans hpart
    | .segment text :: .operator op :: rest, h =>
      obtain ⟨htext, hq, hcanonical⟩ := canonical_segment_operator_iff.mp h
      have hlength : rest.length < n := by
        rw [← hn, List.length_cons, List.length_cons]
        omega
      obtain ⟨cs, hjoin, hbar, hcs⟩ := exists_joinParts_operator op fun _ hblank =>
        ih rest.length hlength hcanonical hblank rfl
      have hspace : ∀ c ∈ [' '], isBlank c = true := List.all_eq_true.mp (by decide)
      have hclear : Clear .closed (pad ++ text.toList ++ [' ']) (op.symbol.toList ++ cs) := by
        rw [clear_append_iff, clear_append_iff, Quoting.through_of_blank hpad]
        exact ⟨⟨clear_of_blank hpad, htext.clear.before_blank (by decide)⟩, clear_of_blank hspace⟩
      have hclosed : Quoting.closed.through (pad ++ text.toList ++ [' ']) = .closed := by
        rw [Quoting.through_append, Quoting.through_append, Quoting.through_of_blank hpad, hq]
        exact Quoting.through_of_blank hspace
      have hline : pad ++ (joinParts (.segment text :: .operator op :: rest)).toList =
          pad ++ text.toList ++ [' '] ++ (op.symbol.toList ++ cs) := by
        rw [joinParts_cons, if_neg (by simp), hjoin]
        simp [Part.text]
      rw [hline, splitFrom_of_cut hclear hclosed (operatorAt?_symbol hbar),
        segmentPart_of_pads htext hpad hspace, hcs]
      rfl
    | .segment _ :: .segment _ :: _, h => exact absurd h not_canonical_segments

/-- A line that is the text of a segment has this segment as its only part. -/
theorem splitLine_of_isSegmentText (h : IsSegmentText text.toList) :
    splitLine text = [.segment text] := by
  have hpad : ∀ c ∈ ([] : List Char), isBlank c = true := by simp
  have hpart := segmentPart_of_pads h hpad hpad
  rw [List.nil_append, List.append_nil] at hpart
  exact (splitFrom_of_clear h.clear).trans hpart

/-- The parts of lines are the canonical ones: whatever the line is, its parts are canonical, and
canonical parts that are written one after another with single spaces are the parts of what is
written. -/
theorem splitLine_canonical :
    (∀ line, Canonical (splitLine line)) ∧
      ∀ parts, Canonical parts → splitLine (joinParts parts) = parts := by
  refine ⟨fun line => canonical_splitFrom line.toList, fun parts h => ?_⟩
  have hpad : ∀ c ∈ ([] : List Char), isBlank c = true := by simp
  exact splitFrom_join h hpad

/-- Parts with operators inside quotes and side by side, with single characters of operators, and
with a quote that stays open at the end. -/
theorem splitLine_canonical_quoted :
    let parts : List Part := [.segment "a& '| b'", .operator .pipe, .operator .pipe,
      .operator .append, .segment "> \"c &&"]
    Canonical parts ∧ splitLine (joinParts parts) = parts := by
  intro parts
  have hline : splitLine "a& '| b'| |>>> \"c && " = parts := by decide +kernel
  have hparts : Canonical parts := hline ▸ splitLine_canonical.1 _
  exact ⟨hparts, splitLine_canonical.2 parts hparts⟩

end Canonical

end CommandShell
