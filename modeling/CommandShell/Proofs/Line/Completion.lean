import CommandShell.Line.Completion
import CommandShell.Proofs.Line.Cutting
import CommandShell.Proofs.Text.CasePrefix

/-!
# What a completion changes

A completion takes the place of the word at the end of a text.  It changes no other part of the
line: what stands in front of the last segment is cut in the same way whatever comes there, unless
that is a bar.  The words that are offered are the names whose lower case starts with that of the
typed word, which a prefix of a name need not have: a capital sigma at its end is written `ς`, and
`σ` where the name goes on.

## Main definitions

* `Completion.applyTo`: a text with a completion in place of what it replaces.
* `completeParts`: parts with a name in place of the segment at their end, or behind them.
* `openWord?`: the word that can be completed at the end of a text.
* `IsPlainName`: a name without blanks, quotes and characters of operators.
* `LeavesParts`: what stands in front of the last segment of a line.

## Main results

* `exists_leavesParts`: every line has a last segment, which may be empty.
* `splitLine_applyTo`: a completion changes the last segment of a line, or adds one.
* `completions_offer_prefix_iff`: what is offered, and which prefixes of names are not completed.
-/

namespace CommandShell

/-- A text with a completion in place of what it replaces. -/
def Completion.applyTo (c : Completion) (text : String) : String :=
  String.ofList (text.toList.take (text.length - c.replaced)) ++ c.text

/-- Parts with a name in place of the segment at their end, or behind them if none stands there. -/
def completeParts (parts : List Part) (name : String) : List Part :=
  match parts.getLast? with
  | some (.segment _) => parts.dropLast ++ [.segment name]
  | _ => parts ++ [.segment name]

/-- The word that can be completed at the end of a text: a segment without blanks that the text ends
with, or the empty word if the text is blank or an operator is its last part. -/
def openWord? (text : String) : Option String :=
  match (splitLine text).getLast? with
  | some (.segment s) =>
    if s.toList.any isBlank || text.toList.getLast?.any isBlank then none else some s
  | _ => some ""

/-- The names and aliases of some commands, in order. -/
def offeredNames (commands : List Registry.Listing) : List String :=
  commands.flatMap fun c => c.name :: c.aliases

/-- A name without blanks, quotes and characters of operators. -/
structure IsPlainName (name : String) : Prop where
  ne_empty : name ≠ ""
  solid : ∀ c ∈ name.toList, isBlank c = false
  unmarked : ∀ c ∈ name.toList, c ∉ ['\'', '"', '&', '|', '>']

section Names

variable {name : String}

theorem isPlainName_iff :
    IsPlainName name ↔ name ≠ "" ∧
      name.toList.all (fun c => isBlank c = false ∧ c ∉ ['\'', '"', '&', '|', '>']) = true := by
  simp only [List.all_eq_true, decide_eq_true_eq]
  exact ⟨fun h => ⟨h.ne_empty, fun c hc => ⟨h.solid c hc, h.unmarked c hc⟩⟩,
    fun h => ⟨h.1, fun c hc => (h.2 c hc).1, fun c hc => (h.2 c hc).2⟩⟩

instance : Decidable (IsPlainName name) :=
  decidable_of_iff' _ isPlainName_iff

/-- A plain name can be the text of a segment. -/
theorem IsPlainName.isSegmentText (h : IsPlainName name) : IsSegmentText name.toList where
  ne_nil hnil := h.ne_empty (String.toList_eq_nil_iff.mp hnil)
  trimmed :=
    { head := fun c hc => h.solid c (List.mem_of_mem_head? hc)
      last := fun c hc => h.solid c (List.mem_of_mem_getLast? hc) }
  clear := by
    intro pre c post hname _
    have hc := h.unmarked c (by simp [hname])
    refine operatorAt?_of_notMem fun hmem => hc ?_
    exact List.mem_cons_of_mem _ (List.mem_cons_of_mem _ hmem)

end Names

/-! ### The last segment of a line -/

section LastSegment

variable {q : Quoting} {op : Operator} {d : Char} {cs pre next rest rest' : List Char}
  {parts : List Part}

/-- Whether an operator starts is decided by two characters. -/
theorem operatorAt?_eq_none_of_append {c : Char}
    (h : operatorAt? (c :: cs ++ d :: rest) = none) (rest' : List Char) :
    operatorAt? (c :: cs ++ d :: rest') = none := by
  rw [List.cons_append, operatorAt?_cons_eq_none_iff] at h ⊢
  refine ⟨h.1, fun hc => ?_⟩
  have hhead : (cs ++ d :: rest').head? = (cs ++ d :: rest).head? := by
    rw [List.head?_append, List.head?_append, List.head?_cons, List.head?_cons]
  rw [hhead]
  exact h.2 hc

/-- What is clear in front of a character stays so whatever comes behind the character. -/
theorem Clear.of_cons (h : Clear q cs (d :: rest)) (rest' : List Char) :
    Clear q cs (d :: rest') := by
  intro pre c post hcs hq
  exact operatorAt?_eq_none_of_append (h pre c post hcs hq) rest'

/-- The characters `pre` in front of the last segment of a line: they make the parts `parts`, none
of which is cut off in the middle, whatever comes next. -/
structure LeavesParts (pre : List Char) (parts : List Part) : Prop where
  ended : ∀ p ∈ parts.getLast?, p.isSegment = false
  splits : ∀ next, next.head? ≠ some '|' →
    splitFrom .closed [] (pre ++ next) = parts ++ splitFrom .closed [] next

theorem leavesParts_nil : LeavesParts [] [] where
  ended _ h := by cases h
  splits _ _ := rfl

/-- In front of them there may be another segment with its operator. -/
theorem LeavesParts.cons {last : List Char} (h : LeavesParts pre parts)
    (hclear : Clear .closed cs rest) (hq : Quoting.closed.through cs = .closed)
    (hop : operatorAt? rest = some (op, pre ++ last)) :
    LeavesParts (cs ++ op.symbol.toList ++ pre) (segmentPart cs ++ .operator op :: parts) := by
  constructor
  · intro p hp
    rw [List.getLast?_append, List.getLast?_cons] at hp
    cases hparts : parts.getLast? with
    | none =>
      rw [hparts] at hp
      obtain rfl := Option.some.inj hp
      rfl
    | some p' =>
      rw [hparts] at hp
      obtain rfl := Option.some.inj hp
      exact h.ended p' hparts
  · intro next hnext
    have hbar : op = .pipe → (pre ++ next).head? ≠ some '|' := by
      rintro rfl
      have hhead := head?_ne_bar_of_pipe hop
      cases pre with
      | nil => exact hnext
      | cons c pre => exact hhead
    have hop' := operatorAt?_symbol_of_pipe hbar
    -- The characters of the operator are what makes the segment end where it does.
    have hclear' : Clear .closed cs (op.symbol.toList ++ (pre ++ next)) := by
      rw [eq_symbol_of_operatorAt? hop] at hclear
      cases op <;> exact hclear.of_cons _
    rw [List.append_assoc, List.append_assoc, splitFrom_of_cut hclear' hq hop', h.splits next hnext,
      List.append_assoc]
    rfl

/-- Every line has a last segment, which may be empty, and what stands in front of it. -/
theorem exists_leavesParts (cs : List Char) :
    ∃ pre last parts, cs = pre ++ last ∧ Clear .closed last [] ∧ LeavesParts pre parts := by
  induction cs using cut_induction with
  | clear cs hclear => exact ⟨[], cs, [], rfl, hclear, leavesParts_nil⟩
  | cut segment op rest hclear hq hop ih =>
    obtain ⟨pre, last, parts, rfl, hlast, hpre⟩ := ih
    refine ⟨_, last, _, ?_, hlast, hpre.cons hclear hq hop⟩
    simp only [List.append_assoc]

theorem Clear.head?_ne_bar (h : Clear .closed cs []) : cs.head? ≠ some '|' := by
  intro hbar
  obtain ⟨rest, rfl⟩ := List.head?_eq_some_iff.mp hbar
  exact operatorAt?_bar_ne_none (h [] '|' rest rfl rfl)

end LastSegment

/-! ### Completing the last word -/

section Completing

variable {commands : List Registry.Listing} {text typed name : String} {pre pad last : List Char}
  {parts : List Part}

theorem completeParts_of_not_segment (h : ∀ p ∈ parts.getLast?, p.isSegment = false)
    (name : String) : completeParts parts name = parts ++ [.segment name] := by
  unfold completeParts
  split
  · rename_i s hlast
    cases h _ hlast
  · rfl

theorem completeParts_concat (parts : List Part) (s name : String) :
    completeParts (parts ++ [.segment s]) name = parts ++ [.segment name] := by
  unfold completeParts
  rw [List.getLast?_concat]
  dsimp only
  rw [List.dropLast_concat]

/-- A name behind blanks is read as the last segment. -/
theorem LeavesParts.splitFrom_name (h : LeavesParts pre parts) (hname : IsPlainName name)
    (hpad : ∀ c ∈ pad, isBlank c = true) :
    splitFrom .closed [] (pre ++ (pad ++ name.toList)) = parts ++ [.segment name] := by
  have hclear : Clear .closed (pad ++ name.toList) [] := by
    rw [clear_append_iff, Quoting.through_of_blank hpad]
    exact ⟨clear_of_blank hpad, hname.isSegmentText.clear⟩
  rw [h.splits _ hclear.head?_ne_bar, splitFrom_of_clear hclear]
  have hnone : ∀ c ∈ ([] : List Char), isBlank c = true := nofun
  have hpart := segmentPart_of_pads hname.isSegmentText hpad hnone
  rw [List.append_nil] at hpart
  rw [hpart]

/-- Where a word is typed, it stands behind blanks after what makes the other parts. -/
theorem exists_leavesParts_of_typedWord (h : typedWord? text = some typed) :
    ∃ pre pad parts, text.toList = pre ++ (pad ++ typed.toList) ∧ LeavesParts pre parts ∧
      (∀ c ∈ pad, isBlank c = true) ∧
      ∀ name, completeParts (splitLine text) name = parts ++ [.segment name] := by
  -- Cut behind the last operator: what comes after it is what the typed word is looked for in.
  obtain ⟨pre, last, parts, htext, hclear, hpre⟩ := exists_leavesParts text.toList
  have hsplit : splitLine text = parts ++ segmentPart last := by
    rw [splitLine, htext, hpre.splits last hclear.head?_ne_bar, splitFrom_of_clear hclear]
  obtain ⟨pad, pad', hlast, hpad, hpad'⟩ := Chars.exists_pads last
  rcases segmentPart_cases last with ⟨htrim, hpart⟩ | ⟨hne, hpart⟩
  · -- Nothing is typed: the text ends with blanks behind an operator, or is blank.
    rw [hpart, List.append_nil] at hsplit
    rw [htrim, List.append_nil] at hlast
    have htyped : typed = "" := by
      unfold typedWord? at h
      rw [hsplit] at h
      split at h
      · rename_i s hs
        cases hpre.ended _ hs
      · exact (Option.some.inj h).symm
    refine ⟨pre, pad ++ pad', parts, ?_, hpre, List.forall_mem_append.mpr ⟨hpad, hpad'⟩, ?_⟩
    · rw [htyped, htext, hlast]
      simp
    · intro name
      rw [hsplit, completeParts_of_not_segment hpre.ended]
  · -- The typed word is the last segment, and no blanks follow it.
    rw [hpart] at hsplit
    unfold typedWord? at h
    rw [hsplit, List.getLast?_concat] at h
    dsimp only at h
    split at h
    · cases h
    · rename_i hword
      obtain rfl := Option.some.inj h
      -- A blank at the end would end the word.
      have hend : pad' = [] := by
        rcases List.eq_nil_or_concat pad' with hnil | ⟨cut, c, rfl⟩
        · exact hnil
        · have hc := hpad' c (by simp)
          have hgetLast : text.toList.getLast? = some c := by
            rw [htext, hlast, List.concat_eq_append, ← List.append_assoc, ← List.append_assoc,
              List.getLast?_concat]
          simp [hgetLast, hc] at hword
      rw [hend, List.append_nil] at hlast
      refine ⟨pre, pad, parts, ?_, hpre, hpad, ?_⟩
      · rw [htext, String.toList_ofList]
        exact congrArg (pre ++ ·) hlast
      · intro name
        rw [hsplit, completeParts_concat]

/-- A completion changes the last segment of a line, or adds one. -/
theorem splitLine_applyTo (h : typedWord? text = some typed) (hname : IsPlainName name)
    (note : String) :
    splitLine (Completion.applyTo ⟨name, typed.length, note⟩ text) =
      completeParts (splitLine text) name := by
  obtain ⟨pre, pad, parts, htext, hpre, hpad, hparts⟩ := exists_leavesParts_of_typedWord h
  have hkept : text.toList.take (text.length - typed.length) = pre ++ pad := by
    rw [← String.length_toList, ← String.length_toList, htext, ← List.append_assoc,
      List.length_append, Nat.add_sub_cancel, List.take_left]
  unfold Completion.applyTo
  dsimp only
  rw [hparts, splitLine, hkept, String.toList_append, String.toList_ofList, List.append_assoc,
    hpre.splitFrom_name hname hpad]

/-! ### What is offered -/

theorem mem_completions_iff {c : Completion} :
    c ∈ completions commands text ↔ ∃ typed, typedWord? text = some typed ∧
      ∃ command ∈ commands, c ∈ command.completions typed := by
  unfold completions
  split
  · rename_i typed htyped
    simp [htyped]
  · rename_i htyped
    simp [htyped]

/-- The names that are offered for a typed word. -/
theorem map_text_completions (h : typedWord? text = some typed) :
    (completions commands text).map (·.text) =
      (offeredNames commands).filter fun n => (lowerCase n).startsWith (lowerCase typed) := by
  unfold completions offeredNames
  rw [h]
  dsimp only
  rw [List.map_flatMap, List.filter_flatMap]
  congr 1
  funext c
  unfold Registry.Listing.completions
  dsimp only
  rw [List.map_map]
  exact List.map_id _

/-- Whether the lower case of a name starts with that of a word can be read off their characters. -/
theorem filter_startsWith (names : List String) (typed : String) :
    (names.filter fun n => (lowerCase n).startsWith (lowerCase typed)) =
      names.filter fun n => (lowerCase typed).toList.isPrefixOf (lowerCase n).toList := by
  refine List.filter_congr fun n _ => ?_
  rw [Bool.eq_iff_iff, String.startsWith_string_iff, List.isPrefixOf_iff_prefix]

/-- A word with blanks in it completes to no plain name. -/
theorem not_startsWith_of_blank {c : Char} (hname : IsPlainName name) (hc : c ∈ typed.toList)
    (hblank : isBlank c = true) : (lowerCase name).startsWith (lowerCase typed) = false := by
  rw [Bool.eq_false_iff, ne_eq, String.startsWith_string_iff]
  intro hstart
  have hsolid := no_blank_lowerCase_iff.mpr hname.solid
  have htyped := no_blank_lowerCase_iff.mp fun d hd => hsolid d (hstart.subset hd)
  rw [htyped c hc] at hblank
  cases hblank

/-- A typed word can be completed, unless it has a blank in it. -/
theorem typedWord?_cases (text : String) :
    typedWord? text = openWord? text ∨
      openWord? text = none ∧ ∃ typed c, typedWord? text = some typed ∧ c ∈ typed.toList ∧
        isBlank c = true := by
  unfold typedWord? openWord?
  rcases (splitLine text).getLast? with _ | s | op
  · exact Or.inl rfl
  · dsimp only
    by_cases hlast : text.toList.getLast?.any isBlank = true
    · simp [hlast]
    · rw [Bool.not_eq_true] at hlast
      rw [hlast, Bool.or_false, Bool.or_false]
      -- The two differ in which blanks end a word: any of them, or only a space.
      by_cases hany : s.toList.any isBlank = true
      · rw [if_pos hany]
        by_cases hspace : s.contains ' ' = true
        · rw [if_pos hspace]
          exact Or.inl rfl
        · obtain ⟨c, hc, hblank⟩ := List.any_eq_true.mp hany
          rw [if_neg hspace]
          exact Or.inr ⟨rfl, s, c, rfl, hc, hblank⟩
      · have hspace : ¬ s.contains ' ' = true := by
          intro hspace
          refine hany (List.any_eq_true.mpr ⟨' ', ?_, rfl⟩)
          simpa using hspace
        rw [if_neg hany, if_neg hspace]
        exact Or.inl rfl
  · exact Or.inl rfl

/-- What is offered at the end of a text: the names that the word there can be completed to. -/
theorem map_text_completions_of_plain (text : String)
    (hnames : ∀ name ∈ offeredNames commands, IsPlainName name) :
    (completions commands text).map (·.text) =
      (openWord? text).elim [] fun typed =>
        (offeredNames commands).filter fun n => (lowerCase n).startsWith (lowerCase typed) := by
  rcases typedWord?_cases text with heq | ⟨hnone, typed, c, htyped, hc, hblank⟩
  · rw [← heq]
    cases htyped : typedWord? text with
    | none => rw [completions, htyped]; rfl
    | some typed => exact map_text_completions htyped
  · rw [hnone, map_text_completions htyped]
    refine List.filter_eq_nil_iff.mpr fun name hname => ?_
    rw [not_startsWith_of_blank (hnames name hname) hc hblank]
    exact Bool.false_ne_true

/-- What is offered at the end of a text, and what it changes.  A completion takes the place of the
last segment of the line, or becomes its last one where the line is blank or ends with an operator;
all other parts stay.  Where a word is typed that can be completed, the names whose lower case
starts with that of the word are offered, each as often as it stands in the list and in its order,
and nothing is offered elsewhere.  A name that starts with the word up to letter case is among them
just where the word does not end with a capital sigma behind which the name goes on. -/
theorem completions_offer_prefix_iff (commands : List Registry.Listing) (text : String)
    (hnames : ∀ name ∈ offeredNames commands, IsPlainName name) :
    (∀ c ∈ completions commands text,
      splitLine (c.applyTo text) = completeParts (splitLine text) c.text) ∧
    (completions commands text).map (·.text) =
      ((openWord? text).elim [] fun typed =>
        (offeredNames commands).filter fun n => (lowerCase n).startsWith (lowerCase typed)) ∧
    ∀ typed, openWord? text = some typed → ∀ pre post,
      pre ++ post ∈ offeredNames commands → lowerCase pre = lowerCase typed →
        (pre ++ post ∈ (completions commands text).map (·.text) ↔
          ¬ Chars.OpensSigma [] pre.toList post.toList) := by
  have hoffered := map_text_completions_of_plain text hnames
  refine ⟨fun c hc => ?_, hoffered, fun typed htyped pre post hmem hpre => ?_⟩
  · obtain ⟨typed, htyped, command, hcommand, hc⟩ := mem_completions_iff.mp hc
    obtain ⟨name, hname, rfl⟩ := List.mem_map.mp hc
    have hmem : name ∈ offeredNames commands :=
      List.mem_flatMap.mpr ⟨command, hcommand, List.mem_of_mem_filter hname⟩
    exact splitLine_applyTo htyped (hnames name hmem) _
  · rw [hoffered, htyped]
    dsimp only [Option.elim]
    rw [List.mem_filter, ← hpre, startsWith_lowerCase_append_iff]
    exact and_iff_right hmem

/-- Behind an operator a name is completed, and the part in front of the operator stays. -/
theorem word_behind_operator_is_completed :
    (∀ name ∈ offeredNames [⟨"echo", "", []⟩, ⟨"help", "", ["man"]⟩], IsPlainName name) ∧
    (completions [⟨"echo", "", []⟩, ⟨"help", "", ["man"]⟩] "echo hi && M").map (·.text) =
      ["man"] ∧
    ∀ c ∈ completions [⟨"echo", "", []⟩, ⟨"help", "", ["man"]⟩] "echo hi && M",
      splitLine (c.applyTo "echo hi && M") =
        [.segment "echo hi", .operator .and, .segment "man"] := by
  have hnames : ∀ name ∈ offeredNames [⟨"echo", "", []⟩, ⟨"help", "", ["man"]⟩],
      IsPlainName name := by
    intro name hname
    have hmem : name ∈ ["echo", "help", "man"] := hname
    simp only [List.mem_cons, List.not_mem_nil, or_false] at hmem
    rcases hmem with rfl | rfl | rfl <;> decide
  obtain ⟨hedits, hoffered, -⟩ := completions_offer_prefix_iff _ "echo hi && M" hnames
  have hword : openWord? "echo hi && M" = some "M" := by decide +kernel
  have htexts : (completions [⟨"echo", "", []⟩, ⟨"help", "", ["man"]⟩] "echo hi && M").map
      (·.text) = ["man"] := by
    rw [hoffered, hword]
    dsimp only [Option.elim]
    rw [filter_startsWith]
    decide +kernel
  refine ⟨hnames, htexts, fun c hc => ?_⟩
  have htext : c.text ∈ ["man"] := by
    rw [← htexts]
    exact List.mem_map_of_mem hc
  rw [hedits c hc, List.mem_singleton.mp htext]
  decide +kernel

/-- The start of a name as it is written there is not completed to the name: the sigma at the end
of the word has another lower case than the one in the name. -/
theorem written_prefix_is_not_completed :
    openWord? "ΑΣ" = some "ΑΣ" ∧ offeredNames [⟨"ΑΣΑ", "", []⟩] = ["ΑΣ" ++ "Α"] ∧
      IsPlainName "ΑΣΑ" ∧ completions [⟨"ΑΣΑ", "", []⟩] "ΑΣ" = [] := by
  have hword : openWord? "ΑΣ" = some "ΑΣ" := by decide +kernel
  have hname : IsPlainName "ΑΣΑ" := by decide
  have hnames : ∀ name ∈ offeredNames [⟨"ΑΣΑ", "", []⟩], IsPlainName name := by
    intro name hmem
    rwa [List.mem_singleton.mp hmem]
  have htexts : (completions [⟨"ΑΣΑ", "", []⟩] "ΑΣ").map (·.text) = [] := by
    rw [map_text_completions_of_plain _ hnames, hword]
    dsimp only [Option.elim]
    rw [filter_startsWith]
    decide +kernel
  exact ⟨hword, rfl, hname, List.map_eq_nil_iff.mp htexts⟩

end Completing

end CommandShell
