import CommandShell.Proofs.Line.AliasCommands
import CommandShell.Proofs.Line.AliasText
import CommandShell.Proofs.Line.Descriptions

/-!
# Quoted texts as free text

Quotes hide operators when a line is cut into segments, but they hide nothing when a segment is
read: what stands between them is taken word by word, like any other text.  The words are joined by
single spaces, and what starts with a dash is a flag or is left out.  So a text in quotes is read as
it was written just where each of its blanks is one space with no dash behind it.

## Main definitions

* `IsBareWord`: a word that does not start with a dash.
* `Chars.isSingleSpaced`: each blank is one space, with neither a blank nor a dash behind it.
* `echoLine`, `echoedText`: a line that gives `echo` a text in quotes, and what `echo` takes it for.

## Main results

* `tokens_intercalate`: bare words that are joined are read as these words.
* `intercalate_wordsOf_eq_iff`: the texts that their own words make again.
* `echoedText_eq_iff`: the texts that `echo` takes for what they are.
* `Run.echo_keeps_text_iff`: what the line writes and passes on, and when that is the text itself.
-/

namespace CommandShell

variable {s u : Session} {p : ShellProcessor} {i : Invocation} {c : Scope}
  {segment text w : String} {ws : List String} {cs rest : List Char}

/-! ### Words that are read as they are -/

/-- A word that does not start with a dash. -/
structure IsBareWord (w : String) : Prop extends IsWord w where
  no_dash : w.toList.head? ≠ some '-'

theorem isBareWord_of_mem_wordsOf (h : w ∈ wordsOf segment) : IsBareWord w := by
  refine ⟨isWord_of_mem_wordsOf h, ?_⟩
  obtain ⟨token, -, hw⟩ := List.mem_filterMap.mp h
  cases token with
  | flag => cases hw
  | word text =>
    unfold Token.word? at hw
    dsimp only at hw
    split_ifs at hw with hdash
    obtain rfl := Option.some.inj hw
    rwa [startsWith_dash] at hdash

theorem IsBareWord.word? (h : IsBareWord w) : (Token.word w).word? = some w := by
  refine if_neg ?_
  rw [startsWith_dash]
  exact h.no_dash

/-- Bare words that are joined are read as these words. -/
theorem tokens_intercalate (h : ∀ w ∈ ws, IsBareWord w) :
    Chars.tokens (" ".intercalate ws).toList = ws.map .word := by
  have hspace : ∀ c ∈ " ".toList, isBlank c = true := List.all_eq_true.mp (by decide)
  induction ws with
  | nil => simp [Chars.tokens]
  | cons w ws ih =>
    have hw := h w List.mem_cons_self
    cases ws with
    | nil =>
      have htokens : Chars.tokens (w.toList ++ []) = _ :=
        tokens_append hw.toIsWord hw.no_dash (by simp)
      rw [List.append_nil, Chars.tokens] at htokens
      simpa using htokens
    | cons v ws =>
      rw [String.intercalate_cons_cons, String.append_assoc, String.toList_append,
        tokens_append hw.toIsWord hw.no_dash (by simp [isBlank]), String.toList_append,
        tokens_blank hspace, ih fun v hv => h v (List.mem_cons_of_mem _ hv)]
      rfl

theorem wordsOf_intercalate (h : ∀ w ∈ ws, IsBareWord w) : wordsOf (" ".intercalate ws) = ws := by
  unfold wordsOf
  rw [tokens_intercalate h, List.filterMap_map]
  refine (List.filterMap_congr fun w hw => ?_).trans List.filterMap_some
  exact (h w hw).word?

theorem flags_intercalate (h : ∀ w ∈ ws, IsBareWord w) :
    (readSegment (" ".intercalate ws)).flags = [] := by
  show (Chars.tokens (" ".intercalate ws).toList).filterMap Token.flag? = []
  rw [tokens_intercalate h, List.filterMap_map]
  exact List.filterMap_eq_nil_iff.mpr fun w _ => rfl

/-! ### Texts that are read as they are -/

namespace Chars

/-- Whether each blank is a space, with neither a blank nor a dash behind it. -/
def isSingleSpaced : List Char → Bool
  | [] => true
  | c :: cs =>
    (!isBlank c || (c = ' ' && cs.head?.all fun d => !isBlank d && d ≠ '-')) && isSingleSpaced cs

theorem isSingleSpaced_append (h : ∀ c ∈ cs, isBlank c = false) :
    isSingleSpaced (cs ++ rest) = isSingleSpaced rest := by
  induction cs with
  | nil => rfl
  | cons c cs ih =>
    rw [List.cons_append, isSingleSpaced, h c List.mem_cons_self,
      ih fun d hd => h d (List.mem_cons_of_mem _ hd)]
    rfl

theorem isSingleSpaced_blank_iff {g : Char} (hg : isBlank g = true) :
    isSingleSpaced (g :: cs) = true ↔
      g = ' ' ∧ (∀ d ∈ cs.head?, isBlank d = false ∧ d ≠ '-') ∧ isSingleSpaced cs = true := by
  rw [isSingleSpaced, hg]
  simp [and_assoc, Option.all_eq_true]

end Chars

open Chars

theorem head_intercalate (h : ∀ w ∈ ws, IsBareWord w) :
    ∀ d ∈ (" ".intercalate ws).toList.head?, isBlank d = false ∧ d ≠ '-' := by
  intro d hd
  refine ⟨(trimmed_intercalate fun w hw => (h w hw).toIsWord).head d hd, ?_⟩
  cases ws with
  | nil => cases hd
  | cons w ws =>
    have hw := h w List.mem_cons_self
    obtain ⟨c, cs, hchars⟩ := List.exists_cons_of_ne_nil hw.toList_ne_nil
    have hhead : (" ".intercalate (w :: ws)).toList.head? = w.toList.head? := by
      cases ws <;> simp [hchars]
    rw [hhead] at hd
    rintro rfl
    exact hw.no_dash hd

theorem isSingleSpaced_intercalate (h : ∀ w ∈ ws, IsBareWord w) :
    isSingleSpaced (" ".intercalate ws).toList = true := by
  induction ws with
  | nil => simp [isSingleSpaced]
  | cons w ws ih =>
    have hw := (h w List.mem_cons_self).no_blank
    have hws : ∀ v ∈ ws, IsBareWord v := fun v hv => h v (List.mem_cons_of_mem _ hv)
    by_cases hnil : ws = []
    · have hword : isSingleSpaced (w.toList ++ []) = _ := isSingleSpaced_append hw
      rw [List.append_nil, isSingleSpaced] at hword
      simpa [hnil] using hword
    · rw [String.intercalate_cons_of_ne_nil hnil, String.append_assoc, String.toList_append,
        isSingleSpaced_append hw, String.toList_append]
      exact (isSingleSpaced_blank_iff (by decide)).mpr ⟨rfl, head_intercalate hws, ih hws⟩

/-- Characters that start with neither a blank nor a dash start with a bare word, which goes up to
the first blank. -/
theorem exists_bareWord_append (hne : cs ≠ []) (hhead : ∀ c ∈ cs.head?, isBlank c = false)
    (hdash : cs.head? ≠ some '-') :
    ∃ w back, IsBareWord w ∧ w.toList ++ back = cs ∧ ∀ c ∈ back.head?, isBlank c = true := by
  obtain ⟨c, tail, rfl⟩ := List.exists_cons_of_ne_nil hne
  have hc : isWordChar c = true := by simp [isWordChar, hhead c rfl]
  refine ⟨String.ofList ((c :: tail).takeWhile isWordChar), (c :: tail).dropWhile isWordChar,
    ⟨⟨?_, ?_⟩, ?_⟩, ?_, ?_⟩
  · simp [hc]
  · intro d hd
    rw [String.toList_ofList] at hd
    simpa [isWordChar] using List.mem_takeWhile_imp hd
  · rw [String.toList_ofList, List.takeWhile_cons_of_pos hc]
    exact hdash
  · rw [String.toList_ofList]
    exact List.takeWhile_append_dropWhile
  · intro d hd
    simpa [isWordChar] using head_dropWhile (p := isWordChar) d hd

/-- A text of which each blank is one space is made of bare words. -/
theorem exists_intercalate_eq {cs : List Char} (htrim : Trimmed cs) (hdash : cs.head? ≠ some '-')
    (h : isSingleSpaced cs = true) :
    ∃ ws, (∀ w ∈ ws, IsBareWord w) ∧ (" ".intercalate ws).toList = cs := by
  by_cases hnil : cs = []
  · exact ⟨[], by simp, by simp [hnil]⟩
  obtain ⟨w, back, hw, rfl, hback⟩ := exists_bareWord_append hnil htrim.head hdash
  cases back with
  | nil => exact ⟨[w], List.forall_mem_singleton.mpr hw, by simp⟩
  | cons g back =>
    rw [isSingleSpaced_append hw.no_blank, isSingleSpaced_blank_iff (hback g rfl)] at h
    obtain ⟨rfl, hhead, hsingle⟩ := h
    -- A space at the end would not be trimmed, so that a word stands behind it.
    have hne : back ≠ [] := by
      rintro rfl
      have hlast := htrim.last ' ' (by simp)
      cases hlast
    have htrim' : Trimmed back := by
      refine ⟨fun c hc => (hhead c hc).1, fun c hc => htrim.last c ?_⟩
      rw [List.getLast?_append, List.getLast?_cons, Option.mem_def.mp hc]
      rfl
    obtain ⟨ws, hws, rfl⟩ := exists_intercalate_eq htrim' (fun hd => (hhead '-' hd).2 rfl) hsingle
    have hwsne : ws ≠ [] := by
      rintro rfl
      exact hne (by simp)
    refine ⟨w :: ws, List.forall_mem_cons.mpr ⟨hw, hws⟩, ?_⟩
    rw [String.intercalate_cons_of_ne_nil hwsne, String.append_assoc, String.toList_append,
      String.toList_append]
    rfl
termination_by cs.length

/-- The texts that their own words make again. -/
theorem intercalate_wordsOf_eq_iff : " ".intercalate (wordsOf text) = text ↔
    Trimmed text.toList ∧ text.toList.head? ≠ some '-' ∧ isSingleSpaced text.toList = true := by
  constructor
  · intro h
    have hbare : ∀ w ∈ wordsOf text, IsBareWord w := fun w => isBareWord_of_mem_wordsOf
    have htrim := trimmed_intercalate fun w hw => (hbare w hw).toIsWord
    have hhead := head_intercalate hbare
    have hsingle := isSingleSpaced_intercalate hbare
    rw [h] at htrim hhead hsingle
    exact ⟨htrim, fun hdash => (hhead '-' hdash).2 rfl, hsingle⟩
  · rintro ⟨htrim, hdash, hsingle⟩
    obtain ⟨ws, hws, hjoined⟩ := exists_intercalate_eq htrim hdash hsingle
    rw [← String.toList_inj.mp hjoined, wordsOf_intercalate hws]

/-! ### Texts in quotes -/

/-- A text in double quotes. -/
def inQuotes (text : String) : String :=
  "\"" ++ text ++ "\""

/-- What `echo` takes a text in quotes for: its words are joined, and then lose their quotes. -/
def echoedText (text : String) : String :=
  stripQuotes (" ".intercalate (wordsOf (inQuotes text)))

theorem toList_inQuotes (text : String) :
    (inQuotes text).toList = '"' :: (text.toList ++ ['"']) := by
  simp [inQuotes]

theorem head_inQuotes (text : String) : (inQuotes text).toList.head? = some '"' := by
  rw [toList_inQuotes]
  rfl

theorem getLast_inQuotes (text : String) : (inQuotes text).toList.getLast? = some '"' := by
  rw [toList_inQuotes, ← List.cons_append, List.getLast?_concat]

theorem trimmed_inQuotes (text : String) : Trimmed (inQuotes text).toList := by
  constructor
  · rw [head_inQuotes]
    rintro c ⟨⟩
    decide
  · rw [getLast_inQuotes]
    rintro c ⟨⟩
    decide

theorem no_dash_inQuotes (text : String) : (inQuotes text).toList.head? ≠ some '-' := by
  rw [head_inQuotes]
  decide

theorem stripQuotes_inQuotes (text : String) : stripQuotes (inQuotes text) = text := by
  have hchars : inQuotes text = String.ofList ('"' :: (text.toList ++ ['"'])) := by
    rw [← toList_inQuotes, String.ofList_toList]
  rw [hchars, stripQuotes_quoted, String.ofList_toList]

/-- A quote at the end is as good as any other character that is neither a blank nor a dash. -/
theorem isSingleSpaced_quote_iff (cs : List Char) :
    isSingleSpaced (cs ++ ['"']) = isSingleSpaced cs := by
  induction cs with
  | nil => decide
  | cons c cs ih =>
    have hhead : ((cs ++ ['"']).head?.all fun d => !isBlank d && d ≠ '-') =
        cs.head?.all fun d => !isBlank d && d ≠ '-' := by
      cases cs with
      | nil => decide
      | cons d cs => rfl
    rw [List.cons_append, isSingleSpaced, isSingleSpaced, hhead, ih]

theorem isSingleSpaced_inQuotes (text : String) :
    isSingleSpaced (inQuotes text).toList = isSingleSpaced text.toList := by
  have hopen : ∀ c ∈ ['"'], isBlank c = false := List.forall_mem_singleton.mpr (by decide)
  rw [toList_inQuotes]
  exact (isSingleSpaced_append hopen).trans (isSingleSpaced_quote_iff text.toList)

theorem intercalate_wordsOf_inQuotes_eq_iff :
    " ".intercalate (wordsOf (inQuotes text)) = inQuotes text ↔
      isSingleSpaced text.toList = true := by
  rw [intercalate_wordsOf_eq_iff, isSingleSpaced_inQuotes]
  exact ⟨fun h => h.2.2, fun h => ⟨trimmed_inQuotes text, no_dash_inQuotes text, h⟩⟩

/-- The words of a text in quotes start with the quote in front of it. -/
theorem exists_intercalate_wordsOf_inQuotes (text : String) :
    ∃ cs, (" ".intercalate (wordsOf (inQuotes text))).toList = '"' :: cs := by
  have hne : (inQuotes text).toList ≠ [] := by simp [toList_inQuotes]
  obtain ⟨w, back, hw, hcut, hback⟩ :=
    exists_bareWord_append hne (trimmed_inQuotes text).head (no_dash_inQuotes text)
  obtain ⟨c, cs, hchars⟩ := List.exists_cons_of_ne_nil hw.toList_ne_nil
  -- The first word starts where the text does, with the quote.
  have hquote : c = '"' := by
    rw [toList_inQuotes, hchars] at hcut
    exact (List.cons.inj hcut).1
  have hwords : wordsOf (inQuotes text) = w :: wordsOf (String.ofList back) := by
    rw [← wordsOf_append hw.toIsWord hw.no_dash (by rwa [String.toList_ofList])]
    congr 1
    rw [← String.toList_inj, String.toList_append, String.toList_ofList, hcut]
  rw [hwords]
  cases hrest : wordsOf (String.ofList back) with
  | nil => exact ⟨cs, by simp [hchars, hquote]⟩
  | cons v vs =>
    rw [String.intercalate_cons_cons, String.append_assoc, String.toList_append, hchars, hquote]
    exact ⟨_, rfl⟩

/-- The texts that `echo` takes for what they are. -/
theorem echoedText_eq_iff (hquote : '"' ∉ text.toList) :
    echoedText text = text ↔ isSingleSpaced text.toList = true := by
  rw [← intercalate_wordsOf_inQuotes_eq_iff]
  constructor
  · intro h
    obtain ⟨cs, hcs⟩ := exists_intercalate_wordsOf_inQuotes text
    unfold echoedText stripQuotes at h
    rw [hcs] at h
    dsimp only at h
    split_ifs at h with hquotes
    · have hlast : cs.getLast? = some '"' := by simpa using hquotes
      obtain ⟨init, rfl⟩ := List.getLast?_eq_some_iff.mp hlast
      rw [List.dropLast_concat] at h
      rw [← String.toList_inj, hcs, toList_inQuotes, ← h, String.toList_ofList]
    -- A quote that is not taken off is none of the text.
    · refine absurd ?_ hquote
      rw [← h, hcs]
      exact List.mem_cons_self
  · intro h
    unfold echoedText
    rw [h, stripQuotes_inQuotes]

/-! ### The line -/

/-- The line that gives a text in quotes to `echo`. -/
def echoLine (text : String) : String :=
  "echo " ++ inQuotes text

theorem toList_echoLine (text : String) :
    (echoLine text).toList = "echo".toList ++ ([' '] ++ (inQuotes text).toList) := by
  unfold echoLine
  rw [String.toList_append]
  rfl

theorem tokens_echoLine (text : String) :
    Chars.tokens (echoLine text).toList = .word "echo" :: Chars.tokens (inQuotes text).toList := by
  have hword : IsWord "echo" := ⟨by decide, fun c hc => (isPlain_of_all (by decide) c hc).1⟩
  have hspace : ∀ c ∈ [' '], isBlank c = true := List.all_eq_true.mp (by decide)
  rw [toList_echoLine, tokens_append hword (by decide) (by simp [isBlank]), tokens_blank hspace]

theorem wordsOf_echoLine (text : String) :
    wordsOf (echoLine text) = "echo" :: wordsOf (inQuotes text) := by
  have hecho : (Token.word "echo").word? = some "echo" := by decide +kernel
  unfold wordsOf
  rw [tokens_echoLine, List.filterMap_cons_some hecho]

theorem flags_echoLine (text : String) :
    (readSegment (echoLine text)).flags = (readSegment (inQuotes text)).flags := by
  show (Chars.tokens (echoLine text).toList).filterMap Token.flag? = _
  rw [tokens_echoLine, List.filterMap_cons_none rfl]
  rfl

/-- The quotes hide whatever operators the text has. -/
theorem splitLine_echoLine (hquote : '"' ∉ text.toList) :
    splitLine (echoLine text) = [.segment (echoLine text)] := by
  have hword : ∀ c ∈ "echo".toList, IsPlain c := isPlain_of_all (by decide)
  have hspace : ∀ c ∈ [' '], isBlank c = true := List.all_eq_true.mp (by decide)
  have hgap : Transparent [' '] :=
    ⟨fun _ => clear_of_blank hspace, Quoting.through_of_blank hspace⟩
  have htransparent : Transparent (echoLine text).toList := by
    rw [toList_echoLine, toList_inQuotes]
    exact (transparent_of_isPlain hword).append (hgap.append (transparent_quoted hquote))
  refine splitLine_of_isSegmentText ⟨?_, ⟨?_, ?_⟩, htransparent.1 []⟩
  · simp [toList_echoLine]
  · rw [toList_echoLine]
    rintro c ⟨⟩
    decide
  · rw [toList_echoLine, List.getLast?_append, List.getLast?_append, getLast_inQuotes]
    rintro c ⟨⟩
    decide

/-! ### What `echo` does -/

/-- The built-in `echo`. -/
structure Processor.IsEcho (p : ShellProcessor) : Prop where
  decl_eq : p.decl = Builtin.echo
  leaf : p.children = []

theorem Processor.IsEcho.acceptsText (h : p.IsEcho) : p.acceptsText = true := by
  unfold Processor.acceptsText
  rw [h.decl_eq]
  rfl

theorem Processor.IsEcho.ends (h : p.IsEcho) : p.Ends ws := by
  refine Or.inr ⟨?_, h.acceptsText⟩
  unfold Processor.hasChildren
  rw [h.leaf]
  rfl

theorem resolve?_echoLine (hfound : Processor.answering? "echo" s.commands = some p)
    (hp : p.IsEcho) (text : String) : s.resolve? (echoLine text) = some p :=
  Run.resolve?_of_answering hfound (wordsOf_echoLine text) hp.ends

namespace Run

/-- A text of which each blank is one space is read without flags. -/
theorem not_makesRequest_of_isSingleSpaced (h : isSingleSpaced text.toList = true) :
    ¬ MakesRequest (echoLine text) := by
  refine not_makesRequest_of_flags fun f hf => ?_
  rw [flags_echoLine, ← intercalate_wordsOf_inQuotes_eq_iff.mpr h,
    flags_intercalate fun w => isBareWord_of_mem_wordsOf] at hf
  cases hf

theorem startsWith_help_echoLine (text : String) :
    (readSegment (echoLine text)).name.startsWith "help" = false := by
  rw [Bool.eq_false_iff, ne_eq, String.startsWith_string_iff, readSegment_name, wordsOf_echoLine]
  rintro ⟨rest, hrest⟩
  cases hwords : wordsOf (inQuotes text) with
  | nil =>
    rw [hwords, String.intercalate_singleton] at hrest
    cases hrest
  | cons w ws =>
    rw [hwords, String.intercalate_cons_cons, String.append_assoc, String.toList_append] at hrest
    cases hrest

/-- A scope does not add to what is told, but what buckets have reported before is told first. -/
theorem journal_of_openScope (h : Returns (openScope p) s.started c u) :
    u.journal = s.space.reports ++ s.journal := by
  have hreports : (s.space.openBucket (s.registry.bucketOf p).1 (s.registry.bucketOf p).2).reports =
      s.space.reports := by
    unfold StateSpace.openBucket
    split <;> rfl
  unfold Returns openScope at h
  rw [bind_apply, openBucket_apply, buckets_apply] at h
  obtain ⟨-, rfl⟩ := Prod.mk.inj h
  exact congrArg (· ++ s.journal) hreports

/-- What `echo` does with a text. -/
theorem exists_returns_echo (htext : i.text = some text) (hne : text ≠ "") (s : Session) :
    ∃ t, Returns (echo i) s () t ∧
      t.journal = .print (escapeMarkup (stripQuotes text)) :: s.journal ∧
      t.process = s.process.output (.text (stripQuotes text)) := by
  unfold echo
  rw [htext, Option.filter_some, if_pos (by simpa using hne)]
  exact ⟨_, rfl, rfl, rfl⟩

/-- A line that gives a text in quotes to `echo` and makes no request gets to its handler. -/
theorem exists_dispatches_echoLine (hfound : Processor.answering? "echo" s.commands = some p)
    (hp : p.IsEcho) (hrequest : ¬ MakesRequest (echoLine text)) :
    ∃ i c u, Dispatches s (echoLine text) .null p i c u ∧
      i.text = some (" ".intercalate (wordsOf (inQuotes text))) := by
  have hwords := wordsOf_echoLine text
  have hparameters : p.decl.parameters = [] := by rw [hp.decl_eq]; rfl
  have hreplies : p.decl.replies = none := by rw [hp.decl_eq]; rfl
  have hneeds : p.decl.needsText = true → wordsOf (inQuotes text) ≠ [] := by
    rw [hp.decl_eq]
    rintro ⟨⟩
  obtain ⟨c, u, hd⟩ :=
    exists_dispatches .null hfound hwords hp.ends hparameters hreplies hrequest hneeds
  exact ⟨_, c, u, hd, deliver_text .null hfound hwords hp.acceptsText⟩

/-- What such a line writes and passes on. -/
theorem exists_returns_echoLine (hfound : Processor.answering? "echo" s.commands = some p)
    (hp : p.IsEcho) (hquote : '"' ∉ text.toList) (hrequest : ¬ MakesRequest (echoLine text))
    (depth : Nat) :
    ∃ t, Returns (runLineWithin (depth + 1) (echoLine text)) s true t ∧
      t.journal = .print (escapeMarkup (echoedText text)) :: (s.space.reports ++ s.journal) ∧
      t.process.payload = .text (echoedText text) := by
  obtain ⟨i, c, u, hd, htext⟩ := exists_dispatches_echoLine hfound hp hrequest
  have hne : " ".intercalate (wordsOf (inQuotes text)) ≠ "" := by
    obtain ⟨cs, hcs⟩ := exists_intercalate_wordsOf_inQuotes text
    intro hempty
    rw [hempty] at hcs
    cases hcs
  obtain ⟨v, hv, hjournal, hprocess⟩ := exists_returns_echo htext hne u
  obtain ⟨-, -, -, -, hscope⟩ := hd.admissible
  rw [journal_of_openScope hscope] at hjournal
  rw [process_of_openScope hscope] at hprocess
  have hhooks : ∀ phase, p.hookScripts phase = [] := by
    intro phase
    unfold Processor.hookScripts
    rw [hp.decl_eq]
    rfl
  -- There are no hooks around this handler.
  have hbetween : Returns (handleBetweenHooks (nestedWithin depth) c p i) u () v := by
    rw [handleBetweenHooks_of_no_hooks hhooks, hp.decl_eq]
    exact hv
  have hcode : v.finished.process.exitCode = Value.int 0 := by
    show v.process.finish.exitCode = _
    rw [hprocess]
    rfl
  obtain ⟨-, payload, hsegment⟩ :=
    endsWith_of_returns (hd.returns_runSegment hbetween) hcode rfl
  refine ⟨v.finished, ?_, hjournal, ?_⟩
  · rw [runLineWithin_succ, runLineWith_segment (splitLine_echoLine hquote)]
    exact returns_bind_iff.mpr ⟨_, _, hsegment, rfl⟩
  · show v.process.finish.payload = _
    rw [hprocess]
    rfl

/-- When a text in quotes is echoed as it was written.  Let `echo` be in force, and give it a text
without a double quote between double quotes.  If the flags that are read from the text make no
request, the line succeeds, writes the escaped form of what `echo` takes the text for, and nothing
else, and passes this on; if they make one, no handler is reached.  So the text itself is written
and passed on just where each of its blanks is one space that has neither a blank nor a dash
behind it. -/
theorem echo_keeps_text_iff (text : String) (depth : Nat)
    (hfound : Processor.answering? "echo" s.commands = some p) (hp : p.IsEcho)
    (hquote : '"' ∉ text.toList) :
    (¬ MakesRequest (echoLine text) →
      ∃ t, Returns (runLineWithin (depth + 1) (echoLine text)) s true t ∧
        t.journal = .print (escapeMarkup (echoedText text)) :: (s.space.reports ++ s.journal) ∧
        t.process.payload = .text (echoedText text)) ∧
    (MakesRequest (echoLine text) →
      ∀ q i c u, ¬ Dispatches s (echoLine text) .null q i c u) ∧
    (¬ MakesRequest (echoLine text) ∧ echoedText text = text ↔
      isSingleSpaced text.toList = true) := by
  refine ⟨fun hno => exists_returns_echoLine hfound hp hquote hno depth,
    fun hrequest q i c u hd => ?_, ?_⟩
  · have hparameters : p.decl.parameters = [] := by rw [hp.decl_eq]; rfl
    exact not_makesRequest_of_dispatches hd (resolve?_echoLine hfound hp text) hparameters
      (startsWith_help_echoLine text) hrequest
  · rw [echoedText_eq_iff hquote]
    exact ⟨And.right, fun h => ⟨not_makesRequest_of_isSingleSpaced h, h⟩⟩

/-- Operators, single quotes and tags in the text are kept. -/
theorem operators_and_tags_are_kept :
    ∃ t, Returns (runLine "echo \"[b]hi && 'x-1' | bye\"") Session.blankShell true t ∧
      t.journal.head? = some (.print "\\[b]hi && 'x-1' | bye") ∧
      t.process.payload = .text "[b]hi && 'x-1' | bye" := by
  let builtin : ShellProcessor := ⟨4, Builtin.echo, []⟩
  have hroot : Session.blankShell.registry.IsRoot builtin := Builtin.isRoot_echo
  have hfound : Processor.answering? "echo" Session.blankShell.commands = some builtin :=
    answering?_of_isRoot hroot rfl rfl
  obtain ⟨hkeeps, -, hiff⟩ := echo_keeps_text_iff "[b]hi && 'x-1' | bye" 499 hfound ⟨rfl, rfl⟩
    (by decide)
  obtain ⟨hno, hsame⟩ := hiff.mpr (by decide)
  obtain ⟨t, ht, hjournal, hpayload⟩ := hkeeps hno
  have hescaped : escapeMarkup "[b]hi && 'x-1' | bye" = "\\[b]hi && 'x-1' | bye" := by
    decide +kernel
  rw [hsame, hescaped] at hjournal
  rw [hsame] at hpayload
  exact ⟨t, ht, by rw [hjournal]; rfl, hpayload⟩

/-- Two spaces become one, a flag is lost, and a request leaves nothing to pass on. -/
theorem spaces_and_flags_are_lost :
    let shell : Session := .offering builtinProcessors
    ∃ t u v : Session, Returns (runLine (echoLine "a  b")) shell true t ∧
      t.process.payload.shown = "a b" ∧ t.process.payload ≠ .text "a  b" ∧
      Returns (runLine (echoLine "see -x here")) shell true u ∧
      u.process.payload.shown = "see here" ∧ u.process.payload ≠ .text "see -x here" ∧
      Returns (runLine (echoLine "what --help does")) shell true v ∧
      v.process.payload.isNull = true ∧ v.process.payload ≠ .text "what --help does" := by
  intro shell
  obtain ⟨ok, ht, rfl⟩ := exists_returns_of_map (runLine (echoLine "a  b")) shell id true
    (by decide +kernel)
  obtain ⟨ok, hu, rfl⟩ := exists_returns_of_map (runLine (echoLine "see -x here")) shell id true
    (by decide +kernel)
  obtain ⟨ok, hv, rfl⟩ := exists_returns_of_map (runLine (echoLine "what --help does")) shell id
    true (by decide +kernel)
  have htext : (runLine (echoLine "a  b") shell).2.process.payload.shown = "a b" := by
    decide +kernel
  have hutext : (runLine (echoLine "see -x here") shell).2.process.payload.shown = "see here" := by
    decide +kernel
  have hnull : (runLine (echoLine "what --help does") shell).2.process.payload.isNull = true := by
    decide +kernel
  refine ⟨_, _, _, ht, htext, fun h => ?_, hu, hutext, fun h => ?_, hv, hnull, fun h => ?_⟩
  · rw [h] at htext
    exact absurd htext (by decide +kernel)
  · rw [h] at hutext
    exact absurd hutext (by decide +kernel)
  · rw [h] at hnull
    cases hnull

end Run

end CommandShell
