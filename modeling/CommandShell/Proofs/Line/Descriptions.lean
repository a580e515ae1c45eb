import CommandShell.Proofs.Line.FreeText
import CommandShell.Proofs.Line.NestedRecord
import CommandShell.Proofs.Line.Writing

/-!
# Descriptions that are asked for

A segment that asks for a description runs a line for it, which starts with `help`.  That line is
cut, read and looked up anew, where the segment stands: `help` has to be among the commands in
force, the flags are those of `help` now, and the words behind it are looked up from the root.  The
segment describes its processor just where all of this leads back to it.

## Main definitions

* `Processor.IsHelp`: the built-in `help`.
* `Run.Describes`: a segment describes a processor.

## Main results

* `wordsOf_helpLine`, `splitLine_helpLine`: how the line for a description is read.
* `Describes.runSegment_eq`: a segment that describes a processor does nothing else.
* `exists_describes_iff`: what a segment describes where `help` is in force.
* `fails_without_help`: a segment that asks for a description where there is no `help`.
* `request_describes_iff`: which requests are answered by a description.
-/

namespace CommandShell

variable {s t u : Session} {h p q : ShellProcessor} {i j : Invocation} {c : Scope}
  {raw text line name : String} {chain : List String} {data : Value} {rerun : String → Run Unit}
  {depth : Nat}

/-- The built-in `help`. -/
structure Processor.IsHelp (h : ShellProcessor) : Prop where
  decl_eq : h.decl = Builtin.help
  leaf : h.children = []

namespace Run

/-! ### The line for a description -/

theorem tokens_helpLine (raw : String) :
    Chars.tokens (helpLine raw).toList = .word "help" :: Chars.tokens raw.toList := by
  let help : WrittenItem :=
    .word ⟨['h', 'e', 'l', 'p'], by decide, isPlain_of_all (by decide), by decide⟩
  have hline : (helpLine raw).toList = help.chars ++ ([' '] ++ raw.toList) := by
    unfold helpLine
    rw [String.toList_append]
    rfl
  have hspace : ∀ c ∈ [' '], isBlank c = true := List.all_eq_true.mp (by decide)
  rw [hline, tokens_item help (by rintro c ⟨⟩; decide), tokens_blank hspace]
  rfl

/-- The words of the line are those of the segment behind `help`. -/
theorem wordsOf_helpLine (raw : String) : wordsOf (helpLine raw) = "help" :: wordsOf raw := by
  unfold wordsOf
  have hhelp : (Token.word "help").word? = some "help" := by decide +kernel
  rw [tokens_helpLine, List.filterMap_cons_some hhelp]

/-- The flags of the line are those of the segment. -/
theorem flags_helpLine (raw : String) :
    (readSegment (helpLine raw)).flags = (readSegment raw).flags := by
  show (Chars.tokens (helpLine raw).toList).filterMap Token.flag? = _
  rw [tokens_helpLine, List.filterMap_cons_none rfl]
  rfl

theorem isWord_helpLine : ∀ w ∈ "help" :: wordsOf raw, IsWord w := by
  intro w hw
  rw [← wordsOf_helpLine] at hw
  exact isWord_of_mem_wordsOf hw

theorem startsWith_help (raw : String) :
    (readSegment (helpLine raw)).name.startsWith "help" = true := by
  rw [readSegment_name, wordsOf_helpLine, String.startsWith_string_iff]
  cases hwords : wordsOf raw with
  | nil => simp
  | cons w ws =>
    rw [String.intercalate_cons_cons, String.append_assoc, String.toList_append]
    exact List.prefix_append _ _

/-- The line for the text of a segment is one segment. -/
theorem splitLine_helpLine (hraw : IsSegmentText raw.toList) :
    splitLine (helpLine raw) = [.segment (helpLine raw)] := by
  have hhelp : ∀ c ∈ ['h', 'e', 'l', 'p'], IsPlain c := isPlain_of_all (by decide)
  have hspace : ∀ c ∈ [' '], isBlank c = true := List.all_eq_true.mp (by decide)
  have hline : (helpLine raw).toList = ['h', 'e', 'l', 'p'] ++ ([' '] ++ raw.toList) := by
    unfold helpLine
    rw [String.toList_append]
    rfl
  have hfront : Transparent (['h', 'e', 'l', 'p'] ++ [' ']) :=
    (transparent_of_isPlain hhelp).append ⟨fun _ => clear_of_blank hspace,
      Quoting.through_of_blank hspace⟩
  have hclear : Clear .closed (helpLine raw).toList [] := by
    rw [hline, ← List.append_assoc, clear_append_iff, hfront.2]
    exact ⟨hfront.1 _, hraw.clear⟩
  refine splitLine_of_isSegmentText ⟨by simp [hline], ?_, hclear⟩
  rw [hline]
  have hends : Chars.Trimmed ['h', 'e', 'l', 'p'] :=
    ⟨by rintro c ⟨⟩; decide, by rintro c ⟨⟩; decide⟩
  exact hends.append (by simp) hraw.trimmed hraw.ne_nil [' ']

/-! ### The command of `help` -/

/-- Where `help` is in force the line leads to it. -/
theorem delivery?_helpLine (hforce : Processor.answering? "help" s.commands = some h)
    (hh : h.IsHelp) (raw : String) (n : Nat) :
    s.delivery? .null n (helpLine raw) = some (h, .ofSegment (helpLine raw) [] .null) := by
  have hends : h.Ends (wordsOf raw) := by
    refine Or.inr ⟨?_, ?_⟩
    · unfold Processor.hasChildren
      rw [hh.leaf]
      rfl
    · unfold Processor.acceptsText
      rw [hh.decl_eq]
      rfl
  have hresolve : s.resolve? (helpLine raw) = some h := by
    refine (Session.resolve?_eq_some_iff ?_).mpr
      ⟨["help"], wordsOf raw, wordsOf_helpLine raw, .last hforce, hends⟩
    rw [wordsOf_helpLine]
    exact List.cons_ne_nil _ _
  rw [Session.delivery?_of_resolve hresolve, hh.decl_eq]
  rfl

/-- The words that `help` looks up are those of the segment. -/
theorem words_behind_help (raw : String) (parameters : List Parameter) :
    (splitWords (Invocation.ofSegment (helpLine raw) parameters .null).command).drop 1 =
      wordsOf raw := by
  show (splitWords (readSegment (helpLine raw)).name).drop 1 = _
  rw [readSegment_name, wordsOf_helpLine, splitWords_intercalate isWord_helpLine (by simp)]
  rfl

/-- `help` takes every command that asks neither for its version nor to be pinned. -/
theorem admissible_help_iff (hh : h.IsHelp) (hcommand : i.command.startsWith "help" = true) :
    Admissible h (h.deliver i) ↔
      ∀ name ∈ ["v", "version", "context"], wants i.args name = false := by
  constructor
  · intro hadmissible
    have hversion : wants i.args "v" = false ∧ wants i.args "version" = false :=
      hadmissible.no_version
    have hpin : wants i.args "context" = false := hadmissible.no_pin
    simp [hversion, hpin]
  · intro hwants
    have hparameters : h.decl.parameters = [] := by rw [hh.decl_eq]; rfl
    refine ⟨⟨hwants "v" (by simp), hwants "version" (by simp)⟩, ?_, hwants "context" (by simp),
      ?_, ?_, ?_, ?_⟩
    · intro hno
      exact absurd hcommand (by rw [show i.command.startsWith "help" = false from hno]; decide)
    · simp [hparameters]
    · simp [hparameters]
    · intro hneeds
      rw [hh.decl_eq] at hneeds
      cases hneeds
    · unfold Processor.reply
      rw [hh.decl_eq]
      rfl

/-! ### Segments that describe a processor -/

/-- The segment describes the processor, in the scope `c` and from the session `u`: it asks for a
description, the line for it is one segment, which gets to the handler of `help`, and the words
behind `help` lead from the root to the processor. -/
def Describes (s : Session) (text : String) (p : ShellProcessor) (c : Scope) (u : Session) :
    Prop :=
  ∃ line h j name chain, s.helpRequest? text = some line ∧ splitLine line = [.segment line] ∧
    Dispatches s.started line .null h j c u ∧ h.IsHelp ∧
    (splitWords j.command).drop 1 = name :: chain ∧ s.registry.find? name chain = some p

/-- A line that is one segment runs it. -/
theorem runLineWith_segment (hline : splitLine line = [.segment text]) :
    runLineWith rerun line = runReported rerun text .null >>= fun o => pure o.succeeded := by
  unfold runLineWith
  rw [hline, runChain, if_pos rfl]
  simp only [bind_assoc]
  refine bind_congr fun o => ?_
  rw [runChain]
  rfl

/-- A segment that no fault leaves ends a line with it as it ends itself. -/
theorem recover_nestedWithin_apply (hline : splitLine line = [.segment text])
    (hno : ∀ f t, ¬ Stops (runSegment (nestedWithin depth) text .null) s (.fault f) t)
    (handle : Fault → Run Unit) :
    recover (nestedWithin (depth + 1) line) handle s =
      runSegment (nestedWithin depth) text .null s := by
  have hnested : nestedWithin (depth + 1) line =
      runReported (nestedWithin depth) text .null >>= fun _ => pure () := by
    rw [nestedWithin_eq, runLineWithin_succ, runLineWith_segment hline, map_eq_pure_bind,
      bind_assoc]
    rfl
  have hreported : ∀ o t, Returns (runReported (nestedWithin depth) text .null) s o t →
      recover (nestedWithin (depth + 1) line) handle s = (.ok (), t) := by
    intro o t hr
    refine returns_recover_iff.mpr (Or.inl ?_)
    rw [hnested]
    exact returns_bind_iff.mpr ⟨o, t, hr, returns_pure_iff.mpr ⟨rfl, rfl⟩⟩
  -- What the segment reports to its line is dropped, so only its session counts.
  rcases returns_or_stops (runSegment (nestedWithin depth) text .null) s with
    ⟨⟨⟩, t, hr⟩ | ⟨f | -, t, hs⟩
  · rw [hreported _ t (returns_runReported_iff.mpr (Or.inl ⟨hr, rfl⟩))]
    exact hr.symm
  · exact absurd hs (hno f t)
  · rw [show runSegment (nestedWithin depth) text .null s = _ from hs, recover_apply, hnested,
      bind_apply, show runReported (nestedWithin depth) text .null s = _ from
        stops_runReported_iff.mpr ⟨rfl, hs⟩]

/-- What `help` does for words that lead to a processor is to describe it. -/
theorem handleBetweenHooks_help (hh : h.IsHelp)
    (hwords : (splitWords j.command).drop 1 = name :: chain)
    (hp : u.registry.find? name chain = some p) :
    handleBetweenHooks rerun c h j u = describe rerun c p u := by
  unfold handleBetweenHooks runHooks Processor.hookScripts
  rw [hh.decl_eq]
  show (help rerun c j >>= fun _ => pure ()) u = _
  rw [bind_pure_unit]
  unfold help
  rw [hwords]
  dsimp only
  rw [get_bind_apply, hp]

/-- A segment that describes a processor does what the description does, has its faults settled, and
finishes its record. -/
theorem Describes.runSegment_eq (hd : Describes s text p c u) (data : Value) (depth : Nat) :
    runSegment (nestedWithin (depth + 1)) text data s =
      ensuring (recover (describe (nestedWithin depth) c p) settleFault) Session.finished u := by
  obtain ⟨line, h, j, name, chain, hrequest, hline, hdispatches, hh, hwords, hp⟩ := hd
  have hsegment := hdispatches.runSegment_eq (nestedWithin depth)
  have hp' : u.registry.find? name chain = some p := by
    obtain ⟨-, -, -, -, hscope⟩ := hdispatches.admissible
    have hlookup : u.lookup = s.started.lookup := keepsLookup_openScope.of_returns hscope
    rw [(Prod.mk.inj hlookup).1]
    exact hp
  -- Faults of the handler are settled within the segment, and to settle one raises none.
  have hno : ∀ f t,
      ¬ Stops (runSegment (nestedWithin depth) line .null) s.started (.fault f) t := by
    intro f t hs
    unfold Stops at hs
    rw [hsegment] at hs
    obtain ⟨v, hv, -⟩ := stops_ensuring_iff.mp hs
    rcases stops_recover_iff.mp hv with ⟨hunfinished, -⟩ | ⟨f', w, -, hsettle⟩
    · cases hunfinished
    · exact stopsOnly_settleFault (P := fun _ => False) _ _ _ hsettle
  rw [runSegment_of_helpRequest hrequest, ensuring_apply, recover_nestedWithin_apply hline hno,
    hsegment, ensuring_apply, ensuring_apply, Session.finished_finished,
    recover_congr (handleBetweenHooks_help hh hwords hp')]

/-- A description to which the processor adds no script of its own leaves the record of the segment
alone. -/
theorem keepsProcess_describe (hplain : ∀ script, p.decl.describer ≠ some (.script script)) :
    Keeps (describe rerun c p) (·.process) := by
  have htelling : TellingCongruence fun _ x _ => Keeps x (·.process) :=
    tellingCongruence_keeps fun _ _ => rfl
  refine htelling.describe (f := rerun) (g := rerun) c p fun d hd => ?_
  cases d with
  | script actions => exact absurd hd (hplain actions)
  | helpUsage => exact htelling.printLines _

/-- A segment whose description comes to its end ends with it, and succeeds unless the processor
itself adds something else. -/
theorem Describes.returns (hd : Describes s text p c u)
    (hr : Returns (describe (nestedWithin depth) c p) u () t) :
    Returns (runSegment (nestedWithin (depth + 1)) text data) s () t.finished ∧
      ((∀ script, p.decl.describer ≠ some (.script script)) →
        t.finished.process.succeeded = true) := by
  constructor
  · unfold Returns
    rw [hd.runSegment_eq, ensuring_apply, recover_apply, show describe _ c p u = _ from hr]
  · intro hplain
    obtain ⟨line, h, j, name, chain, -, -, hdispatches, -, -, -⟩ := hd
    obtain ⟨-, -, -, -, hscope⟩ := hdispatches.admissible
    have hprocess : t.process = ProcessRecord.start {} := by
      rw [(keepsProcess_describe hplain).of_returns hr, process_of_openScope hscope]
    show t.process.finish.succeeded = true
    rw [hprocess]
    rfl

/-! ### Which requests are answered -/

/-- A segment asks for a description unless its command starts with `help`. -/
theorem helpRequest?_of_delivery (hd : s.delivery? data maxExpansions text = some (p, i)) :
    s.helpRequest? text = if i.asksForHelp then some (helpLine i.raw) else none := by
  rw [delivery?_eq_map] at hd
  obtain ⟨⟨p', i'⟩, hnull, heq⟩ := Option.map_eq_some_iff.mp hd
  obtain ⟨rfl, rfl⟩ := Prod.mk.inj heq
  show s.helpRequest? text = if i'.asksForHelp then some (helpLine i'.raw) else none
  unfold Session.helpRequest?
  rw [hnull, Option.filter_some]
  cases i'.asksForHelp <;> rfl

theorem asksForHelp_eq (hversion : (wants i.args "v" || wants i.args "version") = false)
    (hhelp : (wants i.args "h" || wants i.args "help") = true) :
    i.asksForHelp = !i.command.startsWith "help" := by
  unfold Invocation.asksForHelp
  rw [hversion, hhelp, Bool.not_false, Bool.true_and, Bool.and_true]

/-- What has to hold of a command, besides that `help` is in force, for the line for its description
to lead back to a processor. -/
structure LeadsBack (s : Session) (i : Invocation) (p : ShellProcessor) : Prop where
  /-- The command does not start with `help`. -/
  no_help : i.command.startsWith "help" = false
  /-- The line is not cut into several segments. -/
  one_segment : splitLine (helpLine i.raw) = [.segment (helpLine i.raw)]
  /-- The flags, which are those of `help` there, ask for nothing else. -/
  plain : ∀ name ∈ ["v", "version", "context"],
    wants (bindFlags [] (readSegment i.raw).flags) name = false
  /-- The words lead from the root to the processor, whatever is pinned. -/
  from_root : ∃ name chain, wordsOf i.raw = name :: chain ∧ s.registry.find? name chain = some p

/-- What a segment describes where `help` is in force. -/
theorem exists_describes_iff (hd : s.delivery? data maxExpansions text = some (p, i))
    (hversion : (wants i.args "v" || wants i.args "version") = false)
    (hhelp : (wants i.args "h" || wants i.args "help") = true)
    (hforce : Processor.answering? "help" s.commands = some h) (hh : h.IsHelp) :
    (∃ c u, Describes s text q c u) ↔ LeadsBack s i q := by
  let given : Invocation := .ofSegment (helpLine i.raw) [] .null
  have hgiven : s.started.delivery? .null maxExpansions (helpLine i.raw) = some (h, given) := by
    rw [Session.started_delivery?]
    exact delivery?_helpLine hforce hh i.raw maxExpansions
  have hcommand : given.command.startsWith "help" = true := startsWith_help i.raw
  have hwords : (splitWords given.command).drop 1 = wordsOf i.raw := words_behind_help i.raw []
  have hargs : given.args = bindFlags [] (readSegment i.raw).flags := by
    show bindFlags [] (readSegment (helpLine i.raw)).flags = _
    rw [flags_helpLine]
  have hrequest := helpRequest?_of_delivery hd
  rw [asksForHelp_eq hversion hhelp] at hrequest
  constructor
  · rintro ⟨c, u, line, h', j, name, chain, hline, hsplit, hdispatches, -, hj, hq⟩
    rw [hrequest] at hline
    obtain ⟨hstarts, hsome⟩ := Option.ite_none_right_eq_some.mp hline
    obtain rfl := Option.some.inj hsome
    obtain ⟨j', hj', rfl, hadmissible, -⟩ := hdispatches.admissible
    obtain ⟨rfl, rfl⟩ := Prod.mk.inj (Option.some.inj (hgiven.symm.trans hj'))
    refine ⟨by simpa using hstarts, hsplit, ?_, name, chain, ?_, hq⟩
    · rw [← hargs]
      exact (admissible_help_iff hh hcommand).mp hadmissible
    · rw [← hwords]
      exact hj
  · rintro ⟨hstarts, hsplit, hflags, name, chain, hname, hq⟩
    rw [if_pos (by simp [hstarts])] at hrequest
    rw [← hargs] at hflags
    have hadmissible := (admissible_help_iff hh hcommand).mpr hflags
    have hasks : given.asksForHelp = false := by simp [Invocation.asksForHelp, hcommand]
    -- Nothing is left that could keep `help` from its handler but its scope, which always opens.
    rcases returns_or_stops (openScope h) s.started with ⟨c, u, hscope⟩ | ⟨e, u, hstops⟩
    · refine ⟨c, u, _, h, h.deliver given, name, chain, hrequest, hsplit, ?_, hh, ?_, hq⟩
      · exact ⟨given, s.started, hgiven, hasks,
          (returns_screen_some_iff hasks).mpr ⟨rfl, rfl, hadmissible⟩, hscope⟩
      · exact hwords.trans hname
    · exact absurd hstops (stopsOnly_openScope (P := fun _ => False) _ _ _)

/-- A segment that asks for a description where no command and no alias is called `help` reports the
line for it as unknown, and fails. -/
theorem fails_without_help (hrequest : s.helpRequest? text = some (helpLine raw))
    (hline : splitLine (helpLine raw) = [.segment (helpLine raw)])
    (hforce : Processor.answering? "help" s.commands = none)
    (halias : s.aliasTable.target? "help" = none) (data : Value) (depth : Nat) :
    runSegment (nestedWithin (depth + 1)) text data s =
      ensuring (commandNotFound (" ".intercalate ("help" :: wordsOf raw))) Session.finished
        s.started := by
  have hwords : splitWords (readSegment (helpLine raw)).name = "help" :: wordsOf raw := by
    rw [readSegment_name, wordsOf_helpLine, splitWords_intercalate isWord_helpLine (by simp)]
  have hresolve : s.started.resolve? (helpLine raw) = none := by
    refine Option.eq_none_iff_forall_ne_some.mpr fun q hq => ?_
    obtain ⟨path, rest, heq, hpath, -⟩ :=
      (Session.resolve?_eq_some_iff (by simp [wordsOf_helpLine])).mp hq
    -- The path would start with a command called `help`.
    rw [wordsOf_helpLine] at heq
    cases hpath with
    | last hfound | down hfound _ =>
      obtain ⟨rfl, -⟩ := List.cons.inj heq
      cases hforce.symm.trans hfound
  have hexpand : s.started.expand? (helpLine raw) = none := by
    unfold Session.expand? Session.expansion?
    rw [hwords]
    show ((s.aliasTable.target? "help").filter Value.truthy).bind _ = none
    rw [halias]
    rfl
  have hsegment : runSegment (nestedWithin depth) (helpLine raw) .null s.started =
      ensuring (commandNotFound (" ".intercalate ("help" :: wordsOf raw))) Session.finished
        s.started := by
    unfold runSegment maxExpansions runSegmentWithin
    rw [runSegmentWith_of_unknown hresolve hexpand, Session.started_started, readSegment_name,
      wordsOf_helpLine]
  have hno : ∀ f t,
      ¬ Stops (runSegment (nestedWithin depth) (helpLine raw) .null) s.started (.fault f) t := by
    intro f t hs
    unfold Stops at hs
    rw [hsegment] at hs
    obtain ⟨v, hv, -⟩ := stops_ensuring_iff.mp hs
    exact stopsOnly_commandNotFound (P := fun _ => False) _ _ _ hv
  rw [runSegment_of_helpRequest hrequest, ensuring_apply, recover_nestedWithin_apply hline hno,
    hsegment, ensuring_apply, Session.finished_finished]

/-- Where nothing is pinned, the words of a segment lead from the root to its processor. -/
theorem root_leads_of_unpinned (hd : s.delivery? data maxExpansions text = some (p, i))
    (hpin : s.pinned = none) (hne : wordsOf i.raw ≠ []) :
    ∃ name chain, wordsOf i.raw = name :: chain ∧ s.registry.find? name chain = some p := by
  obtain ⟨raw, hresolve, rfl⟩ := delivery?_resolve hd
  obtain ⟨name, chain, hwords⟩ := List.exists_cons_of_ne_nil hne
  refine ⟨name, chain, hwords, ?_⟩
  have hcommands : s.commands = s.registry.processors := by
    unfold Session.commands
    rw [hpin]
  have hpath := (Session.resolve?_eq_some_iff hne).mp hresolve
  rw [hcommands] at hpath
  obtain ⟨path, rest, heq, hp, hends⟩ := hpath
  exact hp.find?_eq hends (hwords.symm.trans heq)

/-- Which requests for descriptions are answered.  Let a segment lead to a processor, under its own
parameters ask for a description and not for the version.  Unless the command starts with `help`,
the segment does nothing but run the line for the description, so that neither the handler, the
hooks nor the checks of the processor run.  Where the built-in `help` is among the commands in
force, the segment describes the processor just where that line leads back to it; then it does what
the description does, and succeeds if this comes to an end and the processor adds no script of its
own.  That the line is one segment is sure of a segment that stands in a line, and that the words
lead from the root to the processor is sure where nothing is pinned.  Where no command in force is
called `help`, as it is below a pinned processor, the segment reports the line for the description
as unknown and fails. -/
theorem request_describes_iff (hd : s.delivery? data maxExpansions text = some (p, i))
    (hversion : (wants i.args "v" || wants i.args "version") = false)
    (hhelp : (wants i.args "h" || wants i.args "help") = true) :
    (i.command.startsWith "help" = false → ∀ rerun, runSegment rerun text data s =
      ensuring (recover (rerun (helpLine i.raw)) reportFailure) Session.finished s.started) ∧
    (∀ h, Processor.answering? "help" s.commands = some h → h.IsHelp →
      ((∃ c u, Describes s text p c u) ↔ LeadsBack s i p)) ∧
    (∀ c u depth, Describes s text p c u →
      runSegment (nestedWithin (depth + 1)) text data s =
        ensuring (recover (describe (nestedWithin depth) c p) settleFault) Session.finished u ∧
      ∀ t, Returns (describe (nestedWithin depth) c p) u () t →
        Returns (runSegment (nestedWithin (depth + 1)) text data) s () t.finished ∧
        ((∀ script, p.decl.describer ≠ some (.script script)) →
          t.finished.process.succeeded = true)) ∧
    (IsSegmentText i.raw.toList → splitLine (helpLine i.raw) = [.segment (helpLine i.raw)]) ∧
    (s.pinned = none → wordsOf i.raw ≠ [] →
      ∃ name chain, wordsOf i.raw = name :: chain ∧ s.registry.find? name chain = some p) ∧
    (i.command.startsWith "help" = false →
      splitLine (helpLine i.raw) = [.segment (helpLine i.raw)] →
      Processor.answering? "help" s.commands = none → s.aliasTable.target? "help" = none →
      ∀ depth, runSegment (nestedWithin (depth + 1)) text data s =
          ensuring (commandNotFound (" ".intercalate ("help" :: wordsOf i.raw)))
            Session.finished s.started ∧
        (runSegment (nestedWithin (depth + 1)) text data s).2.process.succeeded = false) := by
  have hrequest : i.command.startsWith "help" = false →
      s.helpRequest? text = some (helpLine i.raw) := by
    intro hstarts
    rw [helpRequest?_of_delivery hd, asksForHelp_eq hversion hhelp, hstarts]
    rfl
  refine ⟨?_, ?_, ?_, splitLine_helpLine, root_leads_of_unpinned hd, ?_⟩
  · intro hstarts rerun
    exact runSegment_of_helpRequest (hrequest hstarts) data
  · intro h hforce hh
    exact exists_describes_iff hd hversion hhelp hforce hh
  · intro c u depth hdescribes
    exact ⟨hdescribes.runSegment_eq data depth, fun t hr => hdescribes.returns hr⟩
  · intro hstarts hline hforce halias depth
    have hfails := fails_without_help (hrequest hstarts) hline hforce halias data depth
    refine ⟨hfails, ?_⟩
    rw [hfails]
    rfl

end Run

/-! ### A package below which there is no `help` -/

/-- A shell with `help` and a package. -/
def helpShell : Session :=
  .offering [⟨0, Builtin.help, []⟩, packageTree]

/-- The same shell with its package pinned. -/
def pinnedShell : Session :=
  { helpShell with pinned := some (packageTree.adopt 1).1 }

theorem helpShell_commands :
    helpShell.commands = [⟨0, Builtin.help, []⟩, (packageTree.adopt 1).1] :=
  rfl

/-- A command below the package. -/
def packedCommand : ShellProcessor :=
  { Processor.takingText "add" with key := 2 }

theorem helpShell_path : Processor.Path helpShell.commands ["pkg", "add"] packedCommand := by
  rw [helpShell_commands]
  refine .down ((List.find?_cons_of_neg (by decide +kernel)).trans
    (List.find?_cons_of_pos (by decide +kernel))) (.last ?_)
  refine (List.find?_cons_of_neg (by decide +kernel)).trans ?_
  exact List.find?_cons_of_pos (by decide +kernel)

theorem pinnedShell_path : Processor.Path pinnedShell.commands ["add"] packedCommand := by
  refine .last ((List.find?_cons_of_neg (by decide +kernel)).trans ?_)
  exact List.find?_cons_of_pos (by decide +kernel)

namespace Run

/-- A request for a command below a package, where nothing is pinned. -/
theorem unpinned_request_describes :
    let i : Invocation := .ofSegment "pkg add --help" [] .null
    helpShell.delivery? .null maxExpansions "pkg add --help" = some (packedCommand, i) ∧
      (wants i.args "v" || wants i.args "version") = false ∧
      (wants i.args "h" || wants i.args "help") = true ∧
      ∃ c u, Describes helpShell "pkg add --help" packedCommand c u := by
  intro i
  have hwords : wordsOf i.raw = ["pkg", "add"] := by decide +kernel
  have hresolve : helpShell.resolve? "pkg add --help" = some packedCommand :=
    (Session.resolve?_eq_some_iff (by decide +kernel)).mpr
      ⟨["pkg", "add"], [], hwords, helpShell_path, Or.inl rfl⟩
  have hd := Session.delivery?_of_resolve hresolve .null maxExpansions
  have hversion : (wants i.args "v" || wants i.args "version") = false := by decide +kernel
  have hhelp : (wants i.args "h" || wants i.args "help") = true := by decide +kernel
  obtain ⟨-, hdescribes, -, -, hroot, -⟩ := request_describes_iff hd hversion hhelp
  have hforce : Processor.answering? "help" helpShell.commands = some ⟨0, Builtin.help, []⟩ := by
    rw [helpShell_commands]
    exact List.find?_cons_of_pos (by decide +kernel)
  have hback : LeadsBack helpShell i packedCommand :=
    ⟨by decide +kernel, by decide +kernel, by decide +kernel, hroot rfl (by decide +kernel)⟩
  exact ⟨hd, hversion, hhelp, (hdescribes _ hforce ⟨rfl, rfl⟩).mpr hback⟩

/-- The same request where the package is pinned. -/
theorem pinned_request_fails :
    let i : Invocation := .ofSegment "add --help" [] .null
    pinnedShell.delivery? .null maxExpansions "add --help" = some (packedCommand, i) ∧
      (wants i.args "v" || wants i.args "version") = false ∧
      (wants i.args "h" || wants i.args "help") = true ∧
      runSegment (nestedWithin 1) "add --help" .null pinnedShell =
        ensuring (commandNotFound "help add") Session.finished pinnedShell.started ∧
      (runSegment (nestedWithin 1) "add --help" .null pinnedShell).2.process.succeeded = false := by
  intro i
  have hresolve : pinnedShell.resolve? "add --help" = some packedCommand :=
    (Session.resolve?_eq_some_iff (by decide +kernel)).mpr
      ⟨["add"], [], by decide +kernel, pinnedShell_path, Or.inl rfl⟩
  have hd := Session.delivery?_of_resolve hresolve .null maxExpansions
  have hrequest : pinnedShell.helpRequest? "add --help" = some (helpLine "add --help") := by
    rw [helpRequest?_of_delivery hd]
    exact if_pos (by decide +kernel)
  have hforce : Processor.answering? "help" pinnedShell.commands = none :=
    (List.find?_cons_of_neg (by decide +kernel)).trans (List.find?_cons_of_neg (by decide +kernel))
  have hfails := fails_without_help hrequest (by decide +kernel) hforce rfl .null 0
  have hshown : " ".intercalate ("help" :: wordsOf "add --help") = "help add" := by decide +kernel
  rw [hshown] at hfails
  refine ⟨hd, by decide +kernel, by decide +kernel, hfails, ?_⟩
  rw [hfails]
  rfl

end Run

end CommandShell
