import CommandShell.Proofs.Line.HelpCommand
import CommandShell.Proofs.Registry.Originals

/-!
# The pages of `help`

The page of a processor is its name and what it is for, what it extends, what it adds itself, its
subordinate processors and the table of its parameters.  All of this may be missing, with one
exception: a parameter whose other names are left open can be given like any other one, but it has
no row, so that the page breaks off in front of the table.

## Main definitions

* `Processor.headLines`, `Processor.tailLines`, `Processor.table`: the parts of a page.

## Main results

* `parameterTable_eq`: which parameters have a table.
* `tells_describeHead`, `tells_describeSections`: what a page starts and goes on with.
* `help_describes_iff`: when `help` prints the page of a processor and succeeds.
-/

namespace CommandShell

/-! ### The parts of a page -/

/-- The cells of the row of a parameter. -/
def Parameter.cells (p : Parameter) : List String :=
  ["--" ++ p.name, ", ".intercalate (p.otherNames.map ("-" ++ ·)), p.type,
    if p.required then "yes" else "no", p.description]

theorem Parameter.row_eq (p : Parameter) :
    p.row = if p.aliases = none then .error (.notIterable "NoneType") else .ok p.cells := by
  unfold Parameter.row Parameter.cells Parameter.otherNames
  cases p.aliases <;> rfl

/-- The table with the rows of some parameters. -/
def fullTable (ps : List Parameter) : Table where
  title := "Parameters"
  headerStyle := "bold"
  columns := [("Name", "cyan"), ("Aliases", "magenta"), ("Type", ""), ("Required", ""),
    ("Description", "dim")]
  rows := ps.map Parameter.cells

theorem mapM_row_eq (ps : List Parameter) :
    ps.mapM Parameter.row =
      if ∃ p ∈ ps, p.aliases = none then .error (.notIterable "NoneType")
      else .ok (ps.map Parameter.cells) := by
  induction ps with
  | nil => rfl
  | cons p ps ih =>
    rw [List.mapM_cons, ih, p.row_eq]
    by_cases hp : p.aliases = none
    · simp [hp, bind, Except.bind]
    · by_cases hps : ∃ q ∈ ps, q.aliases = none <;>
        simp [hp, hps, bind, Except.bind, pure, Except.pure]

/-- Parameters have a table, with one row for each, just where none leaves its other names open. -/
theorem parameterTable_eq (ps : List Parameter) :
    parameterTable ps =
      if ∃ p ∈ ps, p.aliases = none then .error (.notIterable "NoneType")
      else .ok (fullTable ps) := by
  unfold parameterTable
  rw [mapM_row_eq]
  split_ifs <;> rfl

/-- The lines of a part of a page under a heading. -/
def partLines (heading : String) (lines : List String) : List String :=
  coloured "yellow" heading :: (lines ++ [separatorLine])

namespace Processor

/-- The first lines of a page: what the processor is called and is for, what it extends, the nearest
first, and the heading over what it adds itself. -/
def headLines (p : ShellProcessor) (bases : List ShellProcessor) : List String :=
  [coloured "yellow" "Command:" ++ " " ++ coloured "cyan" p.command ++ " " ++
    coloured "green" ("v" ++ p.version.shown)] ++
  ((if p.decl.description ≠ "" then ["   " ++ p.decl.description] else []) ++
  ((if !p.decl.aliases.isEmpty then
    ["   " ++ coloured "yellow" "Aliases:" ++ " " ++
      ", ".intercalate (p.decl.aliases.map (coloured "magenta"))]
    else []) ++
  ([separatorLine] ++
  ((if !bases.isEmpty then partLines "Extension chain:" (extensionLines bases) else []) ++
  if p.decl.describer.isSome then [coloured "yellow" "Description:"] else []))))

/-- The lines of a page behind what the processor adds itself: its subordinate processors. -/
def tailLines (p : ShellProcessor) : List String :=
  (if p.decl.describer.isSome then [separatorLine] else []) ++
  if p.hasChildren then
    partLines "Subcommands:" (p.children.map fun q =>
      "  " ++ coloured "cyan" q.command ++ " - " ++ q.decl.description)
  else []

/-- The table of a page, if the processor has parameters. -/
def tables (p : ShellProcessor) : List Event :=
  if !p.decl.parameters.isEmpty then [.table (fullTable p.decl.parameters)] else []

end Processor

namespace Run

variable {s t u w : Session} {h p : ShellProcessor} {c : Scope} {raw name : String}
  {chain : List String} {l : List ShellProcessor} {x : Run Unit} {a : List Event} {depth : Nat}
  {i : Invocation}

/-! ### What is printed -/

theorem tells_part {heading : String} {lines : List String} :
    Tells (part heading (printLines lines)) s ((partLines heading lines).map .print) := by
  unfold partLines
  rw [List.map_cons, List.map_append]
  exact (tells_print _).bind ((tells_printLines _).bind (tells_print _))

/-- What is printed in some cases only. -/
theorem tells_when_print {q : Prop} [Decidable q] {lines : List String}
    (hx : ∀ s, Tells x s (lines.map .print)) :
    Tells (if q then x else pure ()) s ((if q then lines else []).map .print) := by
  split_ifs
  · exact hx s
  · exact tells_pure

theorem tells_basesOf_bind {f : List ShellProcessor → Run Unit} (hl : s.registry.Leads p l)
    (h : Tells (f l) s a) : Tells (basesOf p >>= f) s a :=
  returns_bind_iff.mpr ⟨l, s, Registry.returns_basesOf hl rfl, h⟩

/-- What a processor extends stands at the start of its page. -/
theorem tells_describeHead (hl : s.registry.Leads p l) :
    Tells (describeHead p) s ((p.headLines l).map .print) := by
  unfold describeHead Processor.headLines
  simp only [andThen_eq, List.map_append]
  refine (tells_print _).bind ((tells_when_print fun _ => tells_print _).bind
    ((tells_when_print fun _ => tells_print _).bind ((tells_print _).bind ?_)))
  exact tells_basesOf_bind hl
    ((tells_when_print fun _ => tells_part).bind (tells_when_print fun _ => tells_print _))

/-- A description behind what the processor adds to it, up to the table. -/
def describeChildren (p : ShellProcessor) : Run Unit := do
  if p.decl.describer.isSome then print separatorLine
  if p.hasChildren then
    part "Subcommands:" (printLines (p.children.map fun q =>
      "  " ++ coloured "cyan" q.command ++ " - " ++ q.decl.description))

/-- The table at the end of a description. -/
def describeParameters (p : ShellProcessor) : Run Unit := do
  if !p.decl.parameters.isEmpty then
    emit (.table (← ofExcept (parameterTable p.decl.parameters)))

theorem describeTail_eq (p : ShellProcessor) :
    describeTail p = describeChildren p >>= fun _ => describeParameters p := by
  unfold describeTail describeChildren describeParameters
  simp only [andThen_eq, bind_assoc]

theorem tells_describeChildren (p : ShellProcessor) (s : Session) :
    Tells (describeChildren p) s (p.tailLines.map .print) := by
  unfold describeChildren Processor.tailLines
  simp only [andThen_eq, List.map_append]
  exact (tells_when_print fun _ => tells_print _).bind (tells_when_print fun _ => tells_part)

/-- If all parameters have their other names, the table is printed. -/
theorem tells_describeParameters (h : ∀ q ∈ p.decl.parameters, q.aliases ≠ none) (s : Session) :
    Tells (describeParameters p) s p.tables := by
  have htable : parameterTable p.decl.parameters = .ok (fullTable p.decl.parameters) := by
    rw [parameterTable_eq, if_neg]
    rintro ⟨q, hq, hnone⟩
    exact h q hq hnone
  unfold describeParameters Processor.tables
  rw [htable]
  exact Tells.when fun _ => tells_emit _

/-- If one leaves them open, there is no table. -/
theorem stops_describeParameters (h : ∃ q ∈ p.decl.parameters, q.aliases = none) (s : Session) :
    Stops (describeParameters p) s (.fault (.notIterable "NoneType")) s := by
  have hsome : (!p.decl.parameters.isEmpty) = true := by
    obtain ⟨q, hq, -⟩ := h
    simpa using List.ne_nil_of_mem hq
  unfold describeParameters
  rw [if_pos hsome, parameterTable_eq, if_pos h]
  rfl

/-! ### Whole descriptions -/

variable {rerun : String → Run Unit}

/-- A page is printed whole if all parameters have their other names. -/
theorem returns_describe (hl : u.registry.Leads p l)
    (hw : Returns (describeOwn rerun c p) (u.told ((p.headLines l).map .print)) () w)
    (h : ∀ q ∈ p.decl.parameters, q.aliases ≠ none) :
    Returns (describe rerun c p) u () (w.told (p.tailLines.map .print ++ p.tables)) := by
  rw [describe_eq, describeTail_eq]
  refine returns_bind_iff.mpr ⟨(), _, tells_describeHead hl, ?_⟩
  refine returns_bind_iff.mpr ⟨(), w, hw, ?_⟩
  exact (tells_describeChildren p w).bind (tells_describeParameters h _)

/-- A page breaks off in front of the table if one does not. -/
theorem stops_describe (hl : u.registry.Leads p l)
    (hw : Returns (describeOwn rerun c p) (u.told ((p.headLines l).map .print)) () w)
    (h : ∃ q ∈ p.decl.parameters, q.aliases = none) :
    Stops (describe rerun c p) u (.fault (.notIterable "NoneType"))
      (w.told (p.tailLines.map .print)) := by
  rw [describe_eq, describeTail_eq]
  refine (tells_describeHead hl).stops_bind ?_
  refine stops_bind_iff.mpr (Or.inr ⟨(), w, hw, ?_⟩)
  exact (tells_describeChildren p w).stops_bind (stops_describeParameters h _)

theorem stops_basesOf (hl : ¬ ∃ l, s.registry.Leads p l) : Stops (basesOf p) s .unfinished s := by
  have hlong := Registry.length_basesOf hl (s.registry.bases.length + 1)
  show (if _ then (pure _ : Run _) else throw Stop.unfinished) s = _
  rw [if_neg (by omega)]
  rfl

/-- A page comes to no end if what the processor extends comes to none. -/
theorem endless_describe (hl : ¬ ∃ l, u.registry.Leads p l) :
    ∃ t, Stops (describe rerun c p) u .unfinished t := by
  unfold describe
  simp only [andThen_eq]
  exact ⟨_, (tells_print _).stops_bind ((Tells.when fun _ => tells_print _).stops_bind
    ((Tells.when fun _ => tells_print _).stops_bind ((tells_print _).stops_bind
      (stops_bind_iff.mpr (Or.inl (stops_basesOf hl))))))⟩

/-- What a processor without a script of its own adds to its page cannot fail. -/
theorem exists_tells_describeOwn (hplain : ∀ script, p.decl.describer ≠ some (.script script)) :
    ∃ events, ∀ s, Tells (describeOwn rerun c p) s events := by
  unfold describeOwn
  cases hd : p.decl.describer with
  | none => exact ⟨[], fun s => tells_pure⟩
  | some d =>
    cases d with
    | script actions => exact absurd hd (hplain actions)
    | helpUsage => exact ⟨_, fun s => tells_printLines _⟩

/-! ### Lines that ask for a page -/

theorem transparent_space : Transparent [' '] := by
  have hspace : ∀ c ∈ [' '], isBlank c = true := List.forall_mem_singleton.mpr (by decide)
  exact ⟨fun _ => clear_of_blank hspace, Quoting.through_of_blank hspace⟩

/-- Words that are joined by spaces start and end with a word, and hold no operator. -/
theorem trimmed_intercalate {ws : List String} (hne : ws ≠ [])
    (h : ∀ w ∈ ws, IsBareWord w ∧ ∀ c ∈ w.toList, IsPlain c) :
    (" ".intercalate ws).toList ≠ [] ∧ Chars.Trimmed (" ".intercalate ws).toList ∧
      Transparent (" ".intercalate ws).toList := by
  induction ws with
  | nil => exact absurd rfl hne
  | cons w ws ih =>
    obtain ⟨hw, hplain⟩ := h w List.mem_cons_self
    have hstart := transparent_of_isPlain hplain
    have htrim : Chars.Trimmed w.toList :=
      ⟨fun c hc => (hplain c (List.mem_of_mem_head? hc)).1,
        fun c hc => (hplain c (List.mem_of_getLast? hc)).1⟩
    cases ws with
    | nil =>
      rw [String.intercalate_singleton]
      exact ⟨hw.toList_ne_nil, htrim, hstart⟩
    | cons v ws =>
      obtain ⟨hrest, htrim', htransparent⟩ := ih (List.cons_ne_nil _ _)
        fun x hx => h x (List.mem_cons_of_mem _ hx)
      -- The first word comes in front of a space and all others.
      have hcut : (" ".intercalate (w :: v :: ws)).toList =
          w.toList ++ ([' '] ++ (" ".intercalate (v :: ws)).toList) := by
        rw [String.intercalate_cons_cons, String.append_assoc, String.toList_append,
          String.toList_append]
        rfl
      rw [hcut]
      exact ⟨List.append_ne_nil_of_left_ne_nil hw.toList_ne_nil _,
        htrim.append hw.toList_ne_nil htrim' hrest _,
        hstart.append (transparent_space.append htransparent)⟩

/-- Words that are joined by spaces are a segment. -/
theorem isSegmentText_intercalate {ws : List String} (hne : ws ≠ [])
    (h : ∀ w ∈ ws, IsBareWord w ∧ ∀ c ∈ w.toList, IsPlain c) :
    IsSegmentText (" ".intercalate ws).toList := by
  obtain ⟨hfilled, htrimmed, htransparent⟩ := trimmed_intercalate hne h
  exact ⟨hfilled, htrimmed, htransparent.1 []⟩

/-- The words behind `help` ask for the page of a processor: the built-in `help` is in force, the
line is one segment without a request, and the words lead from the root to the processor. -/
structure AsksForPage (s : Session) (raw : String) (h p : ShellProcessor) : Prop where
  /-- `help` is in force. -/
  force : Processor.answering? "help" s.commands = some h
  /-- It is the built-in one. -/
  builtin : h.IsHelp
  /-- The line is one segment. -/
  one_segment : splitLine (helpLine raw) = [.segment (helpLine raw)]
  /-- None of them is a request. -/
  plain : ¬ MakesRequest raw
  /-- They lead to the processor. -/
  from_root : ∃ name chain, wordsOf raw = name :: chain ∧ s.registry.find? name chain = some p

/-- The page of every processor can be asked for by a path from the root, if its words are written
without quotes and operators, and do not start with a dash. -/
theorem asksForPage_of_path {path : List String}
    (hforce : Processor.answering? "help" s.commands = some h) (hh : h.IsHelp)
    (hwords : ∀ w ∈ path, IsBareWord w ∧ ∀ c ∈ w.toList, IsPlain c)
    (hpath : Processor.Path s.registry.processors path p) :
    AsksForPage s (" ".intercalate path) h p := by
  have hbare : ∀ w ∈ path, IsBareWord w := fun w hw => (hwords w hw).1
  refine ⟨hforce, hh, splitLine_helpLine (isSegmentText_intercalate hpath.ne_nil hwords), ?_, ?_⟩
  · refine not_makesRequest_of_flags fun f hf => ?_
    rw [flags_intercalate hbare] at hf
    cases hf
  · obtain ⟨name, chain, hcut⟩ := List.exists_cons_of_ne_nil hpath.ne_nil
    rw [wordsOf_intercalate hbare]
    exact ⟨name, chain, hcut, hpath.find?_eq (Or.inl rfl) (by rw [List.append_nil, hcut])⟩

/-- A request for a page gets to the handler of `help`, which describes the processor. -/
theorem AsksForPage.exists_dispatches (ha : AsksForPage s raw h p) :
    ∃ i c u, Dispatches s (helpLine raw) .null h i c u ∧ u.registry = s.registry ∧
      u.process = ProcessRecord.start {} ∧ u.journal = s.space.reports ++ s.journal ∧
      ∀ rerun, handleBetweenHooks rerun c h i u = describe rerun c p u := by
  obtain ⟨name, chain, hwords, hp⟩ := ha.from_root
  have hrequest : ¬ MakesRequest (helpLine raw) := by
    have hsame : (readSegment (helpLine raw)).flagMap = (readSegment raw).flagMap := by
      unfold Segment.flagMap
      rw [flags_helpLine]
    have hplain := ha.plain
    unfold MakesRequest at hplain ⊢
    rwa [hsame]
  obtain ⟨i, c, u, hd, hasked⟩ := exists_dispatches_help ha.force ha.builtin
    (wordsOf_helpLine raw) hrequest
  obtain ⟨-, -, -, -, hscope⟩ := hd.admissible
  have hregistry : u.registry = s.registry :=
    (Prod.mk.inj (keepsLookup_openScope.of_returns hscope)).1
  refine ⟨i, c, u, hd, hregistry, process_of_openScope hscope, journal_of_openScope hscope,
    fun rerun => ?_⟩
  exact handleBetweenHooks_help ha.builtin (hasked.trans hwords) (by rw [hregistry, hp])

/-- A page with a parameter that leaves its other names open is given up in front of the table,
which is reported, and fails. -/
theorem AsksForPage.returns_of_open (ha : AsksForPage s raw h p)
    (hd : Dispatches s (helpLine raw) .null h i c u)
    (hv : Stops (handleBetweenHooks (nestedWithin depth) c h i) u
      (.fault (.notIterable "NoneType")) t) :
    ∃ v, Returns (runLineWithin (depth + 1) (helpLine raw)) s false v ∧
      v.process.exitCode = .int (-1) ∧
      v.journal = faultReport (.notIterable "NoneType") :: t.journal := by
  -- What is left to do when the page is given up.
  have hsettle : Returns (settleFault (.notIterable "NoneType")) t ()
      { t with
        indicators := t.indicators.hideAll none
        journal := faultReport (.notIterable "NoneType") :: t.journal
        process := t.process.exit (.int (-1)) } :=
    rfl
  have hsegment : Returns (runSegment (nestedWithin depth) (helpLine raw) .null) s ()
      { t with
        indicators := t.indicators.hideAll none
        journal := faultReport (.notIterable "NoneType") :: t.journal
        process := (t.process.exit (.int (-1))).finish } := by
    unfold Returns
    rw [hd.runSegment_eq, ensuring_apply, recover_apply,
      show handleBetweenHooks (nestedWithin depth) c h i u = _ from hv]
    exact congrArg (fun r => (r.1, r.2.finished)) hsettle
  have hends : EndsWith (nestedWithin depth) s (helpLine raw) .null (.int (-1)) _ :=
    endsWith_of_returns hsegment rfl rfl
  exact ⟨_, hends.returns_runLine ha.one_segment, rfl, rfl⟩

section Described

variable {l : List ShellProcessor} {i : Invocation} {depth : Nat} (ha : AsksForPage s raw h p)
  (hd : Dispatches s (helpLine raw) .null h i c u)
  (hdoes : handleBetweenHooks (nestedWithin depth) c h i u = describe (nestedWithin depth) c p u)

include ha hd hdoes

/-- A page that can be printed whole ends the line with it, if the exit code is left at zero. -/
theorem AsksForPage.returns_of_closed (hl : u.registry.Leads p l)
    (hw : Returns (describeOwn (nestedWithin depth) c p) (u.told ((p.headLines l).map .print)) () w)
    (hall : ∀ q ∈ p.decl.parameters, q.aliases ≠ none)
    (hcode : w.process.finish.exitCode = .int 0) :
    Returns (runLineWithin (depth + 1) (helpLine raw)) s true
      (w.told (p.tailLines.map .print ++ p.tables)).finished := by
  have hreturns := returns_describe hl hw hall
  unfold Returns at hreturns
  rw [← hdoes] at hreturns
  have hends := endsWith_of_returns (hd.returns_runSegment hreturns) hcode rfl
  exact hends.returns_runLine ha.one_segment

/-- A page breaks off in front of its table where a parameter leaves its other names open. -/
theorem AsksForPage.returns_of_open_names (hl : u.registry.Leads p l)
    (hw : Returns (describeOwn (nestedWithin depth) c p) (u.told ((p.headLines l).map .print)) () w)
    (hnone : ∃ q ∈ p.decl.parameters, q.aliases = none) :
    ∃ t, Returns (runLineWithin (depth + 1) (helpLine raw)) s false t ∧
      t.process.exitCode = .int (-1) ∧
      t.journal = faultReport (.notIterable "NoneType") ::
        ((p.tailLines.map .print).reverse ++ w.journal) := by
  have hstops := stops_describe hl hw hnone
  unfold Stops at hstops
  rw [← hdoes] at hstops
  exact ha.returns_of_open hd hstops

/-- A page whose processor extends others without end comes to none either. -/
theorem AsksForPage.stops_of_endless (hl : ¬ ∃ l, u.registry.Leads p l) :
    ∃ t, Stops (runLineWithin (depth + 1) (helpLine raw)) s .unfinished t := by
  obtain ⟨t, hstops⟩ : ∃ t, Stops (describe (nestedWithin depth) c p) u .unfinished t :=
    endless_describe hl
  unfold Stops at hstops
  rw [← hdoes] at hstops
  exact hd.stops_runLine hstops ha.one_segment

end Described

/-- When `help` can describe a processor.  Let the words behind `help` ask for the page of a
processor.  If following what it extends comes to an end, and what it adds to its page returns, then
the line prints the page, with all that the processor extends, its subordinate processors and one
row for each parameter, and ends with the exit code zero, just where no parameter leaves its other
names open and what the processor added has left no other exit code; this is sure of a processor
that adds no script of its own.  If a parameter leaves its other names open, the page breaks off in
front of the table, this is reported, and the exit code is `-1`.  If following what the processor
extends comes to no end, neither does the page. -/
theorem help_describes_iff (ha : AsksForPage s raw h p) (depth : Nat) :
    ∃ c u, Returns (openScope h) s.started c u ∧ u.journal = s.space.reports ++ s.journal ∧
      (∀ l w, s.registry.Leads p l →
        Returns (describeOwn (nestedWithin depth) c p) (u.told ((p.headLines l).map .print)) () w →
        ((∃ t, Returns (runLineWithin (depth + 1) (helpLine raw)) s true t ∧
            t.process.exitCode = .int 0 ∧
            t = (w.told (p.tailLines.map .print ++ p.tables)).finished) ↔
          (∀ q ∈ p.decl.parameters, q.aliases ≠ none) ∧ w.process.finish.exitCode = .int 0) ∧
        ((∃ q ∈ p.decl.parameters, q.aliases = none) →
          ∃ t, Returns (runLineWithin (depth + 1) (helpLine raw)) s false t ∧
            t.process.exitCode = .int (-1) ∧
            t.journal = faultReport (.notIterable "NoneType") ::
              ((p.tailLines.map .print).reverse ++ w.journal))) ∧
      ((∀ script, p.decl.describer ≠ some (.script script)) → ∃ events, ∀ l,
        Returns (describeOwn (nestedWithin depth) c p) (u.told ((p.headLines l).map .print)) ()
            (u.told ((p.headLines l).map .print ++ events)) ∧
          (u.told ((p.headLines l).map .print ++ events)).process.finish.exitCode = .int 0) ∧
      ((¬ ∃ l, s.registry.Leads p l) →
        ∃ t, Stops (runLineWithin (depth + 1) (helpLine raw)) s .unfinished t) := by
  obtain ⟨i, c, u, hd, hregistry, hprocess, hjournal, hdoes⟩ := ha.exists_dispatches
  obtain ⟨-, -, -, -, hscope⟩ := hd.admissible
  refine ⟨c, u, hscope, hjournal, fun l w hl hw => ?_, fun hplain => ?_, fun hl => ?_⟩
  · rw [← hregistry] at hl
    have hopen := ha.returns_of_open_names hd (hdoes _) hl hw
    refine ⟨⟨?_, ?_⟩, hopen⟩
    · rintro ⟨t, ht, hcode, rfl⟩
      refine ⟨fun q hq hnone => ?_, hcode⟩
      obtain ⟨v, hv, -⟩ := hopen ⟨q, hq, hnone⟩
      cases (ht.unique hv).1
    · rintro ⟨hall, hcode⟩
      exact ⟨_, ha.returns_of_closed hd (hdoes _) hl hw hall hcode, hcode, rfl⟩
  · -- What a processor adds without a script is only told, whatever was told in front of it.
    obtain ⟨events, hown⟩ : ∃ events, ∀ s, Tells (describeOwn (nestedWithin depth) c p) s events :=
      exists_tells_describeOwn hplain
    refine ⟨events, fun l => ⟨?_, ?_⟩⟩
    · rw [← Session.told_told]
      exact hown _
    · show u.process.finish.exitCode = _
      rw [hprocess]
      rfl
  · rw [← hregistry] at hl
    exact ha.stops_of_endless hd (hdoes _) hl

/-- A command with two parameters, of which the second one leaves its other names open. -/
def openCommand : ShellProcessor :=
  .scripted "scan" [.record] [{ name := "depth", aliases := some ["d"] },
    { name := "mode", aliases := none }]

/-- A shell with `help`, a package and that command. -/
def pageShell : Session :=
  .offering [⟨0, Builtin.help, []⟩, packageTree, openCommand]

theorem pageShell_commands : pageShell.commands =
    [⟨0, Builtin.help, []⟩, (packageTree.adopt 1).1, { openCommand with key := 4 }] :=
  rfl

theorem pageShell_asks {p : ShellProcessor} {path : List String}
    (hwords : ∀ w ∈ path, IsBareWord w ∧ ∀ c ∈ w.toList, IsPlain c)
    (hpath : Processor.Path pageShell.commands path p) :
    AsksForPage pageShell (" ".intercalate path) ⟨0, Builtin.help, []⟩ p := by
  refine asksForPage_of_path ?_ ⟨rfl, rfl⟩ hwords hpath
  rw [pageShell_commands]
  exact List.find?_cons_of_pos (by decide +kernel)

/-- The page of the package is printed whole, with its subordinate processors. -/
theorem package_page_is_printed :
    let p := (packageTree.adopt 1).1
    ∃ events t, AsksForPage pageShell "pkg" ⟨0, Builtin.help, []⟩ p ∧
      p.children.map (·.command) = ["pkg", "add"] ∧
      Returns (runLine "help pkg") pageShell true t ∧ t.process.exitCode = .int 0 ∧
      t.journal = (p.tailLines.map Event.print ++ p.tables).reverse ++
        ((p.headLines []).map Event.print ++ events).reverse := by
  intro p
  have hpath : Processor.Path pageShell.commands ["pkg"] p := by
    refine .last ?_
    rw [pageShell_commands]
    exact (List.find?_cons_of_neg (by decide +kernel)).trans
      (List.find?_cons_of_pos (by decide +kernel))
  have hplain : ∀ c ∈ "pkg".toList, IsPlain c := isPlain_of_all (by decide)
  have hwords : ∀ w ∈ ["pkg"], IsBareWord w ∧ ∀ c ∈ w.toList, IsPlain c :=
    List.forall_mem_singleton.mpr
      ⟨⟨⟨by decide, fun c hc => (hplain c hc).1⟩, by decide⟩, hplain⟩
  have ha : AsksForPage pageShell "pkg" ⟨0, Builtin.help, []⟩ p := pageShell_asks hwords hpath
  obtain ⟨c, u, -, hjournal, hends, hown, -⟩ := help_describes_iff ha 499
  obtain ⟨events, hevents⟩ := hown fun script => by rintro ⟨⟩
  obtain ⟨hw, hcode⟩ := hevents []
  have hleads : pageShell.registry.Leads p [] := Registry.leads_nil_iff.mpr rfl
  obtain ⟨t, ht, hzero, rfl⟩ := (hends [] _ hleads hw).1.mpr ⟨List.forall_mem_nil _, hcode⟩
  refine ⟨events, _, ha, rfl, ht, hzero, ?_⟩
  show _ ++ (_ ++ u.journal) = _
  rw [hjournal]
  exact congrArg _ (List.append_nil _)

/-- A command can be run, but its page is given up for one of its parameters. -/
theorem open_names_break_page :
    let p : ShellProcessor := { openCommand with key := 4 }
    ∃ t u, pageShell.pinned = none ∧ AsksForPage pageShell "scan" ⟨0, Builtin.help, []⟩ p ∧
      p.decl.describer.isNone = true ∧ Returns (runLine "scan --mode=fast") pageShell true t ∧
      Returns (runLine "help scan") pageShell false u ∧ u.process.exitCode = .int (-1) ∧
      u.journal.head? = some (faultReport (.notIterable "NoneType")) := by
  intro p
  have hpath : Processor.Path pageShell.commands ["scan"] p := by
    refine .last ?_
    rw [pageShell_commands]
    exact (List.find?_cons_of_neg (by decide +kernel)).trans
      ((List.find?_cons_of_neg (by decide +kernel)).trans
        (List.find?_cons_of_pos (by decide +kernel)))
  have hplain : ∀ c ∈ "scan".toList, IsPlain c := isPlain_of_all (by decide)
  have hwords : ∀ w ∈ ["scan"], IsBareWord w ∧ ∀ c ∈ w.toList, IsPlain c :=
    List.forall_mem_singleton.mpr
      ⟨⟨⟨by decide, fun c hc => (hplain c hc).1⟩, by decide⟩, hplain⟩
  have ha : AsksForPage pageShell "scan" ⟨0, Builtin.help, []⟩ p := pageShell_asks hwords hpath
  obtain ⟨i, c, u, hd, hregistry, -, -, hdoes⟩ := ha.exists_dispatches
  have hleads : u.registry.Leads p [] := by
    rw [hregistry]
    exact Registry.leads_nil_iff.mpr rfl
  have hstops : Stops (describe (nestedWithin 499) c p) u (.fault (.notIterable "NoneType")) _ :=
    stops_describe hleads rfl
      ⟨{ name := "mode", aliases := none }, by simp [p, openCommand, Processor.scripted], rfl⟩
  unfold Stops at hstops
  rw [← hdoes] at hstops
  obtain ⟨v, hv, hcode, hjournal⟩ := ha.returns_of_open hd hstops
  obtain ⟨ok, ht, rfl⟩ := exists_returns_of_map (runLine "scan --mode=fast") pageShell id true
    (by decide +kernel)
  exact ⟨_, v, rfl, ha, rfl, ht, hv, hcode, by rw [hjournal]; rfl⟩

end Run

end CommandShell
