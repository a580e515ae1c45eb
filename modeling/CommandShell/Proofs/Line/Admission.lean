import CommandShell.Proofs.Line.HelpRequests

/-!
# Admission of commands

What stands between a segment that leads to a processor and the handler.  A command is admitted if
it asks for nothing that needs no handler, its arguments fit the parameters, a text is given where
one is needed, and the processor accepts it.  The handler gets the command with its free text, and
to admit a command changes nothing.

## Main definitions

* `Admissible`: the commands that a handler may get.
* `Run.screen`: the checks in front of the handler.
* `Run.Dispatches`, `Run.dispatch?`: the segments that get to the handler of a processor.

## Main results

* `reach_eq`: what a segment does that leads to a processor, with the handler behind the checks.
* `returns_screen_some_iff`: the checks let through what is admissible, and nothing else.
* `Dispatches.runSegment_eq`: a segment that gets to a handler does what stands around it.
* `Dispatches.admissible`: what a handler gets is admissible.
-/

namespace CommandShell

/-- The command as the handler of a processor gets it, with the free text behind its name. -/
def Processor.deliver (p : ShellProcessor) (i : Invocation) : Invocation :=
  { i with text := if p.acceptsText then textAfterWord? i.command p.names else none }

/-- A command that the handler of a processor may get. -/
structure Admissible (p : ShellProcessor) (i : Invocation) : Prop where
  /-- The version is not asked for. -/
  no_version : wants i.args "v" = false ∧ wants i.args "version" = false
  /-- A description is not asked for, except of a command that starts with `help`. -/
  no_help : i.command.startsWith "help" = false →
    wants i.args "h" = false ∧ wants i.args "help" = false
  /-- The processor is not to be pinned. -/
  no_pin : wants i.args "context" = false
  /-- All required parameters are given, under one of their names. -/
  required : ∀ q ∈ p.decl.parameters, q.required = true →
    ∃ name v, q.answersTo name = true ∧ i.args.get? name = some v ∧ v.isNull = false
  /-- The given values pass the checks of their parameters. -/
  accepted : ∀ q ∈ p.decl.parameters, ∀ check v, q.check = some check →
    q.given? i.args = some v → check.judge v = .ok .accepted
  /-- There is a text if one is needed. -/
  text : p.decl.needsText = true → ∃ text, i.text = some text ∧ text ≠ ""
  /-- The processor has nothing against the command. -/
  reply : p.reply i = .ok .accepted

namespace Run

/-- The checks on the free text and by the processor itself. -/
def screenChecked (p : ShellProcessor) (i : Invocation) : Run (Option Invocation) := do
  if p.decl.needsText && (i.text.getD "").isEmpty then
    say .error ("Value required: " ++ coloured "cyan" (i.command ++ " <value>"))
    exitSilently (-1)
    return none
  else
    match ← ofExcept (p.reply i) with
    | .accepted => return some i
    | .rejected reason =>
      say .error ((reason.filter (· ≠ "")).getD
        "An error occurred while validating the command.")
      exitSilently (-1)
      return none

/-- The checks in front of the handler of a processor, for a command that asks for no description;
they give the command as the handler gets it, if it is admitted. -/
def screen (p : ShellProcessor) (i : Invocation) : Run (Option Invocation) := do
  if wants i.args "v" || wants i.args "version" then
    print (coloured "cyan" p.version.shown)
    return none
  else if wants i.args "context" then
    pin (some p) false
    return none
  else if !(← parametersFit p.decl.parameters i.args) then
    exitSilently (-1)
    return none
  else screenChecked p (p.deliver i)

variable {rerun : String → Run Unit} {p : ShellProcessor} {i i' : Invocation} {s t : Session}

/-- What becomes of a command that was checked. -/
def dispatchScreened (rerun : String → Run Unit) (p : ShellProcessor) :
    Option Invocation → Run Unit
  | some i => dispatch rerun p i
  | none => pure ()

theorem reachChecked_eq (rerun : String → Run Unit) (p : ShellProcessor) (i : Invocation) :
    reachChecked rerun p i = screenChecked p i >>= dispatchScreened rerun p := by
  unfold reachChecked screenChecked
  split
  · simp only [bind_assoc, pure_bind]
    exact bind_pure_unit.symm
  · rw [bind_assoc]
    refine bind_congr fun verdict => ?_
    cases verdict with
    | accepted => exact (pure_bind _ _).symm
    | rejected reason =>
      simp only [bind_assoc, pure_bind]
      exact bind_pure_unit.symm

/-- A segment that leads to a processor runs a line for its description, or its handler behind the
checks. -/
theorem reach_eq (rerun : String → Run Unit) (p : ShellProcessor) (i : Invocation) :
    reach rerun p i =
      if i.asksForHelp then recover (rerun (helpLine i.raw)) reportFailure
      else screen p i >>= dispatchScreened rerun p := by
  by_cases hasks : i.asksForHelp = true
  · rw [if_pos hasks, reach_of_asksForHelp hasks]
  · rw [if_neg hasks]
    unfold reach screen
    -- The checks come in the same order on both sides, so they can be left out one by one.
    by_cases hversion : (wants i.args "v" || wants i.args "version") = true
    · simp only [if_pos hversion, bind_assoc, pure_bind]
      exact bind_pure_unit.symm
    have hhelp :
        ¬ (!i.command.startsWith "help" && (wants i.args "h" || wants i.args "help")) = true := by
      unfold Invocation.asksForHelp at hasks
      simp_all
    simp only [if_neg hversion, if_neg hhelp]
    by_cases hpin : wants i.args "context" = true
    · simp only [if_pos hpin, bind_assoc, pure_bind]
      exact bind_pure_unit.symm
    simp only [if_neg hpin, bind_assoc]
    refine bind_congr fun fit => ?_
    cases fit with
    | false =>
      simp only [Bool.not_false, if_pos, bind_assoc, pure_bind]
      exact bind_pure_unit.symm
    | true => exact reachChecked_eq rerun p (p.deliver i)

/-! ### What the checks let through -/

theorem isSome_given?_iff {q : Parameter} {args : Entries Value} :
    (q.given? args).isSome = true ↔
      ∃ name v, q.answersTo name = true ∧ args.get? name = some v ∧ v.isNull = false := by
  unfold Parameter.given? Parameter.answersTo
  rw [List.findSome?_isSome_iff]
  simp only [Option.isSome_filter, Option.any_eq_true, List.mem_cons, Bool.or_eq_true, beq_iff_eq,
    List.contains_iff_mem, Bool.not_eq_true']
  constructor
  · rintro ⟨name, hname, v, hv, hnull⟩
    exact ⟨name, v, hname.imp Eq.symm id, hv, hnull⟩
  · rintro ⟨name, v, hname, hv, hnull⟩
    exact ⟨name, hname.imp Eq.symm id, v, hv, hnull⟩

theorem refused?_eq_none_iff {q : Parameter} {args : Entries Value} :
    q.refused? args = .ok none ↔ ∀ check v, q.check = some check → q.given? args = some v →
      check.judge v = .ok .accepted := by
  unfold Parameter.refused?
  split
  · rename_i check v hcheck hv
    -- The only value that counts is the one that is judged.
    have hjudged : (∀ check' v', q.check = some check' → q.given? args = some v' →
        check'.judge v' = .ok .accepted) ↔ check.judge v = .ok .accepted := by
      constructor
      · intro h
        exact h check v hcheck hv
      · intro h check' v' hcheck' hv'
        obtain rfl := Option.some.inj (hcheck.symm.trans hcheck')
        obtain rfl := Option.some.inj (hv.symm.trans hv')
        exact h
    rw [hjudged]
    rcases check.judge v with f | ⟨_ | reason⟩
    · constructor <;> (intro h; cases h)
    · exact ⟨fun _ => rfl, fun _ => rfl⟩
    · constructor <;> (intro h; cases h)
  · rename_i hnone
    refine ⟨fun _ check v hcheck hv => ?_, fun _ => rfl⟩
    exact absurd hv (hnone check v hcheck)

theorem refusedValues_cons (q : Parameter) (ps : List Parameter) (args : Entries Value) :
    refusedValues (q :: ps) args = do
      let r ← q.refused? args
      let rest ← refusedValues ps args
      return r.toList ++ rest := by
  simp only [refusedValues, List.mapM_cons, bind_assoc, pure_bind]
  refine bind_congr fun r => bind_congr fun rest => ?_
  cases r <;> rfl

theorem refusedValues_eq_nil_iff {ps : List Parameter} {args : Entries Value} :
    refusedValues ps args = .ok [] ↔ ∀ q ∈ ps, q.refused? args = .ok none := by
  induction ps with
  | nil => exact ⟨by simp, fun _ => rfl⟩
  -- A parameter that cannot be checked is a failure, even behind one that is refused.
  | cons q ps ih =>
    rw [refusedValues_cons, List.forall_mem_cons, ← ih]
    rcases q.refused? args with f | r
    · constructor
      · intro h
        cases h
      · rintro ⟨h, -⟩
        cases h
    · rcases refusedValues ps args with f | rest
      · constructor
        · intro h
          cases h
        · rintro ⟨-, h⟩
          cases h
      · cases r <;> simp [bind, Except.bind, pure, Except.pure]

/-- Nothing is wrong with the arguments just where all required ones are given and all given ones
pass their checks; then nothing happens. -/
theorem returns_parametersFit_iff {ps : List Parameter} {args : Entries Value} :
    Returns (parametersFit ps args) s true t ↔
      t = s ∧ (∀ q ∈ ps, q.required = true → (q.given? args).isSome = true) ∧
        ∀ q ∈ ps, q.refused? args = .ok none := by
  have hmissing : (missingParameters ps args).isEmpty = true ↔
      ∀ q ∈ ps, q.required = true → (q.given? args).isSome = true := by
    unfold missingParameters
    simp [List.isEmpty_iff, List.filter_eq_nil_iff, Option.isSome_iff_ne_none]
  rw [← hmissing, ← refusedValues_eq_nil_iff]
  unfold parametersFit
  dsimp only
  by_cases hnone : (missingParameters ps args).isEmpty = true
  · rw [if_neg (by simp [hnone]), returns_bind_iff]
    constructor
    · rintro ⟨refused, u, hread, h⟩
      obtain ⟨hrefused, rfl⟩ := returns_ofExcept_iff.mp hread
      by_cases hempty : refused.isEmpty = true
      · rw [if_pos hempty] at h
        obtain ⟨-, rfl⟩ := returns_pure_iff.mp h
        rw [List.isEmpty_iff.mp hempty] at hrefused
        exact ⟨rfl, hnone, hrefused⟩
      -- A report of refused values ends with the answer that they do not fit.
      · rw [if_neg hempty] at h
        obtain ⟨_, _, -, h⟩ := returns_bind_iff.mp h
        obtain ⟨_, _, -, h⟩ := returns_bind_iff.mp h
        cases (returns_pure_iff.mp h).1
    · rintro ⟨rfl, -, hrefused⟩
      exact ⟨[], t, returns_ofExcept_iff.mpr ⟨hrefused, rfl⟩, returns_pure_iff.mpr ⟨rfl, rfl⟩⟩
  · rw [if_pos (by simp [hnone])]
    constructor
    · intro h
      obtain ⟨_, _, -, h⟩ := returns_bind_iff.mp h
      cases (returns_pure_iff.mp h).1
    · rintro ⟨-, h, -⟩
      exact absurd h hnone

theorem returns_screenChecked_some_iff :
    Returns (screenChecked p i) s (some i') t ↔
      t = s ∧ i' = i ∧ (p.decl.needsText = true → ∃ text, i.text = some text ∧ text ≠ "") ∧
        p.reply i = .ok .accepted := by
  have htext : (p.decl.needsText = true → ∃ text, i.text = some text ∧ text ≠ "") ↔
      ¬ (p.decl.needsText && (i.text.getD "").isEmpty) = true := by
    cases i.text <;> cases p.decl.needsText <;> simp
  rw [htext]
  unfold screenChecked
  split
  · rename_i hneeds
    constructor
    · intro h
      obtain ⟨_, _, -, h⟩ := returns_bind_iff.mp h
      obtain ⟨_, _, -, h⟩ := returns_bind_iff.mp h
      cases (returns_pure_iff.mp h).1
    · rintro ⟨-, -, h, -⟩
      exact absurd hneeds h
  · rename_i hneeds
    rw [returns_bind_iff]
    constructor
    · rintro ⟨verdict, u, hreply, h⟩
      obtain ⟨hverdict, rfl⟩ := returns_ofExcept_iff.mp hreply
      -- A rejection is told and lets no invocation through.
      cases verdict with
      | accepted =>
        obtain ⟨hi, rfl⟩ := returns_pure_iff.mp h
        exact ⟨rfl, (Option.some.inj hi).symm, hneeds, hverdict⟩
      | rejected reason =>
        obtain ⟨_, _, -, h⟩ := returns_bind_iff.mp h
        obtain ⟨_, _, -, h⟩ := returns_bind_iff.mp h
        cases (returns_pure_iff.mp h).1
    · rintro ⟨rfl, rfl, -, hreply⟩
      exact ⟨.accepted, t, returns_ofExcept_iff.mpr ⟨hreply, rfl⟩, returns_pure_iff.mpr ⟨rfl, rfl⟩⟩

/-- The checks let through what is admissible and nothing else, and leave the session as it is where
they let a command through. -/
theorem returns_screen_some_iff (h : i.asksForHelp = false) :
    Returns (screen p i) s (some i') t ↔ t = s ∧ i' = p.deliver i ∧ Admissible p i' := by
  unfold screen
  constructor
  · intro hr
    -- A version, a pin and what does not fit each end the command, in this order.
    by_cases hversion : (wants i.args "v" || wants i.args "version") = true
    · rw [if_pos hversion] at hr
      obtain ⟨_, _, -, hr⟩ := returns_bind_iff.mp hr
      cases (returns_pure_iff.mp hr).1
    rw [if_neg hversion] at hr
    by_cases hpin : wants i.args "context" = true
    · rw [if_pos hpin] at hr
      obtain ⟨_, _, -, hr⟩ := returns_bind_iff.mp hr
      cases (returns_pure_iff.mp hr).1
    rw [if_neg hpin] at hr
    obtain ⟨fit, u, hfit, hrest⟩ := returns_bind_iff.mp hr
    cases fit with
    | false =>
      obtain ⟨_, _, -, hrest⟩ := returns_bind_iff.mp hrest
      cases (returns_pure_iff.mp hrest).1
    | true =>
      obtain ⟨rfl, hrequired, hchecked⟩ := returns_parametersFit_iff.mp hfit
      obtain ⟨rfl, rfl, htext, hreply⟩ := returns_screenChecked_some_iff.mp hrest
      rw [Bool.or_eq_true, not_or, Bool.not_eq_true, Bool.not_eq_true] at hversion
      -- A command that is `help` itself may carry the flags that ask for it.
      have hhelp : i.command.startsWith "help" = false →
          wants i.args "h" = false ∧ wants i.args "help" = false := by
        intro hcommand
        unfold Invocation.asksForHelp at h
        simpa [hversion, hcommand] using h
      have hpinned : wants i.args "context" = false := by simpa using hpin
      refine ⟨rfl, rfl, hversion, hhelp, hpinned, ?_, ?_, htext, hreply⟩
      · exact fun q hq hneeded => isSome_given?_iff.mp (hrequired q hq hneeded)
      · exact fun q hq => refused?_eq_none_iff.mp (hchecked q hq)
  · rintro ⟨rfl, rfl, hadmissible⟩
    have hversion : ¬ (wants i.args "v" || wants i.args "version") = true := by
      have hno : wants i.args "v" = false ∧ wants i.args "version" = false :=
        hadmissible.no_version
      simp [hno]
    have hpin : ¬ wants i.args "context" = true := by
      have hno : wants i.args "context" = false := hadmissible.no_pin
      simp [hno]
    rw [if_neg hversion, if_neg hpin]
    have hfit : Returns (parametersFit p.decl.parameters i.args) t true t := by
      refine returns_parametersFit_iff.mpr ⟨rfl, fun q hq hneeded => ?_, fun q hq => ?_⟩
      · exact isSome_given?_iff.mpr (hadmissible.required q hq hneeded)
      · exact refused?_eq_none_iff.mpr (hadmissible.accepted q hq)
    exact returns_bind_iff.mpr ⟨true, t, hfit,
      returns_screenChecked_some_iff.mpr ⟨rfl, rfl, hadmissible.text, hadmissible.reply⟩⟩

/-! ### Segments that get to a handler -/

/-- The segment, from the session `s`, gives the command `i` to the hooks and the handler of the
processor `p`, in the scope `c` and from the session `u`. -/
def Dispatches (s : Session) (text : String) (data : Value) (p : ShellProcessor) (i : Invocation)
    (c : Scope) (u : Session) : Prop :=
  ∃ given t, s.delivery? data maxExpansions text = some (p, given) ∧ given.asksForHelp = false ∧
    Returns (screen p given) s.started (some i) t ∧ Returns (openScope p) t c u

/-- What a segment gives to a handler, if it gets to one: the processor, the command, the scope and
the session. -/
def dispatch? (s : Session) (text : String) (data : Value) :
    Option (ShellProcessor × Invocation × Scope × Session) :=
  match s.delivery? data maxExpansions text with
  | none => none
  | some (p, given) =>
    if given.asksForHelp then none
    else
      match screen p given s.started with
      | (.ok (some i), t) =>
        match openScope p t with
        | (.ok c, u) => some (p, i, c, u)
        | _ => none
      | _ => none

variable {text : String} {data : Value} {p' : ShellProcessor} {c c' : Scope} {u u' : Session}

theorem dispatch?_eq_some_iff :
    dispatch? s text data = some (p, i, c, u) ↔ Dispatches s text data p i c u := by
  constructor
  · intro h
    unfold dispatch? at h
    split at h
    · cases h
    rename_i q given hd
    split at h
    · cases h
    rename_i hasks
    split at h
    · rename_i i' t hscreen
      split at h
      · rename_i c' u' hscope
        cases h
        exact ⟨given, t, hd, by simpa using hasks, hscreen, hscope⟩
      · cases h
    · cases h
  · rintro ⟨given, t, hd, hasks, hscreen, hscope⟩
    unfold dispatch?
    rw [hd]
    dsimp only
    rw [if_neg (by simp [hasks]), show screen p given s.started = _ from hscreen]
    dsimp only
    rw [show openScope p t = _ from hscope]

namespace Dispatches

/-- A segment that gets to a handler does what the handler and its hooks do, has their faults
settled, and finishes its record. -/
theorem runSegment_eq (h : Dispatches s text data p i c u) (rerun : String → Run Unit) :
    runSegment rerun text data s =
      ensuring (recover (handleBetweenHooks rerun c p i) settleFault) Session.finished u := by
  obtain ⟨given, t, hd, hasks, hscreen, hscope⟩ := h
  unfold runSegment
  rw [runSegmentWithin_of_delivery hd, ensuring_apply, ensuring_apply, reach_eq,
    if_neg (Bool.eq_false_iff.mp hasks), bind_apply, show screen p given s.started = _ from hscreen]
  dsimp only [dispatchScreened, dispatch]
  rw [bind_apply, show openScope p t = _ from hscope]

/-- What a handler gets is admissible, and what the segment stands for leads to its processor. -/
theorem admissible (h : Dispatches s text data p i c u) :
    ∃ given, s.delivery? data maxExpansions text = some (p, given) ∧ i = p.deliver given ∧
      Admissible p i ∧ Returns (openScope p) s.started c u := by
  obtain ⟨given, t, hd, hasks, hscreen, hscope⟩ := h
  obtain ⟨rfl, hi, hadmissible⟩ := (returns_screen_some_iff hasks).mp hscreen
  exact ⟨given, hd, hi, hadmissible, hscope⟩

/-- A segment gives one command to one handler, and starts it in one way. -/
theorem unique (h : Dispatches s text data p i c u) (h' : Dispatches s text data p' i' c' u') :
    p = p' ∧ i = i' ∧ c = c' ∧ u = u' := by
  have heq := (dispatch?_eq_some_iff.mpr h).symm.trans (dispatch?_eq_some_iff.mpr h')
  cases heq
  exact ⟨rfl, rfl, rfl, rfl⟩

end Dispatches

end Run

end CommandShell
