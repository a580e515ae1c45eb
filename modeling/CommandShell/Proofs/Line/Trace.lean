import CommandShell.Proofs.Chain.Trace
import CommandShell.Proofs.Line.Append
import CommandShell.Proofs.Line.Segment
import CommandShell.Shell.Start

/-!
# Traces of lines

A line runs as the chain of its parts, so its trace tells what it does.  Here it is said what the
steps of such a trace are: how a segment of a line ends, and what becomes of the process record.

## Main definitions

* `LineTrace rerun line s steps rest s'`: the moves of a line, and the parts that are left.
* `nested`: how the lines run that a line leads to.
* `failureReports`: what is reported for a segment that fails outside its handler.
* `ChainStep.recordAfter`, `lastRecord`: the process record after steps.
* `Session.offering`: a shell that has just started.

## Main results

* `returns_runLineWith_iff`, `stops_runLineWith_iff`: a line runs as its trace says.
* `returns_runReported_iff`, `stops_runReported_iff`: how a segment of a line ends.
* `chainTrace_process_eq`: only segments change the process record.
-/

namespace CommandShell

/-- The process record after a step, from the one before. -/
def ChainStep.recordAfter (p : ProcessRecord) : ChainStep → ProcessRecord
  | .ran _ _ _ record => record
  | _ => p

/-- The process record after some steps: that of the last segment that ran, or the one before. -/
def lastRecord (p : ProcessRecord) (steps : List ChainStep) : ProcessRecord :=
  steps.foldl ChainStep.recordAfter p

@[simp] theorem lastRecord_nil (p : ProcessRecord) : lastRecord p [] = p := rfl

@[simp] theorem lastRecord_cons (p : ProcessRecord) (st : ChainStep) (steps : List ChainStep) :
    lastRecord p (st :: steps) = lastRecord (st.recordAfter p) steps := rfl

@[simp] theorem lastRecord_append (p : ProcessRecord) (pre post : List ChainStep) :
    lastRecord p (pre ++ post) = lastRecord (lastRecord p pre) post :=
  List.foldl_append

/-- The record stays while no segment runs. -/
theorem lastRecord_of_ranSegments_eq_nil {p : ProcessRecord} {steps : List ChainStep}
    (h : ranSegments steps = []) : lastRecord p steps = p := by
  induction steps generalizing p with
  | nil => rfl
  | cons st steps ih =>
    cases st with
    | ran => cases h
    | _ => exact ih h

namespace Run

variable {rerun : String → Run Unit} {line text : String} {data : Value}
  {s s' t : Session} {ok : Bool} {e : Stop}

/-- The moves of a line from a session: its steps, the parts that are left and the session that it
leaves. -/
def LineTrace (rerun : String → Run Unit) (line : String) (s : Session) (steps : List ChainStep)
    (rest : List Part) (s' : Session) : Prop :=
  ChainTrace (chainRunner rerun) {} (splitLine line) s steps rest s'

/-- A chain moves alike where further lines run another way, if its segment returns the same. -/
theorem chainMove_of_segment {f g : String → Run Unit} {k : ChainState} {parts rest : List Part}
    {st : ChainStep}
    (hsegment : ∀ text o t, parts = .segment text :: rest → k.runNext = true →
      Returns (runReported f text k.input) s o t → Returns (runReported g text k.input) s o t)
    (h : ChainMove (chainRunner f) k parts s st rest s') :
    ChainMove (chainRunner g) k parts s st rest s' := by
  -- Only a segment may lead to further lines.
  cases h with
  | operator hop => exact .operator hop
  | ran hrun h => exact .ran hrun (hsegment _ _ _ rfl hrun h)
  | skipped hrun => exact .skipped hrun
  | appended hrun h => exact .appended hrun h
  | notAppended hrun => exact .notAppended hrun
  | operatorForPath h => exact .operatorForPath h
  | nothingForPath h => exact .nothingForPath h

/-! ### Lines -/

/-- A line returns whether it succeeded after all of its parts. -/
theorem returns_runLineWith_iff :
    Returns (runLineWith rerun line) s ok s' ↔
      ∃ steps, LineTrace rerun line s steps [] s' ∧
        ok = (ChainState.afterAll {} steps).succeeded := by
  unfold runLineWith
  rw [returns_bind_iff]
  constructor
  · rintro ⟨c, t, hc, hp⟩
    obtain ⟨rfl, rfl⟩ := returns_pure_iff.mp hp
    obtain ⟨steps, ht, rfl⟩ := returns_runChain_iff.mp hc
    exact ⟨steps, ht, rfl⟩
  · rintro ⟨steps, ht, rfl⟩
    exact ⟨_, s', ht.returns, returns_pure_iff.mpr ⟨rfl, rfl⟩⟩

/-- A line stops where its trace halts. -/
theorem stops_runLineWith_iff :
    Stops (runLineWith rerun line) s e s' ↔
      ∃ steps rest u, LineTrace rerun line s steps rest u ∧
        ChainHalt (chainRunner rerun) (ChainState.afterAll {} steps) rest u e s' := by
  unfold runLineWith
  rw [stops_bind_iff]
  constructor
  · rintro (h | ⟨c, t, -, h⟩)
    · exact stops_runChain_iff.mp h
    · exact absurd h not_stops_pure
  · intro h
    exact Or.inl (stops_runChain_iff.mpr h)

/-- A line that is run without looking at its result returns where its trace has taken all of its
parts. -/
theorem returns_discard_runLineWith_iff {u : Unit} :
    Returns (discard (runLineWith rerun line)) s u s' ↔
      ∃ steps, LineTrace rerun line s steps [] s' := by
  show Returns ((fun _ => ()) <$> runLineWith rerun line) s u s' ↔ _
  rw [returns_map_iff]
  constructor
  · rintro ⟨ok, h, -⟩
    obtain ⟨steps, ht, -⟩ := returns_runLineWith_iff.mp h
    exact ⟨steps, ht⟩
  · rintro ⟨steps, ht⟩
    exact ⟨_, returns_runLineWith_iff.mpr ⟨steps, ht, rfl⟩, rfl⟩

/-- How the lines run that a line leads to. -/
def nested (line : String) : Run Unit :=
  discard (runLineWithin (maxLineNesting - 1) line)

theorem runLine_eq (line : String) : runLine line = runLineWith nested line :=
  rfl

/-- A line that is run without looking at its result returns where the line does. -/
theorem returns_rerun_iff {u : Unit} :
    Returns (Run.rerun line) s u s' ↔ ∃ steps, LineTrace nested line s steps [] s' := by
  unfold Run.rerun
  rw [runLine_eq]
  exact returns_discard_runLineWith_iff

/-! ### Segments -/

/-- What is reported for a segment that fails outside its handler, the latest first. -/
def failureReports (text : String) (f : Fault) : List Event :=
  [.print (Style.error.mark
      ("Command " ++ escapeMarkup text ++ " failed: " ++ escapeMarkup f.message)),
    .log "executor" .error ("Segment failed: " ++ text)]

/-- A segment of a line ends as its record tells, or has failed outside its handler, which is
reported. -/
theorem returns_runReported_iff {o : SegmentOutcome} :
    Returns (runReported rerun text data) s o s' ↔
      (Returns (runSegment rerun text data) s () s' ∧
          o = ⟨s'.process.succeeded, some s'.process.payload⟩) ∨
        ∃ f t, Stops (runSegment rerun text data) s (.fault f) t ∧ o = ⟨false, none⟩ ∧
          s' = { t with journal := failureReports text f ++ t.journal } := by
  unfold runReported
  rw [returns_recover_iff]
  simp only [returns_bind_iff, stops_bind_iff, returns_get_iff, not_stops_get, not_stops_pure,
    returns_pure_iff, returns_log_iff, returns_say_iff, and_false, exists_false, or_false]
  constructor
  · rintro (⟨⟨⟩, t, h, p, t', ⟨rfl, rfl⟩, rfl, rfl⟩ | ⟨f, t, h, _, _, rfl, _, _, rfl, rfl, rfl⟩)
    · exact Or.inl ⟨h, rfl⟩
    · exact Or.inr ⟨f, t, h, rfl, rfl⟩
  · rintro (⟨h, rfl⟩ | ⟨f, t, h, rfl, rfl⟩)
    · exact Or.inl ⟨(), s', h, s', s', ⟨rfl, rfl⟩, rfl, rfl⟩
    · exact Or.inr ⟨f, t, h, (), _, rfl, (), _, rfl, rfl, rfl⟩

/-- A segment of a line stops the line only if it nests too deeply. -/
theorem stops_runReported_iff :
    Stops (runReported rerun text data) s e s' ↔
      e = .unfinished ∧ Stops (runSegment rerun text data) s .unfinished s' := by
  unfold runReported
  rw [stops_recover_iff]
  simp only [stops_bind_iff, returns_get_iff, not_stops_get, not_stops_pure, not_stops_log,
    not_stops_say, and_false, exists_false, or_false]

/-- A step of a line in which a segment runs: its outcome is what its record tells, or it has failed
outside its handler, and then it has done nothing that its record shows. -/
theorem ran_cases {c : ChainState} {parts rest : List Part} {input : Value} {o : SegmentOutcome}
    {record : ProcessRecord}
    (h : ChainMove (chainRunner rerun) c parts s (.ran text input o record) rest s') :
    o = ⟨record.succeeded, some record.payload⟩ ∨ o = ⟨false, none⟩ ∧ record = .idle := by
  cases h with
  | ran _ h =>
    rcases returns_runReported_iff.mp h with ⟨-, rfl⟩ | ⟨f, t, hs, rfl, rfl⟩
    · exact Or.inl rfl
    · have hidle : t.process = .idle := stops_runSegment_process hs
      exact Or.inr ⟨rfl, hidle⟩

/-! ### The process record -/

/-- Only segments change the process record. -/
theorem chainMove_process_eq {c : ChainState} {parts rest : List Part} {st : ChainStep}
    (h : ChainMove (chainRunner rerun) c parts s st rest s') :
    s'.process = st.recordAfter s.process := by
  cases h with
  | operator => rfl
  | ran => rfl
  | skipped => rfl
  | appended _ h =>
    obtain ⟨files, ⟨-, rfl⟩ | ⟨-, message, rfl⟩⟩ := returns_appendPayload h <;> rfl
  | notAppended => rfl
  | operatorForPath h =>
    obtain rfl := returns_say_iff.mp h
    rfl
  | nothingForPath h =>
    obtain rfl := returns_say_iff.mp h
    rfl

/-- The process record after a trace is that of the last segment that ran. -/
theorem chainTrace_process_eq {c : ChainState} {parts rest : List Part} {steps : List ChainStep}
    (h : ChainTrace (chainRunner rerun) c parts s steps rest s') :
    s'.process = lastRecord s.process steps := by
  induction h with
  | nil => rfl
  | cons hm _ ih => rw [ih, chainMove_process_eq hm, lastRecord_cons]

end Run

/-! ### Shells that have just started -/

/-- A processor that runs a script. -/
def Processor.scripted (name : String) (script : List Action) (parameters : List Parameter) :
    ShellProcessor where
  key := 0
  decl := { command := name, label := name, parameters := parameters, handler := .script script }
  children := []

/-- A shell that has just started with some processors, and keeps its state in memory. -/
def Session.offering (processors : List ShellProcessor) : Session :=
  (Run.openShell (Settings.default ["home"]) false processors
    { locations := { home := ["home"], working := [] } }).2

end CommandShell
