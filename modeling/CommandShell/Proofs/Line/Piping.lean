import CommandShell.Proofs.Line.Trace

/-!
# Piped payloads

A segment behind `|` is due the payload of the segment that ran last, unless `>>` has taken it
since; every other segment is due none.  What a chain hands on is what is due, with two exceptions.
Where the last segment failed outside its handler, the chain still holds the payload from before it;
and where `>>` takes a `|` for its path, the segment behind gets nothing.

## Main definitions

* `duePayload`, `dueInput`: the payload that is due after steps, and to a segment behind them.
* `Outdated`: the chain holds a payload from before a segment that failed.
* `Swallowed`: `>>` has taken the `|` in front of a segment that is due a payload.

## Main results

* `tracks_afterAll`: what a chain holds, compared with what is due.
* `input_eq_dueInput_iff`: a segment gets what it is due, but for the two exceptions.
* `piped_payload_iff`: the same for what commands get and for what is appended to files.
-/

namespace CommandShell

/-- The payload that is due after a step, from the one before: that of the segment that ran, and
none after `>>` was performed. -/
def dueAfter (due : Value) : ChainStep → Value
  | .ran _ _ _ record => record.payload
  | .appended _ _ _ => .null
  | _ => due

/-- The payload that is due after some steps. -/
def duePayload (steps : List ChainStep) : Value :=
  steps.foldl dueAfter .null

/-- What is due to a segment behind some steps. -/
def dueInput (steps : List ChainStep) : Value :=
  if (takenParts steps).getLast? = some (.operator .pipe) then duePayload steps else .null

/-- Whether, after a step, the last segment has left the payload from before it. -/
def heldAfter (held : Bool) : ChainStep → Bool
  | .ran _ _ outcome _ => outcome.payload.isNone
  | .appended _ _ _ => false
  | _ => held

/-- Whether the last of some steps to concern the payload is a segment that left the payload from
before it. -/
def holdsOver (steps : List ChainStep) : Bool :=
  steps.foldl heldAfter false

/-- The chain holds a payload from before a segment that failed outside its handler. -/
def Outdated (steps : List ChainStep) : Prop :=
  holdsOver steps = true ∧ (ChainState.afterAll {} steps).payload ≠ .null

/-- A payload is due, but the `|` in front of the next segment was taken for the path of `>>`. -/
def Swallowed (steps : List ChainStep) : Prop :=
  steps.getLast? = some (.pathMissing (some .pipe)) ∧ duePayload steps ≠ .null

/-! ### What a chain holds -/

/-- A chain holds the payload that is due, or one from before a segment that failed, and then none
is due. -/
def Tracks (c : ChainState) (due : Value) (held : Bool) : Prop :=
  if held then due = .null else c.payload = due

namespace Run

variable {rerun : String → Run Unit} {line text path : String} {s s' : Session} {c : ChainState}
  {parts rest : List Part} {st : ChainStep} {pre post steps : List ChainStep} {due : Value}
  {held : Bool}

/-- A step keeps track of the payload. -/
theorem tracks_after (h : ChainMove (chainRunner rerun) c parts s st rest s')
    (ht : Tracks c due held) : Tracks (c.after st) (dueAfter due st) (heldAfter held st) := by
  cases st with
  | operator op => cases op <;> exact ht
  | ran text input outcome record =>
    rcases ran_cases h with rfl | ⟨rfl, rfl⟩
    · exact rfl
    · exact rfl
  | skipped => exact ht
  | appended => exact rfl
  | notAppended => exact ht
  | pathMissing => exact ht

/-- The steps of a line keep track of the payload. -/
theorem tracks_afterAll (h : ChainTrace (chainRunner rerun) c parts s steps rest s')
    (ht : Tracks c due held) :
    Tracks (c.afterAll steps) (steps.foldl dueAfter due) (steps.foldl heldAfter held) := by
  induction h generalizing due held with
  | nil => exact ht
  | cons hm _ ih => exact ih (tracks_after hm ht)

/-- A chain holds what is due unless what it holds is outdated. -/
theorem payload_eq_duePayload_iff (h : LineTrace rerun line s steps rest s') :
    (ChainState.afterAll {} steps).payload = duePayload steps ↔ ¬ Outdated steps := by
  have hstart : Tracks {} .null false := rfl
  have ht : Tracks (ChainState.afterAll {} steps) (duePayload steps) (holdsOver steps) :=
    tracks_afterAll h hstart
  unfold Tracks at ht
  unfold Outdated
  cases hh : holdsOver steps with
  | false =>
    rw [hh, if_neg Bool.false_ne_true] at ht
    simp [ht]
  | true =>
    rw [hh, if_pos rfl] at ht
    simp [ht]

/-! ### What a segment gets -/

/-- The part in front of what comes next is a `|` if that was taken for an operator, or for the path
of `>>`. -/
theorem getLast?_takenParts_eq_pipe_iff (steps : List ChainStep) :
    (takenParts steps).getLast? = some (.operator .pipe) ↔
      steps.getLast? = some (.operator .pipe) ∨
        steps.getLast? = some (.pathMissing (some .pipe)) := by
  rcases List.eq_nil_or_concat steps with rfl | ⟨pre, st, rfl⟩
  · simp
  · rw [List.concat_eq_append, takenParts_append, List.getLast?_concat]
    rw [takenParts_cons, takenParts_nil, List.append_nil]
    cases st with
    | pathMissing next => cases next <;> simp [ChainStep.parts]
    | _ => simp [ChainStep.parts]

/-- A segment gets what it is due, unless that is outdated or its `|` was taken for a path. -/
theorem input_eq_dueInput_iff (h : LineTrace rerun line s steps rest s') :
    (ChainState.afterAll {} steps).input = dueInput steps ↔
      ¬ (steps.getLast? = some (.operator .pipe) ∧ Outdated steps) ∧ ¬ Swallowed steps := by
  have hpiped := ChainState.afterAll_piped steps
  have hdue := payload_eq_duePayload_iff h
  have hlast := getLast?_takenParts_eq_pipe_iff steps
  unfold ChainState.input dueInput Swallowed
  -- A `|` may stand in front as an operator, or as what was taken for a path, or not at all.
  by_cases hp : steps.getLast? = some (.operator .pipe)
  · rw [if_pos (hpiped.mpr hp), if_pos (hlast.mpr (Or.inl hp)), hdue]
    simp [hp]
  · rw [if_neg (fun hc => hp (hpiped.mp hc))]
    by_cases hs : steps.getLast? = some (.pathMissing (some .pipe))
    · rw [if_pos (hlast.mpr (Or.inr hs))]
      simp [hs, eq_comm]
    · rw [if_neg (fun hc => (hlast.mp hc).elim hp hs)]
      simp [hp, hs]

/-- What a line pipes: a segment gets what it is due, and so does the processor that it reaches, and
`>>` appends what is due, unless that is outdated or a `|` was taken for a path. -/
theorem piped_payload_iff (rerun : String → Run Unit) (line : String) (s : Session) :
    (∀ pre text input outcome record post rest s',
      LineTrace rerun line s (pre ++ .ran text input outcome record :: post) rest s' →
        (input = dueInput pre ↔
          ¬ (pre.getLast? = some (.operator .pipe) ∧ Outdated pre) ∧ ¬ Swallowed pre) ∧
        ∃ mid u, LineTrace rerun line s pre (.segment text :: mid) u ∧
          ∀ p i, u.delivery? input maxExpansions text = some (p, i) →
            i.data = input ∧ runSegment rerun text input u =
              ensuring (reach rerun p i) Session.finished u.started) ∧
    (∀ pre path payload done post rest s',
      LineTrace rerun line s (pre ++ .appended path payload done :: post) rest s' →
        (payload = duePayload pre ↔ ¬ Outdated pre)) := by
  constructor
  · intro pre text input outcome record post rest s' h
    obtain ⟨mid, u, hpre, hstep⟩ := ChainTrace.split h
    cases hstep with
    | cons hm _ =>
      cases hm with
      | ran _ _ =>
        refine ⟨input_eq_dueInput_iff hpre, _, u, hpre, ?_⟩
        intro p i hd
        exact ⟨delivery?_data hd, runSegmentWithin_of_delivery hd⟩
  · intro pre path payload done post rest s' h
    obtain ⟨mid, u, hpre, hstep⟩ := ChainTrace.split h
    cases hstep with
    | cons hm _ =>
      cases hm with
      | appended _ _ => exact payload_eq_duePayload_iff hpre

/-- A parameter whose values are never judged, because to judge them fails. -/
def unjudged : Parameter where
  name := "level"
  check := some (.fails (.badValue "no level"))

/-- A shell with a command that gives a payload, one whose check fails, and one that reports what it
gets. -/
def pipingShell : Session :=
  .offering [.scripted "produce" [.output (.text "payload")] [],
    .scripted "broken" [] [unjudged], .scripted "consume" [.record] []]

/-- The segment behind one that failed in a check gets the payload from before that. -/
theorem outdated_payload :
    ∃ pre input outcome record s',
      LineTrace (fun _ => pure ()) "produce | broken --level=1 | consume" pipingShell
        (pre ++ [.ran "consume" input outcome record]) [] s' ∧
      pre.getLast? = some (.operator .pipe) ∧ input = .text "payload" ∧ dueInput pre = .null := by
  let produce := runReported (fun _ => pure ()) "produce" .null
  let broken := runReported (fun _ => pure ()) "broken --level=1" (.text "payload")
  let consume := runReported (fun _ => pure ()) "consume" (.text "payload")
  let s₁ := (produce pipingShell).2
  let s₂ := (broken s₁).2
  -- Each segment is run from the session that the one before it leaves.
  obtain ⟨⟨ok₁, p₁⟩, h₁, hp₁⟩ := exists_returns_of_map produce pipingShell
    (fun o => o.payload.bind Value.text?) (some "payload") (by decide +kernel)
  obtain ⟨⟨ok₂, p₂⟩, h₂, hp₂⟩ := exists_returns_of_map broken s₁
    (fun o => o.payload.isNone) true (by decide +kernel)
  obtain ⟨o₃, h₃, -⟩ := exists_returns_of_map consume s₂ (fun _ => ()) () (by decide +kernel)
  obtain ⟨v, rfl, hv⟩ := Option.bind_eq_some_iff.mp hp₁
  cases v <;> cases hv
  obtain rfl := Option.isNone_iff_eq_none.mp hp₂
  have hline : splitLine "produce | broken --level=1 | consume" =
      [.segment "produce", .operator .pipe, .segment "broken --level=1", .operator .pipe,
        .segment "consume"] := by decide +kernel
  have hdue : s₂.process.payload = .null := by
    have : s₂.process.outputCalled = false := by decide +kernel
    simp [ProcessRecord.payload, this]
  refine ⟨[.ran "produce" .null ⟨ok₁, some (.text "payload")⟩ s₁.process, .operator .pipe,
    .ran "broken --level=1" (.text "payload") ⟨ok₂, none⟩ s₂.process, .operator .pipe],
    .text "payload", o₃, (consume s₂).2.process, (consume s₂).2, ?_, rfl, rfl, hdue⟩
  unfold LineTrace
  rw [hline]
  exact .cons (.ran rfl h₁) (.cons (.operator nofun) (.cons (.ran rfl h₂)
    (.cons (.operator nofun) (.cons (.ran rfl h₃) .nil))))

end Run

end CommandShell
