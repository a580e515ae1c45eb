import CommandShell.Proofs.Line.Expression
import CommandShell.Proofs.Line.Faults

/-!
# Failed redirects

A `>>` that fails is reported and counts as a failure, so the operator that is written next should
treat it like a failed segment.  It does, unless it stands directly behind `>>`.  There it is taken
for the path, which then is missing, and it decides nothing: the segment behind it runs just where a
segment would have run in the place of `>>`.

## Main definitions

* `ChainStep.failsAppend`: the steps in which a `>>` fails.
* `ChainStep.operatorTaken?`: the operator that a `>>` takes for its path.
* `ChainStep.partsBehind`: what is written behind a `>>` and its path.
* `ChainStep.RunsAfterFailure`: a segment runs as the operator in front of it says after a failure.

## Main results

* `done_eq_false_iff`: why a payload is not appended.
* `failed_append_obeys_iff`: the operator that is written next applies, but for that exception.
-/

namespace CommandShell

namespace ChainStep

/-- Whether a `>>` fails in a step: a payload is not appended, or there is no path. -/
def failsAppend : ChainStep → Bool
  | appended _ _ done => !done
  | pathMissing _ => true
  | _ => false

/-- The operator that a `>>` takes for its path. -/
def operatorTaken? : ChainStep → Option Operator
  | pathMissing next => next
  | _ => none

/-- What is written behind a `>>` and its path, where `rest` is what its step leaves. -/
def partsBehind (st : ChainStep) (rest : List Part) : List Part :=
  (st.operatorTaken?.map Part.operator).toList ++ rest

/-- The step of a segment runs it just where the operator in front of it says so after a failure. -/
def RunsAfterFailure (next : ChainStep) (op : Connective) : Prop :=
  next.segment?.isSome = op.admits false

theorem faulted_of_failsAppend {st : ChainStep} (h : st.failsAppend = true) :
    st.faulted = true := by
  cases st with
  | appended => exact h
  | pathMissing => rfl
  | _ => cases h

end ChainStep

section Traces

variable {r : ChainRunner Run} {c : ChainState} {parts rest rest' : List Part} {s t t' : Session}
  {st : ChainStep} {steps : List ChainStep} {text : String}

/-- What a trace leaves is what its steps have not taken. -/
theorem ChainTrace.rest_unique (h : ChainTrace r c parts s steps rest t)
    (h' : ChainTrace r c parts s steps rest' t') : rest = rest' := by
  have hparts : takenParts steps ++ rest = takenParts steps ++ rest' :=
    h.parts_eq.symm.trans h'.parts_eq
  exact List.append_cancel_left hparts

theorem ChainMove.isSome_segment?_eq
    (h : ChainMove r c (.segment text :: rest) s st rest' t) :
    st.segment?.isSome = c.runNext := by
  cases h with
  | ran hrun _ => rw [hrun]; rfl
  | skipped hrun => rw [hrun]; rfl

end Traces

namespace Run

variable {rerun : String → Run Unit} {line path text : String} {payload : Value}
  {s u : Session} {rest more : List Part} {pre between : List ChainStep} {st next : ChainStep}
  {op : Connective}

/-- A payload is not appended just where there are no files, or where it is present and the
operating system refuses it. -/
theorem done_eq_false_iff {done : Bool} (h : Returns (appendPayload path payload) s done u) :
    done = false ↔ s.appendRoot? = none ∨
      ∃ root f t, s.appendRoot? = some root ∧ payload.isNull = false ∧ f.isSystem = true ∧
        Stops (appendToFile root path payload) s (.fault f) t := by
  cases hroot : s.appendRoot? with
  | none =>
    obtain ⟨rfl, -⟩ := h.unique (appendPayload_of_no_root path payload hroot)
    simp
  | some root =>
    cases hnull : payload.isNull with
    | true =>
      obtain ⟨rfl, -⟩ := h.unique (appendPayload_of_null path hroot hnull)
      simp
    | false =>
      -- Writing returns or is refused, and each of the two rules out the other.
      rcases (returns_appendPayload_of_present hroot hnull).mp h with
        ⟨rfl, hr⟩ | ⟨f, t, hs, hsys, rfl, -⟩
      · constructor
        · intro hd
          cases hd
        · rintro (hn | ⟨root', f, t, hr', -, -, hs⟩)
          · cases hn
          · cases hr'
            exact absurd hs hr.not_stops
      · constructor
        · intro _
          exact Or.inr ⟨root, f, t, rfl, rfl, hsys, hs⟩
        · intro _
          rfl

/-- Behind a failed `>>` the line comes to the segment behind the operator that is written next; it
has passed this operator, unless `>>` has taken it. -/
theorem exists_between (h : LineTrace rerun line s (pre ++ [st]) rest u)
    (hbehind : st.partsBehind rest = .operator op.operator :: .segment text :: more) :
    ∃ between, LineTrace rerun line s (pre ++ st :: between) (.segment text :: more) u ∧
      ((st.operatorTaken? = none ∧ between = [.operator op.operator]) ∨
        (st.operatorTaken? = some op.operator ∧ between = [])) := by
  cases ht : st.operatorTaken? with
  | none =>
    rw [ChainStep.partsBehind, ht] at hbehind
    obtain rfl : rest = .operator op.operator :: .segment text :: more := hbehind
    refine ⟨[.operator op.operator], ?_, Or.inl ⟨rfl, rfl⟩⟩
    have hnext := ChainTrace.snoc h (.operator op.operator_ne_append)
    rwa [List.append_assoc] at hnext
  | some op' =>
    rw [ChainStep.partsBehind, ht] at hbehind
    obtain ⟨hop, hrest⟩ := List.cons.inj hbehind
    obtain rfl : op' = op.operator := Part.operator.inj hop
    obtain rfl : rest = .segment text :: more := hrest
    exact ⟨[], h, Or.inr ⟨rfl, rfl⟩⟩

/-- Behind a failed `>>` the operator that is written next decides about its segment after a
failure.  If `>>` has taken the operator, what was decided in front of `>>` still stands. -/
theorem runNext_behind (hfail : st.failsAppend = true)
    (hsucceeded : (ChainState.afterAll {} (pre ++ [st])).succeeded = false)
    (hb : (st.operatorTaken? = none ∧ between = [.operator op.operator]) ∨
      (st.operatorTaken? = some op.operator ∧ between = [])) :
    (ChainState.afterAll {} (pre ++ st :: between)).runNext =
      if st.operatorTaken? = none then op.admits false
      else (ChainState.afterAll {} pre).runNext := by
  rcases hb with ⟨htaken, rfl⟩ | ⟨htaken, rfl⟩
  · rw [if_pos htaken, List.append_cons, ChainState.afterAll_append]
    have hrun := (ChainState.afterOperator_connective
      (ChainState.afterAll {} (pre ++ [st])) op).1
    rwa [hsucceeded] at hrun
  · rw [if_neg (by simp [htaken]), ChainState.afterAll_append]
    cases st with
    | pathMissing => rfl
    | _ => cases htaken

/-- What follows a failed `>>`.  It is reported, it counts as a failure, and the line comes to the
segment behind the operator that is written next.  The segment runs as this operator says after a
failure, unless `>>` has taken the operator for its path and what was decided in front of `>>` is
something else.  A `>>` with a path fails just where there are no files or the operating system
refuses the payload. -/
theorem failed_append_obeys_iff (rerun : String → Run Unit) (line : String) (s : Session) :
    (∀ pre st rest u, LineTrace rerun line s (pre ++ [st]) rest u → st.failsAppend = true →
      (ChainState.afterAll {} (pre ++ [st])).succeeded = false ∧
      (∃ message, u.journal.head? = some (.print (Style.error.mark message))) ∧
      ∀ op text more, st.partsBehind rest = .operator op.operator :: .segment text :: more →
        ∃ between, LineTrace rerun line s (pre ++ st :: between) (.segment text :: more) u ∧
          ∀ next rest' t, LineTrace rerun line s (pre ++ st :: between ++ [next]) rest' t →
            (next.RunsAfterFailure op ↔ st.operatorTaken? = none ∨
              (ChainState.afterAll {} pre).runNext = op.admits false)) ∧
    (∀ pre path payload done rest u,
      LineTrace rerun line s (pre ++ [.appended path payload done]) rest u →
      ∃ v, LineTrace rerun line s pre (.operator .append :: .segment path :: rest) v ∧
        (done = false ↔ v.appendRoot? = none ∨
          ∃ root f t, v.appendRoot? = some root ∧ payload.isNull = false ∧ f.isSystem = true ∧
            Stops (appendToFile root path payload) v (.fault f) t)) := by
  constructor
  · intro pre st rest u h hfail
    obtain ⟨mid, v, -, hm⟩ := ChainTrace.last_move h
    obtain ⟨hsucceeded, hreport⟩ := chainMove_reports hm (st.faulted_of_failsAppend hfail)
    have hsucc : (ChainState.afterAll {} (pre ++ [st])).succeeded = false := by
      rw [ChainState.afterAll_append]
      exact hsucceeded
    refine ⟨hsucc, hreport, ?_⟩
    intro op text more hbehind
    obtain ⟨between, hto, hb⟩ := exists_between h hbehind
    refine ⟨between, hto, ?_⟩
    intro next rest' t hnext
    -- The step of the segment is taken from where the trace has come to it.
    obtain ⟨mid', v', hto', hmove⟩ := ChainTrace.last_move hnext
    obtain rfl := hto.rest_unique hto'
    rw [ChainStep.RunsAfterFailure, hmove.isSome_segment?_eq, runNext_behind hfail hsucc hb]
    by_cases htaken : st.operatorTaken? = none
    · simp [htaken]
    · simp [htaken]
  · intro pre path payload done rest u h
    obtain ⟨mid, v, hpre, hm⟩ := ChainTrace.last_move h
    cases hm with
    | appended _ happ => exact ⟨v, hpre, done_eq_false_iff happ⟩

/-- A segment behind `&&` runs although the `>>` in front of `&&` has failed. -/
theorem taken_and_runs :
    ∃ pre next s', LineTrace nested "ok >> && next"
        (.offering [.scripted "ok" [.record] [], .scripted "next" [.record] []])
        (pre ++ [.pathMissing (some .and), next]) [] s' ∧
      (ChainState.afterAll {} (pre ++ [.pathMissing (some .and)])).succeeded = false ∧
      next.segment? = some "next" := by
  let shell : Session := .offering [.scripted "ok" [.record] [], .scripted "next" [.record] []]
  let ok := runReported nested "ok" .null
  let next := runReported nested "next" .null
  let s₁ := (ok shell).2
  let s₂ := s₁.reporting "Missing file path after >>"
  -- Each segment is run from the session that the step before it leaves.
  obtain ⟨o₁, h₁, -⟩ := exists_returns_of_map ok shell (fun _ => ()) () (by decide +kernel)
  obtain ⟨o₂, h₂, -⟩ := exists_returns_of_map next s₂ (fun _ => ()) () (by decide +kernel)
  have hline : splitLine "ok >> && next" =
      [.segment "ok", .operator .append, .operator .and, .segment "next"] := by decide +kernel
  have hpath : Returns (chainRunner nested).missingPath s₁ () s₂ := returns_say_iff.mpr rfl
  refine ⟨[.ran "ok" .null o₁ s₁.process], .ran "next" .null o₂ (next s₂).2.process,
    (next s₂).2, ?_, rfl, rfl⟩
  unfold LineTrace
  rw [hline]
  exact .cons (.ran rfl h₁) (.cons (.operatorForPath hpath) (.cons (.ran rfl h₂) .nil))

end Run

end CommandShell
