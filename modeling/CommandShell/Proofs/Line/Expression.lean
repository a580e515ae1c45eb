import CommandShell.Proofs.Line.Trace

/-!
# Lines as expressions

A line that alternates segments with `&&`, `||` and `|` is an expression whose operators associate
to the left.  To evaluate one is to evaluate its left side and then, if the operator admits the
status of it, to run the segment on the right.  The chain of a line, which goes through the parts
one after another, does what the evaluation does.

## Main definitions

* `Connective`: an operator that decides about the segment behind it.
* `ChainExpression`: a segment, or an expression with a connective and a segment behind it.
* `ChainExpression.evaluate`: evaluates an expression.
* `Alternates`: segments with connectives between them.

## Main results

* `alternates_iff`: such parts are those of an expression, which is unique by `parts_injective`.
* `evaluate_returns`, `evaluate_stops`: the moves of a chain follow the evaluation.
* `runLineWith_evaluates`: a line that alternates runs as the expression that it is.
-/

namespace CommandShell

/-- An operator that decides about the segment behind it. -/
inductive Connective where
  /-- The segment runs after success. -/
  | and
  /-- The segment runs after failure. -/
  | or
  /-- The segment runs, and takes the payload. -/
  | pipe
deriving DecidableEq, Repr

namespace Connective

/-- The operator that a connective is. -/
def operator : Connective → Operator
  | and => .and
  | or => .or
  | pipe => .pipe

/-- Whether the segment behind a connective runs after a status. -/
def admits : Connective → Bool → Bool
  | and, succeeded => succeeded
  | or, succeeded => !succeeded
  | pipe, _ => true

/-- What the segment behind a connective gets of a payload. -/
def input : Connective → Value → Value
  | pipe, payload => payload
  | _, _ => .null

theorem operator_injective {op op' : Connective} (h : op.operator = op'.operator) : op = op' := by
  cases op <;> cases op' <;> simp_all [operator]

theorem operator_ne_append (op : Connective) : op.operator ≠ .append := by
  cases op <;> nofun

end Connective

/-- A segment, or an expression with a connective and a segment behind it. -/
inductive ChainExpression where
  /-- A single segment. -/
  | segment (text : String)
  /-- A connective with an expression on its left and a segment on its right. -/
  | join (left : ChainExpression) (op : Connective) (text : String)
deriving DecidableEq, Repr

/-- What the evaluation of an expression leaves. -/
structure Evaluation where
  /-- The status. -/
  succeeded : Bool
  /-- The payload. -/
  payload : Value
  /-- The segments that ran, in order. -/
  ran : List String

/-- What a connective with a segment behind it makes of an evaluation: if the status is admitted the
segment runs, and its status and its payload count; otherwise everything stays. -/
def Evaluation.join (v : Evaluation) (r : ChainRunner Run) (op : Connective) (text : String) :
    Run Evaluation :=
  if op.admits v.succeeded then do
    let o ← r.segment text (op.input v.payload)
    return ⟨o.succeeded, o.payload.getD v.payload, v.ran ++ [text]⟩
  else return v

namespace ChainExpression

/-- The parts of an expression as it is written. -/
def parts : ChainExpression → List Part
  | segment text => [.segment text]
  | join left op text => left.parts ++ [.operator op.operator, .segment text]

/-- Evaluates an expression, the left side of a connective before its right side. -/
def evaluate (r : ChainRunner Run) : ChainExpression → Run Evaluation
  | segment text => do
    let o ← r.segment text .null
    return ⟨o.succeeded, o.payload.getD .null, [text]⟩
  | join left op text => do (← left.evaluate r).join r op text

/-- An expression is read off from its parts. -/
theorem parts_injective {e e' : ChainExpression} (h : e.parts = e'.parts) : e = e' := by
  induction e generalizing e' with
  | segment text =>
    cases e' with
    | segment text' =>
      cases h
      rfl
    | join left op text' =>
      -- A single segment is one part, and any other expression has at least three.
      have := congrArg List.length h
      simp [parts] at this
  | join left op text ih =>
    cases e' with
    | segment text' =>
      have := congrArg List.length h
      simp [parts] at this
    | join left' op' text' =>
      obtain ⟨hl, hr⟩ := List.append_inj' h rfl
      obtain ⟨hop, htext⟩ : op.operator = op'.operator ∧ text = text' := by simpa using hr
      rw [ih hl, Connective.operator_injective hop, htext]

end ChainExpression

/-- Segments with connectives between them: a segment, and any number of connectives with a segment
behind each. -/
inductive Alternates : List Part → Prop
  | segment (text : String) : Alternates [.segment text]
  | cons (text : String) (op : Connective) {rest : List Part} (h : Alternates rest) :
    Alternates (.segment text :: .operator op.operator :: rest)

namespace Alternates

/-- A connective and a segment may follow. -/
theorem snoc {parts : List Part} (h : Alternates parts) (op : Connective) (text : String) :
    Alternates (parts ++ [.operator op.operator, .segment text]) := by
  induction h with
  | segment first => exact .cons first op (.segment text)
  | cons first op' _ ih => exact .cons first op' ih

theorem of_expression (e : ChainExpression) : Alternates e.parts := by
  induction e with
  | segment text => exact .segment text
  | join left op text ih => exact ih.snoc op text

/-- Behind an expression and a connective, segments with connectives between them extend the
expression. -/
theorem extend {rest : List Part} (h : Alternates rest) (e : ChainExpression) (op : Connective) :
    ∃ e' : ChainExpression, e'.parts = e.parts ++ .operator op.operator :: rest := by
  induction h generalizing e op with
  | segment text => exact ⟨.join e op text, rfl⟩
  | cons text op' _ ih =>
    obtain ⟨e', he'⟩ := ih (.join e op text) op'
    exact ⟨e', by simp [he', ChainExpression.parts]⟩

end Alternates

/-- Segments with connectives between them are the parts of an expression. -/
theorem alternates_iff {parts : List Part} :
    Alternates parts ↔ ∃ e : ChainExpression, e.parts = parts := by
  constructor
  · intro h
    cases h with
    | segment text => exact ⟨.segment text, rfl⟩
    | cons text op h => exact h.extend (.segment text) op
  · rintro ⟨e, rfl⟩
    exact .of_expression e

/-! ### Chains follow the evaluation -/

section Evaluation

variable {r : ChainRunner Run} {e : ChainExpression} {v w : Evaluation} {c : ChainState}
  {op : Connective} {text : String} {s s' : Session} {err : Stop}

/-- What a chain knows after a connective. -/
theorem ChainState.afterOperator_connective (c : ChainState) (op : Connective) :
    (c.after (.operator op.operator)).runNext = op.admits c.succeeded ∧
      (c.after (.operator op.operator)).input = op.input c.payload ∧
      (c.after (.operator op.operator)).payload = c.payload ∧
      (c.after (.operator op.operator)).succeeded = c.succeeded := by
  cases op <;> exact ⟨rfl, rfl, rfl, rfl⟩

/-- A chain knows what an evaluation leaves; whether the next segment runs is left open, since the
operator in front of it decides that. -/
structure ChainState.Knows (c : ChainState) (v : Evaluation) : Prop where
  succeeded : c.succeeded = v.succeeded
  payload : c.payload = v.payload

/-- A chain that knows what an evaluation leaves moves through a connective and the segment behind
it as the evaluation goes on. -/
theorem join_returns (hc : c.Knows v) (h : Returns (v.join r op text) s w s') (rest : List Part) :
    ∃ steps, ChainTrace r c (.operator op.operator :: .segment text :: rest) s steps rest s' ∧
      v.ran ++ ranSegments steps = w.ran ∧ (c.afterAll steps).Knows w := by
  obtain ⟨hrun, hinput, hpayload, hsucceeded⟩ := c.afterOperator_connective op
  rw [hc.succeeded] at hrun hsucceeded
  rw [hc.payload] at hinput hpayload
  -- What the operator sets is what the evaluation asks, so both run the segment or neither does.
  unfold Evaluation.join at h
  cases hadm : op.admits v.succeeded with
  | true =>
    rw [hadm, if_pos rfl] at h
    obtain ⟨o, t, ho, hp⟩ := returns_bind_iff.mp h
    obtain ⟨rfl, rfl⟩ := returns_pure_iff.mp hp
    rw [← hinput] at ho
    refine ⟨_, .cons (.operator op.operator_ne_append) (.cons (.ran (hrun.trans hadm) ho) .nil),
      rfl, rfl, ?_⟩
    show o.payload.getD (c.after (.operator op.operator)).payload = o.payload.getD v.payload
    rw [hpayload]
  | false =>
    rw [hadm, if_neg Bool.false_ne_true] at h
    obtain ⟨rfl, rfl⟩ := returns_pure_iff.mp h
    exact ⟨_, .cons (.operator op.operator_ne_append) (.cons (.skipped (hrun.trans hadm)) .nil),
      List.append_nil _, hsucceeded, hpayload⟩

/-- Where the evaluation of the segment stops, so does the chain. -/
theorem join_stops (hc : c.Knows v) (h : Stops (v.join r op text) s err s') (rest : List Part) :
    ∃ steps, ChainTrace r c (.operator op.operator :: .segment text :: rest) s steps
        (.segment text :: rest) s ∧
      ChainHalt r (c.afterAll steps) (.segment text :: rest) s err s' := by
  obtain ⟨hrun, hinput, -, -⟩ := c.afterOperator_connective op
  rw [hc.succeeded] at hrun
  rw [hc.payload] at hinput
  unfold Evaluation.join at h
  cases hadm : op.admits v.succeeded with
  | true =>
    rw [hadm, if_pos rfl] at h
    rcases stops_bind_iff.mp h with ho | ⟨o, t, -, hp⟩
    · rw [← hinput] at ho
      exact ⟨_, .cons (.operator op.operator_ne_append) .nil, .segment (hrun.trans hadm) ho⟩
    · exact absurd hp not_stops_pure
  | false =>
    rw [hadm, if_neg Bool.false_ne_true] at h
    exact absurd h not_stops_pure

/-- Where an evaluation returns, the moves of a chain through its parts run the same segments, leave
the same session and know what the evaluation leaves. -/
theorem evaluate_returns (h : Returns (e.evaluate r) s v s') (rest : List Part) :
    ∃ steps, ChainTrace r {} (e.parts ++ rest) s steps rest s' ∧ ranSegments steps = v.ran ∧
      (ChainState.afterAll {} steps).Knows v := by
  -- The parts behind the left side are those of the right side, so `rest` is generalized.
  induction e generalizing v s' rest with
  | segment text =>
    obtain ⟨o, t, ho, hp⟩ := returns_bind_iff.mp h
    obtain ⟨rfl, rfl⟩ := returns_pure_iff.mp hp
    exact ⟨_, .cons (.ran rfl ho) .nil, rfl, rfl, rfl⟩
  | join left op text ih =>
    obtain ⟨w, t, hl, hr⟩ := returns_bind_iff.mp h
    obtain ⟨pre, hpre, hran, hk⟩ := ih hl (.operator op.operator :: .segment text :: rest)
    obtain ⟨post, hpost, hran', hk'⟩ := join_returns hk hr rest
    refine ⟨pre ++ post, ?_, ?_, ?_⟩
    · rw [ChainExpression.parts, List.append_assoc]
      exact hpre.append hpost
    · rw [ranSegments_append, hran, hran']
    · rw [ChainState.afterAll_append]
      exact hk'

/-- Where an evaluation stops, the chain through its parts halts. -/
theorem evaluate_stops (h : Stops (e.evaluate r) s err s') (rest : List Part) :
    ∃ steps mid u, ChainTrace r {} (e.parts ++ rest) s steps mid u ∧
      ChainHalt r (ChainState.afterAll {} steps) mid u err s' := by
  induction e generalizing s' rest with
  | segment text =>
    rcases stops_bind_iff.mp h with ho | ⟨o, t, -, hp⟩
    · exact ⟨[], _, s, .nil, .segment rfl ho⟩
    · exact absurd hp not_stops_pure
  | join left op text ih =>
    rw [ChainExpression.parts, List.append_assoc]
    -- Either the left side stops already, or it returns and the segment behind it stops.
    rcases stops_bind_iff.mp h with hl | ⟨w, t, hl, hr⟩
    · exact ih hl (.operator op.operator :: .segment text :: rest)
    · obtain ⟨pre, hpre, -, hk⟩ :=
        evaluate_returns hl (.operator op.operator :: .segment text :: rest)
      obtain ⟨post, hpost, hhalt⟩ := join_stops hk hr rest
      refine ⟨pre ++ post, _, t, hpre.append hpost, ?_⟩
      rw [ChainState.afterAll_append]
      exact hhalt

end Evaluation

/-! ## Lines follow the evaluation -/

namespace Run

/-- A line that alternates is one expression, and runs as the expression does: it runs the same
segments in the same order, leaves the same session, and has the same status in the end. -/
theorem runLineWith_evaluates (rerun : String → Run Unit) (line : String) (s : Session)
    (h : Alternates (splitLine line)) :
    ∃ e : ChainExpression, e.parts = splitLine line ∧
      (∀ ok s', Returns (runLineWith rerun line) s ok s' ↔
        ∃ v steps, Returns (e.evaluate (chainRunner rerun)) s v s' ∧
          LineTrace rerun line s steps [] s' ∧ ranSegments steps = v.ran ∧ ok = v.succeeded) ∧
      (∀ err s', Stops (runLineWith rerun line) s err s' ↔
        Stops (e.evaluate (chainRunner rerun)) s err s') := by
  obtain ⟨e, he⟩ := alternates_iff.mp h
  have hreturns : ∀ v s', Returns (e.evaluate (chainRunner rerun)) s v s' →
      ∃ steps, LineTrace rerun line s steps [] s' ∧ ranSegments steps = v.ran ∧
        (ChainState.afterAll {} steps).succeeded = v.succeeded := by
    intro v s' hv
    obtain ⟨steps, htrace, hran, hk⟩ := evaluate_returns hv []
    rw [List.append_nil, he] at htrace
    exact ⟨steps, htrace, hran, hk.succeeded⟩
  have hstops : ∀ err s', Stops (e.evaluate (chainRunner rerun)) s err s' →
      Stops (runLineWith rerun line) s err s' := by
    intro err s' hv
    obtain ⟨steps, mid, u, htrace, hhalt⟩ := evaluate_stops hv []
    rw [List.append_nil, he] at htrace
    exact stops_runLineWith_iff.mpr ⟨steps, mid, u, htrace, hhalt⟩
  -- The evaluation and the line both end in one way only, so that they end alike goes both ways.
  refine ⟨e, he, ?_, ?_⟩
  · intro ok s'
    constructor
    · intro hline
      rcases returns_or_stops (e.evaluate (chainRunner rerun)) s with
        ⟨v, t, hv⟩ | ⟨err, t, hv⟩
      · obtain ⟨steps, htrace, hran, hok⟩ := hreturns v t hv
        obtain ⟨rfl, rfl⟩ := hline.unique (returns_runLineWith_iff.mpr ⟨steps, htrace, rfl⟩)
        exact ⟨v, steps, hv, htrace, hran, hok⟩
      · exact absurd (hstops err t hv) hline.not_stops
    · rintro ⟨v, steps, hv, htrace, -, rfl⟩
      obtain ⟨steps', htrace', -, hok⟩ := hreturns v s' hv
      exact returns_runLineWith_iff.mpr ⟨steps', htrace', hok.symm⟩
  · intro err s'
    constructor
    · intro hline
      rcases returns_or_stops (e.evaluate (chainRunner rerun)) s with
        ⟨v, t, hv⟩ | ⟨err', t, hv⟩
      · obtain ⟨steps, htrace, -, -⟩ := hreturns v t hv
        exact absurd hline (returns_runLineWith_iff.mpr ⟨steps, htrace, rfl⟩).not_stops
      · obtain ⟨rfl, rfl⟩ := hline.unique (hstops err' t hv)
        exact hv
    · exact hstops err s'

/-- Behind a command that is not found `&&` runs nothing and `||` runs what is on its right. -/
theorem runLineWith_evaluates_unknown :
    ∃ (e : ChainExpression) (v : Evaluation) (s' : Session), e.parts = splitLine "a && b || c" ∧
      Returns (e.evaluate (chainRunner nested)) (.offering []) v s' ∧ v.ran = ["a", "c"] ∧
      Returns (runLineWith nested "a && b || c") (.offering []) v.succeeded s' := by
  have hline : splitLine "a && b || c" =
      [.segment "a", .operator .and, .segment "b", .operator .or, .segment "c"] := by
    decide +kernel
  have halternates : Alternates (splitLine "a && b || c") := by
    rw [hline]
    exact .cons "a" .and (.cons "b" .or (.segment "c"))
  obtain ⟨e, he, hreturns, -⟩ :=
    runLineWith_evaluates nested "a && b || c" (.offering []) halternates
  have hjoin : e = ((ChainExpression.segment "a").join .and "b").join .or "c" :=
    ChainExpression.parts_injective (he.trans hline)
  obtain ⟨ok, hok, -⟩ := exists_returns_of_map (runLineWith nested "a && b || c") (.offering [])
    (fun _ => ()) () (by decide +kernel)
  obtain ⟨v, -, hv, -, -, rfl⟩ := (hreturns ok _).mp hok
  obtain ⟨w, hw, hran⟩ := exists_returns_of_map
    ((((ChainExpression.segment "a").join .and "b").join .or "c").evaluate (chainRunner nested))
    (.offering []) (·.ran) ["a", "c"] (by decide +kernel)
  rw [← hjoin] at hw
  obtain ⟨rfl, -⟩ := hv.unique hw
  exact ⟨e, v, _, he, hv, hran, hok⟩

end Run

end CommandShell
