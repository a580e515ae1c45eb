import CommandShell.Proofs.Ending
import CommandShell.Shell.Chain

/-!
# Traces of chains

A chain over a session moves through the parts of its line: each move takes one part, or `>>` with
the part behind it, and is kept as a step.  The trace of a chain is the list of its steps.  It
determines what the chain knows, it exists also where the chain stops early, and there is only one.

## Main definitions

* `ChainStep`: what a chain does in one move.
* `ChainState.after`, `ChainState.afterAll`: what is known after steps.
* `ChainMove`: one move of a chain.
* `ChainHalt`: a part at which a chain stops early.
* `ChainTrace`: the moves of a chain one after another.

## Main results

* `returns_runChain_iff`: a chain returns what is known after a trace that takes all parts.
* `stops_runChain_iff`: a chain stops where its trace halts.
* `ChainTrace.unique`: two traces that take all parts are equal.
-/

namespace CommandShell

/-- What a chain does with a part of a line, or with `>>` and the part behind it. -/
inductive ChainStep where
  /-- An operator between segments decides about the next one. -/
  | operator (op : Operator)
  /-- A segment runs with a payload that is piped in, ends, and leaves a process record. -/
  | ran (text : String) (input : Value) (outcome : SegmentOutcome) (record : ProcessRecord)
  /-- A segment is left out. -/
  | skipped (text : String)
  /-- A payload is appended to the file at a path, or fails to be. -/
  | appended (path : String) (payload : Value) (done : Bool)
  /-- Nothing is appended, because a segment would be left out here. -/
  | notAppended (path : String)
  /-- What stands behind `>>`, if anything does, is no path. -/
  | pathMissing (next : Option Operator)

namespace ChainStep

/-- The parts of a line that a step takes. -/
def parts : ChainStep → List Part
  | operator op => [.operator op]
  | ran text _ _ _ => [.segment text]
  | skipped text => [.segment text]
  | appended path _ _ => [.operator .append, .segment path]
  | notAppended path => [.operator .append, .segment path]
  | pathMissing next => .operator .append :: (next.map Part.operator).toList

/-- The segment that runs in a step, if one does. -/
def segment? : ChainStep → Option String
  | ran text _ _ _ => some text
  | _ => none

end ChainStep

/-- The parts of a line that some steps take. -/
def takenParts (steps : List ChainStep) : List Part :=
  steps.flatMap ChainStep.parts

/-- The segments that run in some steps, in order. -/
def ranSegments (steps : List ChainStep) : List String :=
  steps.filterMap ChainStep.segment?

@[simp] theorem takenParts_nil : takenParts [] = [] := rfl

@[simp] theorem takenParts_cons (st : ChainStep) (steps : List ChainStep) :
    takenParts (st :: steps) = st.parts ++ takenParts steps := rfl

@[simp] theorem takenParts_append (pre post : List ChainStep) :
    takenParts (pre ++ post) = takenParts pre ++ takenParts post := by
  simp [takenParts]

@[simp] theorem ranSegments_append (pre post : List ChainStep) :
    ranSegments (pre ++ post) = ranSegments pre ++ ranSegments post := by
  simp [ranSegments]

namespace ChainState

/-- What is known after a step. -/
def after (c : ChainState) : ChainStep → ChainState
  | .operator op => c.afterOperator op
  | .ran _ _ outcome _ => c.afterSegment outcome
  | .skipped _ => c.afterSkipped
  | .appended _ _ done => c.afterAppend done
  | .notAppended _ => c.afterSkipped
  | .pathMissing _ => c.afterMissingPath

/-- What is known after some steps. -/
def afterAll (c : ChainState) (steps : List ChainStep) : ChainState :=
  steps.foldl after c

@[simp] theorem afterAll_nil (c : ChainState) : c.afterAll [] = c := rfl

@[simp] theorem afterAll_cons (c : ChainState) (st : ChainStep) (steps : List ChainStep) :
    c.afterAll (st :: steps) = (c.after st).afterAll steps := rfl

@[simp] theorem afterAll_append (c : ChainState) (pre post : List ChainStep) :
    c.afterAll (pre ++ post) = (c.afterAll pre).afterAll post :=
  List.foldl_append

/-- Only `|` makes a chain pipe. -/
theorem after_piped (c : ChainState) (st : ChainStep) :
    (c.after st).piped = true ↔ st = .operator .pipe := by
  cases st with
  | operator op => cases op <;> simp [after, afterOperator]
  | ran => simp [after, afterSegment]
  | skipped => simp [after, afterSkipped]
  | appended => simp [after, afterAppend]
  | notAppended => simp [after, afterSkipped]
  | pathMissing => simp [after, afterMissingPath]

/-- A chain pipes just behind `|`. -/
theorem afterAll_piped (steps : List ChainStep) :
    (afterAll {} steps).piped = true ↔ steps.getLast? = some (.operator .pipe) := by
  -- Whatever stands in front of the last step, that one alone decides.
  rcases List.eq_nil_or_concat steps with rfl | ⟨pre, st, rfl⟩
  · simp
  · rw [List.concat_eq_append, afterAll_append, List.getLast?_concat]
    simp only [afterAll_cons, afterAll_nil, Option.some.injEq]
    exact after_piped _ st

end ChainState

section Traces

variable (r : ChainRunner Run)

/-- One move of a chain that knows `c`: it takes the first parts of a line in a step, and leaves
the other parts and a session. -/
inductive ChainMove (c : ChainState) :
    List Part → Session → ChainStep → List Part → Session → Prop
  | operator {op rest s} (hop : op ≠ .append) :
      ChainMove c (.operator op :: rest) s (.operator op) rest s
  | ran {text rest s outcome s'} (hrun : c.runNext = true)
      (h : Returns (r.segment text c.input) s outcome s') :
      ChainMove c (.segment text :: rest) s (.ran text c.input outcome s'.process) rest s'
  | skipped {text rest s} (hrun : c.runNext = false) :
      ChainMove c (.segment text :: rest) s (.skipped text) rest s
  | appended {path rest s done s'} (hrun : c.runNext = true)
      (h : Returns (r.append path c.payload) s done s') :
      ChainMove c (.operator .append :: .segment path :: rest) s
        (.appended path c.payload done) rest s'
  | notAppended {path rest s} (hrun : c.runNext = false) :
      ChainMove c (.operator .append :: .segment path :: rest) s (.notAppended path) rest s
  | operatorForPath {op rest s s'} (h : Returns r.missingPath s () s') :
      ChainMove c (.operator .append :: .operator op :: rest) s (.pathMissing (some op)) rest s'
  | nothingForPath {s s'} (h : Returns r.missingPath s () s') :
      ChainMove c [.operator .append] s (.pathMissing none) [] s'

/-- A chain that knows `c` stops at the first parts of a line, and leaves a session. -/
inductive ChainHalt (c : ChainState) : List Part → Session → Stop → Session → Prop
  | segment {text rest s e s'} (hrun : c.runNext = true)
      (h : Stops (r.segment text c.input) s e s') : ChainHalt c (.segment text :: rest) s e s'
  | append {path rest s e s'} (hrun : c.runNext = true)
      (h : Stops (r.append path c.payload) s e s') :
      ChainHalt c (.operator .append :: .segment path :: rest) s e s'
  | operatorForPath {op rest s e s'} (h : Stops r.missingPath s e s') :
      ChainHalt c (.operator .append :: .operator op :: rest) s e s'
  | nothingForPath {s e s'} (h : Stops r.missingPath s e s') :
      ChainHalt c [.operator .append] s e s'

/-- The moves of a chain one after another: from what is known, the parts of a line and a session it
takes some steps to the parts and the session that are left. -/
inductive ChainTrace :
    ChainState → List Part → Session → List ChainStep → List Part → Session → Prop
  | nil {c parts s} : ChainTrace c parts s [] parts s
  | cons {c parts s st mid t steps rest s'} (h : ChainMove r c parts s st mid t)
      (htail : ChainTrace (c.after st) mid t steps rest s') :
      ChainTrace c parts s (st :: steps) rest s'

variable {r} {c : ChainState} {parts rest rest' : List Part} {s t t' : Session}
  {st st' : ChainStep} {steps steps' : List ChainStep} {e : Stop}

/-! ### Moves -/

/-- A move takes the parts of its step. -/
theorem ChainMove.parts_eq (h : ChainMove r c parts s st rest t) : parts = st.parts ++ rest := by
  cases h <;> rfl

/-- A move leaves fewer parts. -/
theorem ChainMove.length_lt (h : ChainMove r c parts s st rest t) : rest.length < parts.length := by
  cases h <;> simp only [List.length_cons, List.length_nil] <;> omega

/-- The chain goes on from where a move leads. -/
theorem ChainMove.runChain_eq (h : ChainMove r c parts s st rest t) :
    runChain r c parts s = runChain r (c.after st) rest t := by
  cases h with
  | @operator op _ _ hop =>
    cases op with
    | and => rfl
    | or => rfl
    | pipe => rfl
    | append => exact absurd rfl hop
  | ran hrun h =>
    rw [runChain, if_pos hrun, bind_apply, h]
    rfl
  | skipped hrun =>
    rw [runChain, if_neg (by simp [hrun])]
    rfl
  | appended hrun h =>
    rw [runChain, if_pos hrun, bind_apply, h]
    rfl
  | notAppended hrun =>
    rw [runChain, if_neg (by simp [hrun])]
    rfl
  | operatorForPath h =>
    rw [runChain, bind_apply, h]
    rfl
  | nothingForPath h =>
    -- Here the chain returns at once, as a chain without parts does.
    show (r.missingPath >>= fun _ => pure c.afterMissingPath) s = _
    rw [bind_apply, h]
    rfl

/-- There is at most one move. -/
theorem ChainMove.unique (h : ChainMove r c parts s st rest t)
    (h' : ChainMove r c parts s st' rest' t') : st = st' ∧ rest = rest' ∧ t = t' := by
  -- The first parts, and whether segments run, leave one rule only.
  cases h with
  | operator hop =>
    cases h' with
    | operator => exact ⟨rfl, rfl, rfl⟩
    | appended => exact absurd rfl hop
    | notAppended => exact absurd rfl hop
    | operatorForPath => exact absurd rfl hop
    | nothingForPath => exact absurd rfl hop
  | ran hrun h =>
    cases h' with
    | ran hrun' h' =>
      obtain ⟨rfl, rfl⟩ := h.unique h'
      exact ⟨rfl, rfl, rfl⟩
    | skipped hrun' => rw [hrun] at hrun'; cases hrun'
  | skipped hrun =>
    cases h' with
    | ran hrun' h' => rw [hrun] at hrun'; cases hrun'
    | skipped hrun' => exact ⟨rfl, rfl, rfl⟩
  | appended hrun h =>
    cases h' with
    | operator hop => exact absurd rfl hop
    | appended hrun' h' =>
      obtain ⟨rfl, rfl⟩ := h.unique h'
      exact ⟨rfl, rfl, rfl⟩
    | notAppended hrun' => rw [hrun] at hrun'; cases hrun'
  | notAppended hrun =>
    cases h' with
    | operator hop => exact absurd rfl hop
    | appended hrun' h' => rw [hrun] at hrun'; cases hrun'
    | notAppended hrun' => exact ⟨rfl, rfl, rfl⟩
  | operatorForPath h =>
    cases h' with
    | operator hop => exact absurd rfl hop
    | operatorForPath h' =>
      obtain ⟨-, rfl⟩ := h.unique h'
      exact ⟨rfl, rfl, rfl⟩
  | nothingForPath h =>
    cases h' with
    | operator hop => exact absurd rfl hop
    | nothingForPath h' =>
      obtain ⟨-, rfl⟩ := h.unique h'
      exact ⟨rfl, rfl, rfl⟩

/-- At a part where it halts the chain stops. -/
theorem ChainHalt.stops (h : ChainHalt r c parts s e t) : Stops (runChain r c parts) s e t := by
  cases h with
  | segment hrun h =>
    rw [runChain, if_pos hrun]
    exact stops_bind_iff.mpr (Or.inl h)
  | append hrun h =>
    rw [runChain, if_pos hrun]
    exact stops_bind_iff.mpr (Or.inl h)
  | operatorForPath h =>
    rw [runChain]
    exact stops_bind_iff.mpr (Or.inl h)
  | nothingForPath h =>
    rw [runChain]
    exact stops_bind_iff.mpr (Or.inl h)

/-- As long as there are parts, a chain moves or halts. -/
theorem exists_move_or_halt (c : ChainState) (p : Part) (rest : List Part) (s : Session) :
    (∃ st mid t, ChainMove r c (p :: rest) s st mid t) ∨
      ∃ e t, ChainHalt r c (p :: rest) s e t := by
  -- Every move that runs something has a halt beside it, for where that stops.
  cases p with
  | segment text =>
    cases hrun : c.runNext with
    | false => exact Or.inl ⟨_, _, _, .skipped hrun⟩
    | true =>
      rcases returns_or_stops (r.segment text c.input) s with ⟨o, t, h⟩ | ⟨e, t, h⟩
      · exact Or.inl ⟨_, _, _, .ran hrun h⟩
      · exact Or.inr ⟨_, _, .segment hrun h⟩
  | operator op =>
    by_cases hop : op = .append
    · subst hop
      match rest with
      | [] =>
        rcases returns_or_stops r.missingPath s with ⟨⟨⟩, t, h⟩ | ⟨e, t, h⟩
        · exact Or.inl ⟨_, _, _, .nothingForPath h⟩
        · exact Or.inr ⟨_, _, .nothingForPath h⟩
      | .operator op' :: rest =>
        rcases returns_or_stops r.missingPath s with ⟨⟨⟩, t, h⟩ | ⟨e, t, h⟩
        · exact Or.inl ⟨_, _, _, .operatorForPath h⟩
        · exact Or.inr ⟨_, _, .operatorForPath h⟩
      | .segment path :: rest =>
        cases hrun : c.runNext with
        | false => exact Or.inl ⟨_, _, _, .notAppended hrun⟩
        | true =>
          rcases returns_or_stops (r.append path c.payload) s with ⟨o, t, h⟩ | ⟨e, t, h⟩
          · exact Or.inl ⟨_, _, _, .appended hrun h⟩
          · exact Or.inr ⟨_, _, .append hrun h⟩
    · exact Or.inl ⟨_, _, _, .operator hop⟩

/-! ### Traces -/

/-- The steps of a trace and the parts that are left make up the line. -/
theorem ChainTrace.parts_eq (h : ChainTrace r c parts s steps rest t) :
    parts = takenParts steps ++ rest := by
  induction h with
  | nil => rfl
  | cons hm _ ih => rw [hm.parts_eq, ih, takenParts_cons, List.append_assoc]

/-- The chain goes on from where a trace leads. -/
theorem ChainTrace.runChain_eq (h : ChainTrace r c parts s steps rest t) :
    runChain r c parts s = runChain r (c.afterAll steps) rest t := by
  induction h with
  | nil => rfl
  | cons hm _ ih => rw [hm.runChain_eq, ih, ChainState.afterAll_cons]

/-- Traces compose. -/
theorem ChainTrace.append (h : ChainTrace r c parts s steps rest t)
    (h' : ChainTrace r (c.afterAll steps) rest t steps' rest' t') :
    ChainTrace r c parts s (steps ++ steps') rest' t' := by
  induction h with
  | nil => exact h'
  | cons hm _ ih => exact .cons hm (ih h')

/-- A trace is extended by a move. -/
theorem ChainTrace.snoc (h : ChainTrace r c parts s steps rest t)
    (hm : ChainMove r (c.afterAll steps) rest t st rest' t') :
    ChainTrace r c parts s (steps ++ [st]) rest' t' :=
  h.append (.cons hm .nil)

/-- A trace splits wherever its steps split. -/
theorem ChainTrace.split {pre post : List ChainStep}
    (h : ChainTrace r c parts s (pre ++ post) rest t) :
    ∃ mid u, ChainTrace r c parts s pre mid u ∧
      ChainTrace r (c.afterAll pre) mid u post rest t := by
  induction pre generalizing c parts s with
  | nil => exact ⟨_, _, .nil, h⟩
  | cons st pre ih =>
    cases h with
    | cons hm htail =>
      obtain ⟨mid, u, h₁, h₂⟩ := ih htail
      exact ⟨mid, u, .cons hm h₁, h₂⟩

/-- The last step of a trace is a move from where the others lead. -/
theorem ChainTrace.last_move {pre : List ChainStep}
    (h : ChainTrace r c parts s (pre ++ [st]) rest t) :
    ∃ mid u, ChainTrace r c parts s pre mid u ∧
      ChainMove r (c.afterAll pre) mid u st rest t := by
  obtain ⟨mid, u, h₁, h₂⟩ := h.split
  cases h₂ with
  | cons hm htail =>
    cases htail with
    | nil => exact ⟨mid, u, h₁, hm⟩

/-- Two traces that take all parts are equal. -/
theorem ChainTrace.unique (h : ChainTrace r c parts s steps [] t)
    (h' : ChainTrace r c parts s steps' [] t') : steps = steps' ∧ t = t' := by
  generalize hrest : ([] : List Part) = rest at h
  -- Moves agree one by one, and where one trace has ended the other has no part left to take.
  induction h generalizing steps' with
  | nil =>
    subst hrest
    cases h' with
    | nil => exact ⟨rfl, rfl⟩
    | cons hm _ => exact absurd hm.length_lt (by simp)
  | cons hm _ ih =>
    cases h' with
    | nil => exact absurd hm.length_lt (by simp)
    | cons hm' htail' =>
      obtain ⟨rfl, rfl, rfl⟩ := hm.unique hm'
      obtain ⟨rfl, rfl⟩ := ih htail' hrest
      exact ⟨rfl, rfl⟩

/-- A chain takes all parts of its line or halts at one of them. -/
theorem exists_trace (c : ChainState) (parts : List Part) (s : Session) :
    (∃ steps t, ChainTrace r c parts s steps [] t) ∨
      ∃ steps rest u e t, ChainTrace r c parts s steps rest u ∧
        ChainHalt r (c.afterAll steps) rest u e t := by
  -- Every move leaves fewer parts, so the induction is on how many there are.
  induction hn : parts.length using Nat.strongRecOn generalizing c parts s with
  | _ n ih =>
    cases parts with
    | nil => exact Or.inl ⟨[], s, .nil⟩
    | cons p tail =>
      rcases exists_move_or_halt (r := r) c p tail s with ⟨st, mid, u, hm⟩ | ⟨e, t, hh⟩
      · have hlt := hm.length_lt
        rcases ih _ (hn ▸ hlt) (c.after st) mid u rfl with
          ⟨steps, t, ht⟩ | ⟨steps, rest, v, e, t, ht, hh⟩
        · exact Or.inl ⟨st :: steps, t, .cons hm ht⟩
        · exact Or.inr ⟨st :: steps, rest, v, e, t, .cons hm ht, hh⟩
      · exact Or.inr ⟨[], _, s, e, t, .nil, hh⟩

/-! ### Traces and runs of chains -/

theorem ChainTrace.returns (h : ChainTrace r c parts s steps [] t) :
    Returns (runChain r c parts) s (c.afterAll steps) t := by
  unfold Returns
  rw [h.runChain_eq, runChain]
  rfl

theorem ChainTrace.stops {u : Session} (h : ChainTrace r c parts s steps rest u)
    (hh : ChainHalt r (c.afterAll steps) rest u e t) : Stops (runChain r c parts) s e t := by
  have hs := hh.stops
  unfold Stops at hs ⊢
  rw [h.runChain_eq, hs]

/-- A chain returns what is known after a trace that takes all parts. -/
theorem returns_runChain_iff {c' : ChainState} :
    Returns (runChain r c parts) s c' t ↔
      ∃ steps, ChainTrace r c parts s steps [] t ∧ c' = c.afterAll steps := by
  constructor
  · intro h
    rcases exists_trace (r := r) c parts s with ⟨steps, t', ht⟩ | ⟨steps, rest, u, e, t', ht, hh⟩
    · obtain ⟨rfl, rfl⟩ := h.unique ht.returns
      exact ⟨steps, ht, rfl⟩
    · exact absurd (ht.stops hh) h.not_stops
  · rintro ⟨steps, ht, rfl⟩
    exact ht.returns

/-- A chain stops where its trace halts. -/
theorem stops_runChain_iff :
    Stops (runChain r c parts) s e t ↔
      ∃ steps rest u, ChainTrace r c parts s steps rest u ∧
        ChainHalt r (c.afterAll steps) rest u e t := by
  constructor
  · intro h
    rcases exists_trace (r := r) c parts s with ⟨steps, t', ht⟩ | ⟨steps, rest, u, e', t', ht, hh⟩
    · exact absurd h ht.returns.not_stops
    · obtain ⟨rfl, rfl⟩ := h.unique (ht.stops hh)
      exact ⟨steps, rest, u, ht, hh⟩
  · rintro ⟨steps, rest, u, ht, hh⟩
    exact ht.stops hh

end Traces

end CommandShell
