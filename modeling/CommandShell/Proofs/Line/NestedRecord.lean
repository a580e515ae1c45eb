import CommandShell.Proofs.Congruence.Line
import CommandShell.Proofs.Line.Faults
import CommandShell.Proofs.Line.Nesting

/-!
# The process record around nested lines

All lines share one process record, and every segment starts it anew.  A handler that runs a line
goes on with the record that the line leaves, which is that of the last segment that ran in it; only
a line in which no segment runs leaves the record alone.  If the handler then does nothing about the
record, its own segment is taken for the nested one: it pipes what that one gave, and succeeds if
that one did.

## Main definitions

* `ProcessRecord.Ended`: the record of a segment that has ended.
* `ComesTo`: the ends of a run after which its caller may go on.
* `upTo`: a handler up to some action.

## Main results

* `process_eq_iff`: a nested line leaves the record alone just where it runs no segment.
* `nested_line_takes_record`: the record of a nested line is that of the segment that runs it.
-/

namespace CommandShell

/-- The record of a segment that has ended. -/
structure ProcessRecord.Ended (p : ProcessRecord) : Prop where
  not_running : p.running = false
  coded : p.exitCode.isNull = false

theorem ProcessRecord.ended_finish (p : ProcessRecord) : p.finish.Ended := by
  refine ⟨rfl, ?_⟩
  unfold finish
  dsimp only
  cases h : p.exitCode.isNull with
  | true => rfl
  | false => simpa using h

theorem ProcessRecord.Ended.finish_eq {p : ProcessRecord} (h : p.Ended) : p.finish = p := by
  obtain ⟨exited, code, data, running, outputCalled⟩ := p
  obtain rfl : running = false := h.not_running
  have hcode : code.isNull = false := h.coded
  simp [finish, hcode]

/-- The record after some steps is that from before, or that of the last segment that ran. -/
theorem lastRecord_cases (p : ProcessRecord) (steps : List ChainStep) :
    ranSegments steps = [] ∧ lastRecord p steps = p ∨
      ∃ pre text input outcome record post,
        steps = pre ++ .ran text input outcome record :: post ∧ ranSegments post = [] ∧
          lastRecord p steps = record := by
  induction steps generalizing p with
  | nil => exact Or.inl ⟨rfl, rfl⟩
  | cons st steps ih =>
    rcases ih (st.recordAfter p) with
      ⟨hnone, hlast⟩ | ⟨pre, text, input, outcome, record, post, rfl, hpost, hlast⟩
    -- No segment runs later, so it is this step or none.
    · cases st with
      | ran text input outcome record =>
        exact Or.inr ⟨[], text, input, outcome, record, steps, rfl, hnone, hlast⟩
      | _ => exact Or.inl ⟨hnone, hlast⟩
    · exact Or.inr ⟨st :: pre, text, input, outcome, record, post, rfl, hpost, hlast⟩

namespace Run

variable {rerun : String → Run Unit} {line text : String} {data input : Value}
  {s s' t u v : Session} {steps : List ChainStep} {parts rest : List Part} {depth n : Nat}
  {c : Scope} {p : ShellProcessor} {i : Invocation}

/-! ### Segments that have ended -/

theorem ended_runSegmentWithin (rerun : String → Run Unit) (data : Value) (n : Nat) (text : String)
    (s : Session) : (runSegmentWithin rerun data n text s).2.process.Ended := by
  cases n with
  | zero => exact ProcessRecord.ended_finish _
  | succ n => exact ProcessRecord.ended_finish _

/-- A step in which a segment runs leaves the record of one that has ended. -/
theorem ended_of_ran {pre post : List ChainStep} {outcome : SegmentOutcome}
    {record : ProcessRecord}
    (h : LineTrace rerun line s (pre ++ .ran text input outcome record :: post) rest s') :
    record.Ended := by
  obtain ⟨mid, u, -, hstep⟩ := ChainTrace.split h
  cases hstep with
  | cons hm _ =>
    cases hm with
    | ran _ hran =>
      have hended := ended_runSegmentWithin rerun (ChainState.afterAll {} pre).input maxExpansions
        text u
      rcases returns_runReported_iff.mp hran with ⟨hr, -⟩ | ⟨f, t, hs, -, rfl⟩
      · unfold runSegment Returns at hr
        rwa [hr] at hended
      · unfold runSegment Stops at hs
        rwa [hs] at hended

/-- While a segment is running, a line leaves its record alone just where it runs no segment. -/
theorem process_eq_iff (h : LineTrace rerun line s steps rest s')
    (hrunning : s.process.running = true) :
    s'.process = s.process ↔ ranSegments steps = [] := by
  rw [chainTrace_process_eq h]
  rcases lastRecord_cases s.process steps with
    ⟨hnone, hlast⟩ | ⟨pre, text, input, outcome, record, post, rfl, hpost, hlast⟩
  · rw [hlast]
    exact ⟨fun _ => hnone, fun _ => rfl⟩
  · rw [hlast]
    constructor
    · rintro rfl
      -- The record of a segment that has ended cannot be that of one that is running.
      have hended := (ended_of_ran h).not_running
      rw [hrunning] at hended
      cases hended
    · intro hnone
      simp [ranSegments, ChainStep.segment?] at hnone

/-! ### Handlers that run a line -/

/-- The run comes to an end after which its caller may go on: it returns, or fails. -/
def ComesTo (x : Run Unit) (s s' : Session) : Prop :=
  Returns x s () s' ∨ ∃ f, Stops x s (.fault f) s'

/-- What a handler leaves when a nested line comes to an end is where a trace of the line leads. -/
theorem exists_trace_of_comesTo (h : ComesTo (nestedWithin (depth + 1) line) s s') :
    ∃ steps rest, LineTrace (nestedWithin depth) line s steps rest s' := by
  rcases h with h | ⟨f, h⟩
  · obtain ⟨steps, ht⟩ := returns_nestedWithin_iff.mp h
    exact ⟨steps, [], ht⟩
  · obtain ⟨steps, path, rest, ht, -⟩ :=
      stops_runLineWith_fault_iff.mp (stops_nestedWithin_iff.mp h)
    exact ⟨steps, _, ht⟩

/-- What a processor does up to some action of its script. -/
def upTo (rerun : String → Run Unit) (c : Scope) (p : ShellProcessor) (i : Invocation)
    (actions : List Action) : Run Unit := do
  runHooks rerun c p .before
  performAll rerun { c with invocation := some i } actions

theorem performAll_append (before after : List Action) :
    performAll rerun c (before ++ after) =
      performAll rerun c before >>= fun _ => performAll rerun c after := by
  induction before with
  | nil =>
    rw [List.nil_append, performAll]
    exact (pure_bind _ _).symm
  | cons a before ih => rw [List.cons_append, performAll, performAll, ih, bind_assoc]

/-- What a processor does after an action is done from where the action leads. -/
theorem handleBetweenHooks_eq {before after : List Action} {a : Action}
    (hp : p.decl.handler = .script (before ++ a :: after)) :
    handleBetweenHooks rerun c p i =
      upTo rerun c p i before >>= fun _ =>
        perform rerun { c with invocation := some i } a >>= fun _ =>
          performAll rerun { c with invocation := some i } after >>= fun _ =>
            runHooks rerun c p .after := by
  have hscript : handle rerun c i p.decl.handler =
      performAll rerun { c with invocation := some i } (before ++ a :: after) := by
    rw [hp]
    rfl
  unfold handleBetweenHooks upTo
  rw [hscript, performAll_append, performAll]
  simp only [bind_assoc]

/-- The process record is kept by everything that is not about it. -/
theorem keepsProcess : ScriptCongruence fun _ x _ => Keeps x (·.process) where
  toTellingCongruence := tellingCongruence_keeps fun _ _ => rfl
  change h := fun s => (h s).1
  cancel _ := by
    refine keeps_get.bind fun s => Keeps.bind (fun _ => rfl) fun _ => ?_
    exact keeps_forM (fun _ _ => rfl) _
  onCancel _ _ := by
    refine keeps_get.bind fun s => Keeps.bind ?_ fun _ _ => rfl
    exact keeps_forM (fun _ _ => rfl) _

theorem keeps_runHooks {phase : HookPhase}
    (h : ∀ script ∈ p.hookScripts phase, Action.keepRecord script = true) :
    Keeps (runHooks rerun c p phase) (·.process) := by
  unfold runHooks
  generalize p.hookScripts phase = scripts at h
  induction scripts with
  | nil => exact keeps_pure
  | cons script scripts ih =>
    have hscript := keepsProcess.performAll (f := rerun) (g := rerun) c script
      (h script List.mem_cons_self)
    exact hscript.bind fun _ => ih fun other ho => h other (List.mem_cons_of_mem _ ho)

theorem process_of_openScope (h : Returns (openScope p) s.started c u) :
    u.process = ProcessRecord.start {} := by
  have hkeep : Keeps (openScope p) (·.process) := by
    refine (keepsProcess.openBucket p).bind fun _ => Keeps.bind ?_ fun _ => keeps_pure
    exact keeps_get.bind fun s => Keeps.bind (fun _ => rfl) fun _ => keeps_pure
  rw [hkeep.of_returns h]
  rfl

/-- A nested line takes the process record of the segment that runs it.  It leaves the record of the
last segment that ran in it, and where one ran, this is never the record that a running segment has.
A handler that runs a line, and then does nothing about the record, has its own segment end with the
record of the nested one, whatever it has given before. -/
theorem nested_line_takes_record (depth : Nat) (line : String) :
    (∀ (s : Session) p c u, Returns (openScope p) s.started c u →
      u.process = ProcessRecord.start {}) ∧
    (∀ s s', ComesTo (nestedWithin (depth + 1) line) s s' →
      ∃ steps rest, LineTrace (nestedWithin depth) line s steps rest s' ∧
        s'.process = lastRecord s.process steps ∧
        (s.process.running = true → (s'.process = s.process ↔ ranSegments steps = []))) ∧
    (∀ p i c before after u s v, p.decl.handler = .script (before ++ .run line :: after) →
      Action.keepRecord after = true →
      (∀ script ∈ p.hookScripts .after, Action.keepRecord script = true) →
      Returns (upTo (nestedWithin (depth + 1)) c p i before) u () s →
      Returns (handleBetweenHooks (nestedWithin (depth + 1)) c p i) u () v →
      ∃ steps t, LineTrace (nestedWithin depth) line s steps [] t ∧
        (ranSegments steps = [] → v.finished.process = s.process.finish) ∧
        ∀ pre text input outcome record post,
          steps = pre ++ .ran text input outcome record :: post → ranSegments post = [] →
            v.finished.process = record) := by
  refine ⟨fun s p c u h => process_of_openScope h, ?_, ?_⟩
  · intro s s' h
    obtain ⟨steps, rest, ht⟩ := exists_trace_of_comesTo h
    exact ⟨steps, rest, ht, chainTrace_process_eq ht, process_eq_iff ht⟩
  · intro p i c before after u s v hp hafter hhooks hs hv
    rw [handleBetweenHooks_eq hp] at hv
    obtain ⟨⟨⟩, s₁, hs₁, hv⟩ := returns_bind_iff.mp hv
    obtain ⟨-, rfl⟩ := hs.unique hs₁
    obtain ⟨⟨⟩, t, ht, hv⟩ := returns_bind_iff.mp hv
    unfold perform at ht
    obtain ⟨steps, htrace⟩ := returns_nestedWithin_iff.mp ht
    -- What is left of the handler and its hooks does nothing about the record.
    have hrest : v.process = t.process := by
      obtain ⟨⟨⟩, w, hw, hv⟩ := returns_bind_iff.mp hv
      have hkeep := keepsProcess.performAll (f := nestedWithin (depth + 1))
        (g := nestedWithin (depth + 1)) { c with invocation := some i } after hafter
      rw [(keeps_runHooks hhooks).of_returns hv, hkeep.of_returns hw]
    have hlast : v.finished.process = (lastRecord s.process steps).finish := by
      show v.process.finish = _
      rw [hrest, chainTrace_process_eq htrace]
    refine ⟨steps, t, htrace, ?_, ?_⟩
    · intro hnone
      rw [hlast, lastRecord_of_ranSegments_eq_nil hnone]
    · rintro pre text input outcome record post rfl hpost
      rw [hlast, lastRecord_append, lastRecord_cons, lastRecord_of_ranSegments_eq_nil hpost]
      exact (ended_of_ran htrace).finish_eq

/-- A handler that gives a payload, runs a line and returns passes nothing on, and counts as failed,
because the nested command has recorded an exit. -/
theorem nested_exit_takes_payload :
    ∃ o s', Returns (runReported nested "outer" .null)
        (.offering [.scripted "outer" [.output (.text "mine"), .run "inner"] [],
          .scripted "inner" [.exit (.int 3) true] []]) o s' ∧
      o.succeeded = false ∧ o.payload = some .null ∧ s'.journal = [] := by
  let shell : Session := .offering [.scripted "outer" [.output (.text "mine"), .run "inner"] [],
    .scripted "inner" [.exit (.int 3) true] []]
  let run := runReported nested "outer" .null
  obtain ⟨⟨ok, payload⟩, h, ho⟩ := exists_returns_of_map run shell
    (fun o => (o.succeeded, o.payload.map Value.isNull)) (false, some true) (by decide +kernel)
  obtain ⟨hok, hpayload⟩ := Prod.mk.inj ho
  obtain ⟨v, rfl, hv⟩ := Option.map_eq_some_iff.mp hpayload
  have hjournal : (run shell).2.journal.isEmpty = true := by decide +kernel
  refine ⟨_, _, h, hok, ?_, List.isEmpty_iff.mp hjournal⟩
  cases v with
  | null => rfl
  | _ => cases hv

end Run

end CommandShell
