import CommandShell.Program
import CommandShell.Proofs.Line.Faults

/-!
# Exit codes of lines

A host gives a line the exit code of the segment that ran last.  A `>>` behind it does not change
this code, and a line in which nothing runs has that of an earlier one.  For a segment that did not
fail outside its handler the code is zero just where the segment succeeded, which is the status of
the line in the end unless a `>>` behind the segment failed.

## Main definitions

* `ProcessRecord.returnedCode`: the code that a host gives for a record.
* `ExitCode.IsRegular`: the codes that are given as they are meant, all whole numbers among them.

## Main results

* `returnedCode_same_zero_iff`: the code is zero just where the record counts as successful.
* `succeeded_afterAll`: without segments and failures the status stays.
* `returns_execute_iff`: the code of a line.
-/

namespace CommandShell

/-- Codes that are given as they are meant: whatever counts as true, whole numbers, and no code at
all.  A text without characters, say, is no success and yet given as zero. -/
def ExitCode.IsRegular (code : ExitCode) : Prop :=
  code.truthy = true ∨ code = .null ∨ ∃ n, code.number? = some (.whole n)

/-- The code that a host gives for a record; whatever counts as false is zero. -/
def ProcessRecord.returnedCode (p : ProcessRecord) : ExitCode :=
  p.exitCode.nonEmpty?.getD (.int 0)

namespace Value

variable {v : Value} {n : Int}

/-- A whole number is equal to another one as a number. -/
theorem same_int_of_whole (h : v.number? = some (.whole n)) (m : Int) :
    v.same (.int m) = (n == m) := by
  cases v with
  | bool b => cases h; rfl
  | int k => cases h; rfl
  | _ => cases h

/-- A whole number counts as true unless it is zero. -/
theorem truthy_of_whole (h : v.number? = some (.whole n)) : v.truthy = (n != 0) := by
  cases v with
  | bool b => cases h; cases b <;> rfl
  | int k => cases h; rfl
  | _ => cases h

end Value

/-- A regular code is given as zero just where it counts as success. -/
theorem ProcessRecord.returnedCode_same_zero_iff {p : ProcessRecord} (h : p.exitCode.IsRegular) :
    Value.same p.returnedCode (.int 0) = true ↔ p.succeeded = true := by
  unfold returnedCode succeeded ExitCode.succeeded Value.nonEmpty?
  rcases h with htrue | hnull | ⟨n, hn⟩
  · have hnull : Value.isNull p.exitCode = false := by
      cases hp : p.exitCode with
      | null => rw [hp] at htrue; cases htrue
      | _ => rfl
    rw [htrue, hnull, if_pos rfl, Option.getD_some, Bool.false_or]
  · rw [hnull]
    exact Iff.rfl
  · have hnull : Value.isNull p.exitCode = false := by
      cases hp : p.exitCode with
      | null => rw [hp] at hn; cases hn
      | _ => rfl
    rw [Value.truthy_of_whole hn, hnull, Value.same_int_of_whole hn]
    -- Zero itself counts as false, and is given as the zero that stands in for it.
    by_cases h0 : n = 0
    · subst h0
      exact Iff.rfl
    · rw [if_pos (by simpa using h0), Option.getD_some, Value.same_int_of_whole hn, Bool.false_or]

/-! ### Steps behind a segment -/

/-- The status stays while no segment runs and nothing fails. -/
theorem succeeded_afterAll {c : ChainState} {steps : List ChainStep} (h : ranSegments steps = [])
    (hf : ∀ st ∈ steps, st.faulted = false) :
    (c.afterAll steps).succeeded = c.succeeded := by
  induction steps generalizing c with
  | nil => rfl
  | cons st steps ih =>
    have hst := hf st List.mem_cons_self
    have hrest : ∀ st ∈ steps, st.faulted = false :=
      fun st hst => hf st (List.mem_cons_of_mem _ hst)
    rw [ChainState.afterAll_cons]
    -- What is left are steps that do not touch the status, and redirects that are done.
    cases st with
    | operator op =>
      rw [ih h hrest]
      cases op <;> rfl
    | ran => cases h
    | skipped => rw [ih h hrest]; rfl
    | appended path payload done =>
      obtain rfl : done = true := by simpa [ChainStep.faulted] using hst
      rw [ih h hrest]
      exact Bool.and_true _
    | notAppended => rw [ih h hrest]; rfl
    | pathMissing => cases hst

namespace Run

variable {line : String} {s s' : Session} {code : ExitCode}

/-- A line has the exit code of the process record that it leaves. -/
theorem returns_execute_iff :
    Returns (execute line) s code s' ↔
      ∃ s₁ steps, Returns prepare s () s₁ ∧ LineTrace nested line s₁ steps [] s' ∧
        code = (lastRecord s₁.process steps).returnedCode := by
  -- The code is read from the record that the line leaves, and reading it changes nothing.
  have hcode : ∀ t, Returns exitCode t code s' ↔ s' = t ∧ code = t.process.returnedCode := by
    intro t
    constructor
    · intro h
      cases h
      exact ⟨rfl, rfl⟩
    · rintro ⟨rfl, rfl⟩
      rfl
  unfold execute
  constructor
  · intro h
    obtain ⟨⟨⟩, s₁, hprepare, h⟩ := returns_bind_iff.mp h
    obtain ⟨⟨⟩, t, hline, h⟩ := returns_bind_iff.mp h
    obtain ⟨rfl, rfl⟩ := (hcode t).mp h
    obtain ⟨steps, ht⟩ := returns_rerun_iff.mp hline
    exact ⟨s₁, steps, hprepare, ht, by rw [chainTrace_process_eq ht]⟩
  · rintro ⟨s₁, steps, hprepare, ht, rfl⟩
    refine returns_bind_iff.mpr ⟨(), s₁, hprepare, returns_bind_iff.mpr
      ⟨(), s', returns_rerun_iff.mpr ⟨steps, ht⟩, (hcode s').mpr ⟨rfl, ?_⟩⟩⟩
    rw [chainTrace_process_eq ht]

/-- The program returns zero for a line of code zero, and one for every other line. -/
theorem returns_runCommand_iff {n : Int} :
    Returns (runCommand line) s n s' ↔
      ∃ code, Returns (execute line) s code s' ∧
        n = if Value.same code (.int 0) then 0 else 1 := by
  unfold runCommand
  rw [returns_bind_iff]
  constructor
  · rintro ⟨code, t, h, hp⟩
    obtain ⟨rfl, rfl⟩ := returns_pure_iff.mp hp
    exact ⟨code, h, rfl⟩
  · rintro ⟨code, h, rfl⟩
    exact ⟨code, s', h, returns_pure_iff.mpr ⟨rfl, rfl⟩⟩

/-- The exit code of a line is that of the segment that ran last, in this line or before it.  If
that segment ran in the line, did not fail outside its handler and has a regular code, the code is
zero just where the segment succeeded, and then also just where the line did, unless a `>>` behind
the segment failed. -/
theorem execute_code (h : Returns (execute line) s code s') :
    ∃ s₁ steps, Returns prepare s () s₁ ∧ LineTrace nested line s₁ steps [] s' ∧
      code = (lastRecord s₁.process steps).returnedCode ∧
      (∀ n, Returns (runCommand line) s n s' ↔ n = if Value.same code (.int 0) then 0 else 1) ∧
      (ranSegments steps = [] → code = s₁.process.returnedCode) ∧
      (∀ pre text input outcome record post,
        steps = pre ++ .ran text input outcome record :: post → ranSegments post = [] →
          code = record.returnedCode ∧
          (outcome.payload ≠ none → record.exitCode.IsRegular →
            (Value.same code (.int 0) = true ↔ outcome.succeeded = true) ∧
            ((∀ st ∈ post, st.faulted = false) →
              (Value.same code (.int 0) = true ↔
                (ChainState.afterAll {} steps).succeeded = true)))) := by
  obtain ⟨s₁, steps, hprepare, ht, rfl⟩ := returns_execute_iff.mp h
  refine ⟨s₁, steps, hprepare, ht, rfl, ?_, ?_, ?_⟩
  · intro n
    rw [returns_runCommand_iff]
    constructor
    · rintro ⟨code, hcode, rfl⟩
      rw [(h.unique hcode).1]
    · rintro rfl
      exact ⟨_, h, rfl⟩
  · intro hnone
    rw [lastRecord_of_ranSegments_eq_nil hnone]
  · rintro pre text input outcome record post rfl hpost
    have hlast :
        lastRecord s₁.process (pre ++ .ran text input outcome record :: post) = record := by
      rw [lastRecord_append, lastRecord_cons]
      exact lastRecord_of_ranSegments_eq_nil hpost
    rw [hlast]
    refine ⟨rfl, fun hpayload hregular => ?_⟩
    -- The segment did not fail outside its handler, so its outcome is read off from its record.
    obtain ⟨mid, u, -, hstep⟩ := ChainTrace.split ht
    have hsucceeded : outcome.succeeded = record.succeeded := by
      cases hstep with
      | cons hm _ =>
        rcases ran_cases hm with rfl | ⟨rfl, -⟩
        · rfl
        · exact absurd rfl hpayload
    rw [ProcessRecord.returnedCode_same_zero_iff hregular, hsucceeded]
    refine ⟨Iff.rfl, fun hf => ?_⟩
    rw [ChainState.afterAll_append, ChainState.afterAll_cons, succeeded_afterAll hpost hf]
    show _ ↔ outcome.succeeded = true
    rw [hsucceeded]

/-- The code of a line that names no command. -/
theorem execute_code_unknown_command :
    ∃ code s' s₁ steps, Returns (execute "nope") (.offering []) code s' ∧
      LineTrace nested "nope" s₁ steps [] s' ∧
      code = (lastRecord s₁.process steps).returnedCode ∧ Value.same code (.int 0) = false ∧
      Returns (runCommand "nope") (.offering []) 1 s' := by
  obtain ⟨code, h, hcode⟩ := exists_returns_of_map (execute "nope") (.offering [])
    (fun code => Value.same code (.int 0)) false (by decide +kernel)
  obtain ⟨s₁, steps, -, ht, hlast, hcommand, -⟩ := execute_code h
  refine ⟨code, _, s₁, steps, h, ht, hlast, hcode, (hcommand 1).mpr ?_⟩
  rw [hcode]
  rfl

/-- A shell in which one line has been executed. -/
def shellAfter (line : String) : Session :=
  (execute line (.offering [])).2

/-- The code of a line differs from its status in the end where a path is missing behind `>>`, and
where no segment runs. -/
theorem execute_code_ne_status :
    (∃ code s' t, Returns (execute ">>") (shellAfter "") code s' ∧
      Value.same code (.int 0) = true ∧ Returns (runLine ">>") (shellAfter "") false t) ∧
    ∃ code s' t, Returns (execute "") (shellAfter "nope") code s' ∧
      Value.same code (.int 0) = false ∧ Returns (runLine "") (shellAfter "nope") true t := by
  obtain ⟨code₁, h₁, hcode₁⟩ := exists_returns_of_map (execute ">>") (shellAfter "")
    (fun code => Value.same code (.int 0)) true (by decide +kernel)
  obtain ⟨ok₁, hline₁, rfl⟩ := exists_returns_of_map (runLine ">>") (shellAfter "") id false
    (by decide +kernel)
  obtain ⟨code₂, h₂, hcode₂⟩ := exists_returns_of_map (execute "") (shellAfter "nope")
    (fun code => Value.same code (.int 0)) false (by decide +kernel)
  obtain ⟨ok₂, hline₂, rfl⟩ := exists_returns_of_map (runLine "") (shellAfter "nope") id true
    (by decide +kernel)
  exact ⟨⟨code₁, _, _, h₁, hcode₁, hline₁⟩, code₂, _, _, h₂, hcode₂, hline₂⟩

end Run

end CommandShell
