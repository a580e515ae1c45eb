import CommandShell.Proofs.Line.QuotedText
import CommandShell.Proofs.Told

/-!
# The command `help`

Everything that `help` does of itself is to print, and what it prints is put together from what its
parts print.  Which segments get to it, and how a line ends that is one such segment, is said here.

## Main results

* `Run.exists_dispatches_help`: a segment gets to the handler of `help`.
* `Run.EndsWith.returns_runLine`, `Run.Dispatches.stops_runLine`: a line that is one segment ends as
  this does.
-/

namespace CommandShell

namespace Run

variable {s t u v : Session} {h : ShellProcessor} {c : Scope} {i : Invocation} {text word : String}
  {rest : List String} {rerun : String → Run Unit}

/-! ### Segments that get to `help` -/

/-- The built-in `help` has no hooks. -/
theorem handleBetweenHooks_of_isHelp (hh : h.IsHelp) :
    handleBetweenHooks rerun c h i = help rerun c i := by
  have hhooks : ∀ phase, h.hookScripts phase = [] := by
    intro phase
    unfold Processor.hookScripts
    rw [hh.decl_eq]
    rfl
  rw [handleBetweenHooks_of_no_hooks hhooks, hh.decl_eq]
  rfl

theorem ends_of_isHelp (hh : h.IsHelp) (ws : List String) : h.Ends ws := by
  refine Or.inr ⟨?_, ?_⟩
  · unfold Processor.hasChildren
    rw [hh.leaf]
    rfl
  · unfold Processor.acceptsText
    rw [hh.decl_eq]
    rfl

/-- A segment whose first word is answered by `help`, and which makes no request, gets to the
handler of `help`; what `help` is asked for are the other words. -/
theorem exists_dispatches_help (hforce : Processor.answering? word s.commands = some h)
    (hh : h.IsHelp) (hwords : wordsOf text = word :: rest) (hrequest : ¬ MakesRequest text) :
    ∃ i c u, Dispatches s text .null h i c u ∧ (splitWords i.command).drop 1 = rest := by
  have hparameters : h.decl.parameters = [] := by rw [hh.decl_eq]; rfl
  have hreplies : h.decl.replies = none := by rw [hh.decl_eq]; rfl
  have hneeds : h.decl.needsText = true → rest ≠ [] := by
    rw [hh.decl_eq]
    rintro ⟨⟩
  obtain ⟨c, u, hd⟩ := exists_dispatches .null hforce hwords (ends_of_isHelp hh rest) hparameters
    hreplies hrequest hneeds
  refine ⟨_, c, u, hd, ?_⟩
  have hword : ∀ w ∈ word :: rest, IsWord w := fun w hw => isWord_of_mem_wordsOf (hwords ▸ hw)
  show (splitWords (readSegment text).name).drop 1 = rest
  rw [readSegment_name, hwords, splitWords_intercalate hword (by simp)]
  rfl

/-! ### Lines that are one segment -/

/-- A line that is one segment ends as this does. -/
theorem EndsWith.returns_runLine {code : ExitCode} {depth : Nat}
    (h : EndsWith (nestedWithin depth) s text .null code t)
    (hline : splitLine text = [.segment text]) :
    Returns (runLineWithin (depth + 1) text) s (Value.same code (.int 0)) t := by
  obtain ⟨-, payload, hsegment⟩ := h
  rw [runLineWithin_succ, runLineWith_segment hline]
  exact returns_bind_iff.mpr ⟨_, _, hsegment, rfl⟩

/-- A line that is one segment comes to no end where its handler comes to none. -/
theorem Dispatches.stops_runLine {depth : Nat} (hd : Dispatches s text .null h i c u)
    (hv : Stops (handleBetweenHooks (nestedWithin depth) c h i) u .unfinished t)
    (hline : splitLine text = [.segment text]) :
    ∃ v, Stops (runLineWithin (depth + 1) text) s .unfinished v := by
  have hsegment : Stops (runSegment (nestedWithin depth) text .null) s .unfinished t.finished := by
    unfold Stops
    rw [hd.runSegment_eq]
    exact stops_ensuring_iff.mpr ⟨t, stops_recover_iff.mpr (Or.inl ⟨rfl, hv⟩), rfl⟩
  refine ⟨t.finished, ?_⟩
  rw [runLineWithin_succ, runLineWith_segment hline]
  exact stops_bind_iff.mpr (Or.inl (stops_runReported_iff.mpr ⟨rfl, hsegment⟩))

end Run

end CommandShell
