import CommandShell.Proofs.Line.Admission
import CommandShell.Proofs.Line.NestedRecord

/-!
# Substitutions of a segment

A segment that leads to no processor gives way to what its first word stands for as an alias, and
that may give way again.  Nothing happens between one substitution and the next, so they follow from
the session in which the segment starts: each of them uses up one of the substitutions that are left
and adds nothing to what the segment does.  When none is left, or none is possible, the segment is
reported and fails; otherwise it does what the processor does that the last text leads to.

## Main definitions

* `Session.substitute?`: what takes the place of a segment.
* `Session.substituted?`: the segment after so many substitutions.
* `Session.refused`: the session after a segment that was reported and failed.

## Main results

* `exists_last_substituted`: substitutions come to an end, or to a bound.
* `runSegmentWithin_of_substituted`: a segment does what is left to do after some substitutions.
* `runSegmentWithin_unknown`, `runSegmentWithin_tooDeep`: segments that are reported.
* `runSegment_of_substitute`: a segment does what the text does that takes its place.
* `substitutions_are_bounded`: what becomes of a segment, whatever the aliases are.
-/

namespace CommandShell

namespace Session

variable {s : Session} {text mid last : String} {data : Value} {j k n : Nat}

/-- What takes the place of a segment: if it leads to no processor, what its first word stands for
as an alias. -/
def substitute? (s : Session) (text : String) : Option String :=
  match s.resolve? text with
  | some _ => none
  | none => s.expand? text

/-- The segment after so many substitutions, if so many follow one another. -/
def substituted? (s : Session) : Nat → String → Option String
  | 0, text => some text
  | k + 1, text => (s.substitute? text).bind (s.substituted? k)

theorem substitute?_eq_some_iff :
    s.substitute? text = some mid ↔ s.resolve? text = none ∧ s.expand? text = some mid := by
  unfold substitute?
  cases s.resolve? text <;> simp

theorem substitute?_of_unresolved (h : s.resolve? text = none) :
    s.substitute? text = s.expand? text := by
  unfold substitute?
  rw [h]

theorem substituted?_succ_eq_some_iff :
    s.substituted? (k + 1) text = some last ↔
      ∃ mid, s.substitute? text = some mid ∧ s.substituted? k mid = some last :=
  Option.bind_eq_some_iff

/-- Substitutions come to an end, or are as many as a bound allows. -/
theorem exists_last_substituted (s : Session) (n : Nat) (text : String) :
    ∃ k last, k ≤ n ∧ s.substituted? k text = some last ∧
      (k = n ∨ s.substitute? last = none) := by
  induction n generalizing text with
  | zero => exact ⟨0, text, Nat.le_refl 0, rfl, Or.inl rfl⟩
  | succ n ih =>
    cases h : s.substitute? text with
    | none => exact ⟨0, text, Nat.zero_le _, rfl, Or.inr h⟩
    | some mid =>
      obtain ⟨k, last, hk, hlast, hend⟩ := ih mid
      refine ⟨k + 1, last, Nat.succ_le_succ hk, ?_, hend.imp_left (congrArg (· + 1))⟩
      exact substituted?_succ_eq_some_iff.mpr ⟨mid, h, hlast⟩

/-- Behind some substitutions stands what the last text leads to. -/
theorem delivery?_of_substituted (h : s.substituted? k text = some last) (data : Value) (n : Nat) :
    s.delivery? data (n + k) text = s.delivery? data n last := by
  induction k generalizing text with
  | zero => exact congrArg _ (Option.some.inj h)
  | succ k ih =>
    obtain ⟨mid, hmid, hlast⟩ := substituted?_succ_eq_some_iff.mp h
    obtain ⟨hnone, hexpand⟩ := substitute?_eq_some_iff.mp hmid
    rw [← Nat.add_assoc, delivery?, hnone, hexpand]
    exact ih hlast

/-- A text that leads to no processor, and is not substituted, leads nowhere. -/
theorem delivery?_eq_none (hnone : s.resolve? text = none)
    (hend : n = 0 ∨ s.expand? text = none) : s.delivery? data n text = none := by
  cases n with
  | zero =>
    unfold delivery?
    rw [hnone]
    rfl
  | succ n =>
    obtain hzero | hexpand := hend
    · cases hzero
    · unfold delivery?
      rw [hnone, hexpand]
      rfl

/-- A text that gives way to nothing leads to the same within every bound. -/
theorem delivery?_of_settled (h : s.substitute? text = none) (data : Value) (m n : Nat) :
    s.delivery? data m text = s.delivery? data n text := by
  cases hp : s.resolve? text with
  | some p => rw [delivery?_of_resolve hp, delivery?_of_resolve hp]
  | none =>
    rw [substitute?_of_unresolved hp] at h
    rw [delivery?_eq_none hp (Or.inr h), delivery?_eq_none hp (Or.inr h)]

/-- The session after a segment that was reported in some lines and has failed. -/
def refused (s : Session) (lines : List String) : Session :=
  { s with
    journal := (lines.map .print).reverse ++ s.journal
    process := { exited := true, exitCode := .int (-1) } }

end Session

namespace Run

variable {rerun : String → Run Unit} {s : Session} {text mid last : String} {data : Value}
  {k n : Nat}

/-- The lines that report a segment whose name no command answers to. -/
def unknownLines (text : String) : List String :=
  [Style.error.mark ("Command not found: " ++ coloured "cyan" (readSegment text).name), "",
    Style.info.mark ("Type " ++ coloured "cyan" "help" ++ " for a list of available commands")]

/-- The line that reports a segment which would have to be expanded once more. -/
def tooDeepLines (text : String) : List String :=
  [Style.error.mark ("Alias expansion too deep: " ++
    coloured "cyan" ((splitWords (readSegment text).name).headD ""))]

/-- The record that a segment finishes is finished with it. -/
theorem ensuring_runSegmentWithin_started (rerun : String → Run Unit) (data : Value) (n : Nat)
    (text : String) (s : Session) :
    ensuring (runSegmentWithin rerun data n text) Session.finished s.started =
      runSegmentWithin rerun data n text s := by
  have hwith : ∀ expand, ensuring (runSegmentWith rerun data expand text) Session.finished
      s.started = runSegmentWith rerun data expand text s := by
    intro expand
    rw [ensuring_apply, runSegmentWith_apply, runSegmentWith_apply, ensuring_apply,
      Session.finished_finished, Session.started_started]
    rfl
  cases n with
  | zero => exact hwith _
  | succ n => exact hwith _

/-- One substitution uses up one of those that are left. -/
theorem runSegmentWithin_of_substitute (h : s.substitute? text = some mid) :
    runSegmentWithin rerun data (n + 1) text s = runSegmentWithin rerun data n mid s := by
  obtain ⟨hnone, hexpand⟩ := Session.substitute?_eq_some_iff.mp h
  rw [runSegmentWithin, runSegmentWith_of_expand hnone hexpand, ensuring_runSegmentWithin_started]

/-- A segment does what is left to do after some substitutions. -/
theorem runSegmentWithin_of_substituted (h : s.substituted? k text = some last) :
    runSegmentWithin rerun data (n + k) text s = runSegmentWithin rerun data n last s := by
  induction k generalizing text with
  | zero => rw [Option.some.inj h, Nat.add_zero]
  | succ k ih =>
    -- The first substitution is made in the segment itself, all others in what takes its place.
    obtain ⟨mid, hmid, hlast⟩ := Session.substituted?_succ_eq_some_iff.mp h
    rw [← Nat.add_assoc, runSegmentWithin_of_substitute hmid, ih hlast]

theorem runSegment_of_substituted (hk : k ≤ maxExpansions)
    (h : s.substituted? k text = some last) :
    runSegment rerun text data s = runSegmentWithin rerun data (maxExpansions - k) last s := by
  unfold runSegment
  rw [← runSegmentWithin_of_substituted h, Nat.sub_add_cancel hk]

/-- A segment whose name no command answers to, and whose first word is no alias. -/
theorem runSegmentWithin_unknown (hnone : s.resolve? text = none)
    (hexpand : s.expand? text = none) :
    Returns (runSegmentWithin rerun data n text) s () (s.refused (unknownLines text)) := by
  unfold Returns
  cases n <;> exact runSegmentWith_of_unknown hnone hexpand

/-- A segment that would have to be expanded once more. -/
theorem runSegmentWithin_tooDeep (hnone : s.resolve? text = none)
    (hexpand : s.expand? text = some mid) :
    Returns (runSegmentWithin rerun data 0 text) s () (s.refused (tooDeepLines text)) :=
  runSegmentWith_of_expand hnone hexpand

/-- A text that gives way to nothing does the same within every bound. -/
theorem runSegmentWithin_of_settled (h : s.substitute? text = none) (m n : Nat) :
    runSegmentWithin rerun data m text s = runSegmentWithin rerun data n text s := by
  cases hp : s.resolve? text with
  | some p =>
    rw [runSegmentWithin_of_delivery (Session.delivery?_of_resolve hp data m),
      runSegmentWithin_of_delivery (Session.delivery?_of_resolve hp data n)]
  | none =>
    rw [Session.substitute?_of_unresolved hp] at h
    exact (runSegmentWithin_unknown hp h).trans (runSegmentWithin_unknown hp h).symm

/-- A segment gets to no handler if what it stands for leads to no processor and gives way to
nothing within the bound. -/
theorem not_dispatches_of_substituted (hk : k ≤ maxExpansions)
    (h : s.substituted? k text = some last) (hnone : s.resolve? last = none)
    (hend : k = maxExpansions ∨ s.expand? last = none) (p : ShellProcessor) (i : Invocation)
    (c : Scope) (u : Session) : ¬ Dispatches s text data p i c u := by
  rintro ⟨given, t, hd, -⟩
  have hleft : maxExpansions - k = 0 ∨ s.expand? last = none :=
    hend.imp_left fun hk => by rw [hk, Nat.sub_self]
  rw [← Nat.sub_add_cancel hk, Session.delivery?_of_substituted h,
    Session.delivery?_eq_none hnone hleft] at hd
  cases hd

/-- A segment does what the text does that takes its place, and gets to the same handler, if the
substitutions behind it end within the bound. -/
theorem runSegment_of_substitute (h : s.substitute? text = some mid) (hk : k < maxExpansions)
    (hlast : s.substituted? k mid = some last) (hend : s.substitute? last = none) :
    runSegment rerun text data s = runSegment rerun mid data s ∧
      ∀ p i c u, Dispatches s text data p i c u ↔ Dispatches s mid data p i c u := by
  have hfrom : s.substituted? (k + 1) text = some last :=
    Session.substituted?_succ_eq_some_iff.mpr ⟨mid, h, hlast⟩
  -- Both come to the last text, with one more substitution left where the first is made already.
  constructor
  · rw [runSegment_of_substituted hk hfrom, runSegment_of_substituted (Nat.le_of_lt hk) hlast]
    exact runSegmentWithin_of_settled hend _ _
  · intro p i c u
    have hd : s.delivery? data maxExpansions text = s.delivery? data maxExpansions mid := by
      have hleft := Session.delivery?_of_substituted hfrom data (maxExpansions - (k + 1))
      have hright := Session.delivery?_of_substituted hlast data (maxExpansions - k)
      rw [Nat.sub_add_cancel hk] at hleft
      rw [Nat.sub_add_cancel (Nat.le_of_lt hk)] at hright
      rw [hleft, hright]
      exact Session.delivery?_of_settled hend data _ _
    unfold Dispatches
    rw [hd]

/-- Substitutions are bounded, whatever the aliases are and whether or not they lead back to one
another.  After so many substitutions a segment does what the text does that has taken its place,
with that many substitutions less.  If a text leads to a processor, within the bound, the segment
does what that processor does with the command read from this text.  If a text within the bound
leads nowhere and gives way to nothing, the name is reported; if the last text that the bound allows
would have to give way once more, that is reported.  In both cases the segment gets to no handler,
and nothing but the report and the code of the failure is left.  One of the three cases is there,
and in all of them nothing runs when the segment has ended, and a code is set. -/
theorem substitutions_are_bounded (rerun : String → Run Unit) (text : String) (data : Value)
    (s : Session) :
    (∀ k last, k ≤ maxExpansions → s.substituted? k text = some last →
      runSegment rerun text data s = runSegmentWithin rerun data (maxExpansions - k) last s) ∧
    (∀ k last p, k ≤ maxExpansions → s.substituted? k text = some last →
      s.resolve? last = some p →
      runSegment rerun text data s =
        ensuring (reach rerun p (.ofSegment last p.decl.parameters data)) Session.finished
          s.started) ∧
    (∀ k last, k ≤ maxExpansions → s.substituted? k text = some last → s.resolve? last = none →
      s.expand? last = none →
      (∀ p i c u, ¬ Dispatches s text data p i c u) ∧
        Returns (runSegment rerun text data) s () (s.refused (unknownLines last))) ∧
    (∀ last next, s.substituted? maxExpansions text = some last → s.resolve? last = none →
      s.expand? last = some next →
      (∀ p i c u, ¬ Dispatches s text data p i c u) ∧
        Returns (runSegment rerun text data) s () (s.refused (tooDeepLines last))) ∧
    (∃ k last, k ≤ maxExpansions ∧ s.substituted? k text = some last ∧
      (k = maxExpansions ∨ (s.resolve? last).isSome = true ∨ s.expand? last = none)) ∧
    (runSegment rerun text data s).2.process.running = false ∧
      (runSegment rerun text data s).2.process.exitCode.isNull = false := by
  have hafter : ∀ k last, k ≤ maxExpansions → s.substituted? k text = some last →
      runSegment rerun text data s = runSegmentWithin rerun data (maxExpansions - k) last s :=
    fun k last => runSegment_of_substituted
  have hended := ended_runSegmentWithin rerun data maxExpansions text s
  refine ⟨hafter, ?_, ?_, ?_, ?_, hended.not_running, hended.coded⟩
  · intro k last p hk hlast hp
    rw [hafter k last hk hlast]
    exact runSegmentWithin_of_delivery (Session.delivery?_of_resolve hp data _)
  · intro k last hk hlast hnone hexpand
    refine ⟨not_dispatches_of_substituted hk hlast hnone (Or.inr hexpand), ?_⟩
    unfold Returns
    rw [hafter k last hk hlast]
    exact runSegmentWithin_unknown hnone hexpand
  · intro last next hlast hnone hexpand
    refine ⟨not_dispatches_of_substituted (Nat.le_refl _) hlast hnone (Or.inl rfl), ?_⟩
    unfold Returns
    rw [hafter _ last (Nat.le_refl _) hlast, Nat.sub_self]
    exact runSegmentWithin_tooDeep hnone hexpand
  · obtain ⟨k, last, hk, hlast, hend⟩ := s.exists_last_substituted maxExpansions text
    refine ⟨k, last, hk, hlast, hend.imp_right fun hnone => ?_⟩
    cases hp : s.resolve? last with
    | some p => exact Or.inl rfl
    | none => exact Or.inr (by rwa [Session.substitute?_of_unresolved hp] at hnone)

/-- Two aliases that lead to each other: the bound is reached, and one more would be needed. -/
example :
    let shell := (execute "alias --ping=pong --pong=ping" (.offering builtinProcessors)).2
    shell.substituted? maxExpansions "ping x" = some "ping x" ∧
      shell.substitute? "ping x" = some "pong x" := by
  decide +kernel

end Run

end CommandShell
