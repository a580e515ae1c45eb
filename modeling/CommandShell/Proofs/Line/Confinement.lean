import CommandShell.Proofs.Line.FreeText
import CommandShell.Proofs.Line.Pinning
import CommandShell.Proofs.State.Survival

/-!
# Confinement below a pinned processor

While a processor is pinned, commands are looked up below it.  `--context` pins what a look-up leads
to, which stands further down.  So unless commands move the pin of their own accord, it only moves
downwards, in the tree of the processor that was pinned first, and no line gets out of this tree.

## Main definitions

* `Session.Confined`: the pinned processor stands in a tree.
* `Run.Starts`: a segment starts while a line runs.
* `Run.LeavesPins`: while a line runs, only `--context` moves the pin.

## Main results

* `mem_descendants_of_delivery?`: a segment leads below the processor that is pinned.
* `confined_runReported`, `confined_runLineWith`: a segment and a line stay in the tree.
* `confined_nestedWithin`: and so do the lines that it leads to.
* `pinned_processor_confines`: which handlers are called while a processor is pinned.
-/

namespace CommandShell

/-- The pinned processor stands in the tree of a processor. -/
def Session.Confined (p : ShellProcessor) (s : Session) : Prop :=
  ∃ q ∈ p.tree, s.pinned = some q

variable {rerun : String → Run Unit} {I : Option ShellProcessor → Prop} {c : Scope}
  {p q : ShellProcessor} {i : Invocation} {s t u start : Session} {m : Move}
  {line line' text : String} {data : Value} {depth n : Nat} {k : HandlerCall}

theorem Session.Confined.of_keepsPin (h : s.Confined p) (ht : s.KeepsPin t) : t.Confined p := by
  obtain ⟨q, hq, hs⟩ := h
  exact ⟨q, hq, Eq.trans ht hs⟩

namespace Run

/-! ### Segments -/

/-- A segment leads below the processor that is pinned. -/
theorem mem_descendants_of_delivery? (hs : s.Confined p)
    (hd : s.delivery? data n text = some (q, i)) :
    ∃ r ∈ p.tree, s.pinned = some r ∧ q ∈ r.descendants := by
  obtain ⟨r, hr, hpinned⟩ := hs
  obtain ⟨raw, hresolve, -⟩ := delivery?_resolve hd
  have hcommands : s.commands = r.children := by
    unfold Session.commands
    rw [hpinned]
  unfold Session.resolve? at hresolve
  rw [hcommands] at hresolve
  split at hresolve
  · cases hresolve
  · obtain ⟨path, rest, -, hpath, -⟩ := Processor.exists_path_of_find? hresolve
    exact ⟨r, hr, hpinned, hpath.mem_descendants⟩

/-- The checks in front of a handler pin its processor, if they pin any. -/
theorem confined_screen (hq : q ∈ p.tree) (hs : s.Confined p) :
    (screen q i s).2.Confined p := by
  have hC := unpinnedCongruence_keepsPin
  have hnone : ∀ {x : Run Unit}, Follows x Session.KeepsPin →
      Follows (do x; return (none : Option Invocation)) Session.KeepsPin :=
    fun hx => hx.bind Session.KeepsPin.trans fun _ => hC.pure none
  have hrefuse : ∀ message, Follows (do
      say .error message
      exitSilently (-1)
      return (none : Option Invocation)) Session.KeepsPin :=
    fun message => (hC.say .error message).bind Session.KeepsPin.trans fun _ =>
      hnone (hC.exitSilently (-1))
  unfold screen
  split_ifs with hversion hcontext
  · exact hs.of_keepsPin (hnone (hC.print _) s)
  · exact ⟨q, hq, rfl⟩
  -- What follows the parameters only refuses or lets through.
  · refine hs.of_keepsPin (Follows.bind Session.KeepsPin.trans (hC.parametersFit _ _) ?_ s)
    refine fun fit => .ite (hnone (hC.exitSilently (-1))) ?_
    unfold screenChecked
    refine .ite (hrefuse _) ((hC.ofExcept _).bind Session.KeepsPin.trans fun verdict => ?_)
    cases verdict with
    | accepted => exact hC.pure _
    | rejected reason => exact hrefuse _

/-- The moves of what a segment gives to a handler leave the pin to `--context`. -/
def SegmentLeavesPins (rerun : String → Run Unit) (start : Session) (text : String) (data : Value) :
    Prop :=
  ∀ q i c u, Dispatches start text data q i c u →
    ∀ m ∈ commandMoves rerun c q i u, m.LeavesPin

/-- A command of a segment stays in the tree if the lines do that it runs. -/
theorem Dispatches.confined (h : Dispatches start text data q i c u)
    (hpins : SegmentLeavesPins rerun start text data)
    (hleads : ∀ line' s', SegmentLeads rerun start text data line' s' → s'.Confined p →
      (rerun line' s').2.Confined p)
    (hs : start.Confined p) :
    (∀ m ∈ commandMoves rerun c q i u, m.start.Confined p) ∧
      (handleBetweenHooks rerun c q i u).2.Confined p := by
  refine carries_handleBetweenHooks (I := fun pin => ∃ r ∈ p.tree, pin = some r) u
    (fun m hm => ⟨hpins q i c u h m hm, fun line hline => ?_⟩) (hs.of_keepsPin h.keepsPin)
  exact hleads line m.start (.action h hm hline)

/-- The lines that a segment leads to start in the tree. -/
theorem SegmentLeads.confined (hl : SegmentLeads rerun start text data line' t)
    (hpins : SegmentLeavesPins rerun start text data)
    (hleads : ∀ line' s', SegmentLeads rerun start text data line' s' → s'.Confined p →
      (rerun line' s').2.Confined p)
    (hs : start.Confined p) : t.Confined p := by
  cases hl with
  | help => exact hs
  | action h hm => exact (h.confined hpins hleads hs).1 _ hm

/-- A segment stays in the tree if the lines do that it leads to. -/
theorem confined_runSegment (hpins : SegmentLeavesPins rerun start text data)
    (hleads : ∀ line' s', SegmentLeads rerun start text data line' s' → s'.Confined p →
      (rerun line' s').2.Confined p)
    (hs : start.Confined p) : (runSegment rerun text data start).2.Confined p := by
  have hC := unpinnedCongruence_keepsPin
  unfold runSegment
  cases hd : start.delivery? data maxExpansions text with
  | none => exact hs.of_keepsPin (keepsPin_of_delivery?_eq_none hd)
  | some d =>
    obtain ⟨q, i⟩ := d
    rw [runSegmentWithin_of_delivery hd]
    show (reach rerun q i start.started).2.Confined p
    rw [reach_eq]
    by_cases hasks : i.asksForHelp = true
    · rw [if_pos hasks]
      refine Session.Confined.of_keepsPin (hleads _ _ (.help hd hasks) hs) ?_
      exact pinned_recover fun f => hC.reportFailure f
    · rw [if_neg hasks, bind_apply]
      -- `--context` pins the processor of the segment, which stands in the tree itself.
      obtain ⟨r, hr, -, hq⟩ := mem_descendants_of_delivery? hs hd
      have hq : q ∈ p.tree := Processor.mem_tree_of_mem_descendants
        (Processor.mem_descendants_trans hq hr)
      have hscreen : (screen q i start.started).2.Confined p := confined_screen hq hs
      rcases hgiven : screen q i start.started with ⟨e | ⟨_ | i'⟩, t⟩ <;> rw [hgiven] at hscreen
      · exact hscreen
      · exact hscreen
      · obtain ⟨c, u, hopen, -⟩ := openScope_apply q t
        have hdispatches : Dispatches start text data q i' c u :=
          ⟨i, t, hd, by simpa using hasks, hgiven, hopen⟩
        dsimp only [dispatchScreened, dispatch]
        rw [bind_apply, hopen]
        refine Session.Confined.of_keepsPin (hdispatches.confined hpins hleads hs).2 ?_
        exact pinned_recover fun f => hC.settleFault f

theorem confined_runReported (hpins : SegmentLeavesPins rerun start text data)
    (hleads : ∀ line' s', SegmentLeads rerun start text data line' s' → s'.Confined p →
      (rerun line' s').2.Confined p)
    (hs : start.Confined p) : (runReported rerun text data start).2.Confined p := by
  have hsegment := confined_runSegment hpins hleads hs
  rcases returns_or_stops (runReported rerun text data) start with ⟨o, t, h⟩ | ⟨e, t, h⟩
  · rw [show runReported rerun text data start = _ from h]
    rcases returns_runReported_iff.mp h with ⟨hr, -⟩ | ⟨f, v, hstops, -, rfl⟩
    · rwa [show runSegment rerun text data start = _ from hr] at hsegment
    · rwa [show runSegment rerun text data start = _ from hstops] at hsegment
  · rw [show runReported rerun text data start = _ from h]
    obtain ⟨-, hstops⟩ := stops_runReported_iff.mp h
    rwa [show runSegment rerun text data start = _ from hstops] at hsegment

/-! ### Lines -/

section Chains

variable {k : ChainState} {parts rest : List Part} {st : ChainStep} {e : Stop}

theorem confined_chainMove
    (hsegment : ∀ text rest, parts = .segment text :: rest → k.runNext = true →
      (runReported rerun text k.input s).2.Confined p)
    (hs : s.Confined p) (h : ChainMove (chainRunner rerun) k parts s st rest t) :
    t.Confined p := by
  cases h with
  | operator => exact hs
  | ran hrun h =>
    have hstays := hsegment _ _ rfl hrun
    rwa [show runReported rerun _ _ s = _ from h] at hstays
  | skipped => exact hs
  | appended hrun h => exact hs.of_keepsPin ((keepsPin_appendPayload _ _).of_returns h)
  | notAppended => exact hs
  | operatorForPath h | nothingForPath h =>
    exact hs.of_keepsPin ((unpinnedCongruence_keepsPin.say _ _).of_returns h)

theorem confined_chainHalt
    (hsegment : ∀ text rest, parts = .segment text :: rest → k.runNext = true →
      (runReported rerun text k.input s).2.Confined p)
    (hs : s.Confined p) (h : ChainHalt (chainRunner rerun) k parts s e t) : t.Confined p := by
  cases h with
  | segment hrun h =>
    have hstays := hsegment _ _ rfl hrun
    rwa [show runReported rerun _ _ s = _ from h] at hstays
  | append hrun h => exact hs.of_keepsPin ((keepsPin_appendPayload _ _).of_stops h)
  | operatorForPath h | nothingForPath h =>
    exact hs.of_keepsPin ((unpinnedCongruence_keepsPin.say _ _).of_stops h)

/-- A chain stays in the tree if the segments do that it comes to. -/
theorem confined_chainTrace {steps : List ChainStep}
    (hsegment : ∀ (steps : List ChainStep) (text : String) (rest : List Part) (u : Session),
      ChainTrace (chainRunner rerun) k parts s steps (.segment text :: rest) u →
      (k.afterAll steps).runNext = true → u.Confined p →
      (runReported rerun text (k.afterAll steps).input u).2.Confined p)
    (hs : s.Confined p) (ht : ChainTrace (chainRunner rerun) k parts s steps rest t) :
    t.Confined p := by
  -- Each step starts in the tree, so the segments that it comes to may be asked there.
  induction ht with
  | nil => exact hs
  | @cons k parts s st mid u steps rest t hm _ ih =>
    refine ih ?_ (confined_chainMove (fun text rest' hparts hrun => ?_) hs hm)
    · intro steps' text rest' v ht' hrun
      exact hsegment (st :: steps') text rest' v (.cons hm ht') hrun
    · exact hsegment [] text rest' s (hparts ▸ .nil) hrun hs

end Chains

/-- A line stays in the tree if the segments do that it comes to. -/
theorem confined_runLineWith
    (hsegment : ∀ text data start, SegmentStarts rerun line s text data start → start.Confined p →
      (runReported rerun text data start).2.Confined p)
    (hs : s.Confined p) :
    (runLineWith rerun line s).2.Confined p ∧
      ∀ text data start, SegmentStarts rerun line s text data start → start.Confined p := by
  have htrace : ∀ steps rest t, LineTrace rerun line s steps rest t → t.Confined p := by
    intro steps rest t ht
    refine confined_chainTrace (fun steps text rest u ht hrun hu => ?_) hs ht
    exact hsegment _ _ _ ⟨steps, rest, ht, hrun, rfl⟩ hu
  constructor
  · rcases returns_or_stops (runLineWith rerun line) s with ⟨ok, t, h⟩ | ⟨e, t, h⟩
    · rw [show runLineWith rerun line s = _ from h]
      obtain ⟨steps, ht, -⟩ := returns_runLineWith_iff.mp h
      exact htrace _ _ _ ht
    · rw [show runLineWith rerun line s = _ from h]
      obtain ⟨steps, rest, u, ht, hhalt⟩ := stops_runLineWith_iff.mp h
      refine confined_chainHalt (fun text rest' hparts hrun => ?_) (htrace _ _ _ ht) hhalt
      exact hsegment _ _ _ ⟨steps, rest', hparts ▸ ht, hrun, rfl⟩ (htrace _ _ _ ht)
  · rintro text data start ⟨steps, rest, ht, -, -⟩
    exact htrace _ _ _ ht

/-! ### Lines in lines -/

/-- A segment starts in a line or in one of those that it leads to, where so many levels are left
for the lines that the segment leads to. -/
inductive Starts : Nat → String → Session → Nat → String → Value → Session → Prop
  /-- It is a segment of the line. -/
  | here {depth : Nat} {line text : String} {s start : Session} {data : Value}
      (h : SegmentStarts (nestedWithin depth) line s text data start) :
      Starts (depth + 1) line s depth text data start
  /-- It starts in a line that the line leads to. -/
  | nested {depth levels : Nat} {line line' text : String} {s s' start : Session} {data : Value}
      (hl : LeadsTo (nestedWithin depth) line s line' s')
      (h : Starts depth line' s' levels text data start) :
      Starts (depth + 1) line s levels text data start

/-- While the line runs, only `--context` moves the pin, at least as long as it stands in the
tree. -/
def LeavesPins (p : ShellProcessor) (depth : Nat) (line : String) (s : Session) : Prop :=
  ∀ levels text data start, Starts depth line s levels text data start → start.Confined p →
    SegmentLeavesPins (nestedWithin levels) start text data

theorem Calls.starts (h : Calls depth line s k) :
    Starts depth line s k.levels k.segment k.data k.start := by
  induction h with
  | here hs _ => exact .here hs
  | nested hl _ ih => exact .nested hl ih

/-- A line stays in the tree with all lines that it leads to. -/
theorem confined_nestedWithin (hpins : LeavesPins p depth line s) (hs : s.Confined p) :
    (nestedWithin depth line s).2.Confined p ∧
      ∀ levels text data start, Starts depth line s levels text data start →
        start.Confined p := by
  induction depth generalizing line s with
  | zero =>
    refine ⟨hs, ?_⟩
    rintro levels text data start ⟨⟩
  | succ depth ih =>
    have hnested : ∀ line' s', LeadsTo (nestedWithin depth) line s line' s' →
        LeavesPins p depth line' s' :=
      fun line' s' hl levels text data start h => hpins _ _ _ _ (.nested hl h)
    -- A segment stays in the tree because the lines that it leads to have one level less.
    have hleads : ∀ text data start, SegmentStarts (nestedWithin depth) line s text data start →
        ∀ line' s', SegmentLeads (nestedWithin depth) start text data line' s' →
          s'.Confined p → (nestedWithin depth line' s').2.Confined p :=
      fun text data start hstarts line' s' hl hs' =>
        (ih (hnested _ _ ⟨text, data, start, hstarts, hl⟩) hs').1
    obtain ⟨hend, hstarted⟩ := confined_runLineWith
      (fun text data start hstarts hstart => confined_runReported
        (hpins _ _ _ _ (.here hstarts) hstart) (hleads text data start hstarts) hstart) hs
    constructor
    · have hline : (nestedWithin (depth + 1) line s).2 =
          (runLineWith (nestedWithin depth) line s).2 := by
        rw [nestedWithin_eq, runLineWithin_succ, map_eq_pure_bind, bind_apply]
        rcases runLineWith (nestedWithin depth) line s with ⟨e | a, t⟩ <;> rfl
      rwa [hline]
    · intro levels text data start hstarts
      cases hstarts with
      | here h => exact hstarted _ _ _ h
      | nested hl h =>
        obtain ⟨text', data', start', hstarts', hsegment⟩ := hl
        have hstart' := hstarted _ _ _ hstarts'
        have hs' := hsegment.confined (hpins _ _ _ _ (.here hstarts') hstart')
          (hleads text' data' start' hstarts') hstart'
        exact (ih (hnested _ _ ⟨text', data', start', hstarts', hsegment⟩) hs').2 _ _ _ _ h

/-- A line that a segment leads to, wherever it starts, stays in the tree. -/
theorem Starts.leads {levels : Nat} (hstarts : Starts depth line s levels text data start)
    (hpins : LeavesPins p depth line s)
    (hl : SegmentLeads (nestedWithin levels) start text data line' t) (ht : t.Confined p) :
    (nestedWithin levels line' t).2.Confined p := by
  refine (confined_nestedWithin (fun levels' text' data' start' h' => ?_) ht).1
  -- What starts in a line that the segment leads to starts in the whole line as well.
  refine hpins levels' text' data' start' ?_
  clear hpins
  induction hstarts with
  | here h => exact .nested ⟨_, _, _, h, hl⟩ h'
  | nested hl' _ ih => exact .nested hl' (ih hl h')

end Run

/-! ### Calls of handlers -/

/-- The moves of the hooks in front of the handler that is called. -/
def HandlerCall.hookMoves (k : HandlerCall) : List Move :=
  along k.runStage (Run.stageMoves (Run.nestedWithin k.levels) k.scope k.processor k.command)
    k.before k.opened

namespace HandlerCall.Made

open Run

theorem mem_commandMoves (h : k.Made) (hm : m ∈ k.hookMoves) :
    m ∈ commandMoves (nestedWithin k.levels) k.scope k.processor k.command k.opened := by
  obtain ⟨after, hplaced⟩ := h.placed
  unfold commandMoves
  rw [hplaced]
  exact mem_along_append hm

/-- A handler starts with a property of the pin that the hooks in front of it keep. -/
theorem pinned_session (h : k.Made)
    (hharmless : ∀ m ∈ k.hookMoves, Harmless (nestedWithin k.levels) I m)
    (hstart : I k.start.pinned) : I k.session.pinned := by
  rw [← show k.opened.pinned = k.start.pinned from h.dispatched.keepsPin] at hstart
  have hend := (Carries.forM carries_runStage k.before k.opened hharmless hstart).2
  have hreturned := h.returned
  unfold Returns HandlerCall.runStage at hreturned
  rwa [hreturned] at hend

end HandlerCall.Made

namespace Run

theorem Calls.confined (h : Calls depth line s k) (hpins : LeavesPins p depth line s)
    (hs : s.Confined p) : k.session.Confined p := by
  have hstart := (confined_nestedWithin hpins hs).2 _ _ _ _ h.starts
  refine h.made.pinned_session (I := fun pin => ∃ q ∈ p.tree, pin = some q)
    (fun m hm => ⟨?_, fun line' hline hm' => ?_⟩) hstart
  · exact hpins _ _ _ _ h.starts hstart _ _ _ _ h.made.dispatched m (h.made.mem_commandMoves hm)
  · refine h.starts.leads hpins (.action h.made.dispatched ?_ hline) hm'
    exact h.made.mem_commandMoves hm

/-- Unless a hook in front of the handler runs a line, the pin is where it was when the segment
started. -/
theorem Calls.keepsPin (h : Calls depth line s k) (hpins : LeavesPins p depth line s)
    (hs : s.Confined p) (hlines : ∀ m ∈ k.hookMoves, m.line? = none) :
    k.session.pinned = k.start.pinned := by
  have hstart := (confined_nestedWithin hpins hs).2 _ _ _ _ h.starts
  refine h.made.pinned_session (I := fun pin => pin = k.start.pinned)
    (fun m hm => ⟨?_, fun line' hline => ?_⟩) rfl
  · exact hpins _ _ _ _ h.starts hstart _ _ _ _ h.made.dispatched m (h.made.mem_commandMoves hm)
  · rw [hlines m hm] at hline
    cases hline

end Run

/-! ### Lines one after another -/

/-- Of some lines, one after another, the shell comes to one of them. -/
def Session.ComesToLine (s : Session) (lines : List String) (line : String) (t : Session) : Prop :=
  ∃ before after, lines = before ++ line :: after ∧ t = s.afterLines before

theorem Session.comesToLine_cons_iff {first : String} {lines : List String} :
    s.ComesToLine (first :: lines) line t ↔
      (line = first ∧ t = s) ∨ (Run.rerun first s).2.ComesToLine lines line t := by
  constructor
  · rintro ⟨before, after, hlines, rfl⟩
    cases before with
    | nil =>
      obtain ⟨rfl, -⟩ := List.cons.inj hlines
      exact Or.inl ⟨rfl, rfl⟩
    | cons first' before =>
      obtain ⟨rfl, hrest⟩ := List.cons.inj hlines
      exact Or.inr ⟨before, after, hrest, rfl⟩
  · rintro (⟨rfl, rfl⟩ | ⟨before, after, rfl, rfl⟩)
    · exact ⟨[], lines, rfl, rfl⟩
    · exact ⟨first :: before, after, rfl, rfl⟩

namespace Run

/-- Lines stay in the tree, one after another. -/
theorem confined_afterLines {lines : List String} (hs : s.Confined p)
    (hpins : ∀ line t, s.ComesToLine lines line t → LeavesPins p maxLineNesting line t) :
    (s.afterLines lines).Confined p ∧ ∀ line t, s.ComesToLine lines line t → t.Confined p := by
  induction lines generalizing s with
  | nil =>
    refine ⟨hs, ?_⟩
    rintro line t ⟨before, after, hlines, -⟩
    simp at hlines
  | cons first lines ih =>
    have hfirst : (rerun first s).2.Confined p :=
      (confined_nestedWithin (hpins _ _ ⟨[], lines, rfl, rfl⟩) hs).1
    obtain ⟨hend, hcomes⟩ := ih hfirst fun line t h =>
      hpins line t (Session.comesToLine_cons_iff.mpr (Or.inr h))
    refine ⟨hend, fun line t h => ?_⟩
    rcases Session.comesToLine_cons_iff.mp h with ⟨rfl, rfl⟩ | h
    · exact hs
    · exact hcomes line t h

/-- A pinned processor confines what lines do.  Let a processor be pinned, and let only `--context`
move the pin while some lines run, one after another; the lines may stand for others as aliases, ask
for descriptions and lead to further lines.  Whenever a segment starts, an action is performed or a
handler is called, and after each line, the pinned processor is the first one or stands below it.  A
handler that is called belongs to a processor below the one that is pinned when the segment starts,
and below the first one.  This is the one that is pinned when the handler is called, unless a hook
in front of the handler runs a line. -/
theorem pinned_processor_confines {lines : List String} (hpinned : s.pinned = some p)
    (hpins : ∀ line t, s.ComesToLine lines line t → LeavesPins p maxLineNesting line t) :
    (s.afterLines lines).Confined p ∧
    ∀ line t, s.ComesToLine lines line t → t.Confined p ∧
      (∀ levels text data start, Starts maxLineNesting line t levels text data start →
        start.Confined p ∧ ∀ q i c u, Dispatches start text data q i c u →
          ∀ m ∈ commandMoves (nestedWithin levels) c q i u, m.start.Confined p) ∧
      ∀ k, Calls maxLineNesting line t k →
        k.session.Confined p ∧ k.processor ∈ p.descendants ∧
        (∃ q ∈ p.tree, k.start.pinned = some q ∧ k.processor ∈ q.descendants) ∧
        ((∀ m ∈ k.hookMoves, m.line? = none) → k.session.pinned = k.start.pinned) := by
  obtain ⟨hend, hcomes⟩ :=
    confined_afterLines ⟨p, p.mem_tree_self, hpinned⟩ hpins
  refine ⟨hend, fun line t h => ?_⟩
  have ht := hcomes line t h
  have hline := hpins line t h
  have hstarted := (confined_nestedWithin hline ht).2
  refine ⟨ht, fun levels text data start hstarts => ?_, fun k hk => ?_⟩
  · have hstart := hstarted _ _ _ _ hstarts
    refine ⟨hstart, fun q i c u hd => ?_⟩
    exact (hd.confined (hline _ _ _ _ hstarts hstart)
      (fun line' s' hl hs' => hstarts.leads hline hl hs') hstart).1
  · have hstart := hstarted _ _ _ _ hk.starts
    -- The words of the segment led down from the processor that was pinned when it started.
    obtain ⟨given, hd, -, -, -⟩ := hk.made.dispatched.admissible
    obtain ⟨q, hq, hpin, hbelow⟩ := mem_descendants_of_delivery? hstart hd
    refine ⟨hk.confined hline ht, ?_, ⟨q, hq, hpin, hbelow⟩, hk.keepsPin hline ht⟩
    exact Processor.mem_descendants_trans hbelow hq

end Run

/-! ### Trees without pins -/

namespace Run

/-- Where no processor in the tree moves the pin of its own accord, lines leave it to
`--context`. -/
theorem leavesPins_of_pinFree (h : ∀ q ∈ p.tree, q.pinFree = true) (depth : Nat) (line : String)
    (s : Session) : LeavesPins p depth line s := by
  intro levels text data start _ hs q i c u hd m hm
  obtain ⟨given, hdelivery, -, -, -⟩ := hd.admissible
  obtain ⟨r, hr, -, hq⟩ := mem_descendants_of_delivery? hs hdelivery
  have hfree : q.pinFree = true :=
    h q (Processor.mem_tree_of_mem_descendants (Processor.mem_descendants_trans hq hr))
  exact leavesPin_of_mem_commandMoves hfree hm

end Run

/-! ### A hook that pins by a line -/

/-- A package with a command that has another one pinned before its handler runs. -/
def hookedTree : ShellProcessor :=
  let add : ShellProcessor := .scripted "add" [.record] []
  { Processor.scripted "pkg" [.record] [] with
    children := [
      { add with decl := { add.decl with hooks := [⟨.before, [.run "repo --context"]⟩] } },
      { Processor.scripted "repo" [.record] [] with
        children := [.scripted "push" [.record] []] }] }

/-- A shell in which the package is pinned. -/
def hookedShell : Session :=
  { Session.offering [hookedTree] with pinned := some hookedTree }

theorem pinFree_of_mem_hookedTree : ∀ q ∈ hookedTree.tree, q.pinFree = true := by
  have hall : hookedTree.tree.all Processor.pinFree = true := by decide +kernel
  exact List.all_eq_true.mp hall

namespace Run

/-- Two lines, the first of which pins a processor further down, below which the second one then
calls a handler. -/
theorem deeper_pin_confines :
    hookedShell.pinned = some hookedTree ∧
      (∀ line t, hookedShell.ComesToLine ["repo --context", "push"] line t →
        LeavesPins hookedTree maxLineNesting line t) ∧
      (hookedShell.afterLines ["repo --context", "push"]).Confined hookedTree ∧
      ∃ k, Calls maxLineNesting "push" (hookedShell.afterLines ["repo --context"]) k ∧
        k.start.pinned.map (·.command) = some "repo" ∧ k.processor ∈ hookedTree.descendants := by
  have hpins : ∀ line t, hookedShell.ComesToLine ["repo --context", "push"] line t →
      LeavesPins hookedTree maxLineNesting line t :=
    fun line t _ => leavesPins_of_pinFree pinFree_of_mem_hookedTree _ line t
  obtain ⟨hend, hlines⟩ := pinned_processor_confines rfl hpins
  let start := hookedShell.afterLines ["repo --context"]
  let push := (dispatch? start "push" .null).get (by decide +kernel)
  have hpush : Dispatches start "push" .null push.1 push.2.1 push.2.2.1 push.2.2.2 :=
    dispatch?_eq_some_iff.mp (Option.some_get _).symm
  let k : HandlerCall :=
    { levels := maxLineNesting - 1, segment := "push", data := .null, start := start
      processor := push.1, command := push.2.1, scope := push.2.2.1, opened := push.2.2.2
      before := [], session := push.2.2.2 }
  have hhooks : push.1.decl.hooks.isEmpty = true := by decide +kernel
  have hplaced : push.1.stages = [.handler] := by
    unfold Processor.stages Processor.hookScripts
    rw [List.isEmpty_iff.mp hhooks]
    rfl
  have hk : k.Made := ⟨hpush, ⟨[], hplaced⟩, returns_pure_iff.mpr ⟨rfl, rfl⟩⟩
  have hcalls : Calls maxLineNesting "push" start k :=
    .here (segmentStarts_of_single (by decide +kernel)) hk
  obtain ⟨-, -, hcalled⟩ := hlines "push" start ⟨["repo --context"], [], rfl, rfl⟩
  exact ⟨rfl, hpins, hend, k, hcalls, by decide +kernel, (hcalled k hcalls).2.1⟩

/-- A handler that is called while another processor is pinned, below which it does not stand. -/
theorem hook_pins_elsewhere :
    hookedShell.pinned = some hookedTree ∧
      LeavesPins hookedTree maxLineNesting "add" hookedShell ∧
      ∃ k q, Calls maxLineNesting "add" hookedShell k ∧ k.session.pinned = some q ∧
        k.processor ∉ q.descendants := by
  let add := (dispatch? hookedShell "add" .null).get (by decide +kernel)
  have hadd : Dispatches hookedShell "add" .null add.1 add.2.1 add.2.2.1 add.2.2.2 :=
    dispatch?_eq_some_iff.mp (Option.some_get _).symm
  let hooks : Run Unit := (add.1.hookScripts .before).forM
    (performAll (nestedWithin (maxLineNesting - 1)) add.2.2.1)
  let session := (hooks add.2.2.2).2
  let k : HandlerCall :=
    { levels := maxLineNesting - 1, segment := "add", data := .null, start := hookedShell
      processor := add.1, command := add.2.1, scope := add.2.2.1, opened := add.2.2.2
      before := (add.1.hookScripts .before).map .hook, session := session }
  have hreturned : Returns (k.before.forM k.runStage) k.opened () session := by
    obtain ⟨⟨⟩, hooked, -⟩ := exists_returns_of_map hooks add.2.2.2 (fun _ => true) true
      (by decide +kernel)
    show Returns (((add.1.hookScripts .before).map Stage.hook).forM _) _ _ _
    unfold HandlerCall.runStage
    rw [forM_hooks]
    exact hooked
  have hk : k.Made := ⟨hadd, ⟨_, rfl⟩, hreturned⟩
  have hcommand : add.1.command = "add" := by decide +kernel
  have hbelow : session.pinned.map (fun q => q.descendants.map (·.command)) = some ["push"] := by
    decide +kernel
  -- Only `push` stands below what the hook has pinned, while `add` is what is called.
  obtain ⟨q, hq, hdescendants⟩ := Option.map_eq_some_iff.mp hbelow
  refine ⟨rfl, leavesPins_of_pinFree pinFree_of_mem_hookedTree _ _ _, k, q,
    .here (segmentStarts_of_single (by decide +kernel)) hk, hq, fun hmem => ?_⟩
  have hname : add.1.command ∈ q.descendants.map (·.command) := List.mem_map_of_mem hmem
  rw [hdescendants, hcommand] at hname
  exact absurd (List.mem_singleton.mp hname) (by decide)

end Run

end CommandShell
