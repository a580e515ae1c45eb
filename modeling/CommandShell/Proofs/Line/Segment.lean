import CommandShell.Proofs.Ending
import CommandShell.Shell.Line

/-!
# Segments

What a segment does before its handler runs, and which faults leave it.  A handler and its hooks
have every fault settled, so what leaves a segment as a fault comes from the checks before them, and
these leave the process record as it is.  The processor that a segment reaches, directly or through
aliases, gets the payload that is piped in.

## Main definitions

* `Session.delivery?`: the processor that a segment reaches, with the command that it gets.
* `ProcessRecord.idle`: the record of a segment that does nothing.

## Main results

* `stopsOnly_dispatch`: no fault leaves a handler and its hooks.
* `stops_runSegment_process`: a fault leaves the record of a segment that does nothing.
* `delivery?_data`: a processor gets the payload that is piped in.
* `runSegmentWithin_of_delivery`: a segment does what the processor does that it reaches.
-/

namespace CommandShell

/-- The record of a segment that does nothing. -/
def ProcessRecord.idle : ProcessRecord :=
  (ProcessRecord.start {}).finish

@[simp] theorem ProcessRecord.finish_finish (p : ProcessRecord) : p.finish.finish = p.finish := by
  unfold finish
  dsimp only
  cases h : p.exitCode.isNull with
  | true => rfl
  | false => simp [h]

namespace Session

/-- The session when a segment starts. -/
def started (s : Session) : Session :=
  { s with process := s.process.start }

/-- The session when a segment has ended. -/
def finished (s : Session) : Session :=
  { s with process := s.process.finish }

/-- What a segment stands for as an alias. -/
def expand? (s : Session) (segment : String) : Option String :=
  s.expansion? ((splitWords (readSegment segment).name).headD "") segment

/-- The processor that a segment reaches, directly or through so many aliases, with the command that
it gets. -/
def delivery? (s : Session) (data : Value) : Nat → String → Option (ShellProcessor × Invocation)
  | 0, segment =>
    (s.resolve? segment).map fun p => (p, .ofSegment segment p.decl.parameters data)
  | expansions + 1, segment =>
    match s.resolve? segment with
    | some p => some (p, .ofSegment segment p.decl.parameters data)
    | none => (s.expand? segment).bind (s.delivery? data expansions)

@[simp] theorem started_started (s : Session) : s.started.started = s.started := rfl

@[simp] theorem finished_finished (s : Session) : s.finished.finished = s.finished :=
  congrArg (fun p => { s with process := p }) s.process.finish_finish

theorem started_delivery? (s : Session) (data : Value) (n : Nat) (segment : String) :
    s.started.delivery? data n segment = s.delivery? data n segment := by
  induction n generalizing segment with
  | zero => rfl
  | succ n ih =>
    unfold delivery?
    show (match s.resolve? segment with
      | some p => _
      | none => (s.expand? segment).bind (s.started.delivery? data n)) = _
    rw [funext ih]

theorem delivery?_of_resolve {s : Session} {p : ShellProcessor} {segment : String}
    (h : s.resolve? segment = some p) (data : Value) (n : Nat) :
    s.delivery? data n segment = some (p, .ofSegment segment p.decl.parameters data) := by
  cases n with
  | zero => exact congrArg (Option.map _) h
  | succ n =>
    unfold delivery?
    rw [h]

end Session

namespace Run

variable {rerun : String → Run Unit} {p : ShellProcessor} {i : Invocation} {s t : Session}
  {f : Fault} {e : Stop}

/-! ### Faults of handlers -/

theorem stopsOnly_emit {P : Stop → Prop} {ev : Event} : StopsOnly (emit ev) P :=
  stopsOnly_modify

theorem stopsOnly_abort {P : Stop → Prop} : StopsOnly abort P := by
  unfold abort cancel
  refine stopsOnly_modify.bind fun _ => stopsOnly_get.bind fun s => ?_
  refine StopsOnly.bind ?_ fun _ => stopsOnly_get.bind fun s => ?_
  · exact stopsOnly_get.bind fun s => stopsOnly_modify.bind fun _ =>
      stopsOnly_forM (fun _ => stopsOnly_emit) _
  · exact stopsOnly_forM (fun _ => stopsOnly_emit) _

/-- To settle a fault never stops a run. -/
theorem stopsOnly_settleFault {P : Stop → Prop} : StopsOnly (settleFault f) P := by
  unfold settleFault
  split
  · refine stopsOnly_abort.bind fun _ => ?_
    exact StopsOnly.ite stopsOnly_emit stopsOnly_emit
  · exact stopsOnly_modify.bind fun _ => stopsOnly_emit.bind fun _ => stopsOnly_modify

theorem stopsOnly_modifyBuckets {P : Stop → Prop} {change : StateSpace → StateSpace} :
    StopsOnly (modifyBuckets change) P := by
  intro s e t h
  unfold Stops modifyBuckets at h
  rw [buckets_apply] at h
  cases h

theorem stopsOnly_openScope {P : Stop → Prop} : StopsOnly (openScope p) P := by
  unfold openScope openBucket newToken
  refine StopsOnly.bind ?_ fun bucket => StopsOnly.bind ?_ fun _ => stopsOnly_pure
  · exact stopsOnly_get.bind fun s => stopsOnly_modifyBuckets.bind fun _ => stopsOnly_pure
  · exact stopsOnly_get.bind fun s => stopsOnly_modify.bind fun _ => stopsOnly_pure

/-- No fault leaves a handler and its hooks. -/
theorem stopsOnly_dispatch : StopsOnly (dispatch rerun p i) (fun e => e = .unfinished) := by
  unfold dispatch
  refine stopsOnly_openScope.bind fun c => ?_
  intro s e t h
  rcases stops_recover_iff.mp h with ⟨he, -⟩ | ⟨f, u, -, hs⟩
  · exact he
  · exact stopsOnly_settleFault (P := fun e => e = .unfinished) _ _ _ hs

/-! ### Faults of segments -/

/-- A fault that leaves the run leaves the process record as it was. -/
def FaultKeepsProcess {α : Type} (x : Run α) : Prop :=
  ∀ s f t, Stops x s (.fault f) t → t.process = s.process

namespace FaultKeepsProcess

variable {α β : Type} {x y : Run α} {g : α → Run β}

theorem of_stopsOnly (h : StopsOnly x (fun e => e = .unfinished)) : FaultKeepsProcess x := by
  intro s f t hs
  cases h _ _ _ hs

theorem of_keeps (h : Keeps x (·.process)) : FaultKeepsProcess x :=
  fun _ _ _ hs => h.of_stops hs

theorem bind (hk : Keeps x (·.process)) (hg : ∀ a, FaultKeepsProcess (g a)) :
    FaultKeepsProcess (x >>= g) := by
  intro s f t hs
  rcases stops_bind_iff.mp hs with hx | ⟨a, u, hx, hs⟩
  · exact hk.of_stops hx
  · rw [hg a u f t hs, hk.of_returns hx]

theorem ite {c : Prop} [Decidable c] (hx : FaultKeepsProcess x) (hy : FaultKeepsProcess y) :
    FaultKeepsProcess (if c then x else y) := by
  split
  · exact hx
  · exact hy

end FaultKeepsProcess

theorem keeps_say {style : Style} {message : String} : Keeps (say style message) (·.process) :=
  fun _ => rfl

theorem keeps_parametersFit (ps : List Parameter) (args : Entries Value) :
    Keeps (parametersFit ps args) (·.process) := by
  unfold parametersFit
  refine Keeps.ite (keeps_say.bind fun _ => keeps_pure) ?_
  refine keeps_ofExcept.bind fun refused => Keeps.ite keeps_pure ?_
  exact keeps_say.bind fun _ => (keeps_forM (fun _ _ => rfl) _).bind fun _ => keeps_pure

theorem stopsOnly_reportFailure {P : Stop → Prop} : StopsOnly (reportFailure f) P :=
  stopsOnly_emit

theorem stopsOnly_showHelp {raw : String} :
    StopsOnly (showHelp rerun raw) (fun e => e = .unfinished) := by
  intro s e t h
  rcases stops_recover_iff.mp h with ⟨he, -⟩ | ⟨f, u, -, hs⟩
  · exact he
  · exact stopsOnly_reportFailure (P := fun e => e = .unfinished) _ _ _ hs

theorem faultKeepsProcess_reachChecked : FaultKeepsProcess (reachChecked rerun p i) := by
  unfold reachChecked
  refine .ite (.bind keeps_say fun _ => .of_stopsOnly stopsOnly_modify) ?_
  refine .bind keeps_ofExcept fun verdict => ?_
  split
  · exact .of_stopsOnly stopsOnly_dispatch
  · exact .bind keeps_say fun _ => .of_stopsOnly stopsOnly_modify

/-- A fault that leaves what a processor does comes from a check, and leaves the process record as
it was. -/
theorem faultKeepsProcess_reach : FaultKeepsProcess (reach rerun p i) := by
  unfold reach
  -- The version, the description and the pin come first; only then are the arguments checked.
  refine .ite (.of_keeps fun _ => rfl) (.ite (.of_stopsOnly stopsOnly_showHelp) (.ite ?_ ?_))
  · exact .of_keeps fun _ => rfl
  · refine .bind (keeps_parametersFit _ _) fun fit => ?_
    exact .ite (.of_stopsOnly stopsOnly_modify) faultKeepsProcess_reachChecked

/-! ### What a segment leads to -/

variable {data : Value} {segment : String} {expand : String → String → Run Unit} {n : Nat}

theorem runSegmentWith_apply :
    runSegmentWith rerun data expand segment s =
      ensuring
        (match s.started.resolve? segment with
        | some p => reach rerun p (.ofSegment segment p.decl.parameters data)
        | none =>
          match s.started.expand? segment with
          | some expanded => expand ((splitWords (readSegment segment).name).headD "") expanded
          | none => commandNotFound (readSegment segment).name)
        Session.finished s.started :=
  rfl

theorem runSegmentWith_of_resolve (h : s.resolve? segment = some p) :
    runSegmentWith rerun data expand segment s =
      ensuring (reach rerun p (.ofSegment segment p.decl.parameters data)) Session.finished
        s.started := by
  have hs : s.started.resolve? segment = some p := h
  rw [runSegmentWith_apply, hs]

theorem runSegmentWith_of_expand {expanded : String} (h : s.resolve? segment = none)
    (he : s.expand? segment = some expanded) :
    runSegmentWith rerun data expand segment s =
      ensuring (expand ((splitWords (readSegment segment).name).headD "") expanded)
        Session.finished s.started := by
  have hs : s.started.resolve? segment = none := h
  have hes : s.started.expand? segment = some expanded := he
  rw [runSegmentWith_apply, hs]
  dsimp only
  rw [hes]

theorem runSegmentWith_of_unknown (h : s.resolve? segment = none) (he : s.expand? segment = none) :
    runSegmentWith rerun data expand segment s =
      ensuring (commandNotFound (readSegment segment).name) Session.finished s.started := by
  have hs : s.started.resolve? segment = none := h
  have hes : s.started.expand? segment = none := he
  rw [runSegmentWith_apply, hs]
  dsimp only
  rw [hes]

/-- Nothing stops a report that no command answers to a name. -/
theorem stopsOnly_commandNotFound {P : Stop → Prop} {name : String} :
    StopsOnly (commandNotFound name) P :=
  stopsOnly_emit.bind fun _ => stopsOnly_emit.bind fun _ => stopsOnly_emit.bind fun _ =>
    stopsOnly_modify

theorem stopsOnly_expansionTooDeep {P : Stop → Prop} {word : String} :
    StopsOnly (expansionTooDeep word) P :=
  stopsOnly_emit.bind fun _ => stopsOnly_modify

/-- A fault that leaves a segment, or what it stands for, leaves the record of a segment that does
nothing. -/
theorem stops_runSegmentWith_process
    (hexpand : ∀ word expanded s f t, Stops (expand word expanded) s (.fault f) t →
      t.process = .idle)
    (h : Stops (runSegmentWith rerun data expand segment) s (.fault f) t) :
    t.process = .idle := by
  -- Whichever way the segment goes, its record is started in front of it and finished behind it.
  cases hp : s.resolve? segment with
  | some p =>
    unfold Stops at h
    rw [runSegmentWith_of_resolve hp] at h
    obtain ⟨u, hu, rfl⟩ := stops_ensuring_iff.mp h
    show u.process.finish = _
    rw [faultKeepsProcess_reach _ _ _ hu]
    rfl
  | none =>
    cases he : s.expand? segment with
    | some expanded =>
      unfold Stops at h
      rw [runSegmentWith_of_expand hp he] at h
      obtain ⟨u, hu, rfl⟩ := stops_ensuring_iff.mp h
      show u.process.finish = _
      rw [hexpand _ _ _ _ _ hu]
      rfl
    | none =>
      unfold Stops at h
      rw [runSegmentWith_of_unknown hp he] at h
      obtain ⟨u, hu, -⟩ := stops_ensuring_iff.mp h
      exact absurd hu (stopsOnly_commandNotFound (P := fun _ => False) _ _ _)

theorem stops_runSegmentWithin_process
    (h : Stops (runSegmentWithin rerun data n segment) s (.fault f) t) : t.process = .idle := by
  induction n generalizing segment s f t with
  | zero =>
    refine stops_runSegmentWith_process ?_ h
    intro word expanded s f t hs
    exact absurd hs (stopsOnly_expansionTooDeep (P := fun _ => False) _ _ _)
  -- What a segment stands for runs inside it, and its record is finished once more.
  | succ n ih =>
    refine stops_runSegmentWith_process ?_ h
    intro word expanded s f t hs
    exact ih hs

/-- A fault that leaves a segment comes from a check before its handler: the record is that of a
segment that does nothing. -/
theorem stops_runSegment_process (h : Stops (runSegment rerun segment data) s (.fault f) t) :
    t.process = .idle :=
  stops_runSegmentWithin_process h

/-! ### Commands that processors get -/

/-- A processor gets the payload that is piped in, whatever aliases lead to it. -/
theorem delivery?_data (h : s.delivery? data n segment = some (p, i)) : i.data = data := by
  induction n generalizing segment with
  | zero =>
    unfold Session.delivery? at h
    obtain ⟨q, -, hq⟩ := Option.map_eq_some_iff.mp h
    cases hq
    rfl
  | succ n ih =>
    unfold Session.delivery? at h
    split at h
    · cases h
      rfl
    · obtain ⟨expanded, -, hd⟩ := Option.bind_eq_some_iff.mp h
      exact ih hd

/-- A segment does what the processor does that it reaches. -/
theorem runSegmentWithin_of_delivery (h : s.delivery? data n segment = some (p, i)) :
    runSegmentWithin rerun data n segment s =
      ensuring (reach rerun p i) Session.finished s.started := by
  induction n generalizing segment s with
  | zero =>
    unfold Session.delivery? at h
    obtain ⟨q, hq, hpi⟩ := Option.map_eq_some_iff.mp h
    cases hpi
    exact runSegmentWith_of_resolve hq
  | succ n ih =>
    unfold Session.delivery? at h
    split at h
    · rename_i q hq
      cases h
      exact runSegmentWith_of_resolve hq
    · rename_i hnone
      obtain ⟨expanded, he, hd⟩ := Option.bind_eq_some_iff.mp h
      rw [← Session.started_delivery?] at hd
      have hrest := ih hd
      rw [Session.started_started] at hrest
      refine (runSegmentWith_of_expand hnone he).trans ?_
      -- The record is finished once for every alias on the way, and once is enough.
      rw [ensuring_apply, hrest, ensuring_apply, Session.finished_finished]

end Run

end CommandShell
