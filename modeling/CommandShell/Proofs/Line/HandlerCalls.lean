import CommandShell.Proofs.Line.Leading

/-!
# Calls of handlers

When handlers are called.  In all lines that a line leads to, a handler is called only with a
command that passes every check, by the processor that the command names, and behind the hooks that
stand in front of it.  A segment calls one handler at most, and once; the hooks behind it run when
it has returned.

## Main definitions

* `HandlerCall`: a call of a handler, with the segment that makes it.
* `HandlerCall.Made`: the segment makes the call.
* `Run.Calls`: the calls that are made while a line runs.

## Main results

* `delivery?_resolve`: a segment reaches the processor that what it stands for names.
* `stages_eq_iff`: where the handler stands among the stages of a command.
* `calls_are_validated`: what holds of every call.
-/

namespace CommandShell

/-- A call of the handler of a processor. -/
structure HandlerCall where
  /-- How many levels are left for the lines that the command runs. -/
  levels : Nat
  /-- The segment that makes the call. -/
  segment : String
  /-- The payload that is piped into the segment. -/
  data : Value
  /-- The session that the segment starts from. -/
  start : Session
  /-- The processor. -/
  processor : ShellProcessor
  /-- The command that the handler gets. -/
  command : Invocation
  /-- The scope of the command. -/
  scope : Scope
  /-- The session that the command starts from. -/
  opened : Session
  /-- The stages in front of the handler. -/
  before : List Stage
  /-- The session that the handler starts from. -/
  session : Session

namespace HandlerCall

variable (k : HandlerCall)

/-- What a stage of the command does. -/
def runStage : Stage → Run Unit :=
  Run.runStage (Run.nestedWithin k.levels) k.scope k.processor k.command

/-- The segment makes the call: it gets to the hooks and the handler, and the stages in front of the
handler return. -/
structure Made : Prop where
  dispatched : Run.Dispatches k.start k.segment k.data k.processor k.command k.scope k.opened
  placed : ∃ after, k.processor.stages = k.before ++ .handler :: after
  returned : Returns (k.before.forM k.runStage) k.opened () k.session

end HandlerCall

namespace Run

/-- The calls that are made while a line runs, where lines may lead to one another so many levels
deep: by the segments of the line, and in the lines that it leads to. -/
inductive Calls : Nat → String → Session → HandlerCall → Prop
  /-- A segment of the line makes the call. -/
  | here {line s k}
      (hs : SegmentStarts (nestedWithin k.levels) line s k.segment k.data k.start)
      (hk : k.Made) : Calls (k.levels + 1) line s k
  /-- The call is made in a line that the line leads to. -/
  | nested {depth line s line' s' k} (hl : LeadsTo (nestedWithin depth) line s line' s')
      (h : Calls depth line' s' k) : Calls (depth + 1) line s k

variable {depth n : Nat} {line text : String} {data : Value} {s t : Session} {k k' : HandlerCall}
  {p : ShellProcessor} {i : Invocation} {pre post : List Stage} {script : List Action}

theorem Calls.made (h : Calls depth line s k) : k.Made := by
  induction h with
  | here _ hk => exact hk
  | nested _ _ ih => exact ih

/-! ### Where segments lead -/

/-- A segment reaches the processor that it names, or that what it stands for names, with the
command that is read from there. -/
theorem delivery?_resolve (h : s.delivery? data n text = some (p, i)) :
    ∃ raw, s.resolve? raw = some p ∧ i = .ofSegment raw p.decl.parameters data := by
  induction n generalizing text with
  | zero =>
    obtain ⟨q, hq, hpi⟩ := Option.map_eq_some_iff.mp h
    obtain ⟨rfl, rfl⟩ := Prod.mk.inj hpi
    exact ⟨text, hq, rfl⟩
  | succ n ih =>
    unfold Session.delivery? at h
    split at h
    · rename_i q hq
      obtain ⟨rfl, rfl⟩ := Prod.mk.inj (Option.some.inj h)
      exact ⟨text, hq, rfl⟩
    · obtain ⟨expanded, -, hd⟩ := Option.bind_eq_some_iff.mp h
      exact ih hd

/-! ### The stages of a command -/

/-- The handler stands behind the hooks of the one phase and in front of those of the other. -/
theorem stages_eq_iff :
    p.stages = pre ++ .handler :: post ↔
      pre = (p.hookScripts .before).map .hook ∧ post = (p.hookScripts .after).map .hook := by
  unfold Processor.stages
  constructor
  · intro h
    have hno : ∀ scripts : List (List Action), Stage.handler ∉ scripts.map Stage.hook := by
      intro scripts hmem
      obtain ⟨script, -, hscript⟩ := List.mem_map.mp hmem
      cases hscript
    generalize p.hookScripts .before = scripts at h ⊢
    induction scripts generalizing pre with
    | nil =>
      cases pre with
      | nil => exact ⟨rfl, (List.cons.inj h).2.symm⟩
      | cons stage pre =>
        -- A second handler would be one of the hooks behind the first.
        refine absurd ?_ (hno (p.hookScripts .after))
        rw [(List.cons.inj h).2]
        exact List.mem_append_right _ List.mem_cons_self
    | cons script scripts ih =>
      cases pre with
      | nil => cases (List.cons.inj h).1
      | cons stage pre =>
        obtain ⟨hstage, hrest⟩ := List.cons.inj h
        obtain ⟨hpre, hpost⟩ := ih hrest
        exact ⟨by rw [List.map_cons, hstage, hpre], hpost⟩
  · rintro ⟨rfl, rfl⟩
    rfl

/-- A hook behind the handler stands among those of its phase. -/
theorem stages_eq_of_handler_mem (h : p.stages = pre ++ .hook script :: post)
    (hmem : .handler ∈ pre) :
    ∃ before after, p.hookScripts .after = before ++ script :: after ∧
      pre = (p.hookScripts .before).map .hook ++ .handler :: before.map .hook := by
  obtain ⟨front, back, rfl⟩ := List.append_of_mem hmem
  rw [List.append_assoc, List.cons_append] at h
  obtain ⟨rfl, hback⟩ := stages_eq_iff.mp h
  obtain ⟨before, rest, hscripts, rfl, hrest⟩ := List.map_eq_append_iff.mp hback.symm
  obtain ⟨script', after, rfl, hscript, -⟩ := List.map_eq_cons_iff.mp hrest
  obtain rfl := Stage.hook.inj hscript
  exact ⟨before, after, hscripts, rfl⟩

end Run

namespace HandlerCall.Made

open Run

variable {k k' : HandlerCall} {t : Session} {pre post : List Stage} {script : List Action}

/-- The hooks in front of the handler have returned, one after another. -/
theorem hooks_returned (h : k.Made) :
    Returns ((k.processor.hookScripts .before).forM
      (performAll (nestedWithin k.levels) k.scope)) k.opened () k.session := by
  obtain ⟨after, hplaced⟩ := h.placed
  have hreturned := h.returned
  unfold HandlerCall.runStage at hreturned
  rwa [(stages_eq_iff.mp hplaced).1, forM_hooks] at hreturned

/-- A segment makes one call at most. -/
theorem unique (h : k.Made) (h' : k'.Made) (hlevels : k'.levels = k.levels)
    (hsegment : k'.segment = k.segment) (hdata : k'.data = k.data) (hstart : k'.start = k.start) :
    k' = k := by
  obtain ⟨levels, segment, data, start, p, i, c, u, before, session⟩ := k
  obtain ⟨levels', segment', data', start', p', i', c', u', before', session'⟩ := k'
  cases hlevels
  cases hsegment
  cases hdata
  cases hstart
  obtain ⟨rfl, rfl, rfl, rfl⟩ := h.dispatched.unique h'.dispatched
  obtain ⟨after, hplaced⟩ := h.placed
  obtain ⟨after', hplaced'⟩ := h'.placed
  obtain rfl : before = before' :=
    (stages_eq_iff.mp hplaced).1.trans (stages_eq_iff.mp hplaced').1.symm
  obtain ⟨-, rfl⟩ := h.returned.unique h'.returned
  rfl

/-- A hook behind the handler runs when the handler has returned, and the hooks between them. -/
theorem hook_after (h : k.Made) (hpre : k.processor.stages = pre ++ .hook script :: post)
    (hmem : .handler ∈ pre) (ht : Returns (pre.forM k.runStage) k.opened () t) :
    ∃ u before after, k.processor.hookScripts .after = before ++ script :: after ∧
      Returns (handle (nestedWithin k.levels) k.scope k.command k.processor.decl.handler)
        k.session () u ∧
      Returns (before.forM (performAll (nestedWithin k.levels) k.scope)) u () t := by
  obtain ⟨before, after, hscripts, rfl⟩ := stages_eq_of_handler_mem hpre hmem
  unfold HandlerCall.runStage at ht
  rw [forM_append] at ht
  obtain ⟨⟨⟩, v, hv, hrest⟩ := returns_bind_iff.mp ht
  obtain ⟨⟨⟩, u, hu, hhooks⟩ := returns_bind_iff.mp hrest
  rw [forM_hooks] at hv hhooks
  obtain ⟨-, rfl⟩ := h.hooks_returned.unique hv
  exact ⟨u, before, after, hscripts, hu, hhooks⟩

end HandlerCall.Made

namespace Run

variable {depth : Nat} {line : String} {s : Session} {k : HandlerCall}

/-- No handler is called with a command that was not checked.  Whatever the registry, the aliases
and the pinned processor are, and however lines lead to one another, a call of a handler is made
with the command that is read from the segment or from what it stands for; the processor is the one
that this command names among those that are in force when the segment starts; the command is
admissible; and the hooks in front of the handler have returned in their order.  What the segment
does is what the stages of the command do, among which the handler stands once, so that it makes no
other call; and the hooks behind the handler run in their order once it has returned. -/
theorem calls_are_validated (h : Calls depth line s k) :
    (∃ raw, k.start.resolve? raw = some k.processor ∧
      k.command = k.processor.deliver (.ofSegment raw k.processor.decl.parameters k.data)) ∧
    Admissible k.processor k.command ∧
    Returns ((k.processor.hookScripts .before).forM
      (performAll (nestedWithin k.levels) k.scope)) k.opened () k.session ∧
    runSegment (nestedWithin k.levels) k.segment k.data k.start =
      ensuring (recover (k.processor.stages.forM k.runStage) settleFault) Session.finished
        k.opened ∧
    (∀ pre post, k.processor.stages = pre ++ .handler :: post → pre = k.before) ∧
    (∀ k' : HandlerCall, k'.Made → k'.levels = k.levels → k'.segment = k.segment →
      k'.data = k.data → k'.start = k.start → k' = k) ∧
    (∀ pre script post t, k.processor.stages = pre ++ .hook script :: post → .handler ∈ pre →
      Returns (pre.forM k.runStage) k.opened () t →
      ∃ u before after, k.processor.hookScripts .after = before ++ script :: after ∧
        Returns (handle (nestedWithin k.levels) k.scope k.command k.processor.decl.handler)
          k.session () u ∧
        Returns (before.forM (performAll (nestedWithin k.levels) k.scope)) u () t) := by
  have hmade := h.made
  obtain ⟨given, hd, hcommand, hadmissible, -⟩ := hmade.dispatched.admissible
  refine ⟨?_, hadmissible, hmade.hooks_returned, ?_, ?_, ?_, ?_⟩
  · obtain ⟨raw, hresolve, rfl⟩ := delivery?_resolve hd
    exact ⟨raw, hresolve, hcommand⟩
  · have hsegment := hmade.dispatched.runSegment_eq (nestedWithin k.levels)
    rwa [handleBetweenHooks_eq_stages] at hsegment
  · intro pre post hplaced
    obtain ⟨after, hbefore⟩ := hmade.placed
    rw [(stages_eq_iff.mp hplaced).1, (stages_eq_iff.mp hbefore).1]
  · intro k' hk'
    exact hmade.unique hk'
  · intro pre script post t
    exact hmade.hook_after

/-- A handler that is called by a line which another command runs. -/
theorem nested_call_is_validated :
    let greet : ShellProcessor := .scripted "greet" [.record] [{ name := "name", required := true }]
    let shell : Session := .offering [greet, .scripted "outer" [.run "greet --name=ann"] []]
    ∃ k, Calls 2 "outer" shell k ∧ Admissible k.processor k.command ∧
      ∃ raw, k.start.resolve? raw = some k.processor := by
  intro greet shell
  let outer := (dispatch? shell "outer" .null).get (by decide +kernel)
  have houter : Dispatches shell "outer" .null outer.1 outer.2.1 outer.2.2.1 outer.2.2.2 :=
    dispatch?_eq_some_iff.mp (Option.some_get _).symm
  let moves := commandMoves (nestedWithin 1) outer.2.2.1 outer.1 outer.2.1 outer.2.2.2
  let move := moves.head (by decide +kernel)
  have hline : move.line? = some "greet --name=ann" := by decide +kernel
  let inner := (dispatch? move.start "greet --name=ann" .null).get (by decide +kernel)
  have hinner : Dispatches move.start "greet --name=ann" .null inner.1 inner.2.1 inner.2.2.1
      inner.2.2.2 := dispatch?_eq_some_iff.mp (Option.some_get _).symm
  have hstarts : ∀ rerun line (s : Session), splitLine line = [.segment line] →
      SegmentStarts rerun line s line .null s := by
    intro rerun line s hsplit
    refine ⟨[], [], ?_, rfl, rfl⟩
    unfold LineTrace
    rw [hsplit]
    exact .nil
  let k : HandlerCall :=
    { levels := 0, segment := "greet --name=ann", data := .null, start := move.start
      processor := inner.1, command := inner.2.1, scope := inner.2.2.1, opened := inner.2.2.2
      before := [], session := inner.2.2.2 }
  have hbefore : (inner.1.hookScripts .before).isEmpty = true := by decide +kernel
  have hafter : (inner.1.hookScripts .after).isEmpty = true := by decide +kernel
  have hplaced : inner.1.stages = [.handler] := by
    unfold Processor.stages
    rw [List.isEmpty_iff.mp hbefore, List.isEmpty_iff.mp hafter]
    rfl
  have hk : k.Made := ⟨hinner, ⟨[], hplaced⟩, returns_pure_iff.mpr ⟨rfl, rfl⟩⟩
  have hleads : LeadsTo (nestedWithin 1) "outer" shell "greet --name=ann" move.start :=
    ⟨"outer", .null, shell, hstarts _ _ _ (by decide +kernel),
      .action houter (List.head_mem _) hline⟩
  have hcalls : Calls 2 "outer" shell k :=
    .nested hleads (.here (hstarts _ _ _ (by decide +kernel)) hk)
  obtain ⟨⟨raw, hresolve, -⟩, hadmissible, -⟩ := calls_are_validated hcalls
  exact ⟨k, hcalls, hadmissible, raw, hresolve⟩

end Run

end CommandShell
