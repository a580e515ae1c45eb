import CommandShell.Proofs.Line.Admission
import CommandShell.Proofs.Line.Moves
import CommandShell.Proofs.Line.NestedRecord

/-!
# Exit codes of segments

How the way that a command ends decides the exit code of its segment.  An exit records its code,
and unwinds the command unless it is silent; the code of a segment is the last one that was
recorded.  A command can also be unwound by an exit that nothing has recorded, if the fault is
raised as such: it is reported with its code, and the segment ends with another one.

## Main definitions

* `Exit`: an exit, which may be silent.
* `Run.commandExits`: the exits of a command.
* `endCode`: the exit code of a segment with some exits.
* `Makes`: the run makes some exits.

## Main results

* `makes_command`: a command makes its exits, if it runs no lines.
* `segment_code`: the exit code, the report and the status of a segment.
-/

namespace CommandShell

/-- An exit: its code is recorded, and unless it is silent what runs is unwound. -/
structure Exit where
  /-- The code. -/
  code : ExitCode
  /-- Whether what runs goes on. -/
  silent : Bool

/-- The exit that an action is. -/
def Action.exit? : Action → Option Exit
  | .exit code silent => some ⟨code, silent⟩
  | _ => none

/-- The exits among some moves. -/
def exitsIn (moves : List Move) : List Exit :=
  moves.filterMap (·.action.exit?)

/-- The exit with which a command on aliases refuses what it is given. -/
def Exit.refusal : Exit :=
  ⟨.int (-1), false⟩

/-- The recorded code after some exits, from the one before. -/
def lastCode (code : ExitCode) (exits : List Exit) : ExitCode :=
  exits.foldl (fun _ x => x.code) code

@[simp] theorem lastCode_nil (code : ExitCode) : lastCode code [] = code := rfl

@[simp] theorem lastCode_append (code : ExitCode) (pre post : List Exit) :
    lastCode code (pre ++ post) = lastCode (lastCode code pre) post :=
  List.foldl_append

@[simp] theorem lastCode_singleton (code : ExitCode) (x : Exit) : lastCode code [x] = x.code := rfl

/-- The exit code of a segment with some exits: that of the last one, or zero. -/
def endCode (exits : List Exit) : ExitCode :=
  if (lastCode .null exits).isNull then .int 0 else lastCode .null exits

theorem endCode_append_singleton {x : Exit} (pre : List Exit) (h : x.code.isNull = false) :
    endCode (pre ++ [x]) = x.code := by
  simp [endCode, h]

theorem endCode_not_null (exits : List Exit) : (endCode exits).isNull = false := by
  unfold endCode
  cases h : (lastCode .null exits).isNull with
  | true => rfl
  | false => simpa using h

/-- The aliases in a bucket; whatever counts as false stands for none. -/
def Session.aliasesOf? (s : Session) (bucket : String) : Except Fault Value := do
  return ((← (s.space.stateOf bucket).lookup aliasKey).nonEmpty?).getD (.map [])

/-- Whether a bucket lacks an alias of a name. -/
def Session.lacksAlias (s : Session) (bucket name : String) : Bool :=
  match s.aliasesOf? bucket with
  | .ok defined => (defined.containsText name).toOption == some false
  | .error _ => false

namespace Run

variable (rerun : String → Run Unit) (c : Scope) (p : ShellProcessor) (i : Invocation)

/-! ### Exits of commands -/

/-- Whether a command on aliases refuses what it is given: no alias to define, one with the name of
a command, or one to remove that is not there. -/
def refuses (s : Session) : Handler Action → Bool
  | .defineAliases => i.args.isEmpty || i.args.any fun e => s.registry.has e.1
  | .removeAlias => s.lacksAlias c.bucket (i.text.getD "")
  | _ => false

/-- The exits of a handler. -/
def handlerExits (h : Handler Action) (s : Session) : List Exit :=
  exitsIn (handlerMoves rerun c i h s) ++ if refuses c i s h then [.refusal] else []

/-- The exits of a stage. -/
def stageExits : Stage → Session → List Exit
  | .hook script, s => exitsIn (movesOfAll rerun c script s)
  | .handler, s => handlerExits rerun c i p.decl.handler s

/-- The exits of a command, up to the one that unwinds it. -/
def commandExits : Session → List Exit :=
  along (runStage rerun c p i) (stageExits rerun c p i) p.stages

end Run

/-! ### Runs that make exits -/

/-- The run makes the exits: it leaves the last of their codes, and they are silent, or the last of
them alone is not and unwinds the run. -/
structure Makes {α : Type} (x : Run α) (s : Session) (exits : List Exit) : Prop where
  code : (x s).2.process.exitCode = lastCode s.process.exitCode exits
  silent : (∀ e ∈ exits, e.silent = true) ∨
    ∃ pre code t, exits = pre ++ [⟨code, false⟩] ∧ (∀ e ∈ pre, e.silent = true) ∧
      Stops x s (.fault (.exited code)) t

namespace Makes

variable {α β : Type} {x y : Run α} {g : α → Run β} {s t : Session} {a : α} {code : ExitCode}
  {exits : List Exit} {did : α → Session → List Exit} {e : Stop}

theorem of_eq (heq : x s = y t) (hs : s.process = t.process) (h : Makes y t exits) :
    Makes x s exits := by
  refine ⟨by rw [heq, hs]; exact h.code, h.silent.imp_right ?_⟩
  rintro ⟨pre, code, u, hexits, hpre, hstops⟩
  exact ⟨pre, code, u, hexits, hpre, heq.trans hstops⟩

/-- What keeps the exit code makes no exit. -/
theorem of_keeps (h : (x s).2.process.exitCode = s.process.exitCode) : Makes x s [] :=
  ⟨h, Or.inl (List.forall_mem_nil _)⟩

/-- What is unwound by an exit that it has recorded makes this exit. -/
theorem of_stops (h : Stops x s (.fault (.exited code)) t) (ht : t.process.exitCode = code) :
    Makes x s [⟨code, false⟩] := by
  refine ⟨?_, Or.inr ⟨[], code, t, rfl, List.forall_mem_nil _, h⟩⟩
  rw [show x s = _ from h]
  exact ht

/-- What follows a run that returns and makes no exit makes the exits from there. -/
theorem bind_of_returns (h : Returns x s a t) (ht : t.process = s.process)
    (hg : Makes (g a) t exits) : Makes (x >>= g) s exits :=
  of_eq (by rw [bind_apply, show x s = _ from h]) ht.symm hg

theorem bind_of_stops (h : Stops x s e t) (ht : t.process = s.process) : Makes (x >>= g) s [] := by
  refine of_keeps ?_
  rw [bind_apply, show x s = _ from h]
  exact congrArg ProcessRecord.exitCode ht

theorem silent_of_returns (h : Makes x s exits) (hx : Returns x s a t) :
    ∀ e ∈ exits, e.silent = true := by
  rcases h.silent with hsilent | ⟨pre, code, u, -, -, hstops⟩
  · exact hsilent
  · exact absurd hstops hx.not_stops

/-- The exits of two runs, one after the other. -/
theorem bind (hx : Makes x s exits) (hg : ∀ a t, Returns x s a t → Makes (g a) t (did a t)) :
    Makes (x >>= g) s (exits ++ doneAfter x did s) := by
  rcases returns_or_stops x s with ⟨a, t, h⟩ | ⟨e, t, h⟩
  · have hrest := hg a t h
    have hrun : (x >>= g) s = g a t := by rw [bind_apply, show x s = _ from h]
    have hcode : t.process.exitCode = lastCode s.process.exitCode exits := by
      have hx := hx.code
      rwa [show x s = _ from h] at hx
    rw [doneAfter_of_returns h]
    refine ⟨by rw [hrun, hrest.code, hcode, lastCode_append], ?_⟩
    have hsilent := hx.silent_of_returns h
    rcases hrest.silent with hafter | ⟨pre, code, u, hpre, hafter, hstops⟩
    · exact Or.inl (List.forall_mem_append.mpr ⟨hsilent, hafter⟩)
    · refine Or.inr ⟨exits ++ pre, code, u, by rw [hpre, List.append_assoc], ?_, ?_⟩
      · exact List.forall_mem_append.mpr ⟨hsilent, hafter⟩
      · exact hrun.trans hstops
  -- Nothing follows a run that stops, so its own exits are all there are.
  · have hrun : (x >>= g) s = (.error e, t) := by rw [bind_apply, show x s = _ from h]
    rw [doneAfter_of_stops h, List.append_nil]
    refine ⟨?_, hx.silent.imp_right ?_⟩
    · rw [hrun, ← hx.code, show x s = _ from h]
    · rintro ⟨pre, code, u, hexits, hpre, hstops⟩
      obtain ⟨rfl, rfl⟩ := h.unique hstops
      exact ⟨pre, code, t, hexits, hpre, hrun⟩

/-- The exits of what follows a run that makes none. -/
theorem keeps_bind (hx : Keeps x (·.process.exitCode))
    (hg : ∀ a t, Returns x s a t → Makes (g a) t (did a t)) :
    Makes (x >>= g) s (doneAfter x did s) :=
  (of_keeps (hx s)).bind hg

/-- The exits of a run that is followed by one that makes none. -/
theorem bind_keeps (hx : Makes x s exits) (hg : ∀ a, Keeps (g a) (·.process.exitCode)) :
    Makes (x >>= g) s exits := by
  have hnone : doneAfter x (fun _ _ => ([] : List Exit)) s = [] := by
    unfold doneAfter
    split <;> rfl
  have h : Makes (x >>= g) s (exits ++ doneAfter x (fun _ _ => []) s) :=
    hx.bind fun a t _ => of_keeps (hg a t)
  rwa [hnone, List.append_nil] at h

/-- The exits along some runs, if nothing that is done along them runs a line. -/
theorem along {run : β → Run Unit} {moves : β → Session → List Move}
    {made : β → Session → List Exit} {l : List β}
    (h : ∀ b s, (∀ m ∈ moves b s, m.line? = none) → Makes (run b) s (made b s))
    (hlines : ∀ m ∈ CommandShell.along run moves l s, m.line? = none) :
    Makes (l.forM run) s (CommandShell.along run made l s) := by
  induction l generalizing s with
  | nil => exact of_keeps rfl
  | cons b l ih =>
    rw [CommandShell.along, List.forall_mem_append] at hlines
    refine (h b s hlines.1).bind fun _ t ht => ih fun m hm => hlines.2 m ?_
    exact mem_doneAfter_iff.mpr ⟨_, t, ht, hm⟩

end Makes

namespace Run

variable {rerun : String → Run Unit} {c : Scope} {p : ShellProcessor} {i : Invocation}
  {s t u v : Session} {text : String} {data : Value} {f : Fault} {code : ExitCode}

/-! ### Scripts -/

theorem makes_of_keepsProcess {α : Type} {x : Run α} (h : Keeps x (·.process)) : Makes x s [] :=
  .of_keeps (congrArg ProcessRecord.exitCode (h s))

theorem makes_exit {α : Type} (code : ExitCode) : Makes (exit code : Run α) s [⟨code, false⟩] :=
  .of_stops rfl rfl

/-- A payload is no exit. -/
theorem makes_output {α : Type} {x : Run α} {payload : α → Value} (h : Keeps x (·.process)) :
    Makes (x >>= fun a => process (·.output (payload a))) s [] :=
  (makes_of_keepsProcess h).bind_keeps fun _ _ => rfl

theorem keeps_invoked {member : String} : Keeps (invoked c member) (·.process) :=
  keepsProcess.invoked c member

theorem makes_conditional {a : Action} {actions : List Action}
    (ha : a.conditional? = some actions)
    (hscript : (∀ m ∈ movesOfAll rerun c actions s, m.line? = none) →
      Makes (performAll rerun c actions) s (exitsIn (movesOfAll rerun c actions s)))
    (h : ∀ m ∈ movesOf rerun c a s, m.line? = none) :
    Makes (perform rerun c a) s (exitsIn (movesOf rerun c a s)) := by
  rcases perform_conditional_cases c ha with hdone | ⟨r, hdone⟩
  · obtain ⟨hperform, hmoves⟩ := hdone rerun s
    rw [hmoves] at h ⊢
    exact .of_eq hperform rfl (hscript h)
  · obtain ⟨hperform, hmoves⟩ := hdone rerun s
    rw [hmoves]
    exact .of_keeps (by rw [hperform])

mutual

/-- An action that runs no line makes its exits. -/
theorem makes_perform (a : Action) (s : Session)
    (h : ∀ m ∈ movesOf rerun c a s, m.line? = none) :
    Makes (perform rerun c a) s (exitsIn (movesOf rerun c a s)) := by
  cases a with
  | output v => unfold perform; exact .of_keeps rfl
  | outputData => unfold perform; exact makes_output keeps_invoked
  | outputText => unfold perform; exact makes_output keeps_invoked
  | outputArgs => unfold perform; exact makes_output keeps_invoked
  | outputFile path => unfold perform; exact makes_output (keepsProcess.readFile path)
  | exit code silent =>
    unfold perform
    cases silent with
    | true => exact ⟨rfl, Or.inl (List.forall_mem_singleton.mpr rfl)⟩
    | false => exact makes_exit code
  | run line => cases h ⟨.run line, c, s⟩ (List.mem_singleton.mpr rfl)
  -- Without a command there is no line that describes it, which is reported.
  | help =>
    have hnone : c.invocation.map (fun i => helpLine i.raw) = none :=
      h ⟨.help, c, s⟩ (List.mem_singleton.mpr rfl)
    unfold perform invoked
    rw [Option.map_eq_none_iff.mp hnone]
    exact .of_keeps rfl
  | ifText _ actions | ifArgument _ actions =>
    exact makes_conditional rfl (makes_performAll actions s) h
  | _ => exact makes_of_keepsProcess (keepsProcess.perform (g := rerun) c _ rfl)

theorem makes_performAll (actions : List Action) (s : Session)
    (h : ∀ m ∈ movesOfAll rerun c actions s, m.line? = none) :
    Makes (performAll rerun c actions) s (exitsIn (movesOfAll rerun c actions s)) := by
  cases actions with
  | nil => exact .of_keeps rfl
  | cons a rest =>
    unfold performAll movesOfAll at *
    rw [List.forall_mem_append] at h
    unfold exitsIn
    rw [List.filterMap_append, filterMap_doneAfter]
    refine (makes_perform a s h.1).bind fun _ t ht => makes_performAll rest t fun m hm => h.2 m ?_
    exact mem_doneAfter_iff.mpr ⟨_, t, ht, hm⟩

end

/-! ### Descriptions -/

/-- What a processor adds to its description makes its exits. -/
theorem makes_describeOwn (h : ∀ m ∈ describerMoves rerun c p s, m.line? = none) :
    Makes (describeOwn rerun c p) s (exitsIn (describerMoves rerun c p s)) := by
  unfold describeOwn describerMoves at *
  cases hd : p.decl.describer with
  | none => exact .of_keeps rfl
  | some d =>
    rw [hd] at h
    cases d with
    | script actions => exact makes_performAll actions s h
    | helpUsage => exact makes_of_keepsProcess (keepsProcess.printLines _)

/-- A description makes the exits of what the processor adds to it. -/
theorem makes_describe {q : ShellProcessor}
    (h : ∀ m ∈ doneAfter (describeHead q) (fun _ => describerMoves rerun c q) s, m.line? = none) :
    Makes (describe rerun c q) s
      (exitsIn (doneAfter (describeHead q) (fun _ => describerMoves rerun c q) s)) := by
  rw [describe_eq, exitsIn, filterMap_doneAfter]
  have hhead : Keeps (describeHead q) (·.process) := keepsProcess.describeHead q
  have htail : Keeps (describeTail q) (·.process) := keepsProcess.describeTail q
  refine Makes.keeps_bind (fun t => congrArg _ (hhead t)) fun _ t ht => ?_
  have hown := makes_describeOwn fun m hm => h m (mem_doneAfter_iff.mpr ⟨_, t, ht, hm⟩)
  exact hown.bind_keeps fun _ t => congrArg _ (htail t)

/-- What `help` prints makes the exits of what processors add to their descriptions. -/
theorem makes_help (h : ∀ m ∈ helpMoves rerun c i s, m.line? = none) :
    Makes (help rerun c i) s (exitsIn (helpMoves rerun c i s)) := by
  have htell := keepsProcess.toTellingCongruence
  unfold help helpMoves at *
  cases hwords : (splitWords i.command).drop 1 with
  | nil => exact makes_of_keepsProcess htell.describeAll
  | cons name chain =>
    rw [hwords] at h
    refine .bind_of_returns (returns_get_iff.mpr ⟨rfl, rfl⟩) rfl ?_
    dsimp only at h ⊢
    cases hfound : s.registry.find? name chain with
    | none => exact .of_keeps rfl
    | some q =>
      rw [hfound] at h
      exact makes_describe h

/-! ### Commands on aliases -/

/-- To refuse is to say why and to exit, so that nothing follows. -/
theorem makes_refuse {α : Type} {message : String} {g : PUnit → Run α} :
    Makes (say .error message >>= fun _ => exit Exit.refusal.code >>= g) s [.refusal] :=
  .of_stops rfl rfl

/-- An alias with the name of a command is refused. -/
theorem announceAlias_of_taken {name : String} {target : Value} (h : s.registry.has name = true) :
    Stops (announceAlias name target) s (.fault (.exited Exit.refusal.code)) { s with
      process := s.process.exit Exit.refusal.code
      journal := .print (Style.error.mark
        (escapeMarkup name ++ " cannot be aliased to " ++ escapeMarkup target.shown)) ::
          s.journal } := by
  refine stops_bind_iff.mpr (Or.inr ⟨s, s, returns_get_iff.mpr ⟨rfl, rfl⟩, ?_⟩)
  dsimp only
  rw [h, if_pos rfl]
  rfl

/-- To announce an alias that is not refused changes nothing but the journal. -/
theorem announceAlias_of_free {name : String} {target : Value}
    (h : s.registry.has name = false) :
    Returns (announceAlias name target) s () { s with
      journal := .print (Style.info.mark (escapeMarkup name ++ " -> " ++ escapeMarkup target.shown))
        :: s.journal } := by
  refine returns_bind_iff.mpr ⟨s, s, returns_get_iff.mpr ⟨rfl, rfl⟩, ?_⟩
  dsimp only
  rw [h, if_neg Bool.false_ne_true]
  exact returns_say_iff.mpr rfl

/-- The aliases to be defined are announced up to one with the name of a command. -/
theorem makes_announceAll (targets : Entries Value) (s : Session) :
    Makes (targets.forM fun e => announceAlias e.1 e.2) s
      (if targets.any fun e => s.registry.has e.1 then [.refusal] else []) := by
  induction targets generalizing s with
  | nil => exact .of_keeps rfl
  | cons e targets ih =>
    rw [List.any_cons]
    cases htaken : s.registry.has e.1 with
    | true =>
      exact .of_stops (stops_bind_iff.mpr (Or.inl (announceAlias_of_taken htaken))) rfl
    | false => exact .bind_of_returns (announceAlias_of_free htaken) rfl (ih _)

theorem makes_defineAliases :
    Makes (defineAliases c i) s (if refuses c i s .defineAliases then [.refusal] else []) := by
  unfold defineAliases refuses
  cases hempty : i.args.isEmpty with
  | true => exact makes_refuse
  | false =>
    rw [if_neg Bool.false_ne_true, Bool.false_or]
    refine (makes_announceAll i.args s).bind_keeps fun _ t => congrArg ProcessRecord.exitCode ?_
    have hkeep : ∀ defined : Value, Keeps
        (ofExcept (defined.mapEntries .notMapping) >>= fun current => keepAliases c.bucket
          (Entries.overlay current (i.args.map fun e => (e.1, .text e.2.shown)))) (·.process) :=
      fun _ => keeps_ofExcept.bind fun _ => keepsProcess.keepAliases _ _
    exact ((keepsProcess.definedAliases c.bucket).bind hkeep) t

/-- To read the aliases changes nothing. -/
theorem definedAliases_apply (bucket : String) (s : Session) :
    definedAliases bucket s = (Stop.ofExcept (s.aliasesOf? bucket), s) := by
  unfold definedAliases Session.aliasesOf?
  show ((ofExcept ((s.space.stateOf bucket).lookup aliasKey) >>= fun v =>
    pure (v.nonEmpty?.getD (.map [])) : Run Value) s) = _
  cases (s.space.stateOf bucket).lookup aliasKey <;> rfl

theorem makes_removeAlias :
    Makes (removeAlias c i) s (if refuses c i s .removeAlias then [.refusal] else []) := by
  -- To keep what is left of the aliases does not concern the process record.
  have hrest : ∀ defined : Value, Keeps
      (ofExcept (defined.mapEntries fun kind => .noMember kind "items") >>= fun aliases =>
        keepAliases c.bucket (Entries.erase aliases (i.text.getD "")) >>= fun _ =>
          say .success ("Removed alias " ++ escapeMarkup (i.text.getD ""))) (·.process) :=
    fun _ => keeps_ofExcept.bind fun _ => (keepsProcess.keepAliases _ _).bind fun _ _ => rfl
  have hread := definedAliases_apply c.bucket s
  unfold removeAlias
  cases hdefined : s.aliasesOf? c.bucket with
  | error f =>
    have hno : refuses c i s .removeAlias = false := by simp [refuses, Session.lacksAlias, hdefined]
    rw [hdefined] at hread
    rw [hno, if_neg Bool.false_ne_true]
    exact .bind_of_stops hread rfl
  | ok defined =>
    have hrefuses : refuses c i s .removeAlias =
        ((defined.containsText (i.text.getD "")).toOption == some false) := by
      simp [refuses, Session.lacksAlias, hdefined]
    rw [hdefined] at hread
    rw [hrefuses]
    refine .bind_of_returns hread rfl ?_
    cases hfound : defined.containsText (i.text.getD "") with
    | error f => exact .bind_of_stops (stops_ofExcept_iff.mpr ⟨f, rfl, rfl, rfl⟩) rfl
    | ok found =>
      refine .bind_of_returns (returns_ofExcept_iff.mpr ⟨rfl, rfl⟩) rfl ?_
      cases found with
      | false => exact makes_refuse
      | true => exact makes_of_keepsProcess (hrest defined)

/-- A handler makes its exits, if it runs no lines. -/
theorem makes_handle (h : ∀ m ∈ handlerMoves rerun c i p.decl.handler s, m.line? = none) :
    Makes (handle rerun c i p.decl.handler) s (handlerExits rerun c i p.decl.handler s) := by
  unfold handlerExits handlerMoves at *
  cases hp : p.decl.handler with
  | script actions =>
    rw [hp] at h
    have hno : refuses c i s (.script actions) = false := rfl
    rw [hno, if_neg Bool.false_ne_true, List.append_nil]
    exact makes_performAll actions s h
  | help =>
    rw [hp] at h
    have hno : refuses c i s .help = false := rfl
    rw [hno, if_neg Bool.false_ne_true, List.append_nil]
    exact makes_help h
  | defineAliases => exact makes_defineAliases
  | listAliases => exact makes_of_keepsProcess (keepsProcess.listAliases c)
  | removeAlias => exact makes_removeAlias
  | echo => exact .of_keeps rfl

/-- A command makes its exits, if it runs no lines. -/
theorem makes_command (h : ∀ m ∈ commandMoves rerun c p i s, m.line? = none) :
    Makes (handleBetweenHooks rerun c p i) s (commandExits rerun c p i s) := by
  rw [handleBetweenHooks_eq_stages]
  refine Makes.along (fun stage t hstage => ?_) h
  cases stage with
  | hook script => exact makes_performAll script t hstage
  | handler => exact makes_handle hstage

/-! ### Segments -/

/-- The segment returns with an exit code, and counts as successful just where the code is zero. -/
def EndsWith (rerun : String → Run Unit) (s : Session) (text : String) (data : Value)
    (code : ExitCode) (s' : Session) : Prop :=
  s'.process.exitCode = code ∧
    ∃ payload, Returns (runReported rerun text data) s ⟨Value.same code (.int 0), some payload⟩ s'

theorem endsWith_of_returns (h : Returns (runSegment rerun text data) s () t)
    (hcode : t.process.exitCode = code) (hnull : code.isNull = false) :
    EndsWith rerun s text data code t := by
  have hsucceeded : t.process.succeeded = Value.same code (.int 0) := by
    unfold ProcessRecord.succeeded ExitCode.succeeded
    rw [hcode, hnull, Bool.false_or]
  refine ⟨hcode, t.process.payload, returns_runReported_iff.mpr (Or.inl ⟨h, ?_⟩)⟩
  rw [hsucceeded]

/-- The exit code of a segment is that of its record, or zero. -/
theorem finished_exitCode {exits : List Exit} (h : t.process.exitCode = lastCode .null exits) :
    t.finished.process.exitCode = endCode exits := by
  show (if t.process.exitCode.isNull then .int 0 else t.process.exitCode : Value) = _
  rw [h]
  rfl

namespace Dispatches

/-- A segment whose handler and hooks return returns with their record finished. -/
theorem returns_runSegment (h : Dispatches s text data p i c u)
    (hv : Returns (handleBetweenHooks rerun c p i) u () v) :
    Returns (runSegment rerun text data) s () v.finished := by
  unfold Returns
  rw [h.runSegment_eq, ensuring_apply, recover_apply,
    show handleBetweenHooks rerun c p i u = _ from hv]

/-- A segment whose handler or hooks fail returns with the fault settled and the record finished. -/
theorem returns_runSegment_of_fault (h : Dispatches s text data p i c u)
    (hv : Stops (handleBetweenHooks rerun c p i) u (.fault f) v) :
    ∃ t : Session, Returns (runSegment rerun text data) s () t.finished ∧
      t.process = settledRecord v.process f ∧ t.journal.head? = some (faultReport f) := by
  obtain ⟨t, ht, hp, hj⟩ := returns_settleFault f v
  refine ⟨t, ?_, hp, hj⟩
  unfold Returns
  rw [h.runSegment_eq, ensuring_apply, recover_apply,
    show handleBetweenHooks rerun c p i u = _ from hv]
  dsimp only
  rw [show settleFault f v = _ from ht]

end Dispatches

/-- How the end of a command decides the exit code of its segment, if it runs no lines.  A command
that returns gives the code of its last exit, which was silent, or zero.  One that fails is reported
and gives `-1`.  One that is unwound by an exit is reported with the code of this exit, and it also
gives this code if the exit was recorded; but an exit that was raised as a fault and not recorded
leaves the code to the silent ones before it. -/
theorem segment_code (rerun : String → Run Unit) (h : Dispatches s text data p i c u)
    (hlines : ∀ m ∈ commandMoves rerun c p i u, m.line? = none) :
    (∀ v, Returns (handleBetweenHooks rerun c p i) u () v →
      (∀ e ∈ commandExits rerun c p i u, e.silent = true) ∧
        ∃ s', EndsWith rerun s text data (endCode (commandExits rerun c p i u)) s') ∧
    (∀ code v, Stops (handleBetweenHooks rerun c p i) u (.fault (.exited code)) v →
      ∃ s', EndsWith rerun s text data (endCode (commandExits rerun c p i u)) s' ∧
        s'.journal.head? = some (faultReport (.exited code)) ∧
        ((∃ pre, commandExits rerun c p i u = pre ++ [⟨code, false⟩] ∧
            (∀ e ∈ pre, e.silent = true) ∧
            (code.isNull = false → endCode (commandExits rerun c p i u) = code)) ∨
          ∀ e ∈ commandExits rerun c p i u, e.silent = true)) ∧
    (∀ f v, (∀ code, f ≠ .exited code) →
      Stops (handleBetweenHooks rerun c p i) u (.fault f) v →
      ∃ s', EndsWith rerun s text data (.int (-1)) s' ∧
        s'.journal.head? = some (faultReport f)) := by
  have hmakes := makes_command hlines
  obtain ⟨given, -, -, -, hscope⟩ := h.admissible
  have hstart : u.process.exitCode = .null := by rw [process_of_openScope hscope]; rfl
  have hnull := endCode_not_null (commandExits rerun c p i u)
  have hcode : ∀ v r, handleBetweenHooks rerun c p i u = (r, v) →
      v.process.exitCode = lastCode .null (commandExits rerun c p i u) := by
    intro v r hv
    rw [← hstart, ← hmakes.code, hv]
  refine ⟨fun v hv => ?_, fun code v hv => ?_, fun f v hf hv => ?_⟩
  · have hfinished := finished_exitCode (hcode v _ hv)
    have hends := endsWith_of_returns (h.returns_runSegment hv) hfinished hnull
    exact ⟨hmakes.silent_of_returns hv, _, hends⟩
  · obtain ⟨t, ht, hp, hj⟩ := h.returns_runSegment_of_fault hv
    have htcode : t.process.exitCode = lastCode .null (commandExits rerun c p i u) := by
      rw [hp]
      exact hcode v _ hv
    refine ⟨_, endsWith_of_returns ht (finished_exitCode htcode) hnull, hj, ?_⟩
    rcases hmakes.silent with hsilent | ⟨pre, code', v', hexits, hpre, hstops⟩
    · exact Or.inr hsilent
    -- What unwound the command is the exit that was recorded last.
    · obtain ⟨heq, -⟩ := hstops.unique hv
      cases heq
      refine Or.inl ⟨pre, hexits, hpre, fun hcodeNull => ?_⟩
      rw [hexits, endCode_append_singleton pre hcodeNull]
  · obtain ⟨t, ht, hp, hj⟩ := h.returns_runSegment_of_fault hv
    have htcode : t.finished.process.exitCode = Value.int (-1) := by
      show (t.process.finish).exitCode = _
      rw [hp]
      cases f with
      | exited code => exact absurd rfl (hf code)
      | _ => rfl
    exact ⟨_, endsWith_of_returns ht htcode rfl, hj⟩

/-- A run that is seen to be unwound by an exit with a whole number is. -/
theorem stops_of_exits {α : Type} (x : Run α) (s : Session) (n : Int)
    (h : (match (x s).1 with
      | .error (.fault (.exited (.int m))) => m == n
      | _ => false) = true) : Stops x s (.fault (.exited (.int n))) (x s).2 := by
  split at h
  · rename_i m hrun
    obtain rfl : m = n := by simpa using h
    exact Prod.ext hrun rfl
  · cases h

/-- An event that is seen to be a note with a tag is. -/
theorem eq_note_of_tag {e : Option Event} {tag : String}
    (h : (match e with | some (.note t) => t == tag | _ => false) = true) :
    e = some (.note tag) := by
  split at h
  · rw [eq_of_beq h]
  · cases h

/-- A command that exits silently and then aborts with another code gives the second one. -/
theorem segment_code_last_exit :
    let shell : Session :=
      .offering [.scripted "quit" [.exit (.int 3) true, .exit (.int 5) false] []]
    ∃ p i c u v s', Dispatches shell "quit" .null p i c u ∧
      (∀ m ∈ commandMoves nested c p i u, m.line? = none) ∧
      Stops (handleBetweenHooks nested c p i) u (.fault (.exited (.int 5))) v ∧
      EndsWith nested shell "quit" .null (.int 5) s' := by
  intro shell
  let found := (dispatch? shell "quit" .null).get (by decide +kernel)
  have h : Dispatches shell "quit" .null found.1 found.2.1 found.2.2.1 found.2.2.2 :=
    dispatch?_eq_some_iff.mp (Option.some_get _).symm
  have hlines : ∀ m ∈ commandMoves nested found.2.2.1 found.1 found.2.1 found.2.2.2,
      m.line? = none := by decide +kernel
  have hloud : ¬ ∀ e ∈ commandExits nested found.2.2.1 found.1 found.2.1 found.2.2.2,
      e.silent = true := by decide +kernel
  have hstops := stops_of_exits (handleBetweenHooks nested found.2.2.1 found.1 found.2.1)
    found.2.2.2 5 (by decide +kernel)
  obtain ⟨s', hends, -, ⟨pre, -, -, hcode⟩ | hsilent⟩ :=
    (segment_code nested h hlines).2.1 (.int 5) _ hstops
  · rw [hcode rfl] at hends
    exact ⟨_, _, _, _, _, s', h, hlines, hstops, hends⟩
  · exact absurd hsilent hloud

/-- An exit that is raised as a fault is reported with its code, and yet the segment ends with code
zero, so that `&&` goes on. -/
theorem raised_exit_counts_as_success :
    let shell : Session := .offering [.scripted "quit" [.fail (.exited (.int 5))] [],
      .scripted "next" [.note "next"] []]
    ∃ p i c u v s' t, Dispatches shell "quit" .null p i c u ∧
      (∀ m ∈ commandMoves nested c p i u, m.line? = none) ∧
      Stops (handleBetweenHooks nested c p i) u (.fault (.exited (.int 5))) v ∧
      s'.journal.head? = some (faultReport (.exited (.int 5))) ∧
      EndsWith nested shell "quit" .null (.int 0) s' ∧
      Returns (runLine "quit && next") shell true t ∧ t.journal.head? = some (.note "next") := by
  intro shell
  let found := (dispatch? shell "quit" .null).get (by decide +kernel)
  let work := handleBetweenHooks nested found.2.2.1 found.1 found.2.1
  have h : Dispatches shell "quit" .null found.1 found.2.1 found.2.2.1 found.2.2.2 :=
    dispatch?_eq_some_iff.mp (Option.some_get _).symm
  have hlines : ∀ m ∈ commandMoves nested found.2.2.1 found.1 found.2.1 found.2.2.2,
      m.line? = none := by decide +kernel
  have hstops := stops_of_exits work found.2.2.2 5 (by decide +kernel)
  have hnone : (work found.2.2.2).2.process.exitCode.isNull = true := by decide +kernel
  obtain ⟨t, ht, hp, hj⟩ := h.returns_runSegment_of_fault hstops
  have hcode : t.finished.process.exitCode = Value.int 0 := by
    show (if t.process.exitCode.isNull then .int 0 else t.process.exitCode : Value) = _
    rw [hp, settledRecord, if_pos hnone]
  obtain ⟨ok, hline, rfl⟩ := exists_returns_of_map (runLine "quit && next") shell id true
    (by decide +kernel)
  have hhead : (runLine "quit && next" shell).2.journal.head? = some (.note "next") :=
    eq_note_of_tag (by decide +kernel)
  have hends := endsWith_of_returns ht hcode rfl
  exact ⟨_, _, _, _, _, t.finished, _, h, hlines, hstops, hj, hends, hline, hhead⟩

end Run

end CommandShell
