import CommandShell.Proofs.Congruence.Script
import CommandShell.Proofs.Line.Segment

/-!
# Relations between runs: lines

A relation that is kept by everything that segments are made of holds between two segments if it
holds between the lines that these lead to; a relation that `>>` keeps as well goes on to chains and
to lines.  Of the buckets, the registry and the files only whole operations are looked at, so what
such a relation says of them is what the operations keep.

## Main definitions

* `FrameCongruence`: a relation that is kept by what surrounds the handler of a command.
* `UnpinnedCongruence`: a relation that is kept by everything that segments are made of, but for
  pins.
* `SegmentCongruence`: a relation that is kept by everything that segments are made of.
* `ChainCongruence`: one that `>>` keeps as well.
* `LineCongruence`: one that every change of the session keeps.

## Main results

* `SegmentCongruence.performAll`: all scripts.
* `SegmentCongruence.dispatch`: commands.
* `SegmentCongruence.runReported`: segments.
* `ChainCongruence.runLineWith`: lines.
-/

namespace CommandShell

/-- A relation between runs that is kept by what surrounds the handler of a command. -/
structure FrameCongruence (C : ∀ α : Type, Run α → Run α → Prop) : Prop
    extends AbortCongruence C where
  recover {α : Type} {x y : Run α} {f g : Fault → Run α} :
    C α x y → (∀ e, C α (f e) (g e)) → C α (Run.recover x f) (Run.recover y g)
  process (f : ProcessRecord → ProcessRecord) : C Unit (Run.process f) (Run.process f)
  finishing {x y : Run Unit} :
    C Unit x y → C Unit (Run.ensuring x Session.finished) (Run.ensuring y Session.finished)

namespace FrameCongruence

open TellingCongruence (ite)

variable {C : ∀ α : Type, Run α → Run α → Prop} (hC : FrameCongruence C)
  {f g : String → Run Unit} (p : ShellProcessor) (i : Invocation)

include hC

theorem exit {α : Type} (code : ExitCode) : C α (Run.exit code) (Run.exit code) :=
  hC.bind (hC.process _) fun _ => hC.fail _

theorem exitSilently (code : Int) : C Unit (Run.exitSilently code) (Run.exitSilently code) :=
  hC.process _

/-- A refusal that ends the command, and what follows if there is none. -/
theorem unlessRefused {α : Type} {p : Prop} [Decidable p] {message : String} {code : ExitCode}
    {f g : PUnit → Run α} (h : ∀ u, C α (f u) (g u)) :
    C α (if p then Run.say .error message >>= fun _ => Run.exit code >>= f else f ⟨⟩)
      (if p then Run.say .error message >>= fun _ => Run.exit code >>= g else g ⟨⟩) :=
  ite (hC.bind (hC.say _ _) fun _ => hC.bind (hC.exit _) h) (h _)

theorem announceAlias (name : String) (target : Value) :
    C Unit (Run.announceAlias name target) (Run.announceAlias name target) := by
  unfold Run.announceAlias
  exact hC.bind hC.get fun s => hC.unlessRefused fun _ => hC.say _ _

theorem settleFault (f : Fault) : C Unit (Run.settleFault f) (Run.settleFault f) := by
  unfold Run.settleFault
  split
  · exact hC.bind hC.abort fun _ => ite (hC.say _ _) (hC.say _ _)
  · refine hC.bind hC.hideIndicators fun _ => hC.bind (hC.reportFailure _) fun _ => ?_
    exact hC.exitSilently _

theorem commandNotFound (name : String) :
    C Unit (Run.commandNotFound name) (Run.commandNotFound name) := by
  refine hC.bind (hC.say _ _) fun _ => hC.bind (hC.print _) fun _ => ?_
  exact hC.bind (hC.say _ _) fun _ => hC.exitSilently _

theorem expansionTooDeep (word : String) :
    C Unit (Run.expansionTooDeep word) (Run.expansionTooDeep word) :=
  hC.bind (hC.say _ _) fun _ => hC.exitSilently _

theorem showHelp (hlines : ∀ line, C Unit (f line) (g line)) (raw : String) :
    C Unit (Run.showHelp f raw) (Run.showHelp g raw) :=
  hC.recover (hlines _) fun _ => hC.reportFailure _

/-- Everything from a processor on, if it holds of the pin and of what is dispatched. -/
theorem reach_of_dispatch (hlines : ∀ line, C Unit (f line) (g line))
    (hpin : C Unit (Run.pin (some p) false) (Run.pin (some p) false))
    (hdispatch : ∀ i, C Unit (Run.dispatch f p i) (Run.dispatch g p i)) :
    C Unit (Run.reach f p i) (Run.reach g p i) := by
  have hchecked : ∀ i, C Unit (Run.reachChecked f p i) (Run.reachChecked g p i) := by
    intro i
    unfold Run.reachChecked
    refine ite (hC.bind (hC.say _ _) fun _ => hC.exitSilently _) ?_
    refine hC.bind (hC.ofExcept _) fun verdict => ?_
    split
    · exact hdispatch i
    · exact hC.bind (hC.say _ _) fun _ => hC.exitSilently _
  unfold Run.reach
  refine ite (hC.print _) (ite (hC.showHelp hlines _) ?_)
  refine ite hpin (hC.bind (hC.parametersFit _ _) fun fit => ?_)
  exact ite (hC.exitSilently _) (hchecked _)

theorem runReported_of_runSegment (segment : String) (data : Value)
    (h : C Unit (Run.runSegment f segment data) (Run.runSegment g segment data)) :
    C SegmentOutcome (Run.runReported f segment data) (Run.runReported g segment data) := by
  refine hC.recover (hC.bind h fun _ => ?_) fun f => ?_
  · exact hC.bind hC.get fun s => hC.pure _
  · exact hC.bind (hC.log _ _ _) fun _ => hC.bind (hC.say _ _) fun _ => hC.pure _

end FrameCongruence

/-- A relation between runs that is kept by everything that segments are made of, but for pins. -/
structure UnpinnedCongruence (C : ∀ α : Type, Run α → Run α → Prop) : Prop
    extends StillCongruence C, FrameCongruence C where
  newToken : C Nat Run.newToken Run.newToken

namespace UnpinnedCongruence

open TellingCongruence (ite)

variable {C : ∀ α : Type, Run α → Run α → Prop} (hC : UnpinnedCongruence C)
  {f g : String → Run Unit} (c : Scope) (i : Invocation) (p : ShellProcessor)

include hC

/-! ### Aliases -/

theorem defineAliases : C Unit (Run.defineAliases c i) (Run.defineAliases c i) := by
  unfold Run.defineAliases
  refine hC.unlessRefused fun _ => ?_
  refine hC.bind (hC.forM (fun _ => hC.announceAlias _ _) _) fun _ => ?_
  exact hC.bind (hC.definedAliases _) fun _ => hC.bind (hC.ofExcept _) fun _ => hC.keepAliases _ _

theorem removeAlias : C Unit (Run.removeAlias c i) (Run.removeAlias c i) := by
  unfold Run.removeAlias
  refine hC.bind (hC.definedAliases _) fun _ => hC.bind (hC.ofExcept _) fun _ => ?_
  refine hC.unlessRefused fun _ => hC.bind (hC.ofExcept _) fun _ => ?_
  exact hC.bind (hC.keepAliases _ _) fun _ => hC.say _ _

/-! ### Plain actions and scopes -/

/-- A plain action does the same however lines run. -/
theorem perform (a : Action) (hplain : a.isPlain = true) :
    C Unit (Run.perform f c a) (Run.perform g c a) := by
  cases a with
  | output => unfold Run.perform; exact hC.process _
  | outputData => unfold Run.perform; exact hC.bind (hC.invoked _ _) fun _ => hC.process _
  | outputText => unfold Run.perform; exact hC.bind (hC.invoked _ _) fun _ => hC.process _
  | outputArgs => unfold Run.perform; exact hC.bind (hC.invoked _ _) fun _ => hC.process _
  | outputFile => unfold Run.perform; exact hC.bind (hC.readFile _) fun _ => hC.process _
  | exit code silent =>
    unfold Run.perform
    exact ite (hC.process _) (hC.exit _)
  | run | help | pin | ifText | ifArgument => cases hplain
  | _ => exact hC.toStillCongruence.perform c _ rfl rfl

theorem openScope : C Scope (Run.openScope p) (Run.openScope p) :=
  hC.bind (hC.openBucket p) fun _ => hC.bind hC.newToken fun _ => hC.pure _

end UnpinnedCongruence

/-- A relation between runs that is kept by everything that segments are made of. -/
structure SegmentCongruence (C : ∀ α : Type, Run α → Run α → Prop) : Prop
    extends UnpinnedCongruence C, ActionCongruence C

namespace SegmentCongruence

variable {C : ∀ α : Type, Run α → Run α → Prop} (hC : SegmentCongruence C)
  {f g : String → Run Unit} (c : Scope) (i : Invocation) (p : ShellProcessor)

include hC

/-! ### Scripts -/

mutual

/-- Actions that run lines which are related are related themselves. -/
theorem perform (hlines : ∀ line, C Unit (f line) (g line)) (a : Action) :
    C Unit (Run.perform f c a) (Run.perform g c a) := by
  cases a with
  | run line => unfold Run.perform; exact hlines line
  | help =>
    unfold Run.perform
    exact hC.recover (hC.bind (hC.invoked _ _) fun _ => hlines _) fun _ => hC.reportFailure _
  | ifText v actions =>
    unfold Run.perform
    exact hC.bind (hC.invoked _ _) fun _ => hC.when (performAll hlines actions)
  | ifArgument name actions =>
    unfold Run.perform
    exact hC.bind (hC.invoked _ _) fun _ => hC.when (performAll hlines actions)
  | pin => exact hC.toActionCongruence.perform c _ rfl
  | _ => exact hC.toUnpinnedCongruence.perform c _ rfl

theorem performAll (hlines : ∀ line, C Unit (f line) (g line)) (actions : List Action) :
    C Unit (Run.performAll f c actions) (Run.performAll g c actions) := by
  cases actions with
  | nil => unfold Run.performAll; exact hC.pure _
  | cons a rest =>
    unfold Run.performAll
    exact hC.bind (perform hlines a) fun _ => performAll hlines rest

end

variable (hlines : ∀ line, C Unit (f line) (g line))

include hlines

/-! ### Dispatching commands -/

theorem help : C Unit (Run.help f c i) (Run.help g c i) := by
  refine hC.toTellingCongruence.help c i fun p d _ => ?_
  cases d with
  | script actions => exact hC.performAll _ hlines actions
  | helpUsage => exact hC.printLines _

theorem handle (h : Handler Action) :
    C Unit (Run.handle f c i h) (Run.handle g c i h) := by
  cases h with
  | script actions => exact hC.performAll _ hlines actions
  | help => exact hC.help c i hlines
  | defineAliases => exact hC.defineAliases c i
  | listAliases => exact hC.listAliases c
  | removeAlias => exact hC.removeAlias c i
  | echo => exact hC.bind (hC.print _) fun _ => hC.process _

theorem handleBetweenHooks :
    C Unit (Run.handleBetweenHooks f c p i) (Run.handleBetweenHooks g c p i) := by
  have hhooks : ∀ phase, C Unit (Run.runHooks f c p phase) (Run.runHooks g c p phase) :=
    fun phase => hC.forM (fun _ => hC.performAll c hlines _) _
  exact hC.bind (hhooks _) fun _ => hC.bind (hC.handle c i hlines _) fun _ => hhooks _

theorem dispatch : C Unit (Run.dispatch f p i) (Run.dispatch g p i) := by
  refine hC.bind (hC.openScope p) fun c => ?_
  exact hC.recover (hC.handleBetweenHooks c i p hlines) fun f => hC.settleFault f

theorem reach : C Unit (Run.reach f p i) (Run.reach g p i) :=
  hC.reach_of_dispatch p i hlines (hC.pin _ _) fun i => hC.dispatch i p hlines

/-! ### Segments and lines -/

theorem runSegmentWith (data : Value) {expand expand' : String → String → Run Unit}
    (hexpand : ∀ word expanded, C Unit (expand word expanded) (expand' word expanded))
    (segment : String) :
    C Unit (Run.runSegmentWith f data expand segment)
      (Run.runSegmentWith g data expand' segment) := by
  refine hC.finishing (hC.bind (hC.process _) fun _ => hC.bind hC.get fun s => ?_)
  split
  · exact hC.reach _ _ hlines
  · dsimp only
    split
    · exact hexpand _ _
    · exact hC.commandNotFound _

theorem runSegmentWithin (data : Value) (n : Nat) (segment : String) :
    C Unit (Run.runSegmentWithin f data n segment)
      (Run.runSegmentWithin g data n segment) := by
  induction n generalizing segment with
  | zero =>
    exact hC.runSegmentWith hlines data (fun word _ => hC.expansionTooDeep word) segment
  | succ n ih => exact hC.runSegmentWith hlines data (fun _ expanded => ih expanded) segment

theorem runReported (segment : String) (data : Value) :
    C SegmentOutcome (Run.runReported f segment data)
      (Run.runReported g segment data) :=
  hC.runReported_of_runSegment segment data (hC.runSegmentWithin hlines data _ segment)

end SegmentCongruence

/-- Chains of related segments are related. -/
theorem TellingCongruence.runChain_of_segments {C : ∀ α : Type, Run α → Run α → Prop}
    (hC : TellingCongruence C) {f g : String → Run Unit}
    (hsegment : ∀ text data,
      C SegmentOutcome (Run.runReported f text data) (Run.runReported g text data))
    (happend : ∀ path payload,
      C Bool (Run.appendPayload path payload) (Run.appendPayload path payload))
    (c : ChainState) (parts : List Part) :
    C ChainState (runChain (Run.chainRunner f) c parts) (runChain (Run.chainRunner g) c parts) := by
  induction c, parts using runChain.induct with
  | case1 => unfold runChain; exact hC.pure _
  -- A segment that runs or is left out.
  | case2 c text rest hrun ih =>
    unfold runChain
    rw [if_pos hrun, if_pos hrun]
    exact hC.bind (hsegment _ _) ih
  | case3 c text rest hrun ih =>
    unfold runChain
    rw [if_neg hrun, if_neg hrun]
    exact ih
  -- A `>>` with a path, and then one without.
  | case4 c path rest hrun ih =>
    unfold runChain
    rw [if_pos hrun, if_pos hrun]
    exact hC.bind (happend _ _) ih
  | case5 c path rest hrun ih =>
    unfold runChain
    rw [if_neg hrun, if_neg hrun]
    exact ih
  | case6 c op rest ih => unfold runChain; exact hC.bind (hC.say _ _) fun _ => ih
  | case7 c => unfold runChain; exact hC.bind (hC.say _ _) fun _ => hC.pure _
  | case8 c rest ih => unfold runChain; exact ih
  | case9 c rest ih => unfold runChain; exact ih
  | case10 c rest ih => unfold runChain; exact ih

/-- A relation between runs that is kept by everything that lines are made of. -/
structure ChainCongruence (C : ∀ α : Type, Run α → Run α → Prop) : Prop
    extends SegmentCongruence C where
  appendPayload (path : String) (payload : Value) :
    C Bool (Run.appendPayload path payload) (Run.appendPayload path payload)

namespace ChainCongruence

variable {C : ∀ α : Type, Run α → Run α → Prop} (hC : ChainCongruence C)
  {f g : String → Run Unit} (hlines : ∀ line, C Unit (f line) (g line))

include hC hlines

theorem runChain (c : ChainState) (parts : List Part) :
    C ChainState (CommandShell.runChain (Run.chainRunner f) c parts)
      (CommandShell.runChain (Run.chainRunner g) c parts) :=
  hC.runChain_of_segments (hC.runReported hlines) hC.appendPayload c parts

/-- Lines that run further lines which are related are related themselves. -/
theorem runLineWith (line : String) :
    C Bool (Run.runLineWith f line) (Run.runLineWith g line) :=
  hC.bind (hC.runChain hlines _ _) fun _ => hC.pure _

end ChainCongruence

/-- What is kept by faults that are handled and by every access to the files is kept by `>>`. -/
theorem TellingCongruence.appendPayload_of_access {C : ∀ α : Type, Run α → Run α → Prop}
    (hC : TellingCongruence C)
    (haccess : ∀ {α : Type} (x : FileAccess α), C α (Run.access x) (Run.access x))
    (hrecover : ∀ {α : Type} {x y : Run α} {f g : Fault → Run α},
      C α x y → (∀ e, C α (f e) (g e)) → C α (Run.recover x f) (Run.recover y g))
    (path : String) (payload : Value) :
    C Bool (Run.appendPayload path payload) (Run.appendPayload path payload) := by
  have happend : ∀ root,
      C Unit (Run.appendToFile root path payload) (Run.appendToFile root path payload) := by
    intro root
    unfold Run.appendToFile Run.resolvePath
    refine hC.bind (hC.bind hC.get fun _ => hC.ofExcept _) fun p => ?_
    exact hC.bind (haccess _) fun found => ite (haccess _) (haccess _)
  unfold Run.appendPayload
  refine hC.bind hC.get fun s => ?_
  split
  · refine ite (hC.pure _) (hrecover ?_ fun f => ?_)
    · exact hC.bind (happend _) fun _ => hC.pure _
    · exact ite (hC.bind (hC.say _ _) fun _ => hC.pure _) (hC.fail _)
  · exact hC.bind (hC.say _ _) fun _ => hC.pure _

/-- A relation between runs that is kept by everything that lines are made of, and by whatever else
leaves the process record and the tokens alone. -/
structure LineCongruence (C : ∀ α : Type, Run α → Run α → Prop) : Prop
    extends ScriptCongruence C, ChainCongruence C where
  appendPayload := TellingCongruence.appendPayload_of_access ⟨pure, throw, get, emit, bind⟩
    (fun _ => TellingCongruence.access_of_change ⟨pure, throw, get, emit, bind⟩ _
      fun _ => change fun _ => ⟨rfl, rfl, rfl, List.suffix_refl _⟩) recover

end CommandShell
