import CommandShell.Proofs.Congruence.Telling
import CommandShell.Proofs.Indicators

/-!
# Relations between runs: scripts without the process record

Actions may leave the process record alone and run no line.  A relation need not hold for changes of
the record to hold for scripts of such actions.

## Main definitions

* `QuietChange`: a change that concerns neither the process record nor the tokens.
* `Action.keepsRecord`: the actions that leave the process record alone and run no line.
* `Action.isPlain`: the single actions that neither pin a processor nor run a line.
* `AbortCongruence`: a relation that is kept by what an abort is made of.
* `BucketOperation`: what these actions do to buckets.
* `StillCongruence`: a relation that is kept by what these actions are made of, but for the pin.
* `ActionCongruence`: a relation that is kept by what these actions are made of.
* `ScriptCongruence`: one that is kept by every change that leaves the process record and the tokens
  alone.

## Main results

* `ActionCongruence.performAll`: scripts of such actions.
-/

namespace CommandShell

/-- A change that leaves the process record and the tokens alone, and forgets nothing that has
happened. -/
def QuietChange (g : Session → Session) : Prop :=
  ∀ s, (g s).process = s.process ∧ (g s).tokens = s.tokens ∧
    (g s).currentToken = s.currentToken ∧ s.journal <:+ (g s).journal

mutual

/-- Whether an action leaves the process record alone and runs no line. -/
def Action.keepsRecord : Action → Bool
  | .output _ | .outputData | .outputText | .outputArgs | .outputFile _ => false
  | .exit _ _ => false
  | .run _ | .help => false
  | .ifText _ actions | .ifArgument _ actions => keepRecord actions
  | _ => true

/-- Whether all of some actions leave the process record alone and run no line. -/
def Action.keepRecord : List Action → Bool
  | [] => true
  | a :: rest => a.keepsRecord && keepRecord rest

end

/-- Whether an action is a single one that neither pins a processor nor runs a line. -/
def Action.isPlain : Action → Bool
  | .run _ | .help => false
  | .pin _ _ => false
  | .ifText _ _ | .ifArgument _ _ => false
  | _ => true

/-- A change of the busy indicators, by what they can be told, and of those who are told of aborts,
and of nothing else. -/
def PeripheralChange (g : Session → Session) : Prop :=
  ∀ s, { g s with
    indicators := s.indicators, abortWatchers := s.abortWatchers,
    abortSubscriptions := s.abortSubscriptions, abortCount := s.abortCount } = s ∧
      s.indicators.Leads (g s).indicators

theorem PeripheralChange.quiet {g : Session → Session} (h : PeripheralChange g) :
    QuietChange g := by
  intro s
  have hs := (h s).1
  refine ⟨(congrArg Session.process hs :), (congrArg Session.tokens hs :),
    (congrArg Session.currentToken hs :), ?_⟩
  exact (congrArg Session.journal hs).symm ▸ List.suffix_refl _

/-- A relation between runs that is kept by what an abort is made of: changes of the busy
indicators, and cancelling a token as a whole. -/
structure AbortCongruence (C : ∀ α : Type, Run α → Run α → Prop) : Prop
    extends TellingCongruence C where
  peripheral {g : Session → Session} : PeripheralChange g → C Unit (modify g) (modify g)
  cancel (number : Nat) : C Unit (Run.cancel number) (Run.cancel number)

namespace AbortCongruence

variable {C : ∀ α : Type, Run α → Run α → Prop} (hC : AbortCongruence C)

include hC

theorem hideIndicators : C Unit Run.hideIndicators Run.hideIndicators :=
  hC.peripheral fun _ => ⟨rfl, .single (.change (.hideAll none) rfl)⟩

theorem abort : C Unit Run.abort Run.abort := by
  refine hC.bind (hC.peripheral fun _ => ⟨rfl, .single (.abort _)⟩) fun _ => ?_
  refine hC.bind hC.get fun s => ?_
  exact hC.bind (hC.cancel _) fun _ => hC.bind hC.get fun s => hC.forM (fun _ => hC.emit _) _

end AbortCongruence

/-- What an action does to a bucket. -/
inductive BucketOperation where
  /-- Opens it, unless it was opened before. -/
  | opening (name : String) (initial : Value)
  /-- Gives entries on top of its state. -/
  | update (name : String) (entries : Value)
  /-- Puts it back into its first state. -/
  | reset (name : String)
  /-- Keeps its state in the store. -/
  | persist (name : String)

/-- The space after what an action does to a bucket. -/
def BucketOperation.apply : BucketOperation → StateSpace → Except Fault Unit × StateSpace
  | opening name initial, space => (.ok (), space.openBucket name initial)
  | update name entries, space => space.update name entries
  | reset name, space => space.reset name
  | persist name, space => space.persist name

/-- A relation between runs that is kept by what actions do that leave the process record and the
pin alone: by each operation on the registry, on the buckets and on the tokens as a whole, and by
what reads files. -/
structure StillCongruence (C : ∀ α : Type, Run α → Run α → Prop) : Prop
    extends AbortCongruence C where
  register (p : ShellProcessor) : C Registration (Run.register p) (Run.register p)
  unregister (name : String) : C Removal (Run.unregister name) (Run.unregister name)
  operate (op : BucketOperation) : C Unit (Run.buckets op.apply) (Run.buckets op.apply)
  inspect {α : Type} (f : FileTree → Except Fault α) :
    C α (Run.access (FileAccess.ask f)) (Run.access (FileAccess.ask f))
  onCancel (number : Nat) (tag : String) :
    C Unit (Run.onCancel number tag) (Run.onCancel number tag)
  indicate (change : IndicatorChange) :
    C Unit (Run.indicate (·.apply change)) (Run.indicate (·.apply change))

/-- A relation between runs that is kept by what actions do that leave the process record alone:
pins are among it. -/
structure ActionCongruence (C : ∀ α : Type, Run α → Run α → Prop) : Prop
    extends StillCongruence C where
  setPinned (p : Option ShellProcessor) :
    C Unit (modify fun s => { s with pinned := p }) (modify fun s => { s with pinned := p })

namespace StillCongruence

variable {C : ∀ α : Type, Run α → Run α → Prop} (hC : StillCongruence C)

include hC

/-! ### Aborts -/

theorem onAbort (tag : String) : C Unit (Run.onAbort tag) (Run.onAbort tag) :=
  hC.peripheral fun _ => ⟨rfl, .refl⟩

/-! ### Buckets and files -/

theorem openBucket (p : ShellProcessor) : C String (Run.openBucket p) (Run.openBucket p) := by
  unfold Run.openBucket
  refine hC.bind hC.get fun s => ?_
  exact hC.bind (hC.operate (.opening _ _)) fun _ => hC.pure _

theorem openEmpty (name : String) : C Unit (Run.openEmpty name) (Run.openEmpty name) :=
  hC.operate (.opening _ _)

theorem update (bucket : String) (entries : Value) :
    C Unit (Run.update bucket entries) (Run.update bucket entries) :=
  hC.operate (.update _ _)

theorem keepAliases (bucket : String) (aliases : Entries Value) :
    C Unit (Run.keepAliases bucket aliases) (Run.keepAliases bucket aliases) :=
  hC.bind (hC.update _ _) fun _ => hC.operate (.persist _)

theorem resolvePath (root path : String) :
    C Path (Run.resolvePath root path) (Run.resolvePath root path) :=
  hC.bind hC.get fun _ => hC.ofExcept _

theorem readFile (path : String) : C String (Run.readFile path) (Run.readFile path) := by
  unfold Run.readFile Run.fileRoot
  refine hC.bind (hC.bind (hC.service _) fun service => ?_) fun root =>
    hC.bind (hC.resolvePath _ _) fun _ => hC.inspect _
  split
  · exact hC.pure _
  · exact hC.fail _

/-! ### Actions that leave the process record and the pin alone -/

variable {f g : String → Run Unit} (c : Scope)

/-- A plain action that leaves the process record alone does the same however lines run. -/
theorem perform (a : Action) (hplain : a.isPlain = true) (h : a.keepsRecord = true) :
    C Unit (Run.perform f c a) (Run.perform g c a) := by
  cases a with
  | record => unfold Run.perform; exact hC.bind (hC.invoked _ _) fun _ => hC.emit _
  | note => unfold Run.perform; exact hC.emit _
  | write => unfold Run.perform; exact hC.emit _
  | print style text =>
    cases style with
    | none => unfold Run.perform; exact hC.print _
    | some style => unfold Run.perform; exact hC.say _ _
  | printColoured => unfold Run.perform; exact hC.print _
  | fail => unfold Run.perform; exact hC.fail _
  | update => unfold Run.perform; exact hC.update _ _
  | increment =>
    unfold Run.perform
    refine hC.bind (hC.stateOf _) fun _ => hC.bind (hC.ofExcept _) fun _ => ?_
    exact hC.bind (hC.ofExcept _) fun _ => hC.update _ _
  | storeText => unfold Run.perform; exact hC.bind (hC.invoked _ _) fun _ => hC.update _ _
  | noteState => unfold Run.perform; exact hC.bind (hC.stateOf _) fun _ => hC.emit _
  | persist => unfold Run.perform; exact hC.operate (.persist _)
  | reset => unfold Run.perform; exact hC.operate (.reset _)
  | updateShared =>
    unfold Run.perform
    exact hC.bind (hC.openEmpty _) fun _ => hC.update _ _
  | noteShared =>
    unfold Run.perform
    refine hC.bind (hC.openEmpty _) fun _ => ?_
    exact hC.bind (hC.stateOf _) fun _ => hC.emit _
  | abort => unfold Run.perform; exact hC.abort
  | cancelToken => unfold Run.perform; exact hC.cancel _
  | checkToken => unfold Run.perform; exact hC.bind hC.get fun _ => hC.ofExcept _
  | noteToken => unfold Run.perform; exact hC.bind hC.get fun _ => hC.emit _
  | onCancel => unfold Run.perform; exact hC.onCancel _ _
  | onAbort => unfold Run.perform; exact hC.onAbort _
  | register => unfold Run.perform; exact hC.bind (hC.register _) fun _ => hC.emit _
  | unregister => unfold Run.perform; exact hC.bind (hC.unregister _) fun _ => hC.emit _
  | service =>
    unfold Run.perform
    refine hC.bind hC.get fun _ => hC.bind (hC.emit _) fun _ => ?_
    exact hC.bind (hC.service _) fun _ => hC.pure _
  | noteProcess => unfold Run.perform; exact hC.bind hC.get fun _ => hC.emit _
  | pause => unfold Run.perform; exact hC.pure _
  | indicate => unfold Run.perform; exact hC.indicate _
  -- Pins and conditions are not plain, and all that is left writes the process record.
  | pin | ifText | ifArgument => cases hplain
  | _ => cases h

end StillCongruence

namespace ActionCongruence

open TellingCongruence (ite)

variable {C : ∀ α : Type, Run α → Run α → Prop} (hC : ActionCongruence C)
  {f g : String → Run Unit} (c : Scope)

include hC

theorem pin (p : Option ShellProcessor) (silent : Bool) :
    C Unit (Run.pin p silent) (Run.pin p silent) := by
  unfold Run.pin
  cases p with
  | none => exact hC.setPinned none
  | some p => exact ite (hC.setPinned _) (hC.bind (hC.say _ _) fun _ => hC.setPinned _)

mutual

/-- However lines run, an action that leaves the process record alone runs none. -/
theorem perform (a : Action) (h : a.keepsRecord = true) :
    C Unit (Run.perform f c a) (Run.perform g c a) := by
  cases a with
  | pin path silent =>
    cases path with
    | nil => unfold Run.perform; exact hC.pin _ _
    | cons => unfold Run.perform; exact hC.bind hC.get fun _ => hC.pin _ _
  | ifText v actions =>
    unfold Run.perform
    exact hC.bind (hC.invoked _ _) fun _ => hC.when (performAll actions h)
  | ifArgument name actions =>
    unfold Run.perform
    exact hC.bind (hC.invoked _ _) fun _ => hC.when (performAll actions h)
  | run | help => cases h
  | _ => exact hC.toStillCongruence.perform c _ rfl h

theorem performAll (actions : List Action) (h : Action.keepRecord actions = true) :
    C Unit (Run.performAll f c actions) (Run.performAll g c actions) := by
  cases actions with
  | nil => unfold Run.performAll; exact hC.pure _
  | cons a rest =>
    obtain ⟨ha, hrest⟩ := Bool.and_eq_true_iff.mp h
    unfold Run.performAll
    exact hC.bind (perform a ha) fun _ => performAll rest hrest

end

end ActionCongruence

/-! ### Operations as changes of the session -/

namespace TellingCongruence

variable {C : ∀ α : Type, Run α → Run α → Prop} (hC : TellingCongruence C) {α : Type}

include hC

theorem buckets_of_change (f : StateSpace → Except Fault α × StateSpace)
    (hchange : ∀ space told,
      C Unit (modify fun s => { s with space := space, journal := told ++ s.journal })
        (modify fun s => { s with space := space, journal := told ++ s.journal })) :
    C α (Run.buckets f) (Run.buckets f) := by
  unfold Run.buckets
  refine hC.bind hC.get fun s => ?_
  split
  exact hC.bind (hchange _ _) fun _ => hC.ofExcept _

theorem access_of_change (x : FileAccess α)
    (hchange : ∀ files, C Unit (modify fun s => { s with files := files })
      (modify fun s => { s with files := files })) :
    C α (Run.access x) (Run.access x) := by
  unfold Run.access
  refine hC.bind hC.get fun s => ?_
  split
  exact hC.bind (hchange _) fun _ => hC.ofExcept _

theorem indicate_of_change (f : Indicators → Except Fault Indicators)
    (hchange : ∀ indicators, C Unit (modify fun s => { s with indicators := indicators })
      (modify fun s => { s with indicators := indicators })) :
    C Unit (Run.indicate f) (Run.indicate f) :=
  hC.bind hC.get fun _ => hC.bind (hC.ofExcept _) fun _ => hchange _

variable (hchange : ∀ r : Registry Action, C Unit (modify fun s => { s with registry := r })
  (modify fun s => { s with registry := r }))

include hchange

theorem register_of_change (p : ShellProcessor) :
    C Registration (Run.register p) (Run.register p) := by
  unfold Run.register Run.adopt Run.enter
  refine hC.bind (hC.bind hC.get fun s => ?_) fun q => hC.bind hC.get fun s => ?_
  · exact hC.bind (hchange _) fun _ => hC.pure _
  · exact hC.bind (hchange _) fun _ => hC.bind (hC.warn _) fun _ => hC.pure _

theorem unregister_of_change (name : String) :
    C Removal (Run.unregister name) (Run.unregister name) := by
  unfold Run.unregister
  refine hC.bind hC.get fun s => ?_
  exact hC.bind (hchange _) fun _ => hC.bind (hC.warn _) fun _ => hC.pure _

end TellingCongruence

/-- A relation between runs that is kept by what scripts are made of that leave the process record
alone, and by whatever else leaves it and the tokens alone. -/
structure ScriptCongruence (C : ∀ α : Type, Run α → Run α → Prop) : Prop
    extends ActionCongruence C where
  change {g : Session → Session} : QuietChange g → C Unit (modify g) (modify g)
  peripheral h := change h.quiet
  setPinned _ := change fun _ => ⟨rfl, rfl, rfl, List.suffix_refl _⟩
  register := TellingCongruence.register_of_change ⟨pure, throw, get, emit, bind⟩
    fun _ => change fun _ => ⟨rfl, rfl, rfl, List.suffix_refl _⟩
  unregister := TellingCongruence.unregister_of_change ⟨pure, throw, get, emit, bind⟩
    fun _ => change fun _ => ⟨rfl, rfl, rfl, List.suffix_refl _⟩
  operate op := TellingCongruence.buckets_of_change ⟨pure, throw, get, emit, bind⟩ op.apply
    fun _ _ => change fun _ => ⟨rfl, rfl, rfl, List.suffix_append _ _⟩
  inspect _ := TellingCongruence.access_of_change ⟨pure, throw, get, emit, bind⟩ _
    fun _ => change fun _ => ⟨rfl, rfl, rfl, List.suffix_refl _⟩
  indicate _ := TellingCongruence.indicate_of_change ⟨pure, throw, get, emit, bind⟩ _
    fun _ => change fun _ => ⟨rfl, rfl, rfl, List.suffix_refl _⟩

end CommandShell
