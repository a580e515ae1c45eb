import CommandShell.Proofs.Ending
import CommandShell.Shell.Dispatch

/-!
# Relations between runs: what is read and told

Scripts and lines are put together from a few runs.  A relation between runs that holds for these,
and that is kept where runs are put together, holds between a line and itself, and between two lines
that differ in how the lines run that they lead to.  What every line keeps, whatever it does, is
shown by giving such a relation.

The relations come in three strengths.  The weakest ones are kept by runs that only read the session
and tell something, such as the description of a command.

## Main definitions

* `TellingCongruence`: a relation that is kept by what these runs are made of.

## Main results

* `tellingCongruence_keeps`: to keep a part of the session is such a relation.
* `TellingCongruence.describe`: the description of a processor.
* `TellingCongruence.help`: what `help` prints.
-/

namespace CommandShell

/-- A relation between runs that is kept by what runs are made of that only read the session and
tell something. -/
structure TellingCongruence (C : ∀ α : Type, Run α → Run α → Prop) : Prop where
  pure {α : Type} (a : α) : C α (pure a) (pure a)
  throw {α : Type} (e : Stop) : C α (throw e) (throw e)
  get : C Session get get
  emit (ev : Event) : C Unit (Run.emit ev) (Run.emit ev)
  bind {α β : Type} {x y : Run α} {f g : α → Run β} :
    C α x y → (∀ a, C β (f a) (g a)) → C β (x >>= f) (y >>= g)

/-- What nothing that is told changes is kept by what only reads the session and tells something. -/
theorem tellingCongruence_keeps {β : Type} {view : Session → β}
    (h : ∀ ev, Keeps (Run.emit ev) view) : TellingCongruence fun _ x _ => Keeps x view where
  pure _ := keeps_pure
  throw _ := fun _ => rfl
  get := keeps_get
  emit := h
  bind := Keeps.bind

namespace TellingCongruence

variable {C : ∀ α : Type, Run α → Run α → Prop} (hC : TellingCongruence C) {α β : Type}

include hC

/-! ### Ways to build runs -/

omit hC in
theorem ite {p : Prop} [Decidable p] {x y x' y' : Run α} (h : C α x y) (h' : C α x' y') :
    C α (if p then x else x') (if p then y else y') := by
  split
  · exact h
  · exact h'

theorem when {p : Prop} [Decidable p] {x y : Run PUnit} (h : C PUnit x y) :
    C PUnit (if p then x else Pure.pure ⟨⟩) (if p then y else Pure.pure ⟨⟩) :=
  ite h (hC.pure _)

/-- A run that is left out in some cases, and what follows in all of them. -/
theorem andThen {p : Prop} [Decidable p] {x y : Run PUnit} {f g : PUnit → Run α}
    (h : C PUnit x y) (hrest : ∀ u, C α (f u) (g u)) :
    C α (if p then x >>= f else f ⟨⟩) (if p then y >>= g else g ⟨⟩) :=
  ite (hC.bind h hrest) (hrest _)

theorem forM {f g : β → Run PUnit} (h : ∀ b, C PUnit (f b) (g b)) (l : List β) :
    C PUnit (l.forM f) (l.forM g) := by
  induction l with
  | nil => exact hC.pure _
  | cons b l ih => exact hC.bind (h b) fun _ => ih

theorem ofExcept (r : Except Fault α) : C α (Run.ofExcept r) (Run.ofExcept r) := by
  cases r with
  | ok a => exact hC.pure a
  | error f => exact hC.throw (.fault f)

theorem fail (f : Fault) : C α (Run.fail f) (Run.fail f) :=
  hC.throw (.fault f)

/-! ### What is told -/

theorem print (text : String) : C Unit (Run.print text) (Run.print text) :=
  hC.emit _

theorem say (style : Style) (message : String) :
    C Unit (Run.say style message) (Run.say style message) :=
  hC.emit _

theorem log (source : String) (level : Level) (message : String) :
    C Unit (Run.log source level message) (Run.log source level message) :=
  hC.emit _

theorem warn (warning? : Option String) :
    C Unit (warning?.forM (Run.log "registry" .warning))
      (warning?.forM (Run.log "registry" .warning)) := by
  cases warning? with
  | none => exact hC.pure _
  | some message => exact hC.log _ _ _

theorem reportFailure (f : Fault) : C Unit (Run.reportFailure f) (Run.reportFailure f) :=
  hC.say _ _

/-! ### What is read -/

theorem stateOf (bucket : String) : C Value (Run.stateOf bucket) (Run.stateOf bucket) :=
  hC.bind hC.get fun _ => hC.pure _

theorem service (token : String) : C Service (Run.service token) (Run.service token) :=
  hC.bind hC.get fun _ => hC.ofExcept _

theorem invoked (c : Scope) (member : String) :
    C Invocation (Run.invoked c member) (Run.invoked c member) := by
  unfold Run.invoked
  split
  · exact hC.pure _
  · exact hC.fail _

theorem definedAliases (bucket : String) :
    C Value (Run.definedAliases bucket) (Run.definedAliases bucket) :=
  hC.bind (hC.stateOf _) fun _ => hC.bind (hC.ofExcept _) fun _ => hC.pure _

theorem parametersFit (ps : List Parameter) (args : Entries Value) :
    C Bool (Run.parametersFit ps args) (Run.parametersFit ps args) := by
  unfold Run.parametersFit
  refine ite (hC.bind (hC.say _ _) fun _ => hC.pure _) (hC.bind (hC.ofExcept _) fun refused => ?_)
  refine ite (hC.pure _) (hC.bind (hC.say _ _) fun _ => ?_)
  exact hC.bind (hC.forM (fun _ => hC.print _) _) fun _ => hC.pure _

/-! ### Descriptions -/

variable {f g : String → Run Unit} (c : Scope)

theorem printLines (lines : List String) :
    C Unit (Run.printLines lines) (Run.printLines lines) :=
  hC.forM (fun _ => hC.print _) lines

theorem part (heading : String) {x y : Run Unit} (h : C Unit x y) :
    C Unit (Run.part heading x) (Run.part heading y) :=
  hC.bind (hC.print _) fun _ => hC.bind h fun _ => hC.print _

theorem describeAll : C Unit Run.describeAll Run.describeAll := by
  have hgroup : ∀ name ps, C Unit (Run.describeGroup name ps) (Run.describeGroup name ps) := by
    intro name ps
    refine hC.bind (hC.print _) fun _ => ?_
    exact hC.bind (hC.forM (fun _ => hC.print _) _) fun _ => hC.print _
  unfold Run.describeAll
  refine hC.bind hC.get fun s => hC.bind (hC.print _) fun _ => hC.bind (hC.print _) fun _ => ?_
  exact hC.bind (hC.forM (fun _ => hgroup _ _) _) fun _ => hC.print _

theorem basesOf (p : ShellProcessor) :
    C (List ShellProcessor) (Run.basesOf p) (Run.basesOf p) := by
  unfold Run.basesOf
  exact hC.bind hC.get fun s => ite (hC.pure _) (hC.throw _)

/-- A description, whatever the processor adds to it. -/
theorem describe (p : ShellProcessor)
    (h : ∀ d, p.decl.describer = some d →
      C Unit (Run.describeFurther f c d) (Run.describeFurther g c d)) :
    C Unit (Run.describe f c p) (Run.describe g c p) := by
  unfold Run.describe
  refine hC.bind (hC.print _) fun _ => hC.andThen (hC.print _) fun _ => ?_
  refine hC.andThen (hC.print _) fun _ => hC.bind (hC.print _) fun _ => ?_
  refine hC.bind (hC.basesOf p) fun bases => hC.andThen (hC.part _ (hC.printLines _)) fun _ => ?_
  -- What follows the describer is the same, whether there is one or not.
  cases hd : p.decl.describer with
  | none =>
    refine hC.andThen (hC.part _ (hC.printLines _)) fun _ => ?_
    exact hC.when (hC.bind (hC.ofExcept _) fun _ => hC.emit _)
  | some d =>
    refine hC.bind (hC.part _ (h d hd)) fun _ => ?_
    refine hC.andThen (hC.part _ (hC.printLines _)) fun _ => ?_
    exact hC.when (hC.bind (hC.ofExcept _) fun _ => hC.emit _)

theorem listAliases : C Unit (Run.listAliases c) (Run.listAliases c) := by
  unfold Run.listAliases
  refine hC.bind (hC.definedAliases _) fun defined => hC.bind (hC.print _) fun _ => ?_
  refine ite (hC.say _ _) (hC.bind (hC.ofExcept _) fun aliases => ?_)
  exact hC.forM (fun _ => hC.say _ _) _

/-- What `help` prints, whatever processors add to their descriptions. -/
theorem help (i : Invocation)
    (h : ∀ (p : ShellProcessor) (d : Describer Action), p.decl.describer = some d →
      C Unit (Run.describeFurther f c d) (Run.describeFurther g c d)) :
    C Unit (Run.help f c i) (Run.help g c i) := by
  unfold Run.help
  split
  · exact hC.describeAll
  · refine hC.bind hC.get fun s => ?_
    split
    · exact hC.describe c _ (h _)
    · exact hC.bind (hC.say _ _) fun _ => hC.bind (hC.print _) fun _ => hC.print _

end TellingCongruence

end CommandShell
