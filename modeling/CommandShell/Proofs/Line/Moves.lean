import CommandShell.Proofs.Congruence.Line

/-!
# Moves of commands

What a command does, one action after another.  A command runs the hooks in front of its handler,
the handler and the hooks behind it, up to the first of these stages that stops.  A script performs
its actions, up to the first one that stops; a handler that describes a processor performs what the
processor adds to its description.  Every action is found with the session that it starts from.

## Main definitions

* `doneAfter`, `along`: what is done after a run, and along some runs, one after another.
* `Move`: an action that is performed.
* `Run.movesOfAll`: the moves of a script.
* `Stage`, `Processor.stages`: the hooks and the handler of a processor, in their order.
* `Run.commandMoves`: the moves of a command.

## Main results

* `perform_conditional_cases`: a conditional action performs its script, or nothing.
* `describe_eq`: a description, with what the processor adds to it in the middle.
* `handleBetweenHooks_eq_stages`: a command runs its stages in their order.
* `mem_commandMoves_iff`: a command makes the moves of the stages that it comes to.
-/

namespace CommandShell

/-- What is done after a run, from where it leads if it returns. -/
def doneAfter {α γ : Type} (x : Run α) (did : α → Session → List γ) (s : Session) : List γ :=
  match x s with
  | (.ok a, t) => did a t
  | (.error _, _) => []

/-- What is done along some runs, one after another up to the first that stops; `did` tells what a
single one does. -/
def along {β γ : Type} (run : β → Run Unit) (did : β → Session → List γ) :
    List β → Session → List γ
  | [], _ => []
  | b :: rest, s => did b s ++ doneAfter (run b) (fun _ => along run did rest) s

section Along

variable {α β γ δ : Type} {x : Run α} {a : α} {after : α → Session → List γ}
  {run : β → Run Unit} {did : β → Session → List γ} {l : List β} {m : γ} {s t : Session} {e : Stop}

theorem doneAfter_of_returns (h : Returns x s a t) : doneAfter x after s = after a t := by
  rw [doneAfter, show x s = _ from h]

theorem doneAfter_of_stops (h : Stops x s e t) : doneAfter x after s = [] := by
  rw [doneAfter, show x s = _ from h]

theorem mem_doneAfter_iff :
    m ∈ doneAfter x after s ↔ ∃ a t, Returns x s a t ∧ m ∈ after a t := by
  rcases returns_or_stops x s with ⟨a, t, h⟩ | ⟨e, t, h⟩
  · rw [doneAfter_of_returns h]
    constructor
    · intro hm
      exact ⟨a, t, h, hm⟩
    · rintro ⟨a', t', h', hm⟩
      obtain ⟨rfl, rfl⟩ := h.unique h'
      exact hm
  · rw [doneAfter_of_stops h]
    constructor
    · intro hm
      cases hm
    · rintro ⟨a', t', h', -⟩
      exact absurd h h'.not_stops

theorem filterMap_doneAfter (f : γ → Option δ) (s : Session) :
    (doneAfter x after s).filterMap f = doneAfter x (fun a t => (after a t).filterMap f) s := by
  rcases returns_or_stops x s with ⟨a, t, h⟩ | ⟨e, t, h⟩
  · rw [doneAfter_of_returns h, doneAfter_of_returns h]
  · rw [doneAfter_of_stops h, doneAfter_of_stops h, List.filterMap_nil]

/-- What is done along some runs is done by one of them, when those in front of it have returned. -/
theorem mem_along_iff :
    m ∈ along run did l s ↔
      ∃ pre b post t, l = pre ++ b :: post ∧ Returns (pre.forM run) s () t ∧ m ∈ did b t := by
  induction l generalizing s with
  | nil => simp [along]
  | cons a l ih =>
    rw [along, List.mem_append, mem_doneAfter_iff]
    constructor
    · rintro (h | ⟨⟨⟩, t, ha, h⟩)
      · exact ⟨[], a, l, s, rfl, returns_pure_iff.mpr ⟨rfl, rfl⟩, h⟩
      · obtain ⟨pre, b, post, u, rfl, hpre, hm⟩ := ih.mp h
        exact ⟨a :: pre, b, post, u, rfl, returns_bind_iff.mpr ⟨(), t, ha, hpre⟩, hm⟩
    · rintro ⟨pre, b, post, u, hl, hpre, hm⟩
      cases pre with
      | nil =>
        obtain ⟨rfl, rfl⟩ := List.cons.inj hl
        obtain ⟨-, rfl⟩ := returns_pure_iff.mp hpre
        exact Or.inl hm
      | cons a' pre =>
        obtain ⟨rfl, rfl⟩ := List.cons.inj hl
        obtain ⟨⟨⟩, t, ha, hrest⟩ := returns_bind_iff.mp hpre
        exact Or.inr ⟨(), t, ha, ih.mpr ⟨pre, b, post, u, rfl, hrest, hm⟩⟩

/-- What is done along the first of some runs is done along all of them. -/
theorem mem_along_append {l' : List β} (h : m ∈ along run did l s) :
    m ∈ along run did (l ++ l') s := by
  obtain ⟨pre, b, post, t, rfl, hpre, hm⟩ := mem_along_iff.mp h
  exact mem_along_iff.mpr ⟨pre, b, post ++ l', t, by simp, hpre, hm⟩

end Along

/-- An action that is performed, with the scope that it is performed in and the session that it
starts from. -/
structure Move where
  /-- The action. -/
  action : Action
  /-- The scope. -/
  scope : Scope
  /-- The session. -/
  start : Session

/-- The line that is run in a move, if there is one. -/
def Move.line? (m : Move) : Option String :=
  match m.action with
  | .run line => some line
  | .help => m.scope.invocation.map fun i => Run.helpLine i.raw
  | _ => none

/-- The script of a conditional action. -/
def Action.conditional? : Action → Option (List Action)
  | .ifText _ actions | .ifArgument _ actions => some actions
  | _ => none

/-- A stage of a command. -/
inductive Stage where
  /-- A hook runs its script. -/
  | hook (script : List Action)
  /-- The handler runs. -/
  | handler

/-- The stages of a command: the hooks in front of the handler, the handler, and the hooks behind
it. -/
def Processor.stages (p : ShellProcessor) : List Stage :=
  (p.hookScripts .before).map .hook ++ .handler :: (p.hookScripts .after).map .hook

namespace Run

variable (rerun : String → Run Unit)

/-! ### Scripts -/

section Scripts

variable (c : Scope)

mutual

/-- The moves of an action: those of its own actions if it is a conditional one, and it alone
otherwise. -/
def movesOf : Action → Session → List Move
  | .ifText v actions, s =>
    match c.invocation with
    | some i => if i.textValue.same v then movesOfAll actions s else []
    | none => []
  | .ifArgument name actions, s =>
    match c.invocation with
    | some i => if i.args.has name then movesOfAll actions s else []
    | none => []
  | a, s => [⟨a, c, s⟩]

/-- The moves of a script, up to the first action that stops. -/
def movesOfAll : List Action → Session → List Move
  | [], _ => []
  | a :: rest, s => movesOf a s ++ doneAfter (perform rerun c a) (fun _ => movesOfAll rest) s

end

/-- A conditional action performs its script, or nothing at all, whatever else runs lines. -/
theorem perform_conditional_cases {a : Action} {actions : List Action}
    (h : a.conditional? = some actions) :
    (∀ rerun s, perform rerun c a s = performAll rerun c actions s ∧
      movesOf rerun c a s = movesOfAll rerun c actions s) ∨
    ∃ r, ∀ rerun s, perform rerun c a s = (r, s) ∧ movesOf rerun c a s = [] := by
  -- The condition is about the invocation, which is there in a handler only.
  cases a with
  | ifText v actions =>
    obtain rfl := Option.some.inj h
    unfold perform movesOf invoked
    cases c.invocation with
    | none => exact Or.inr ⟨_, fun _ _ => ⟨rfl, rfl⟩⟩
    | some i =>
      cases hmet : i.textValue.same v with
      | true => simp [hmet]
      | false => exact Or.inr ⟨.ok (), fun _ _ => by simp [hmet]; rfl⟩
  | ifArgument name actions =>
    obtain rfl := Option.some.inj h
    unfold perform movesOf invoked
    cases c.invocation with
    | none => exact Or.inr ⟨_, fun _ _ => ⟨rfl, rfl⟩⟩
    | some i =>
      cases hmet : i.args.has name with
      | true => simp [hmet]
      | false => exact Or.inr ⟨.ok (), fun _ _ => by simp [hmet]; rfl⟩
  | _ => cases h

end Scripts

/-! ### Descriptions -/

/-- A description up to what the processor adds to it. -/
def describeHead (p : ShellProcessor) : Run Unit := do
  print (coloured "yellow" "Command:" ++ " " ++ coloured "cyan" p.command ++ " " ++
    coloured "green" ("v" ++ p.version.shown))
  if p.decl.description ≠ "" then print ("   " ++ p.decl.description)
  if !p.decl.aliases.isEmpty then
    print ("   " ++ coloured "yellow" "Aliases:" ++ " " ++
      ", ".intercalate (p.decl.aliases.map (coloured "magenta")))
  print separatorLine
  let bases ← basesOf p
  if !bases.isEmpty then part "Extension chain:" (printLines (extensionLines bases))
  if p.decl.describer.isSome then print (coloured "yellow" "Description:")

/-- What a processor adds to its description. -/
def describeOwn (c : Scope) (p : ShellProcessor) : Run Unit :=
  match p.decl.describer with
  | some d => describeFurther rerun c d
  | none => pure ()

/-- A description behind what the processor adds to it. -/
def describeTail (p : ShellProcessor) : Run Unit := do
  if p.decl.describer.isSome then print separatorLine
  if p.hasChildren then
    part "Subcommands:" (printLines (p.children.map fun q =>
      "  " ++ coloured "cyan" q.command ++ " - " ++ q.decl.description))
  if !p.decl.parameters.isEmpty then
    emit (.table (← ofExcept (parameterTable p.decl.parameters)))

/-- A run that is left out in some cases, in front of one that follows in all of them. -/
theorem andThen_eq {α : Type} {q : Prop} [Decidable q] (x : Run Unit) (f : Unit → Run α) :
    (if q then x >>= f else f ()) = (if q then x else pure ()) >>= f := by
  split
  · rfl
  · exact (pure_bind _ _).symm

/-- A description, with what the processor adds to it in the middle. -/
theorem describe_eq (c : Scope) (p : ShellProcessor) :
    describe rerun c p =
      describeHead p >>= fun _ => describeOwn rerun c p >>= fun _ => describeTail p := by
  have hpart : ∀ heading body, part heading body =
      print (coloured "yellow" heading) >>= fun _ => body >>= fun _ => print separatorLine := by
    intro heading body
    rfl
  unfold describe describeHead describeTail describeOwn
  simp only [andThen_eq, bind_assoc]
  cases p.decl.describer with
  | some d => simp only [Option.isSome_some, if_true, hpart "Description:", bind_assoc]
  | none => simp only [Option.isSome_none, Bool.false_eq_true, if_false, pure_bind]

end Run

namespace TellingCongruence

variable {C : ∀ α : Type, Run α → Run α → Prop} (hC : TellingCongruence C)

include hC

theorem describeHead (p : ShellProcessor) : C Unit (Run.describeHead p) (Run.describeHead p) := by
  unfold Run.describeHead
  refine hC.bind (hC.print _) fun _ => hC.andThen (hC.print _) fun _ => ?_
  refine hC.andThen (hC.print _) fun _ => hC.bind (hC.print _) fun _ => ?_
  refine hC.bind (hC.basesOf p) fun _ => ?_
  exact hC.andThen (hC.part _ (hC.printLines _)) fun _ => hC.when (hC.print _)

theorem describeTail (p : ShellProcessor) : C Unit (Run.describeTail p) (Run.describeTail p) := by
  unfold Run.describeTail
  refine hC.andThen (hC.print _) fun _ => hC.andThen (hC.part _ (hC.printLines _)) fun _ => ?_
  exact hC.when (hC.bind (hC.ofExcept _) fun _ => hC.emit _)

end TellingCongruence

namespace Run

variable (rerun : String → Run Unit)

/-! ### Commands -/

variable (c : Scope) (p : ShellProcessor) (i : Invocation)

/-- The moves of what a processor adds to its description. -/
def describerMoves : Session → List Move :=
  match p.decl.describer with
  | some (.script actions) => movesOfAll rerun { c with invocation := none } actions
  | _ => fun _ => []

/-- The moves of `help`: those of what the described processor adds to its description. -/
def helpMoves (s : Session) : List Move :=
  match (splitWords i.command).drop 1 with
  | [] => []
  | name :: chain =>
    match s.registry.find? name chain with
    | some q => doneAfter (describeHead q) (fun _ => describerMoves rerun c q) s
    | none => []

/-- The moves of a handler. -/
def handlerMoves : Handler Action → Session → List Move
  | .script actions => movesOfAll rerun { c with invocation := some i } actions
  | .help => helpMoves rerun c i
  | _ => fun _ => []

/-- What a stage of a command does. -/
def runStage : Stage → Run Unit
  | .hook script => performAll rerun c script
  | .handler => handle rerun c i p.decl.handler

/-- The moves of a stage. -/
def stageMoves : Stage → Session → List Move
  | .hook script => movesOfAll rerun c script
  | .handler => handlerMoves rerun c i p.decl.handler

/-- The moves of a command, up to the first stage that stops. -/
def commandMoves : Session → List Move :=
  along (runStage rerun c p i) (stageMoves rerun c p i) p.stages

theorem forM_append {α : Type} (run : α → Run Unit) (l l' : List α) :
    (l ++ l').forM run = l.forM run >>= fun _ => l'.forM run := by
  induction l with
  | nil => exact (pure_bind _ _).symm
  | cons a l ih =>
    show (run a >>= fun _ => (l ++ l').forM run) = (run a >>= fun _ => l.forM run) >>= _
    rw [ih, bind_assoc]

/-- The stages of some hooks run their scripts. -/
theorem forM_hooks (scripts : List (List Action)) :
    (scripts.map .hook).forM (runStage rerun c p i) = scripts.forM (performAll rerun c) := by
  induction scripts with
  | nil => rfl
  | cons script scripts ih => exact congrArg (performAll rerun c script >>= fun _ => ·) ih

/-- A command runs its stages in their order. -/
theorem handleBetweenHooks_eq_stages :
    handleBetweenHooks rerun c p i = p.stages.forM (runStage rerun c p i) := by
  unfold handleBetweenHooks runHooks Processor.stages
  rw [forM_append, forM_hooks, ← forM_hooks rerun c p i (p.hookScripts .after)]
  rfl

/-- A command makes the moves of the stages that it comes to, each with the stages in front of it
having returned. -/
theorem mem_commandMoves_iff {m : Move} {u : Session} :
    m ∈ commandMoves rerun c p i u ↔ ∃ pre stage post t, p.stages = pre ++ stage :: post ∧
      Returns (pre.forM (runStage rerun c p i)) u () t ∧ m ∈ stageMoves rerun c p i stage t :=
  mem_along_iff

end Run

end CommandShell
