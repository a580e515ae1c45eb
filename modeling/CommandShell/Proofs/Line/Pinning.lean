import CommandShell.Proofs.Congruence.Following
import CommandShell.Proofs.Line.HandlerCalls

/-!
# What commands do to the pin

`--context` pins the processor of its segment, in front of the handler.  A handler and its hooks
leave the pin alone, but for actions that are meant to move it, and for lines that they run.  So
whatever is true of the pin, and is kept by these, is kept by the command.

## Main definitions

* `Session.KeepsPin`: what is pinned stays.
* `Move.LeavesPin`: a move does not move the pin of its own accord.
* `Run.Carries`: a run keeps what its moves do no harm to.
* `Processor.pinFree`: a processor without scripts that move the pin.

## Main results

* `unpinnedCongruence_keepsPin`: what leaves the pin alone.
* `carries_handleBetweenHooks`: what a command keeps, move by move.
* `leavesPin_of_mem_commandMoves`: what a command leaves alone that has no script which pins.
-/

namespace CommandShell

/-- What is pinned stays. -/
def Session.KeepsPin (s t : Session) : Prop :=
  t.pinned = s.pinned

/-- What a move pins of its own accord, if it is meant to move the pin: a processor, or none. -/
def Move.pin? (m : Move) : Option (Option ShellProcessor) :=
  match m.action with
  | .pin [] _ => some none
  | .pin (name :: chain) _ => some (m.start.registry.find? name chain)
  | _ => none

/-- The move does not move the pin of its own accord. -/
def Move.LeavesPin (m : Move) : Prop :=
  ∀ q, m.pin? = some q → q = m.start.pinned

variable {rerun : String → Run Unit} {I : Option ShellProcessor → Prop} {c : Scope}
  {p q : ShellProcessor} {i : Invocation} {s t u : Session} {m : Move} {text : String}
  {data : Value} {n : Nat}

theorem Session.KeepsPin.trans (s t u : Session) (h : s.KeepsPin t) (h' : t.KeepsPin u) :
    s.KeepsPin u :=
  Eq.trans h' h

namespace Run

/-! ### What leaves the pin alone -/

/-- All that commands do leaves the pin alone, but for what is meant to move it. -/
theorem unpinnedCongruence_keepsPin :
    UnpinnedCongruence fun _ x _ => Follows x Session.KeepsPin := by
  have hC : TellingCongruence fun _ x _ => Follows x Session.KeepsPin :=
    tellingCongruence_follows (fun _ => rfl) Session.KeepsPin.trans fun _ _ => rfl
  refine unpinnedCongruence_follows Session.KeepsPin.trans (fun s t _ h => h) ?_ ?_ ?_
  · exact hC.register_of_change fun _ _ => rfl
  · exact hC.unregister_of_change fun _ _ => rfl
  · exact fun op => hC.buckets_of_change op.apply fun _ _ _ => rfl

theorem keepsPin_appendPayload (path : String) (payload : Value) :
    Follows (appendPayload path payload) Session.KeepsPin := by
  refine unpinnedCongruence_keepsPin.appendPayload_of_access (fun x s => ?_)
    (Follows.recover Session.KeepsPin.trans) path payload
  rw [access_apply]
  rfl

/-- The faults of a run may be handled by what leaves the pin alone. -/
theorem pinned_recover {α : Type} {x : Run α} {handle : Fault → Run α}
    (h : ∀ f, Follows (handle f) Session.KeepsPin) :
    (recover x handle s).2.pinned = (x s).2.pinned := by
  rw [recover_apply]
  rcases x s with ⟨(f | -) | a, t⟩
  · exact h f t
  · rfl
  · rfl

/-! ### Commands, move by move -/

/-- The move does no harm to a property of what is pinned: it does not move the pin of its own
accord, and a line that it runs keeps the property. -/
def Harmless (rerun : String → Run Unit) (I : Option ShellProcessor → Prop) (m : Move) : Prop :=
  m.LeavesPin ∧
    ∀ line, m.line? = some line → I m.start.pinned → I (rerun line m.start).2.pinned

/-- Where its moves do no harm to a property of what is pinned, a run keeps it: it holds where each
move starts, and at the end. -/
def Carries {α : Type} (rerun : String → Run Unit) (I : Option ShellProcessor → Prop) (x : Run α)
    (moves : List Move) (s : Session) : Prop :=
  (∀ m ∈ moves, Harmless rerun I m) → I s.pinned →
    (∀ m ∈ moves, I m.start.pinned) ∧ I (x s).2.pinned

theorem Carries.of_keepsPin {α : Type} {x : Run α} (h : Follows x Session.KeepsPin) :
    Carries rerun I x [] s := by
  intro _ hs
  refine ⟨by simp, ?_⟩
  rwa [show (x s).2.pinned = s.pinned from h s]

/-- A run that makes one move, with which it ends. -/
theorem Carries.single {x : Run Unit} (hm : m.start = s)
    (h : Harmless rerun I m → I s.pinned → I (x s).2.pinned) : Carries rerun I x [m] s := by
  intro hmoves hs
  refine ⟨fun m' hm' => ?_, h (hmoves m List.mem_cons_self) hs⟩
  rwa [List.mem_singleton.mp hm', hm]

theorem Carries.bind {α β : Type} {x : Run α} {g : α → Run β} {moves : List Move}
    {after : α → Session → List Move} (hx : Carries rerun I x moves s)
    (hg : ∀ a t, Returns x s a t → Carries rerun I (g a) (after a t) t) :
    Carries rerun I (x >>= g) (moves ++ doneAfter x after s) s := by
  intro hmoves hs
  obtain ⟨hstarts, hend⟩ := hx (fun m hm => hmoves m (List.mem_append_left _ hm)) hs
  rcases returns_or_stops x s with ⟨a, t, h⟩ | ⟨e, t, h⟩
  · rw [doneAfter_of_returns h] at hmoves ⊢
    rw [show x s = _ from h] at hend
    obtain ⟨hrest, hfinal⟩ :=
      hg a t h (fun m hm => hmoves m (List.mem_append_right _ hm)) hend
    refine ⟨fun m hm => ?_, ?_⟩
    · exact (List.mem_append.mp hm).elim (hstarts m) (hrest m)
    · rw [bind_apply, show x s = _ from h]
      exact hfinal
  -- A run that stops makes no further moves, so what holds at its end is what holds of it all.
  · rw [doneAfter_of_stops h, List.append_nil]
    refine ⟨hstarts, ?_⟩
    rw [bind_apply, show x s = _ from h]
    rwa [show x s = _ from h] at hend

/-- What comes in front may make no move. -/
theorem Carries.after {α β : Type} {x : Run α} {g : α → Run β} {after : α → Session → List Move}
    (hx : Follows x Session.KeepsPin)
    (hg : ∀ a t, Returns x s a t → Carries rerun I (g a) (after a t) t) :
    Carries rerun I (x >>= g) (doneAfter x after s) s := by
  have hnone : Carries rerun I x [] s := .of_keepsPin hx
  have h := hnone.bind hg
  rwa [List.nil_append] at h

theorem Carries.then {α β : Type} {x : Run α} {g : α → Run β} {moves : List Move}
    (hx : Carries rerun I x moves s) (hg : ∀ a, Follows (g a) Session.KeepsPin) :
    Carries rerun I (x >>= g) moves s := by
  intro hmoves hs
  obtain ⟨hstarts, hend⟩ := hx hmoves hs
  refine ⟨hstarts, ?_⟩
  rw [bind_apply]
  rcases h : x s with ⟨e | a, t⟩ <;> rw [h] at hend
  · exact hend
  · rwa [show (g a t).2.pinned = t.pinned from hg a t]

theorem Carries.forM {β : Type} {run : β → Run Unit} {did : β → Session → List Move}
    (h : ∀ b s, Carries rerun I (run b) (did b s) s) (l : List β) (s : Session) :
    Carries rerun I (l.forM run) (along run did l s) s := by
  induction l generalizing s with
  | nil => exact .of_keepsPin fun _ => rfl
  | cons b l ih => exact (h b s).bind fun _ t _ => ih t

theorem carries_conditional {a : Action} {actions : List Action}
    (ha : a.conditional? = some actions)
    (hscript : Carries rerun I (performAll rerun c actions) (movesOfAll rerun c actions s) s) :
    Carries rerun I (perform rerun c a) (movesOf rerun c a s) s := by
  rcases perform_conditional_cases c ha with hdone | ⟨r, hdone⟩
  · obtain ⟨hperform, hmoves⟩ := hdone rerun s
    unfold Carries at hscript ⊢
    rwa [hperform, hmoves]
  · obtain ⟨hperform, hmoves⟩ := hdone rerun s
    unfold Carries
    rw [hperform, hmoves]
    exact fun _ hs => ⟨by simp, hs⟩

mutual

theorem carries_perform (a : Action) (s : Session) :
    Carries rerun I (perform rerun c a) (movesOf rerun c a s) s := by
  have hC := unpinnedCongruence_keepsPin
  cases a with
  | run line =>
    refine .single rfl fun hm hs => ?_
    unfold perform
    exact hm.2 line rfl hs
  | help =>
    refine .single rfl fun hm hs => ?_
    unfold perform
    rw [pinned_recover fun f => hC.reportFailure f]
    unfold invoked
    cases hi : c.invocation with
    | none => exact hs
    | some i => exact hm.2 _ (congrArg (Option.map _) hi) hs
  | pin path silent =>
    refine .single rfl fun hm hs => ?_
    -- The move does no harm, so it pins what is pinned already.
    have hpin : ∀ q : Option ShellProcessor, (pin q silent s).2.pinned = q := by
      intro q
      cases q <;> cases silent <;> rfl
    cases path with
    | nil =>
      unfold perform
      rwa [hpin, hm.1 none rfl]
    | cons name chain =>
      unfold perform
      rw [get_bind_apply]
      rwa [hpin, hm.1 _ rfl]
  | ifText _ actions | ifArgument _ actions =>
    exact carries_conditional rfl (carries_performAll actions s)
  | _ =>
    refine .single rfl fun _ hs => ?_
    rwa [show _ = _ from hC.perform (f := rerun) (g := rerun) c _ rfl s]

/-- A script keeps what its actions do no harm to. -/
theorem carries_performAll (actions : List Action) (s : Session) :
    Carries rerun I (performAll rerun c actions) (movesOfAll rerun c actions s) s := by
  cases actions with
  | nil => exact .of_keepsPin fun _ => rfl
  | cons a rest =>
    unfold performAll movesOfAll
    exact (carries_perform a s).bind fun _ t _ => carries_performAll rest t

end

theorem carries_describeOwn (s : Session) :
    Carries rerun I (describeOwn rerun c p) (describerMoves rerun c p s) s := by
  have hC := unpinnedCongruence_keepsPin
  unfold describeOwn describerMoves
  cases p.decl.describer with
  | none => exact .of_keepsPin fun _ => rfl
  | some d =>
    cases d with
    | script actions => exact carries_performAll actions s
    | helpUsage => exact .of_keepsPin (hC.printLines _)

theorem carries_help (s : Session) :
    Carries rerun I (help rerun c i) (helpMoves rerun c i s) s := by
  have hC := unpinnedCongruence_keepsPin
  unfold help helpMoves
  cases (splitWords i.command).drop 1 with
  | nil => exact .of_keepsPin hC.describeAll
  | cons name chain =>
    dsimp only
    intro hmoves hs
    rw [get_bind_apply]
    cases hq : s.registry.find? name chain with
    | none => exact ⟨fun m hm => (List.not_mem_nil hm).elim, hs⟩
    | some q =>
      rw [hq] at hmoves
      dsimp only at hmoves ⊢
      rw [describe_eq]
      -- Only what the processor adds to its description makes moves.
      refine Carries.after (hC.describeHead q) (fun _ t _ => ?_) hmoves hs
      exact (carries_describeOwn t).then fun _ => hC.describeTail q

/-- A stage of a command keeps what its moves do no harm to. -/
theorem carries_runStage (stage : Stage) (s : Session) :
    Carries rerun I (runStage rerun c p i stage) (stageMoves rerun c p i stage s) s := by
  have hC := unpinnedCongruence_keepsPin
  cases stage with
  | hook script => exact carries_performAll script s
  | handler =>
    unfold runStage stageMoves handlerMoves handle
    cases p.decl.handler with
    | script actions => exact carries_performAll actions s
    | help => exact carries_help s
    | defineAliases => exact .of_keepsPin (hC.defineAliases c i)
    | listAliases => exact .of_keepsPin (hC.listAliases c)
    | removeAlias => exact .of_keepsPin (hC.removeAlias c i)
    | echo => exact .of_keepsPin ((hC.print _).bind Session.KeepsPin.trans fun _ => hC.process _)

/-- A command keeps what its moves do no harm to. -/
theorem carries_handleBetweenHooks (s : Session) :
    Carries rerun I (handleBetweenHooks rerun c p i) (commandMoves rerun c p i s) s := by
  rw [handleBetweenHooks_eq_stages]
  exact .forM carries_runStage _ s

/-! ### Segments -/

/-- What a segment that gets to a handler does starts with what was pinned before. -/
theorem Dispatches.keepsPin (h : Dispatches s text data q i c u) : s.KeepsPin u := by
  obtain ⟨given, -, -, -, hscope⟩ := h.admissible
  exact (unpinnedCongruence_keepsPin.openScope q).of_returns (s := s.started) hscope

/-- A segment that reaches no processor leaves the pin alone. -/
theorem keepsPin_of_delivery?_eq_none (h : s.delivery? data n text = none) :
    s.KeepsPin (runSegmentWithin rerun data n text s).2 := by
  have hC := unpinnedCongruence_keepsPin
  -- Each text that the segment stands for is looked up in turn, and is reported if it leads
  -- nowhere.
  induction n generalizing text s with
  | zero =>
    have hnone : s.resolve? text = none := Option.map_eq_none_iff.mp h
    unfold runSegmentWithin
    cases he : s.expand? text with
    | none =>
      rw [runSegmentWith_of_unknown hnone he]
      exact hC.commandNotFound (readSegment text).name s.started
    | some expanded =>
      rw [runSegmentWith_of_expand hnone he]
      exact hC.expansionTooDeep ((splitWords (readSegment text).name).headD "") s.started
  | succ n ih =>
    unfold Session.delivery? at h
    unfold runSegmentWithin
    split at h
    · cases h
    rename_i hnone
    cases he : s.expand? text with
    | none =>
      rw [runSegmentWith_of_unknown hnone he]
      exact hC.commandNotFound (readSegment text).name s.started
    | some expanded =>
      rw [he, Option.bind_some, ← Session.started_delivery?] at h
      rw [runSegmentWith_of_expand hnone he]
      exact ih h

end Run

/-! ### Scripts without pins -/

mutual

/-- Whether an action, with those in it, never moves the pin of its own accord. -/
def Action.pinFree : Action → Bool
  | .pin _ _ => false
  | .ifText _ actions | .ifArgument _ actions => pinFreeAll actions
  | _ => true

/-- Whether some actions never move the pin of their own accord. -/
def Action.pinFreeAll : List Action → Bool
  | [] => true
  | a :: rest => a.pinFree && pinFreeAll rest

end

/-- Whether a processor never moves the pin of its own accord: its scripts do not, and it describes
no other processor, whose script might. -/
def Processor.pinFree (p : ShellProcessor) : Bool :=
  (p.decl.hooks.all fun h => Action.pinFreeAll h.script) &&
    match p.decl.handler with
    | .script actions => Action.pinFreeAll actions
    | .help => false
    | _ => true

namespace Run

theorem mem_movesOf_conditional {a : Action} {actions : List Action}
    (ha : a.conditional? = some actions) (hm : m ∈ movesOf rerun c a s) :
    m ∈ movesOfAll rerun c actions s := by
  rcases perform_conditional_cases c ha with hdone | ⟨r, hdone⟩
  · rwa [(hdone rerun s).2] at hm
  · rw [(hdone rerun s).2] at hm
    cases hm

mutual

theorem leavesPin_of_mem_movesOf (a : Action) (s : Session) (h : a.pinFree = true)
    (hm : m ∈ movesOf rerun c a s) : m.LeavesPin := by
  cases a with
  | pin => cases h
  | ifText _ actions | ifArgument _ actions =>
    exact leavesPin_of_mem_movesOfAll actions s h (mem_movesOf_conditional rfl hm)
  | _ =>
    obtain rfl := List.mem_singleton.mp hm
    rintro q ⟨⟩

theorem leavesPin_of_mem_movesOfAll (actions : List Action) (s : Session)
    (h : Action.pinFreeAll actions = true) (hm : m ∈ movesOfAll rerun c actions s) :
    m.LeavesPin := by
  cases actions with
  | nil => cases hm
  | cons a rest =>
    obtain ⟨ha, hrest⟩ := Bool.and_eq_true_iff.mp h
    unfold movesOfAll at hm
    rcases List.mem_append.mp hm with hm | hm
    · exact leavesPin_of_mem_movesOf a s ha hm
    · obtain ⟨-, t, -, hm⟩ := mem_doneAfter_iff.mp hm
      exact leavesPin_of_mem_movesOfAll rest t hrest hm

end

theorem leavesPin_of_mem_commandMoves (h : q.pinFree = true)
    (hm : m ∈ commandMoves rerun c q i u) : m.LeavesPin := by
  obtain ⟨hhooks, hhandler⟩ := Bool.and_eq_true_iff.mp h
  obtain ⟨pre, stage, post, t, hstages, -, hm⟩ := (mem_commandMoves_iff rerun c q i).mp hm
  -- Moves are those of a hook or of the handler, and neither of them pins.
  cases stage with
  | hook script =>
    have hmem : Stage.hook script ∈ q.stages := by simp [hstages]
    have hscript : ∃ phase, script ∈ q.hookScripts phase := by
      unfold Processor.stages at hmem
      simp only [List.mem_append, List.mem_map, List.mem_cons, Stage.hook.injEq, reduceCtorEq,
        false_or, exists_eq_right] at hmem
      exact hmem.elim (fun h => ⟨_, h⟩) fun h => ⟨_, h⟩
    obtain ⟨phase, hscript⟩ := hscript
    obtain ⟨hook, hhook, rfl⟩ := List.mem_map.mp hscript
    have hfree := List.all_eq_true.mp hhooks hook (List.mem_filter.mp hhook).1
    exact leavesPin_of_mem_movesOfAll hook.script t hfree hm
  | handler =>
    unfold stageMoves handlerMoves at hm
    cases hq : q.decl.handler with
    | script actions =>
      rw [hq] at hm hhandler
      exact leavesPin_of_mem_movesOfAll actions t hhandler hm
    | help =>
      rw [hq] at hhandler
      cases hhandler
    | _ =>
      rw [hq] at hm
      cases hm

end Run

end CommandShell
