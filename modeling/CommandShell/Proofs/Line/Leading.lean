import CommandShell.Proofs.Line.Admission
import CommandShell.Proofs.Line.Moves

/-!
# Lines that a line leads to

A line runs further lines where one of its segments asks for a description, and where an action of
a command is to run a line or to describe the command.  There is no other way: what a line does
depends on how lines run only where it leads to them.

## Main definitions

* `SegmentStarts`: a line comes to a segment that runs.
* `SegmentLeads`, `LeadsTo`: the lines that a segment or a line runs.
* `Alike`: two ways to run lines do the same in some moves.

## Main results

* `runLineWith_congr`: ways to run lines that do the same where a line leads to do the same for the
  line.
-/

namespace CommandShell

namespace Run

/-- The line comes to a segment that runs, with the payload that is piped in and in the session
`start`. -/
def SegmentStarts (rerun : String → Run Unit) (line : String) (s : Session) (text : String)
    (data : Value) (start : Session) : Prop :=
  ∃ steps rest, LineTrace rerun line s steps (.segment text :: rest) start ∧
    (ChainState.afterAll {} steps).runNext = true ∧ data = (ChainState.afterAll {} steps).input

/-- A line that is one segment comes to it at once. -/
theorem segmentStarts_of_single {rerun : String → Run Unit} {line : String} {s : Session}
    (hline : splitLine line = [.segment line]) :
    SegmentStarts rerun line s line .null s := by
  refine ⟨[], [], ?_, rfl, rfl⟩
  unfold LineTrace
  rw [hline]
  exact .nil

/-- The segment that starts in a session runs a line from another one. -/
inductive SegmentLeads (rerun : String → Run Unit) (start : Session) (text : String)
    (data : Value) : String → Session → Prop
  /-- A description is asked for. -/
  | help {p i} (hd : start.delivery? data maxExpansions text = some (p, i))
      (hasks : i.asksForHelp = true) :
      SegmentLeads rerun start text data (helpLine i.raw) start.started
  /-- An action of the command runs the line. -/
  | action {p i c u m line} (hd : Dispatches start text data p i c u)
      (hm : m ∈ commandMoves rerun c p i u) (hline : m.line? = some line) :
      SegmentLeads rerun start text data line m.start

/-- The first line runs the second one. -/
def LeadsTo (rerun : String → Run Unit) (line : String) (s : Session) (line' : String)
    (s' : Session) : Prop :=
  ∃ text data start, SegmentStarts rerun line s text data start ∧
    SegmentLeads rerun start text data line' s'

/-- The two ways to run lines do the same in the moves. -/
def Alike (f g : String → Run Unit) (moves : List Move) : Prop :=
  ∀ m ∈ moves, ∀ line, m.line? = some line → f line m.start = g line m.start

variable {f g : String → Run Unit} {c : Scope} {p : ShellProcessor} {i : Invocation}
  {s start : Session} {line text : String} {data : Value}

/-! ### Commands -/

theorem recover_congr {α : Type} {x y : Run α} (h : x s = y s) (handle : Fault → Run α) :
    recover x handle s = recover y handle s := by
  rw [recover_apply, recover_apply, h]

theorem bind_congr_at {α β : Type} {x y : Run α} {k k' : α → Run β} (h : x s = y s)
    (hk : ∀ a t, Returns x s a t → k a t = k' a t) : (x >>= k) s = (y >>= k') s := by
  rw [bind_apply, bind_apply, ← h]
  rcases returns_or_stops x s with ⟨a, t, hx⟩ | ⟨e, t, hx⟩
  · rw [show x s = _ from hx]
    exact hk a t hx
  · rw [show x s = _ from hx]

theorem Alike.left {moves moves' : List Move} (h : Alike f g (moves ++ moves')) :
    Alike f g moves :=
  fun m hm => h m (List.mem_append_left _ hm)

theorem Alike.after {α : Type} {moves : List Move} {x : Run α} {did : α → Session → List Move}
    {a : α} {t : Session} (h : Alike f g (moves ++ doneAfter x did s)) (hx : Returns x s a t) :
    Alike f g (did a t) :=
  fun m hm => h m (List.mem_append_right _ (mem_doneAfter_iff.mpr ⟨a, t, hx, hm⟩))

/-- Runs do the same one after another if each does from where it starts. -/
theorem forM_congr {β : Type} {run run' : β → Run Unit} {did : β → Session → List Move}
    {l : List β} (h : ∀ b s, Alike f g (did b s) → run b s = run' b s)
    (hl : Alike f g (along run did l s)) : l.forM run s = l.forM run' s := by
  induction l generalizing s with
  | nil => rfl
  | cons b l ih => exact bind_congr_at (h b s hl.left) fun _ t ht => ih (hl.after ht)

/-- To be the same run is kept by what scripts are made of. -/
theorem sameRun : ScriptCongruence fun _ x y => x = y where
  pure _ := rfl
  throw _ := rfl
  get := rfl
  emit _ := rfl
  bind hx hg := by rw [hx, funext hg]
  change _ := rfl
  cancel _ := rfl
  onCancel _ _ := rfl

theorem perform_conditional_congr {a : Action} {actions : List Action}
    (ha : a.conditional? = some actions)
    (hscript : Alike f g (movesOfAll f c actions s) →
      performAll f c actions s = performAll g c actions s)
    (h : Alike f g (movesOf f c a s)) : perform f c a s = perform g c a s := by
  rcases perform_conditional_cases c ha with hdone | ⟨r, hdone⟩
  · rw [(hdone f s).2] at h
    rw [(hdone f s).1, (hdone g s).1]
    exact hscript h
  · rw [(hdone f s).1, (hdone g s).1]

mutual

/-- An action does the same if its moves do. -/
theorem perform_congr (a : Action) (s : Session) (h : Alike f g (movesOf f c a s)) :
    perform f c a s = perform g c a s := by
  cases a with
  | output | outputData | outputText | outputArgs | outputFile | exit =>
    unfold perform
    rfl
  | run line =>
    unfold perform
    exact h ⟨.run line, c, s⟩ (List.mem_singleton.mpr rfl) line rfl
  | help =>
    unfold perform invoked
    cases hi : c.invocation with
    | none => rfl
    | some i =>
      refine recover_congr ?_ reportFailure
      exact h ⟨.help, c, s⟩ (List.mem_singleton.mpr rfl) _ (congrArg (Option.map _) hi)
  | ifText _ actions | ifArgument _ actions =>
    exact perform_conditional_congr rfl (performAll_congr actions s) h
  | _ => exact congrFun (sameRun.perform c _ rfl) s

theorem performAll_congr (actions : List Action) (s : Session)
    (h : Alike f g (movesOfAll f c actions s)) :
    performAll f c actions s = performAll g c actions s := by
  cases actions with
  | nil =>
    unfold performAll
    rfl
  | cons a rest =>
    unfold performAll movesOfAll at *
    have hfirst := perform_congr a s h.left
    exact bind_congr_at hfirst fun _ t ht => performAll_congr rest t (h.after ht)

end

/-- What a processor adds to its description does the same if its moves do. -/
theorem describeOwn_congr (h : Alike f g (describerMoves f c p s)) :
    describeOwn f c p s = describeOwn g c p s := by
  unfold describeOwn describerMoves at *
  cases hd : p.decl.describer with
  | none => rfl
  | some d =>
    rw [hd] at h
    cases d with
    | script actions => exact performAll_congr actions s h
    | helpUsage => rfl

theorem help_congr (h : Alike f g (helpMoves f c i s)) : help f c i s = help g c i s := by
  unfold help helpMoves at *
  cases hwords : (splitWords i.command).drop 1 with
  | nil => rfl
  | cons name chain =>
    rw [hwords] at h
    refine bind_congr_at rfl fun a t ht => ?_
    obtain ⟨rfl, rfl⟩ := returns_get_iff.mp ht
    dsimp only at h ⊢
    cases hfound : t.registry.find? name chain with
    | none => rfl
    | some q =>
      rw [hfound] at h
      dsimp only
      rw [describe_eq, describe_eq]
      refine bind_congr_at rfl fun _ u hu => bind_congr_at ?_ fun _ _ _ => rfl
      exact describeOwn_congr fun m hm => h m (mem_doneAfter_iff.mpr ⟨_, u, hu, hm⟩)

/-- A command does the same if its moves do. -/
theorem handleBetweenHooks_congr (h : Alike f g (commandMoves f c p i s)) :
    handleBetweenHooks f c p i s = handleBetweenHooks g c p i s := by
  rw [handleBetweenHooks_eq_stages, handleBetweenHooks_eq_stages]
  refine forM_congr (fun stage t hstage => ?_) h
  cases stage with
  | hook script => exact performAll_congr script t hstage
  | handler =>
    unfold stageMoves handlerMoves at hstage
    unfold runStage
    cases hp : p.decl.handler with
    | script actions =>
      rw [hp] at hstage
      exact performAll_congr actions t hstage
    | help =>
      rw [hp] at hstage
      exact help_congr hstage
    | _ => rfl

/-! ### Segments -/

/-- A segment that reaches no processor runs no line. -/
theorem runSegmentWithin_congr_of_none {n : Nat} (h : s.delivery? data n text = none) :
    runSegmentWithin f data n text s = runSegmentWithin g data n text s := by
  -- Each substitution is followed up to the bound, and none of them gets to a processor.
  induction n generalizing text s with
  | zero =>
    have hnone : s.resolve? text = none := Option.map_eq_none_iff.mp h
    unfold runSegmentWithin
    cases he : s.expand? text with
    | none => rw [runSegmentWith_of_unknown hnone he, runSegmentWith_of_unknown hnone he]
    | some expanded => rw [runSegmentWith_of_expand hnone he, runSegmentWith_of_expand hnone he]
  | succ n ih =>
    unfold Session.delivery? at h
    unfold runSegmentWithin
    split at h
    · cases h
    rename_i hnone
    cases he : s.expand? text with
    | none => rw [runSegmentWith_of_unknown hnone he, runSegmentWith_of_unknown hnone he]
    | some expanded =>
      rw [he, Option.bind_some, ← Session.started_delivery?] at h
      rw [runSegmentWith_of_expand hnone he, runSegmentWith_of_expand hnone he, ensuring_apply,
        ensuring_apply, ih h]

/-- A segment does the same if the lines do that it leads to. -/
theorem runSegment_congr (h : ∀ line' s', SegmentLeads f start text data line' s' →
    f line' s' = g line' s') : runSegment f text data start = runSegment g text data start := by
  cases hd : start.delivery? data maxExpansions text with
  | none => exact runSegmentWithin_congr_of_none hd
  | some d =>
    obtain ⟨p, i⟩ := d
    have hreach : reach f p i start.started = reach g p i start.started := by
      rw [reach_eq, reach_eq]
      -- Lines are run for a description, or else by the moves of the command.
      by_cases hasks : i.asksForHelp = true
      · rw [if_pos hasks, if_pos hasks]
        exact recover_congr (h _ _ (.help hd hasks)) reportFailure
      · rw [if_neg hasks, if_neg hasks]
        refine bind_congr_at rfl fun given t ht => ?_
        cases given with
        | none => rfl
        | some i' =>
          refine bind_congr_at rfl fun c u hu => recover_congr ?_ settleFault
          have hdispatches : Dispatches start text data p i' c u :=
            ⟨i, t, hd, by simpa using hasks, ht, hu⟩
          refine handleBetweenHooks_congr fun m hm line hline => ?_
          exact h line m.start (.action hdispatches hm hline)
    unfold runSegment
    rw [runSegmentWithin_of_delivery hd, runSegmentWithin_of_delivery hd, ensuring_apply,
      ensuring_apply, hreach]

theorem runReported_congr (h : ∀ line' s', SegmentLeads f start text data line' s' →
    f line' s' = g line' s') : runReported f text data start = runReported g text data start :=
  recover_congr (bind_congr_at (runSegment_congr h) fun _ _ _ => rfl) _

/-! ### Lines -/

variable {k : ChainState} {parts rest : List Part} {t : Session} {st : ChainStep} {e : Stop}

/-- A chain moves alike if its segment does the same. -/
theorem chainMove_congr
    (hsegment : ∀ text rest, parts = .segment text :: rest → k.runNext = true →
      runReported f text k.input s = runReported g text k.input s)
    (h : ChainMove (chainRunner f) k parts s st rest t) :
    ChainMove (chainRunner g) k parts s st rest t :=
  chainMove_of_segment (fun _ _ _ hparts hrun h => (hsegment _ _ hparts hrun).symm.trans h) h

/-- A chain halts alike if its segment does the same. -/
theorem chainHalt_congr
    (hsegment : ∀ text rest, parts = .segment text :: rest → k.runNext = true →
      runReported f text k.input s = runReported g text k.input s)
    (h : ChainHalt (chainRunner f) k parts s e t) : ChainHalt (chainRunner g) k parts s e t := by
  cases h with
  | segment hrun h => exact .segment hrun ((hsegment _ _ rfl hrun).symm.trans h)
  | append hrun h => exact .append hrun h
  | operatorForPath h => exact .operatorForPath h
  | nothingForPath h => exact .nothingForPath h

/-- A chain takes the same steps if the segments do the same that it comes to. -/
theorem chainTrace_congr {steps : List ChainStep}
    (h : ∀ (steps : List ChainStep) (text : String) (rest : List Part) (u : Session),
      ChainTrace (chainRunner f) k parts s steps (.segment text :: rest) u →
      (k.afterAll steps).runNext = true →
      runReported f text (k.afterAll steps).input u =
        runReported g text (k.afterAll steps).input u)
    (ht : ChainTrace (chainRunner f) k parts s steps rest t) :
    ChainTrace (chainRunner g) k parts s steps rest t := by
  induction ht with
  | nil => exact .nil
  | @cons k parts s st mid u steps rest t hm _ ih =>
    refine .cons (chainMove_congr (fun text rest' hparts hrun => ?_) hm) (ih ?_)
    · exact h [] text rest' s (hparts ▸ .nil) hrun
    · intro steps' text rest' u ht' hrun
      exact h (st :: steps') text rest' u (.cons hm ht') hrun

/-- A chain does the same if the segments do that it comes to. -/
theorem runChain_congr
    (h : ∀ (steps : List ChainStep) (text : String) (rest : List Part) (u : Session),
      ChainTrace (chainRunner f) k parts s steps (.segment text :: rest) u →
      (k.afterAll steps).runNext = true →
      runReported f text (k.afterAll steps).input u =
        runReported g text (k.afterAll steps).input u) :
    runChain (chainRunner f) k parts s = runChain (chainRunner g) k parts s := by
  induction hn : parts.length using Nat.strongRecOn generalizing k parts s with
  | _ n ih =>
    subst hn
    cases parts with
    | nil => rw [runChain, runChain]
    | cons part rest =>
      have hsegment : ∀ text rest', part :: rest = .segment text :: rest' → k.runNext = true →
          runReported f text k.input s = runReported g text k.input s := by
        intro text rest' hparts hrun
        rw [hparts] at h
        exact h [] text rest' s .nil hrun
      -- The chain moves on to fewer parts, or halts where the other one does.
      rcases exists_move_or_halt (r := chainRunner f) k part rest s with
        ⟨st, mid, t, hm⟩ | ⟨e, t, hh⟩
      · rw [hm.runChain_eq, (chainMove_congr hsegment hm).runChain_eq]
        refine ih mid.length hm.length_lt (fun steps text rest' u ht hrun => ?_) rfl
        exact h (st :: steps) text rest' u (.cons hm ht) hrun
      · exact hh.stops.trans (chainHalt_congr hsegment hh).stops.symm

/-- A segment that a line comes to does the same if the lines do that the line leads to. -/
theorem SegmentStarts.runReported_congr (hstarts : SegmentStarts f line s text data start)
    (h : ∀ line' s', LeadsTo f line s line' s' → f line' s' = g line' s') :
    runReported f text data start = runReported g text data start :=
  Run.runReported_congr fun line' s' hleads => h line' s' ⟨text, data, start, hstarts, hleads⟩

/-- A line takes the same steps if the lines do the same that it leads to. -/
theorem lineTrace_congr {steps : List ChainStep}
    (h : ∀ line' s', LeadsTo f line s line' s' → f line' s' = g line' s')
    (ht : LineTrace f line s steps rest t) : LineTrace g line s steps rest t :=
  chainTrace_congr (fun steps _ rest _ ht hrun =>
    SegmentStarts.runReported_congr ⟨steps, rest, ht, hrun, rfl⟩ h) ht

/-- A line does the same under two ways to run lines that do the same where the line leads to: it
runs no other lines. -/
theorem runLineWith_congr (h : ∀ line' s', LeadsTo f line s line' s' → f line' s' = g line' s') :
    runLineWith f line s = runLineWith g line s := by
  have hchain : runChain (chainRunner f) {} (splitLine line) s =
      runChain (chainRunner g) {} (splitLine line) s :=
    runChain_congr fun steps _ rest _ ht hrun =>
      SegmentStarts.runReported_congr ⟨steps, rest, ht, hrun, rfl⟩ h
  unfold runLineWith
  rw [bind_apply, bind_apply, hchain]

end Run

end CommandShell
