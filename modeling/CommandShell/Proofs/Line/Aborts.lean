import CommandShell.Proofs.Congruence.Line
import CommandShell.Proofs.Line.Nesting
import CommandShell.Shell.Host
import Mathlib.Logic.Relation

/-!
# Whom an abort reaches

An abort cancels the current token, which is the one of the scope that was opened last.  Every
command opens a scope, and nothing makes an earlier token the current one again.  So an abort
reaches a handler as long as no scope has been opened since its own; a handler that has run a line
with a command in it is out of reach, unless its token was cancelled before.

## Main definitions

* `Session.TokensSound`: the last token is the current one, and cancelled tokens have made their
  calls.
* `Session.TokensFollow`: what a run does to the tokens.
* `Session.Advances`: what a shell does between two states.
* `RunsIn`: the states while a handler runs.

## Main results

* `tokensFollow`: scripts and lines only add tokens, and keep them sound.
* `follows_of_advances`: what everything that lines are made of follows, a shell follows.
* `dispatch_opens`: every command opens a scope.
* `abort_reaches_iff`: whom an abort reaches.
-/

namespace CommandShell

namespace Session

/-- The last token is the current one, and every cancelled token has made the calls of all its
callbacks. -/
structure TokensSound (s : Session) : Prop where
  current_last : s.currentToken + 1 = s.tokens.length
  called : ∀ n, (s.token n).cancelled = true → ∀ tag ∈ (s.token n).callbacks,
    .cancelled tag ∈ s.journal

/-- From `s` to `t` no token is lost, and sound tokens stay sound. -/
structure TokensFollow (s t : Session) : Prop where
  length_le : s.tokens.length ≤ t.tokens.length
  sound : s.TokensSound → t.TokensSound

variable {s t u : Session}

/-- A fresh token alone is sound. -/
theorem tokensSound_of_single (htokens : s.tokens = [({} : CancelToken String)])
    (hcurrent : s.currentToken = 0) : s.TokensSound := by
  refine ⟨by rw [htokens, hcurrent]; rfl, fun n hn => ?_⟩
  have htoken : s.token n = {} := by
    unfold Session.token
    rw [htokens]
    cases n <;> rfl
  rw [htoken] at hn
  cases hn

theorem TokensFollow.refl (s : Session) : s.TokensFollow s :=
  ⟨Nat.le_refl _, id⟩

theorem TokensFollow.trans (h : s.TokensFollow t) (h' : t.TokensFollow u) : s.TokensFollow u :=
  ⟨Nat.le_trans h.length_le h'.length_le, fun hs => h'.sound (h.sound hs)⟩

/-- Tokens stay sound where none is lost, the last one is the current one, and each of them is as it
was, or has made the calls of all its callbacks if it is cancelled. -/
theorem tokensFollow_of_tokens (hlength : s.tokens.length ≤ t.tokens.length)
    (hcurrent : s.currentToken + 1 = s.tokens.length → t.currentToken + 1 = t.tokens.length)
    (hjournal : s.journal <:+ t.journal)
    (htoken : ∀ n, t.token n = s.token n ∨
      (s.TokensSound → (t.token n).cancelled = true →
        ∀ tag ∈ (t.token n).callbacks, .cancelled tag ∈ t.journal)) : s.TokensFollow t := by
  refine ⟨hlength, fun hs => ⟨hcurrent hs.current_last, ?_⟩⟩
  intro n hn tag htag
  rcases htoken n with heq | hcalled
  · rw [heq] at hn htag
    exact hjournal.mem (hs.called n hn tag htag)
  · exact hcalled hs hn tag htag

theorem tokensFollow_of_eq (htokens : t.tokens = s.tokens)
    (hcurrent : t.currentToken = s.currentToken) (hjournal : s.journal <:+ t.journal) :
    s.TokensFollow t := by
  refine tokensFollow_of_tokens ?_ ?_ hjournal fun n => Or.inl ?_
  · exact Nat.le_of_eq (congrArg List.length htokens).symm
  · intro hs
    rw [hcurrent, htokens]
    exact hs
  · unfold token
    rw [htokens]

theorem token_of_length_le {n : Nat} (h : s.tokens.length ≤ n) : s.token n = {} := by
  unfold token
  rw [List.getElem?_eq_none h]
  rfl

theorem token_set {x : CancelToken String} {n m : Nat} (h : t.tokens = s.tokens.set n x) :
    t.token m = s.token m ∨ t.token m = x ∧ m = n := by
  unfold token
  rw [h, List.getElem?_set]
  by_cases hnm : n = m
  · subst hnm
    by_cases hlt : n < s.tokens.length
    · simp [hlt]
    · simp [hlt]
  · simp [hnm]

/-- Tokens stay sound where one of them is changed, which has made the calls of all its callbacks if
it is cancelled now. -/
theorem tokensFollow_of_set {n : Nat} {x : CancelToken String}
    (htokens : t.tokens = s.tokens.set n x) (hcurrent : t.currentToken = s.currentToken)
    (hjournal : s.journal <:+ t.journal)
    (hx : s.TokensSound → x.cancelled = true → ∀ tag ∈ x.callbacks, .cancelled tag ∈ t.journal) :
    s.TokensFollow t := by
  have hlength : t.tokens.length = s.tokens.length := by rw [htokens, List.length_set]
  refine tokensFollow_of_tokens (Nat.le_of_eq hlength.symm) ?_ hjournal fun m => ?_
  · intro hs
    rw [hcurrent, hlength]
    exact hs
  · rcases token_set (m := m) htokens with heq | ⟨heq, -⟩
    · exact Or.inl heq
    · refine Or.inr fun hs hm tag htag => ?_
      rw [heq] at hm htag
      exact hx hs hm tag htag

theorem token_append {n : Nat} (h : t.tokens = s.tokens ++ [({} : CancelToken String)]) :
    t.token n = s.token n := by
  by_cases hlt : n < s.tokens.length
  · unfold token
    rw [h, List.getElem?_append_left hlt]
  · rw [s.token_of_length_le (Nat.le_of_not_lt hlt)]
    unfold token
    rw [h, List.getElem?_append_right (Nat.le_of_not_lt hlt)]
    cases n - s.tokens.length <;> rfl

end Session

namespace Run

variable {s s' t u v : Session} {c : Scope} {p : ShellProcessor} {i : Invocation} {depth : Nat}

/-! ### What tokens do -/

theorem forM_emit_apply {α : Type} (ev : α → Event) (l : List α) (s : Session) :
    (l.forM fun a => emit (ev a)) s =
      (.ok (), { s with journal := (l.map ev).reverse ++ s.journal }) := by
  induction l generalizing s with
  | nil => rfl
  | cons a l ih =>
    show (emit (ev a) >>= fun _ => l.forM fun a => emit (ev a)) s = _
    rw [bind_apply]
    show (l.forM fun a => emit (ev a)) { s with journal := ev a :: s.journal } = _
    rw [ih]
    simp

/-- To cancel a token raises its flag and calls its callbacks, unless that was done before. -/
theorem cancel_apply (number : Nat) (s : Session) :
    cancel number s = (.ok (),
      { s with
        tokens := s.tokens.set number (s.token number).cancel.1
        journal := ((s.token number).cancel.2.map Event.cancelled).reverse ++ s.journal }) := by
  show ((s.token number).cancel.2.forM fun tag => emit (.cancelled tag))
    { s with tokens := s.tokens.set number (s.token number).cancel.1 } = _
  rw [forM_emit_apply]

/-- A callback that is added to a cancelled token is called at once. -/
theorem onCancel_apply (number : Nat) (tag : String) (s : Session) :
    onCancel number tag s = (.ok (),
      { s with
        tokens := s.tokens.set number ((s.token number).add tag)
        journal :=
          (((s.token number).calledOnAdding tag).map Event.cancelled).reverse ++ s.journal }) := by
  show (((s.token number).calledOnAdding tag).forM (fun tag => emit (.cancelled tag)) >>=
    fun _ => modify fun σ => { σ with tokens := σ.tokens.set number ((s.token number).add tag) })
      s = _
  rw [bind_apply, forM_emit_apply]
  rfl

theorem newToken_apply (s : Session) :
    newToken s = (.ok s.tokens.length,
      { s with tokens := s.tokens ++ [{}], currentToken := s.tokens.length }) :=
  rfl

theorem tokensFollow_cancel (number : Nat) (s : Session) :
    s.TokensFollow (cancel number s).2 := by
  rw [cancel_apply]
  refine Session.tokensFollow_of_set rfl rfl (List.suffix_append _ _) fun hs _ tag htag => ?_
  -- The token was cancelled before, and has made its calls, or it makes them now.
  unfold CancelToken.cancel at htag ⊢
  split at htag
  · rename_i hcancelled
    exact List.mem_append_right _ (hs.called number hcancelled tag htag)
  · rename_i hnot
    rw [if_neg hnot]
    simpa using Or.inl htag

theorem tokensFollow_onCancel (number : Nat) (tag : String) (s : Session) :
    s.TokensFollow (onCancel number tag s).2 := by
  rw [onCancel_apply]
  refine Session.tokensFollow_of_set rfl rfl (List.suffix_append _ _) fun hs hn other hother => ?_
  have hcancelled : (s.token number).cancelled = true := hn
  rw [CancelToken.calledOnAdding, if_pos hcancelled]
  rcases List.mem_append.mp hother with hold | hnew
  · exact List.mem_append_right _ (hs.called number hcancelled other hold)
  · rw [List.mem_singleton.mp hnew]
    exact List.mem_cons_self

theorem tokensFollow_newToken (s : Session) : s.TokensFollow (newToken s).2 := by
  have htokens : (newToken s).2.tokens = s.tokens ++ [({} : CancelToken String)] := rfl
  refine Session.tokensFollow_of_tokens ?_ ?_ (List.suffix_refl _) fun n => ?_
  · rw [htokens, List.length_append]
    exact Nat.le_add_right _ _
  · intro _
    rw [htokens, List.length_append]
    rfl
  · exact Or.inl (Session.token_append htokens)

/-- Scripts and lines only add tokens, and keep them sound. -/
theorem tokensFollow : LineCongruence fun _ x _ => ∀ s : Session, s.TokensFollow (x s).2 where
  pure _ s := Session.TokensFollow.refl s
  throw _ s := Session.TokensFollow.refl s
  get s := Session.TokensFollow.refl s
  emit _ s := Session.tokensFollow_of_eq rfl rfl (List.suffix_cons _ _)
  bind := Follows.bind fun _ _ _ => .trans
  change h s := by
    obtain ⟨-, htokens, hcurrent, hjournal⟩ := h s
    exact Session.tokensFollow_of_eq htokens hcurrent hjournal
  cancel := tokensFollow_cancel
  onCancel := tokensFollow_onCancel
  recover := Follows.recover fun _ _ _ => .trans
  process _ s := Session.tokensFollow_of_eq rfl rfl (List.suffix_refl _)
  finishing hx s := (hx s).trans (Session.tokensFollow_of_eq rfl rfl (List.suffix_refl _))
  newToken := tokensFollow_newToken

/-! ### Scopes that are opened -/

/-- A scope has the last token, which was not there before. -/
theorem token_of_openScope (h : Returns (openScope p) s c u) :
    s.tokens.length ≤ c.token ∧ c.token + 1 = u.tokens.length := by
  obtain ⟨bucket, t, ht, h⟩ := returns_bind_iff.mp h
  obtain ⟨number, t', ht', h⟩ := returns_bind_iff.mp h
  obtain ⟨rfl, rfl⟩ := returns_pure_iff.mp h
  obtain ⟨hnumber, rfl⟩ := Prod.mk.inj ((newToken_apply t).symm.trans ht')
  obtain rfl : t.tokens.length = number := Except.ok.inj hnumber
  constructor
  · have hfollow := tokensFollow.openBucket p s
    rw [show openBucket p s = _ from ht] at hfollow
    exact hfollow.length_le
  · show t.tokens.length + 1 = (t.tokens ++ [({} : CancelToken String)]).length
    rw [List.length_append]
    rfl

/-- Every command opens a scope. -/
theorem dispatch_opens (depth : Nat) (p : ShellProcessor) (i : Invocation) (s : Session) :
    s.tokens.length < (dispatch (nestedWithin depth) p i s).2.tokens.length := by
  rcases returns_or_stops (openScope p) s with ⟨c, u, hopen⟩ | ⟨e, u, hstop⟩
  · obtain ⟨hle, hlast⟩ := token_of_openScope hopen
    -- What the handler and its hooks do keeps the token of the scope.
    let x := handleBetweenHooks (nestedWithin depth) c p i
    have hhandle : ∀ s : Session, s.TokensFollow (x s).2 :=
      tokensFollow.handleBetweenHooks (g := nestedWithin depth) c i p
        (tokensFollow.nestedWithin depth)
    have hfollow := tokensFollow.recover (y := x) (g := settleFault) hhandle
      tokensFollow.settleFault u
    have hle' := hfollow.length_le
    unfold dispatch
    rw [bind_apply, show openScope p s = _ from hopen]
    show s.tokens.length < (recover x settleFault u).2.tokens.length
    omega
  · exact absurd hstop (stopsOnly_openScope (P := fun _ => False) _ _ _)

/-! ### Aborts -/

/-- An abort returns, and of the tokens it changes the current one only. -/
theorem exists_returns_abort (t : Session) :
    ∃ t', Returns abort t () t' ∧
      t'.tokens = t.tokens.set t.currentToken (t.token t.currentToken).cancel.1 := by
  let t₁ : Session := { t with indicators := t.indicators.abort }
  let t₂ := (cancel t.currentToken t₁).2
  have hcancel : Returns (cancel t.currentToken) t₁ () t₂ := by
    unfold Returns
    rw [show t₂ = (cancel t.currentToken t₁).2 from rfl, cancel_apply]
  have hreport := forM_emit_apply (fun w : AbortWatcher => .aborted w.2) t₂.abortWatchers t₂
  refine ⟨_, returns_bind_iff.mpr ⟨(), t₁, rfl, returns_bind_iff.mpr ⟨t₁, t₁, rfl,
    returns_bind_iff.mpr ⟨(), t₂, hcancel, returns_bind_iff.mpr ⟨t₂, t₂, rfl, hreport⟩⟩⟩⟩, ?_⟩
  show t₂.tokens = _
  rw [show t₂ = (cancel t.currentToken t₁).2 from rfl, cancel_apply]
  rfl

/-- After an abort the current token is cancelled, and those that were before. -/
theorem cancelled_abort_iff (h : Returns abort t () s') (hsound : t.TokensSound) (n : Nat) :
    (s'.token n).cancelled = true ↔ (t.token n).cancelled = true ∨ n = t.currentToken := by
  obtain ⟨t', ht', htokens⟩ := exists_returns_abort t
  obtain ⟨-, rfl⟩ := h.unique ht'
  have hcancel : (t.token t.currentToken).cancel.1.cancelled = true := by
    unfold CancelToken.cancel
    split
    · assumption
    · rfl
  -- An abort changes no token but the current one.
  by_cases hn : n = t.currentToken
  · subst hn
    have hlt : t.currentToken < t.tokens.length := by
      have := hsound.current_last
      omega
    have htoken : s'.token t.currentToken = (t.token t.currentToken).cancel.1 := by
      show (s'.tokens[t.currentToken]?).getD {} = _
      rw [htokens, List.getElem?_set_self hlt]
      rfl
    simp [htoken, hcancel]
  · rcases Session.token_set (m := n) htokens with heq | ⟨-, hm⟩
    · simp [heq, hn]
    · exact absurd hm hn

end Run

/-! ### What a shell does while handlers run -/

open Run in
/-- What a shell does between two states: it opens a scope, performs an action of a script or a
handler as a whole, settles a fault, runs a segment of a line, appends a payload to a file, tells
something, or marks where a segment starts or ends.  Lines that are run may lead to others so many
levels deep. -/
inductive Session.Advances : Session → Session → Prop
  | opens (p : ShellProcessor) (s : Session) : Advances s (openScope p s).2
  | acts (depth : Nat) (c : Scope) (a : Action) (s : Session) :
    Advances s (perform (nestedWithin depth) c a s).2
  | handles (depth : Nat) (c : Scope) (i : Invocation) (h : Handler Action) (s : Session) :
    Advances s (handle (nestedWithin depth) c i h s).2
  | settles (f : Fault) (s : Session) : Advances s (settleFault f s).2
  | runs (depth : Nat) (text : String) (data : Value) (s : Session) :
    Advances s (runReported (nestedWithin depth) text data s).2
  | appends (path : String) (payload : Value) (s : Session) :
    Advances s (appendPayload path payload s).2
  | tells (ev : Event) (s : Session) : Advances s (emit ev s).2
  | marks (f : ProcessRecord → ProcessRecord) (s : Session) : Advances s (Run.process f s).2

/-- From `s` a shell comes to `t`. -/
def Session.Reaches : Session → Session → Prop :=
  Relation.ReflTransGen Session.Advances

namespace Run

variable {s s' t u : Session} {c : Scope}

/-- What everything that lines are made of follows, a shell follows whatever it does. -/
theorem follows_of_advances {R : Session → Session → Prop}
    (hC : ChainCongruence fun _ x _ => Follows x R) (h : s.Advances t) : R s t := by
  have hlines := hC.nestedWithin
  cases h with
  | opens p => exact hC.openScope p s
  | acts depth c a => exact hC.perform (g := nestedWithin depth) c (hlines depth) a s
  | handles depth c i h => exact hC.handle (g := nestedWithin depth) c i (hlines depth) h s
  | settles f => exact hC.settleFault f s
  | runs depth text data =>
    exact hC.runReported (g := nestedWithin depth) (hlines depth) text data s
  | appends path payload => exact hC.appendPayload path payload s
  | tells ev => exact hC.emit ev s
  | marks f => exact hC.process f s

/-- Whatever a shell does, it only adds tokens, and keeps them sound. -/
theorem tokensFollow_of_reaches (h : s.Reaches t) : s.TokensFollow t := by
  induction h with
  | refl => exact .refl s
  | tail _ hstep ih =>
    have hC := tokensFollow.toChainCongruence
    exact ih.trans (follows_of_advances (R := Session.TokensFollow) hC hstep)

/-- A script comes to what its actions do, also when one of them fails. -/
theorem reaches_performAll (depth : Nat) (c : Scope) (actions : List Action) (s : Session) :
    s.Reaches (performAll (nestedWithin depth) c actions s).2 := by
  induction actions generalizing s with
  | nil =>
    unfold performAll
    exact .refl
  | cons a actions ih =>
    have hstep := Session.Advances.acts depth c a s
    unfold performAll
    rw [bind_apply]
    generalize perform (nestedWithin depth) c a s = ending at hstep ⊢
    rcases ending with ⟨e | ⟨⟩, t⟩
    · exact .single hstep
    · exact .head hstep (ih t)

/-- A handler runs in a scope: a shell that had started with a single token has opened the scope,
which left it in `u`, and has come to `t` since. -/
def RunsIn (c : Scope) (u t : Session) : Prop :=
  ∃ (s₀ s : Session) (p : ShellProcessor),
    s₀.tokens = [({} : CancelToken String)] ∧ s₀.currentToken = 0 ∧ s₀.Reaches s ∧
      Returns (openScope p) s c u ∧ u.Reaches t

theorem tokensSound_of_runsIn (h : RunsIn c u t) : t.TokensSound := by
  obtain ⟨s₀, s, p, htokens, hcurrent, hs, hopen, ht⟩ := h
  have hstart := Session.tokensSound_of_single htokens hcurrent
  have hscope := tokensFollow.openScope p s
  rw [show openScope p s = _ from hopen] at hscope
  have hfollow := (tokensFollow_of_reaches hs).trans (hscope.trans (tokensFollow_of_reaches ht))
  exact hfollow.sound hstart

/-- The token of a handler is the current one as long as no scope has been opened since. -/
theorem token_eq_currentToken_iff (h : RunsIn c u t) :
    c.token = t.currentToken ↔ t.tokens.length = u.tokens.length := by
  have hlast := (tokensSound_of_runsIn h).current_last
  obtain ⟨s₀, s, p, -, -, -, hopen, -⟩ := h
  have htoken := (token_of_openScope hopen).2
  omega

/-- Whom an abort reaches.  An abort, or an interrupt, while a handler runs leaves the token of the
handler cancelled, with the calls of all its callbacks made, just where the token was cancelled
before or no scope has been opened since the handler's own.  Every command opens a scope, and scopes
are never closed, so after a line with a command in it the handler is out of reach for good. -/
theorem abort_reaches_iff (c : Scope) (u t : Session) :
    (RunsIn c u t →
      (∃ t', Returns abort t () t') ∧ (∃ t', Returns interrupt t () t') ∧
      ∀ t', Returns abort t () t' ∨ Returns interrupt t () t' →
        (((t'.token c.token).cancelled = true ∧
            ∀ tag ∈ (t'.token c.token).callbacks, .cancelled tag ∈ t'.journal) ↔
          (t.token c.token).cancelled = true ∨ t.tokens.length = u.tokens.length)) ∧
    (∀ depth p i, t.tokens.length < (dispatch (nestedWithin depth) p i t).2.tokens.length) ∧
    (∀ t', t.Reaches t' → t.tokens.length ≤ t'.tokens.length) := by
  refine ⟨fun h => ?_, fun depth p i => dispatch_opens depth p i t,
    fun t' h => (tokensFollow_of_reaches h).length_le⟩
  -- An interrupt is an abort once nothing is pinned any more, and a pin concerns no token.
  let unpinned : Session := { t with pinned := none }
  have hinterrupt : ∀ t', Returns interrupt t () t' ↔ Returns abort unpinned () t' :=
    fun t' => Iff.rfl
  obtain ⟨t₁, ht₁, -⟩ := exists_returns_abort t
  obtain ⟨t₂, ht₂, -⟩ := exists_returns_abort unpinned
  have hsound := tokensSound_of_runsIn h
  have hunpinned : unpinned.TokensSound := ⟨hsound.current_last, hsound.called⟩
  refine ⟨⟨t₁, ht₁⟩, ⟨t₂, (hinterrupt t₂).mpr ht₂⟩, ?_⟩
  intro t' ht'
  rw [← token_eq_currentToken_iff h]
  have hsound' : ∀ v : Session, v.TokensSound → Returns abort v () t' → t'.TokensSound := by
    intro v hv habort
    have hfollow := tokensFollow.abort v
    rw [show abort v = _ from habort] at hfollow
    exact hfollow.sound hv
  rcases ht' with habort | hinterrupted
  · rw [← cancelled_abort_iff habort hsound c.token]
    exact ⟨And.left, fun hc => ⟨hc, (hsound' t hsound habort).called _ hc⟩⟩
  · have habort := (hinterrupt t').mp hinterrupted
    show _ ↔ (unpinned.token c.token).cancelled = true ∨ c.token = unpinned.currentToken
    rw [← cancelled_abort_iff habort hunpinned c.token]
    exact ⟨And.left, fun hc => ⟨hc, (hsound' unpinned hunpinned habort).called _ hc⟩⟩

/-- A handler that has run a line watches its token in vain: an abort does not cancel it. -/
theorem abort_misses_outer :
    ∃ c u t t', RunsIn c u t ∧
      Returns (performAll nested c [.onCancel "mine", .run "inner"]) u () t ∧
      Returns abort t () t' ∧ (t'.token c.token).callbacks = ["mine"] ∧
      (t'.token c.token).cancelled = false ∧ t'.journal = [] := by
  let outer : ShellProcessor := .scripted "outer" [] []
  let shell : Session := .offering [outer, .scripted "inner" [] []]
  let u := (openScope outer shell).2
  let script (c : Scope) := performAll nested c [.onCancel "mine", .run "inner"] u
  let aborted (c : Scope) := (abort (script c).2).2
  obtain ⟨c, hopen, hc⟩ := exists_returns_of_map (openScope outer) shell
    (fun c => ((script c).1.toOption.isSome, ((aborted c).token c.token).callbacks,
      ((aborted c).token c.token).cancelled, (aborted c).journal.isEmpty))
    (true, ["mine"], false, true) (by decide +kernel)
  obtain ⟨hscript, hc⟩ := Prod.mk.inj hc
  obtain ⟨hcallbacks, hc⟩ := Prod.mk.inj hc
  obtain ⟨hcancelled, hjournal⟩ := Prod.mk.inj hc
  have ht : Returns (performAll nested c [.onCancel "mine", .run "inner"]) u () (script c).2 := by
    obtain ⟨⟨⟩, hr⟩ := Option.isSome_iff_exists.mp hscript
    obtain ⟨⟨⟩, h, -⟩ := exists_returns_of_map
      (performAll nested c [.onCancel "mine", .run "inner"]) u id ()
      (by rw [Option.map_id]; exact hr)
    exact h
  obtain ⟨t', habort, -⟩ := exists_returns_abort (script c).2
  have htokens : shell.tokens = [({} : CancelToken String)] := by rfl
  have hcurrent : shell.currentToken = 0 := by rfl
  obtain rfl : aborted c = t' := congrArg Prod.snd habort
  refine ⟨c, u, (script c).2, aborted c, ?_, ht, habort, hcallbacks, hcancelled,
    List.isEmpty_iff.mp hjournal⟩
  exact ⟨shell, shell, outer, htokens, hcurrent, .refl, hopen, reaches_performAll _ c _ u⟩

end Run

end CommandShell
