import CommandShell.Proofs.Cancellation.Handles
import CommandShell.Proofs.Ending

/-!
# How often callbacks are called

A token owes a call to every handle that is not closed before its flag is raised, whether the handle
was opened before or after that.  When the flag is raised the token owes the calls first and makes
them then; when a callback is added to a cancelled token the call is made first.  Whatever callbacks
do in between, the calls that are made and the calls that are owed come out even in the end.

A channel calls the observers that it has when something is emitted, each as often as it has open
handles.

## Main definitions

* `Signals.calls`: how often a source has called a callback.
* `Signals.dueHandles`: the handles whose callbacks a cancelled token owes a call.
* `Signals.Gains`: how far the calls get ahead of those that are owed.

## Main results

* `Signals.leads_perform`: whatever a step does comes to things that happen.
* `Signals.gains_call`, `Signals.gains_stepWith`: calls that are made, and steps.
* `Signals.callbacks_called_as_owed`: how often callbacks are called.
-/

namespace CommandShell

namespace Signals

variable {σ τ υ : Signals} {n k c d h fuel : Nat} {step : SignalStep}
  {call : Nat → Nat → SignalRun Unit}

/-! ### What steps come to -/

theorem leads_refl (σ : Signals) : σ.Leads σ :=
  .refl

theorem leads_trans (σ τ υ : Signals) (h : σ.Leads τ) (h' : τ.Leads υ) : σ.Leads υ :=
  Relation.ReflTransGen.trans h h'

theorem leads_known (name : String) (number? : Option Nat) :
    Follows (known name number?) Leads := by
  cases number? with
  | none => exact follows_throw leads_refl
  | some n => exact follows_pure leads_refl

theorem leads_watched (name : String) : Follows (watched name) Leads :=
  (follows_get leads_refl).bind leads_trans fun _ => leads_known _ _

theorem leads_make (s : SignalSource) (hobservers : s.observers = []) (hs : s.cancelled = false) :
    Follows (make s) Leads :=
  (follows_get leads_refl).bind leads_trans fun _ =>
    Follows.bind leads_trans (fun _ => .single (.makes s hobservers hs)) fun _ =>
      follows_pure leads_refl

section Steps

variable (hcall : ∀ n c, Follows (call n c) Leads)

include hcall

theorem leads_subscribe (n c : Nat) (tag : String) : Follows (subscribe call n c tag) Leads := by
  unfold subscribe
  refine (follows_get leads_refl).bind leads_trans fun σ => ?_
  have hopen : Follows (modify (fun σ : Signals =>
      { σ.openHandle n c with subscriptions := σ.subscriptions.insert tag σ.handles.length }) :
      SignalRun PUnit) Leads := fun σ => by
    refine .tail (.single (.opens n c)) ?_
    exact .names (σ.openHandle n c).tokens (σ.openHandle n c).channels _
      (σ.openHandle n c).callbacks
  split
  · exact (follows_forM leads_refl leads_trans (hcall n) _).bind leads_trans fun _ => hopen
  · exact hopen

theorem leads_cancel (n : Nat) : Follows (cancel call n) Leads :=
  (follows_get leads_refl).bind leads_trans fun _ =>
    Follows.bind leads_trans (fun _ => .single (.raises n)) fun _ =>
      follows_forM leads_refl leads_trans (hcall n) _

theorem leads_emit (n : Nat) : Follows (emit call n) Leads := by
  unfold emit
  refine (follows_get leads_refl).bind leads_trans fun σ => ?_
  split
  · exact follows_forM leads_refl leads_trans (hcall n) _
  · exact follows_pure leads_refl

theorem leads_stepWith (step : SignalStep) : Follows (stepWith call step) Leads := by
  cases step with
  | token name =>
    refine (leads_make _ rfl rfl).bind leads_trans fun n => ?_
    exact fun σ => .single (.names _ σ.channels σ.subscriptions σ.callbacks)
  | channel name =>
    refine (leads_make _ rfl rfl).bind leads_trans fun n => ?_
    exact fun σ => .single (.names σ.tokens _ σ.subscriptions σ.callbacks)
  | watch name tag steps =>
    refine (leads_watched _).bind leads_trans fun n => ?_
    refine (follows_get leads_refl).bind leads_trans fun _ => ?_
    -- The callback gets its steps before it is called for the first time.
    refine Follows.bind leads_trans (fun σ => ?_) fun _ => leads_subscribe hcall _ _ _
    exact .single (.names σ.tokens σ.channels σ.subscriptions _)
  | watchAgain name tag earlier =>
    refine (leads_watched _).bind leads_trans fun n => ?_
    refine (follows_get leads_refl).bind leads_trans fun _ => ?_
    refine (leads_known _ _).bind leads_trans fun h => ?_
    refine (follows_get leads_refl).bind leads_trans fun σ => ?_
    split
    · exact leads_subscribe hcall _ _ _
    · exact follows_pure leads_refl
  | unwatch tag =>
    refine (follows_get leads_refl).bind leads_trans fun _ => ?_
    refine (leads_known _ _).bind leads_trans fun h => ?_
    exact fun σ => .single (.closes h)
  | cancel name =>
    refine (follows_get leads_refl).bind leads_trans fun _ => ?_
    exact (leads_known _ _).bind leads_trans fun n => leads_cancel hcall n
  | emit name =>
    refine (follows_get leads_refl).bind leads_trans fun _ => ?_
    exact (leads_known _ _).bind leads_trans fun n => leads_emit hcall n
  | check name =>
    refine (follows_get leads_refl).bind leads_trans fun _ => ?_
    refine (leads_known _ _).bind leads_trans fun n => ?_
    exact (follows_get leads_refl).bind leads_trans fun σ => fun τ => .refl
  | fail message => exact follows_throw leads_refl

end Steps

theorem leads_call (fuel n c : Nat) : Follows (Signals.call fuel n c) Leads := by
  induction fuel generalizing n c with
  | zero => exact follows_throw leads_refl
  | succ fuel ih =>
    unfold Signals.call
    refine Follows.bind leads_trans (fun _ => .single (.calls n c)) fun _ => ?_
    refine (follows_get leads_refl).bind leads_trans fun σ => ?_
    split
    · exact follows_forM leads_refl leads_trans (leads_stepWith ih) _
    · exact follows_pure leads_refl

/-- Whatever a step does, also one that fails, comes to things that happen. -/
theorem leads_perform (step : SignalStep) : Follows (perform step) Leads :=
  leads_stepWith (leads_call maxNesting) step

/-! ### Calls that are made, and calls that are owed -/

/-- How often a source has called a callback. -/
def calls (σ : Signals) (n c : Nat) : Nat :=
  σ.journal.count (.called n c)

/-- What had happened when the flag of a token was raised. -/
def beforeCancel (σ : Signals) (n : Nat) : List SignalEvent :=
  (σ.journal.dropWhile (· ≠ .cancelled n)).tail

/-- The handles of a callback at a source, the closed ones as well: one for every time that it was
added. -/
def handlesOf (σ : Signals) (n c : Nat) : Finset Nat :=
  (Finset.range σ.handles.length).filter fun h =>
    σ.handles[h]?.map (fun x => (x.source, x.subscription.callback)) = some (n, c)

/-- The handles of a callback that were not closed before the flag of the token was raised. -/
def dueHandles (σ : Signals) (n c : Nat) : Finset Nat :=
  (σ.handlesOf n c).filter fun h => .closed h ∉ σ.beforeCancel n

/-- How many calls of a callback a source owes, if it is a token, since its flag was raised. -/
def due (σ : Signals) (n c : Nat) : Nat :=
  if σ.isCancelled n then (σ.dueHandles n c).card else 0

/-- How many calls more are made than are owed. -/
def ahead (σ : Signals) (n c : Nat) : Int :=
  σ.calls n c - σ.due n c

theorem mem_handlesOf : h ∈ σ.handlesOf n c ↔ ∃ b, σ.handles[h]? = some ⟨n, ⟨c, b⟩⟩ := by
  rw [handlesOf, Finset.mem_filter, Finset.mem_range]
  constructor
  · rintro ⟨-, hmap⟩
    obtain ⟨⟨n', c', b⟩, hx, heq⟩ := Option.map_eq_some_iff.mp hmap
    cases heq
    exact ⟨b, hx⟩
  · rintro ⟨b, hh⟩
    refine ⟨(List.getElem?_eq_some_iff.mp hh).1, ?_⟩
    rw [hh]
    rfl

theorem due_le_card_handlesOf : σ.due n c ≤ (σ.handlesOf n c).card := by
  unfold due
  split
  · exact Finset.card_filter_le _ _
  · exact Nat.zero_le _

theorem calls_of_cons {e : SignalEvent} (he : e ≠ .called n c)
    (hτ : τ.journal = e :: σ.journal) : τ.calls n c = σ.calls n c := by
  unfold calls
  rw [hτ, List.count_cons_of_ne he]

theorem beforeCancel_of_cons {e : SignalEvent} (he : e ≠ .cancelled n)
    (hτ : τ.journal = e :: σ.journal) : τ.beforeCancel n = σ.beforeCancel n := by
  unfold beforeCancel
  rw [hτ, List.dropWhile_cons_of_pos (by simpa using he)]

theorem beforeCancel_of_cancelled (hτ : τ.journal = .cancelled n :: σ.journal) :
    τ.beforeCancel n = σ.journal := by
  unfold beforeCancel
  rw [hτ, List.dropWhile_cons_of_neg (by simp)]
  rfl

theorem mem_journal_of_mem_beforeCancel {e : SignalEvent} (h : e ∈ σ.beforeCancel n) :
    e ∈ σ.journal :=
  (List.dropWhile_sublist _).subset (List.mem_of_mem_tail h)

/-! ### What single things do to them -/

/-- Nothing that is owed changes where the cancelled tokens stay the same, and the handles with what
had happened before their flags were raised. -/
theorem due_congr (hcancelled : τ.isCancelled n = σ.isCancelled n)
    (hhandles : τ.handlesOf n c = σ.handlesOf n c)
    (hbefore : τ.beforeCancel n = σ.beforeCancel n) : τ.due n c = σ.due n c := by
  unfold due dueHandles
  rw [hcancelled, hhandles, hbefore]

theorem ahead_congr (hcalls : τ.calls n c = σ.calls n c) (hdue : τ.due n c = σ.due n c) :
    τ.ahead n c = σ.ahead n c := by
  unfold ahead
  rw [hcalls, hdue]

theorem ahead_addSource {s : SignalSource} (hs : s.cancelled = false) (n c : Nat) :
    (σ.addSource s).ahead n c = σ.ahead n c :=
  ahead_congr rfl (due_congr (isCancelled_addSource hs) rfl rfl)

/-- How often a callback is among those that a source calls, if the source is `k` and the callback
is `d`. -/
def share (k d n : Nat) (called : List Nat) : Int :=
  if k = n then called.count d else 0

@[simp] theorem share_nil : share k d n [] = 0 := by
  simp [share]

theorem share_cons (called : List Nat) :
    share k d n (c :: called) = share k d n [c] + share k d n called := by
  unfold share
  split
  · rw [List.count_cons, List.count_singleton]
    push_cast
    exact Int.add_comm _ _
  · rfl

theorem share_of_ne (hne : k ≠ n) (called : List Nat) : share k d n called = 0 :=
  if_neg hne

/-- A call that is made counts once. -/
theorem ahead_note_called (σ : Signals) (n c k d : Nat) :
    (σ.note (.called n c)).ahead k d = σ.ahead k d + share k d n [c] := by
  have hdue : (σ.note (.called n c)).due k d = σ.due k d :=
    due_congr rfl rfl (beforeCancel_of_cons (e := .called n c) nofun rfl)
  have hcalls : ((σ.note (.called n c)).calls k d : Int) = σ.calls k d + share k d n [c] := by
    rw [calls, note, List.count_cons, share, List.count_singleton]
    by_cases hk : n = k
    · by_cases hd : c = d <;> simp [calls, hk, hd]
    · simp [calls, hk, Ne.symm hk]
  unfold ahead
  rw [hdue, hcalls]
  omega

theorem ahead_closeHandle (hσ : σ.Sound) (h n c : Nat) :
    (σ.closeHandle h).ahead n c = σ.ahead n c := by
  rcases closeHandle_eq_or_open σ h with heq | ⟨m, d, hh⟩
  · rw [heq]
  obtain ⟨s, hs⟩ : ∃ s, σ.sources[m]? = some s :=
    ⟨_, List.getElem?_eq_getElem (hσ.source_lt h _ hh)⟩
  have hjournal : (σ.closeHandle h).journal = .closed h :: σ.journal := by
    rw [closeHandle_of_open hh hs]
  refine ahead_congr (calls_of_cons (e := .closed h) nofun hjournal)
    (due_congr ?_ ?_ (beforeCancel_of_cons (e := .closed h) nofun hjournal))
  · exact isCancelled_of_set hs (by rw [closeHandle_of_open hh hs])
  · ext h'
    rw [mem_handlesOf, mem_handlesOf, closeHandle_of_open hh hs, List.getElem?_set]
    split
    · rename_i heq
      subst heq
      rw [if_pos (List.getElem?_eq_some_iff.mp hh).1, hh]
      simp
    · rfl

theorem handlesOf_openHandle {s : SignalSource} (hs : σ.sources[n]? = some s) (k d : Nat) :
    (σ.openHandle n c).handlesOf k d =
      if k = n ∧ d = c then insert σ.handles.length (σ.handlesOf k d) else σ.handlesOf k d := by
  ext h
  have hmem : h ∈ (σ.openHandle n c).handlesOf k d ↔
      h ∈ σ.handlesOf k d ∨ h = σ.handles.length ∧ k = n ∧ d = c := by
    simp only [mem_handlesOf, openHandle_of_some hs, getElem?_concat_eq_some_iff, exists_or]
    simp [eq_comm]
  rw [hmem]
  split
  · rw [Finset.mem_insert]
    tauto
  · tauto

/-- A new handle was not closed before, so it is owed a call with those that were owed one. -/
theorem card_dueHandles_openHandle (hσ : σ.Sound) {s : SignalSource}
    (hs : σ.sources[n]? = some s) (k d : Nat) :
    ((σ.openHandle n c).dueHandles k d).card =
      (σ.dueHandles k d).card + if k = n ∧ d = c then 1 else 0 := by
  have hjournal : (σ.openHandle n c).journal = σ.journal := by rw [openHandle_of_some hs]
  have hnew : .closed σ.handles.length ∉ σ.beforeCancel k := fun hmem =>
    absurd (hσ.closed_lt _ (mem_journal_of_mem_beforeCancel hmem)) (Nat.lt_irrefl _)
  have hnotMem : σ.handles.length ∉ σ.dueHandles k d := by
    intro hmem
    obtain ⟨b, hb⟩ := mem_handlesOf.mp (Finset.mem_filter.mp hmem).1
    exact absurd (List.getElem?_eq_some_iff.mp hb).1 (Nat.lt_irrefl _)
  have hbefore : (σ.openHandle n c).beforeCancel k = σ.beforeCancel k := by
    unfold beforeCancel
    rw [hjournal]
  rw [dueHandles, hbefore, handlesOf_openHandle hs]
  split
  · rw [Finset.filter_insert, if_pos hnew, ← dueHandles, Finset.card_insert_of_notMem hnotMem]
  · rfl

/-- A handle that is opened is owed a call just where its source is a cancelled token. -/
theorem ahead_openHandle (hσ : σ.Sound) (n c k d : Nat) :
    (σ.openHandle n c).ahead k d =
      σ.ahead k d - share k d n (if σ.isCancelled n then [c] else []) := by
  cases hs : σ.sources[n]? with
  | none =>
    have hn : σ.isCancelled n = false := by rw [isCancelled, hs]; rfl
    rw [openHandle_of_none hs, hn]
    simp
  | some s =>
    have hcancelled : (σ.openHandle n c).isCancelled k = σ.isCancelled k :=
      isCancelled_of_set hs (by rw [openHandle_of_some hs])
    have hcalls : (σ.openHandle n c).calls k d = σ.calls k d := by
      unfold calls
      rw [openHandle_of_some hs]
    -- No call is made yet, so what is ahead changes by what is due to the new handle.
    unfold ahead due
    rw [hcalls, hcancelled, card_dueHandles_openHandle hσ hs]
    by_cases hk : k = n
    · subst hk
      cases σ.isCancelled k with
      | false => simp
      | true =>
        by_cases hd : d = c
        · subst hd
          simp [share]
          omega
        · simp [share, hd, Ne.symm hd]
    · have hkd : ¬ (k = n ∧ d = c) := fun h => hk h.1
      rw [share_of_ne hk, if_neg hkd]
      simp

/-- When the flag of a token is raised, its callbacks are owed as many calls as they have open
handles. -/
theorem due_raise (hσ : σ.Sound) {t : CancelToken Nat} (hs : σ.sources[n]? = some (.token t))
    (ht : t.cancelled = false) (d : Nat) : (σ.raise n).1.due n d = t.callbacks.count d := by
  have hcancelled : (σ.raise n).1.isCancelled n = true :=
    (isCancelled_raise hs ht).mpr (Or.inl rfl)
  have hbefore : (σ.raise n).1.beforeCancel n = σ.journal :=
    beforeCancel_of_cancelled (by rw [raise_of_token hs ht])
  have hopen : (σ.raise n).1.dueHandles n d = σ.openHandles n d := by
    ext h
    rw [dueHandles, Finset.mem_filter, hbefore, mem_handlesOf, raise_of_token hs ht,
      mem_openHandles]
    constructor
    · rintro ⟨⟨b, hb⟩, hclosed⟩
      cases b with
      | false => exact hb
      | true => exact absurd ((hσ.closed_iff h _ hb).mp rfl) hclosed
    · intro hh
      exact ⟨⟨false, hh⟩, fun hclosed => Bool.false_ne_true ((hσ.closed_iff h _ hh).mpr hclosed)⟩
  rw [due, if_pos hcancelled, hopen]
  exact (hσ.count_eq n d (.token t) hs).symm

/-- When the flag of a token is raised, all calls to its callbacks are owed. -/
theorem ahead_raise (hσ : σ.Sound) (n k d : Nat) :
    (σ.raise n).1.ahead k d = σ.ahead k d - share k d n (σ.raise n).2 := by
  rcases raise_eq_or_token σ n with heq | ⟨t, hs, ht⟩
  · rw [heq]
    simp
  have hjournal : (σ.raise n).1.journal = .cancelled n :: σ.journal := by rw [raise_of_token hs ht]
  have hcalls : (σ.raise n).1.calls k d = σ.calls k d :=
    calls_of_cons (e := .cancelled n) nofun hjournal
  by_cases hk : k = n
  · subst hk
    have hn : σ.isCancelled k = false := by rw [isCancelled, hs]; exact ht
    unfold ahead
    rw [hcalls, due_raise hσ hs ht, raise_of_token hs ht, due, hn, share, if_pos rfl]
    simp
  · -- What other sources owe is left as it is.
    have hcancelled : (σ.raise n).1.isCancelled k = σ.isCancelled k := by
      rw [Bool.eq_iff_iff, isCancelled_raise hs ht, or_iff_right hk]
    have hhandles : (σ.raise n).1.handlesOf k d = σ.handlesOf k d := by
      rw [raise_of_token hs ht]
      rfl
    have hne : SignalEvent.cancelled n ≠ .cancelled k := by simpa using Ne.symm hk
    rw [share_of_ne hk, Int.sub_zero]
    exact ahead_congr hcalls (due_congr hcancelled hhandles (beforeCancel_of_cons hne hjournal))

/-! ### What runs do to them -/

/-- The calls of a callback `d` by `k`, if that is no channel, gain on the calls that are owed. -/
structure Gains (k d : Nat) (gain : Int) (σ τ : Signals) : Prop where
  leads : σ.Leads τ
  ahead : τ.isChannel k = false → τ.ahead k d = σ.ahead k d + gain

namespace Gains

variable {gain gain' : Int}

theorem refl (σ : Signals) : Gains k d 0 σ σ :=
  ⟨.refl, fun _ => (Int.add_zero _).symm⟩

theorem of_move (hmove : σ.Moves τ) (h : τ.ahead k d = σ.ahead k d + gain) : Gains k d gain σ τ :=
  ⟨.single hmove, fun _ => h⟩

theorem of_eq (hmove : σ.Moves τ) (h : τ.ahead k d = σ.ahead k d) : Gains k d 0 σ τ :=
  .of_move hmove (h.trans (Int.add_zero _).symm)

theorem trans (h : Gains k d gain σ τ) (h' : Gains k d gain' τ υ) :
    Gains k d (gain + gain') σ υ := by
  refine ⟨h.leads.trans h'.leads, fun hk => ?_⟩
  rw [h'.ahead hk, h.ahead (isChannel_of_leads h'.leads hk), Int.add_assoc]

theorem trans_same (h : Gains k d 0 σ τ) (h' : Gains k d gain τ υ) : Gains k d gain σ υ :=
  Int.zero_add gain ▸ h.trans h'

end Gains

/-- Names do not matter to calls. -/
theorem gains_names (σ : Signals) (tokens channels subscriptions : Entries Nat)
    (callbacks : List (String × List SignalStep)) :
    Gains k d 0 σ { σ with tokens, channels, subscriptions, callbacks } :=
  .of_eq (.names tokens channels subscriptions callbacks) rfl

/-- A handle that is opened, and known under a tag from then on, is owed a call where its source is
a cancelled token. -/
theorem gains_addHandle {tag : String} (hσ : σ.Sound) (h : Returns (modify (fun σ : Signals =>
      { σ.openHandle n c with subscriptions := σ.subscriptions.insert tag σ.handles.length }) :
      SignalRun Unit) σ () τ) :
    Gains k d (-share k d n (if σ.isCancelled n then [c] else [])) σ τ := by
  obtain rfl := returns_modify_iff.mp h
  have hopen : Gains k d (-share k d n (if σ.isCancelled n then [c] else [])) σ
      (σ.openHandle n c) := .of_move (.opens n c) (ahead_openHandle hσ n c k d)
  have hnames := hopen.trans (gains_names (σ.openHandle n c) (σ.openHandle n c).tokens
    (σ.openHandle n c).channels (σ.subscriptions.insert tag σ.handles.length)
    (σ.openHandle n c).callbacks)
  rwa [Int.add_zero] at hnames

theorem isCancelled_of_not_token (hn : ∀ t, σ.sources[n]? ≠ some (.token t)) :
    σ.isCancelled n = false := by
  unfold isCancelled
  rcases hs : σ.sources[n]? with _ | (t | observers)
  · rfl
  · exact absurd hs (hn t)
  · rfl

theorem eq_of_returns_known {name : String} {number? : Option Nat} {n : Nat}
    (h : Returns (known name number?) σ n τ) : τ = σ := by
  cases number? with
  | none => exact absurd h not_returns_throw
  | some _ => exact (returns_pure_iff.mp h).2.symm

theorem eq_of_returns_watched {name : String} {n : Nat} (h : Returns (watched name) σ n τ) :
    τ = σ :=
  eq_of_returns_known (returns_get_bind_iff.mp h)

theorem gains_make {s : SignalSource} {n : Nat} (hobservers : s.observers = [])
    (hs : s.cancelled = false) (h : Returns (make s) σ n τ) : Gains k d 0 σ τ := by
  have hadd : Returns ((modify (·.addSource s) : SignalRun Unit) >>= fun _ =>
      pure σ.sources.length) σ n τ := returns_get_bind_iff.mp h
  have hnumber := returns_modify_bind_iff.mp hadd
  obtain ⟨-, rfl⟩ := returns_pure_iff.mp hnumber
  exact .of_eq (.makes s hobservers hs) (ahead_addSource hs k d)

section Steps

-- A call that returns counts once.
variable (hcall : ∀ (n c : Nat) (σ τ : Signals),
  σ.Sound → Returns (call n c) σ () τ → Gains k d (share k d n [c]) σ τ)

include hcall

theorem gains_forM (n : Nat) (called : List Nat) (hσ : σ.Sound)
    (h : Returns (called.forM (call n)) σ () τ) : Gains k d (share k d n called) σ τ := by
  induction called generalizing σ with
  | nil =>
    obtain ⟨-, rfl⟩ := returns_pure_iff.mp h
    rw [share_nil]
    exact .refl σ
  | cons c called ih =>
    obtain ⟨_, υ, hfirst, hrest⟩ := returns_bind_iff.mp h
    have hgain := hcall n c σ υ hσ hfirst
    rw [share_cons]
    exact hgain.trans (ih (hσ.of_leads hgain.leads) hrest)

/-- A callback that is added to a cancelled token is called first, and its handle is owed the call
when it is opened. -/
theorem gains_subscribe {tag : String} (hσ : σ.Sound)
    (h : Returns (subscribe call n c tag) σ () τ) : Gains k d 0 σ τ := by
  have h := returns_get_bind_iff.mp h
  split at h
  · rename_i t hs
    have hn : σ.isCancelled n = t.cancelled := by rw [isCancelled, hs]; rfl
    obtain ⟨_, υ, hcalls, hadd⟩ := returns_bind_iff.mp h
    have hgain := gains_forM hcall n _ hσ hcalls
    have hτ := gains_addHandle (k := k) (d := d) (hσ.of_leads hgain.leads) hadd
    rw [CancelToken.calledOnAdding] at hcalls hgain
    -- The call is made before the handle is opened, so it is ahead for a while, and then it is due.
    cases ht : t.cancelled with
    | true =>
      rw [isCancelled_of_leads hgain.leads (hn.trans ht), if_pos rfl] at hτ
      rw [ht, if_pos rfl] at hgain
      have hboth := hgain.trans hτ
      rwa [Int.add_right_neg] at hboth
    | false =>
      rw [ht] at hcalls
      obtain ⟨-, rfl⟩ := returns_pure_iff.mp hcalls
      rw [hn, ht] at hτ
      simpa using hτ
  · rename_i hs
    have hτ := gains_addHandle (k := k) (d := d) hσ h
    have hn := isCancelled_of_not_token hs
    rw [hn] at hτ
    simpa using hτ

/-- The flag of a token is raised first, and all calls are owed from then on. -/
theorem gains_cancel (hσ : σ.Sound) (h : Returns (cancel call n) σ () τ) : Gains k d 0 σ τ := by
  have hraise : Gains k d (-share k d n (σ.raise n).2) σ (σ.raise n).1 :=
    .of_move (.raises n) (ahead_raise hσ n k d)
  have hcalls := returns_modify_bind_iff.mp (returns_get_bind_iff.mp h)
  have hgain := hraise.trans (gains_forM hcall n _ (hσ.raise n) hcalls)
  rwa [Int.add_left_neg] at hgain

/-- What a channel calls is not owed. -/
theorem gains_emit (hσ : σ.Sound) (h : Returns (emit call n) σ () τ) : Gains k d 0 σ τ := by
  have h := returns_get_bind_iff.mp h
  split at h
  · rename_i observers hs
    have hgain := gains_forM hcall n observers hσ h
    refine ⟨hgain.leads, fun hk => ?_⟩
    have hne : k ≠ n := by
      rintro rfl
      have hchannel := isChannel_of_leads hgain.leads hk
      rw [isChannel, hs] at hchannel
      cases hchannel
    rw [hgain.ahead hk, share_of_ne hne]
  · obtain ⟨-, rfl⟩ := returns_pure_iff.mp h
    exact .refl σ

theorem gains_stepWith (step : SignalStep) (hσ : σ.Sound)
    (h : Returns (stepWith call step) σ () τ) : Gains k d 0 σ τ := by
  cases step with
  | token name =>
    obtain ⟨n, υ, hmake, h⟩ := returns_bind_iff.mp h
    obtain rfl := returns_modify_iff.mp h
    exact (gains_make rfl rfl hmake).trans_same
      (gains_names υ _ υ.channels υ.subscriptions υ.callbacks)
  | channel name =>
    obtain ⟨n, υ, hmake, h⟩ := returns_bind_iff.mp h
    obtain rfl := returns_modify_iff.mp h
    exact (gains_make rfl rfl hmake).trans_same
      (gains_names υ υ.tokens _ υ.subscriptions υ.callbacks)
  -- What a callback is to do is known before it is called, so the names come first.
  | watch name tag steps =>
    obtain ⟨n, υ, hwatched, hnumber⟩ := returns_bind_iff.mp h
    obtain rfl := eq_of_returns_watched hwatched
    have hnames := gains_names (k := k) (d := d) υ υ.tokens υ.channels υ.subscriptions
      (υ.callbacks ++ [(tag, steps)])
    have hadd := returns_get_bind_iff.mp hnumber
    have hsubscribe := returns_modify_bind_iff.mp hadd
    exact hnames.trans_same (gains_subscribe hcall (hσ.of_leads hnames.leads) hsubscribe)
  | watchAgain name tag earlier =>
    obtain ⟨n, υ, hwatched, hearlier⟩ := returns_bind_iff.mp h
    obtain rfl := eq_of_returns_watched hwatched
    have hearlier := returns_get_bind_iff.mp hearlier
    obtain ⟨i, ω, hknown, hhandle⟩ := returns_bind_iff.mp hearlier
    obtain rfl := eq_of_returns_known hknown
    have hhandle := returns_get_bind_iff.mp hhandle
    -- Whoever watches already does not watch twice.
    split at hhandle
    · exact gains_subscribe hcall hσ hhandle
    · obtain ⟨-, rfl⟩ := returns_pure_iff.mp hhandle
      exact .refl _
  | unwatch tag =>
    have h := returns_get_bind_iff.mp h
    obtain ⟨i, υ, hknown, hclose⟩ := returns_bind_iff.mp h
    obtain rfl := eq_of_returns_known hknown
    obtain rfl := returns_modify_iff.mp hclose
    exact .of_eq (.closes i) (ahead_closeHandle hσ i k d)
  | cancel name =>
    have h := returns_get_bind_iff.mp h
    obtain ⟨n, υ, hknown, hcancel⟩ := returns_bind_iff.mp h
    obtain rfl := eq_of_returns_known hknown
    exact gains_cancel hcall hσ hcancel
  | emit name =>
    have h := returns_get_bind_iff.mp h
    obtain ⟨n, υ, hknown, hemit⟩ := returns_bind_iff.mp h
    obtain rfl := eq_of_returns_known hknown
    exact gains_emit hcall hσ hemit
  | check name =>
    have h := returns_get_bind_iff.mp h
    obtain ⟨n, υ, hknown, hcheck⟩ := returns_bind_iff.mp h
    obtain rfl := eq_of_returns_known hknown
    have hflag : (Stop.ofExcept (υ.check n), υ) = (.ok (), τ) := returns_get_bind_iff.mp hcheck
    obtain rfl := (Prod.mk.inj hflag).2
    exact .refl _
  | fail message => exact absurd h not_returns_throw

/-- Over any steps, calls and what is owed come out even. -/
theorem gains_forM_stepWith (steps : List SignalStep) (hσ : σ.Sound)
    (h : Returns (steps.forM (stepWith call)) σ () τ) : Gains k d 0 σ τ := by
  induction steps generalizing σ with
  | nil =>
    obtain ⟨-, rfl⟩ := returns_pure_iff.mp h
    exact .refl σ
  | cons step steps ih =>
    obtain ⟨_, υ, hfirst, hrest⟩ := returns_bind_iff.mp h
    have hgain := gains_stepWith hcall step hσ hfirst
    exact hgain.trans_same (ih (hσ.of_leads hgain.leads) hrest)

end Steps

/-- A call that returns counts once, whatever the callback does: by induction on how deep callbacks
lead to one another. -/
theorem gains_call (fuel n c : Nat) (σ τ : Signals) (hσ : σ.Sound)
    (h : Returns (Signals.call fuel n c) σ () τ) : Gains k d (share k d n [c]) σ τ := by
  induction fuel generalizing n c σ τ with
  | zero => exact absurd h not_returns_throw
  | succ fuel ih =>
    have hnote : Gains k d (share k d n [c]) σ (σ.note (.called n c)) :=
      .of_move (.calls n c) (ahead_note_called σ n c k d)
    have hsteps := returns_get_bind_iff.mp (returns_modify_bind_iff.mp h)
    split at hsteps
    · have hgain := hnote.trans (gains_forM_stepWith ih _ (hσ.note_called n c) hsteps)
      rwa [Int.add_zero] at hgain
    · obtain ⟨-, rfl⟩ := returns_pure_iff.mp hsteps
      exact hnote

/-- Callbacks are called as often as they are to be.  After any steps that return, a token that is
not cancelled has called nothing; one that is cancelled has called each callback once for every time
that it was added, but for the handles that were closed before the flag was raised.  An emission
calls each observer as often as it has open handles when it starts.  A handle that was closed can be
closed again at any time, which changes nothing. -/
theorem callbacks_called_as_owed :
    (∀ (steps : List SignalStep) (σ : Signals), Returns (steps.forM perform) {} () σ →
      ∀ n c, σ.isChannel n = false →
        σ.calls n c = (if σ.isCancelled n then (σ.dueHandles n c).card else 0) ∧
        σ.calls n c ≤ (σ.handlesOf n c).card) ∧
    (∀ (fuel : Nat) (step : SignalStep) (σ : Signals),
      σ.Leads (stepWith (Signals.call fuel) step σ).2) ∧
    (∀ σ : Signals, Leads {} σ → ∀ n, σ.isChannel n = true →
      ∃ observers : List Nat, (∀ c, observers.count c = (σ.openHandles n c).card) ∧
        ∀ call, emit call n σ = observers.forM (call n) σ) ∧
    ∀ (σ τ : Signals) (h : Nat), h < σ.handles.length → (σ.closeHandle h).Leads τ →
      τ.closeHandle h = τ := by
  refine ⟨fun steps σ h n c hn => ?_, fun fuel step => leads_stepWith (leads_call fuel) step,
    fun σ h n hn => ?_, fun σ τ h => closeHandle_of_leads⟩
  · have hgain := gains_forM_stepWith (k := n) (d := c) (gains_call maxNesting) steps sound_empty h
    have heven : σ.ahead n c = 0 := by
      rw [hgain.ahead hn]
      rfl
    have hcalls : σ.calls n c = σ.due n c := Int.ofNat.inj (Int.eq_of_sub_eq_zero heven)
    refine ⟨hcalls, ?_⟩
    rw [hcalls]
    exact due_le_card_handlesOf
  · rcases hs : σ.sources[n]? with _ | (t | observers)
    · rw [isChannel, hs] at hn
      cases hn
    · rw [isChannel, hs] at hn
      cases hn
    · -- Each observer has as many handles open as it occurs among the observers.
      refine ⟨observers, fun c => (sound_empty.of_leads h).count_eq n c _ hs, fun call => ?_⟩
      unfold emit
      rw [get_bind_apply, hs]

/-- A token calls a callback that was added three times twice, as one of the handles was closed
before, and an observer that was subscribed twice is called twice. -/
theorem kept_handles_are_called :
    ∃ (steps : List SignalStep) (σ : Signals), Returns (steps.forM perform) {} () σ ∧
      (σ.isCancelled 0 = true ∧ (σ.handlesOf 0 0).card = 3 ∧ σ.calls 0 0 = 2) ∧
      (σ.isChannel 1 = true ∧ ∃ observers : List Nat, observers.count 3 = 2 ∧
        emit (Signals.call 1) 1 σ = observers.forM (Signals.call 1 1) σ) ∧
      (σ.closeHandle 0).closeHandle 0 = σ.closeHandle 0 := by
  let steps : List SignalStep :=
    [.token "job", .watch "job" "early" [.watch "job" "late" []], .watchAgain "job" "again" "early",
      .watchAgain "job" "ended" "early", .unwatch "ended", .cancel "job", .channel "abort",
      .watch "abort" "seen" [], .watchAgain "abort" "twice" "seen"]
  let σ : Signals := (steps.forM perform {}).2
  obtain ⟨⟨⟩, hreturns, -⟩ := exists_returns_of_map (steps.forM perform) {} id ()
    (by decide +kernel)
  have hleads : Leads {} σ :=
    (follows_forM leads_refl leads_trans leads_perform steps).of_returns hreturns
  obtain ⟨hcalls, -, hemit, hclose⟩ := callbacks_called_as_owed
  obtain ⟨htoken, -⟩ := hcalls steps σ hreturns 0 0 (by decide +kernel)
  obtain ⟨observers, hobservers, hcall⟩ := hemit σ hleads 1 (by decide +kernel)
  refine ⟨steps, σ, hreturns, ⟨by decide +kernel, by decide +kernel, ?_⟩,
    ⟨by decide +kernel, observers, ?_, hcall _⟩,
    hclose σ _ 0 (by decide +kernel) .refl⟩
  · rw [htoken]
    decide +kernel
  · rw [hobservers]
    decide +kernel

end Signals

end CommandShell
