import CommandShell.Cancellation.Signals
import Mathlib.Data.Finset.Card
import Mathlib.Data.Finset.Range
import Mathlib.Logic.Relation

/-!
# Handles of callbacks

A source keeps a list of callbacks, and a handle takes one occurrence of its callback out of this
list when it is closed.  The handle does not know which occurrence it stands for, but this makes no
difference: a callback stands in the list as often as it has open handles.

## Main definitions

* `Signals.openHandles`: the open handles of a callback at a source.
* `Signals.Moves`, `Signals.Leads`: what happens to tokens and channels, one thing or several.
* `Signals.Sound`: what holds of tokens and channels at any time.

## Main results

* `Signals.Sound.move`, `Signals.Sound.of_leads`: whatever happens, they stay sound.
* `Signals.closeHandle_of_leads`: to close a handle again changes nothing.
-/

namespace CommandShell

namespace SignalSource

/-- Whether a source is a channel. -/
def isChannel : SignalSource → Bool
  | token _ => false
  | channel _ => true

variable (s : SignalSource) (observers : List Nat)

@[simp] theorem observers_withObservers : (s.withObservers observers).observers = observers := by
  cases s <;> rfl

@[simp] theorem cancelled_withObservers : (s.withObservers observers).cancelled = s.cancelled := by
  cases s <;> rfl

@[simp] theorem isChannel_withObservers : (s.withObservers observers).isChannel = s.isChannel := by
  cases s <;> rfl

end SignalSource

namespace Signals

/-- The open handles of a callback at a source. -/
def openHandles (σ : Signals) (n c : Nat) : Finset Nat :=
  (Finset.range σ.handles.length).filter fun h => σ.handles[h]? = some ⟨n, ⟨c, false⟩⟩

/-- Whether a source is a cancelled token. -/
def isCancelled (σ : Signals) (n : Nat) : Bool :=
  σ.sources[n]?.any (·.cancelled)

/-- Whether a source is a channel. -/
def isChannel (σ : Signals) (n : Nat) : Bool :=
  σ.sources[n]?.any (·.isChannel)

/-- A single thing that happens to tokens and channels. -/
inductive Moves (σ : Signals) : Signals → Prop
  /-- A token or a channel is made, without callbacks. -/
  | makes (s : SignalSource) : s.observers = [] → s.cancelled = false → Moves σ (σ.addSource s)
  /-- Something gets a name, or a callback a number. -/
  | names (tokens channels subscriptions : Entries Nat)
      (callbacks : List (String × List SignalStep)) :
      Moves σ { σ with tokens, channels, subscriptions, callbacks }
  /-- A source calls a callback. -/
  | calls (n c : Nat) : Moves σ (σ.note (.called n c))
  /-- A callback is added to a source. -/
  | opens (n c : Nat) : Moves σ (σ.openHandle n c)
  /-- A handle is closed. -/
  | closes (h : Nat) : Moves σ (σ.closeHandle h)
  /-- The flag of a token is raised. -/
  | raises (n : Nat) : Moves σ (σ.raise n).1

/-- What happens leads from some tokens and channels to others. -/
def Leads : Signals → Signals → Prop :=
  Relation.ReflTransGen Moves

/-- Every callback stands among those of a source as often as it has open handles there, and the
journal tells which tokens are cancelled and which handles are closed. -/
structure Sound (σ : Signals) : Prop where
  count_eq : ∀ n c s, σ.sources[n]? = some s → s.observers.count c = (σ.openHandles n c).card
  cancelled_iff : ∀ n, σ.isCancelled n = true ↔ .cancelled n ∈ σ.journal
  closed_iff : ∀ (h : Nat) (x : SignalHandle), σ.handles[h]? = some x →
    (x.subscription.closed = true ↔ .closed h ∈ σ.journal)
  source_lt : ∀ (h : Nat) (x : SignalHandle), σ.handles[h]? = some x → x.source < σ.sources.length
  closed_lt : ∀ h, .closed h ∈ σ.journal → h < σ.handles.length

variable {σ τ : Signals} {n k c d h : Nat}

theorem mem_openHandles : h ∈ σ.openHandles n c ↔ σ.handles[h]? = some ⟨n, ⟨c, false⟩⟩ := by
  rw [openHandles, Finset.mem_filter, Finset.mem_range, and_iff_right_iff_imp]
  intro hh
  exact (List.getElem?_eq_some_iff.mp hh).1

theorem sound_empty : ({} : Signals).Sound where
  count_eq n c s h := by cases h
  cancelled_iff n := by
    refine iff_of_false ?_ List.not_mem_nil
    exact nofun
  closed_iff h x hx := by cases hx
  source_lt h x hx := by cases hx
  closed_lt h hh := by cases hh

/-- An element of a list with one more is an element of the list, or the one more. -/
theorem getElem?_concat_eq_some_iff {α : Type} {l : List α} {a b : α} :
    (l ++ [a])[k]? = some b ↔ l[k]? = some b ∨ k = l.length ∧ a = b := by
  rcases Nat.lt_trichotomy k l.length with hlt | rfl | hlt
  · rw [List.getElem?_append_left hlt]
    simp [Nat.ne_of_lt hlt]
  · simp
  · rw [List.getElem?_eq_none (by simpa using Nat.succ_le_of_lt hlt),
      List.getElem?_eq_none (Nat.le_of_lt hlt)]
    simp [Nat.ne_of_gt hlt]

/-- An element of a list that was changed at one place is the new one there, or an old one. -/
theorem of_getElem?_set {α : Type} {l : List α} {a b : α} (h : (l.set n a)[k]? = some b) :
    k = n ∧ b = a ∨ k ≠ n ∧ l[k]? = some b := by
  rw [List.getElem?_set] at h
  split at h
  · rename_i heq
    split at h
    · exact Or.inl ⟨heq.symm, (Option.some.inj h).symm⟩
    · cases h
  · rename_i hne
    exact Or.inr ⟨Ne.symm hne, h⟩

/-! ### Single things that happen -/

/-- Where neither sources nor handles change, and the journal tells nothing new of them, everything
stays sound. -/
theorem Sound.of_eq (hσ : σ.Sound) (hsources : τ.sources = σ.sources)
    (hhandles : τ.handles = σ.handles)
    (hcancelled : ∀ n, .cancelled n ∈ τ.journal ↔ .cancelled n ∈ σ.journal)
    (hclosed : ∀ h, .closed h ∈ τ.journal ↔ .closed h ∈ σ.journal) : τ.Sound where
  count_eq n c s hs := by
    unfold openHandles
    rw [hhandles]
    exact hσ.count_eq n c s (hsources ▸ hs)
  cancelled_iff n := by
    unfold isCancelled
    rw [hsources, hcancelled]
    exact hσ.cancelled_iff n
  closed_iff h x hx := by
    rw [hclosed]
    exact hσ.closed_iff h x (hhandles ▸ hx)
  source_lt h x hx := by
    rw [hsources]
    exact hσ.source_lt h x (hhandles ▸ hx)
  closed_lt h hh := by
    rw [hhandles]
    exact hσ.closed_lt h ((hclosed h).mp hh)

theorem isCancelled_addSource {s : SignalSource} (hs : s.cancelled = false) :
    (σ.addSource s).isCancelled n = σ.isCancelled n := by
  unfold isCancelled addSource
  rw [List.getElem?_append]
  split
  · rfl
  · rename_i hle
    rw [List.getElem?_eq_none (Nat.le_of_not_lt hle)]
    cases hn : [s][n - σ.sources.length]? with
    | none => rfl
    | some s' =>
      obtain rfl : s = s' := List.mem_singleton.mp (List.mem_of_getElem? hn) ▸ rfl
      exact hs

theorem Sound.addSource (hσ : σ.Sound) {s : SignalSource} (hobservers : s.observers = [])
    (hs : s.cancelled = false) : (σ.addSource s).Sound where
  count_eq n c s' hs' := by
    rcases getElem?_concat_eq_some_iff.mp hs' with hold | ⟨rfl, rfl⟩
    · exact hσ.count_eq n c s' hold
    · -- No handle belongs to a source that was not there yet.
      have hnone : (σ.addSource s).openHandles σ.sources.length c = ∅ := by
        refine Finset.eq_empty_of_forall_notMem fun h hh => ?_
        exact absurd (hσ.source_lt h _ (mem_openHandles.mp hh)) (Nat.lt_irrefl _)
      rw [hobservers, hnone]
      rfl
  cancelled_iff n := by
    rw [isCancelled_addSource hs]
    exact hσ.cancelled_iff n
  closed_iff := hσ.closed_iff
  source_lt h x hx := by
    rw [Signals.addSource, List.length_append]
    exact Nat.lt_add_right _ (hσ.source_lt h x hx)
  closed_lt := hσ.closed_lt

theorem Sound.note_called (hσ : σ.Sound) (n c : Nat) : (σ.note (.called n c)).Sound :=
  hσ.of_eq rfl rfl (fun _ => by simp [note]) (fun _ => by simp [note])

/-- Every source of the first is one of the second, of the same kind, and cancelled if it was. -/
def KeepsSources (σ τ : Signals) : Prop :=
  ∀ (n : Nat) (s : SignalSource), σ.sources[n]? = some s →
    ∃ s', τ.sources[n]? = some s' ∧ s'.isChannel = s.isChannel ∧
      (s.cancelled = true → s'.cancelled = true)

theorem KeepsSources.of_eq (h : τ.sources = σ.sources) : σ.KeepsSources τ :=
  fun _ s hs => ⟨s, h ▸ hs, rfl, id⟩

theorem KeepsSources.of_set {s s' : SignalSource} (hs : σ.sources[n]? = some s)
    (hτ : τ.sources = σ.sources.set n s') (hchannel : s'.isChannel = s.isChannel)
    (hcancelled : s.cancelled = true → s'.cancelled = true) : σ.KeepsSources τ := by
  intro k r hr
  by_cases hk : k = n
  · subst hk
    obtain rfl : s = r := Option.some.inj (hs.symm.trans hr)
    refine ⟨s', ?_, hchannel, hcancelled⟩
    rw [hτ]
    exact List.getElem?_set_self (List.getElem?_eq_some_iff.mp hs).1
  · refine ⟨r, ?_, rfl, id⟩
    rw [hτ, List.getElem?_set_ne (Ne.symm hk)]
    exact hr

/-- A source has another list of callbacks, and is the same otherwise. -/
theorem isCancelled_of_set {s : SignalSource} (hs : σ.sources[n]? = some s)
    {observers : List Nat} (hτ : τ.sources = σ.sources.set n (s.withObservers observers)) :
    τ.isCancelled k = σ.isCancelled k := by
  unfold isCancelled
  rw [hτ, List.getElem?_set]
  split
  · rename_i heq
    subst heq
    rw [hs, if_pos (List.getElem?_eq_some_iff.mp hs).1]
    simp
  · rfl

theorem openHandle_of_some {s : SignalSource} (hs : σ.sources[n]? = some s) (c : Nat) :
    σ.openHandle n c = { σ with
      sources := σ.sources.set n (s.withObservers (s.observers ++ [c]))
      handles := σ.handles ++ [⟨n, ⟨c, false⟩⟩] } := by
  unfold openHandle
  rw [hs]

theorem openHandle_of_none (hs : σ.sources[n]? = none) (c : Nat) : σ.openHandle n c = σ := by
  unfold openHandle
  rw [hs]

/-- A handle that is opened is the only one more. -/
theorem mem_openHandles_openHandle {s : SignalSource} (hs : σ.sources[n]? = some s) :
    h ∈ (σ.openHandle n c).openHandles k d ↔
      h ∈ σ.openHandles k d ∨ h = σ.handles.length ∧ k = n ∧ d = c := by
  rw [mem_openHandles, mem_openHandles, openHandle_of_some hs, getElem?_concat_eq_some_iff]
  simp [eq_comm]

theorem length_notMem_openHandles : σ.handles.length ∉ σ.openHandles n c := by
  rw [mem_openHandles, List.getElem?_eq_none (Nat.le_refl _)]
  exact nofun

theorem card_openHandles_openHandle {s : SignalSource} (hs : σ.sources[n]? = some s) :
    ((σ.openHandle n c).openHandles k d).card =
      (σ.openHandles k d).card + if k = n ∧ d = c then 1 else 0 := by
  split
  · rename_i heq
    have hinsert : (σ.openHandle n c).openHandles k d =
        insert σ.handles.length (σ.openHandles k d) := by
      ext h
      rw [mem_openHandles_openHandle hs, Finset.mem_insert]
      tauto
    rw [hinsert, Finset.card_insert_of_notMem length_notMem_openHandles]
  · rename_i hne
    have hsame : (σ.openHandle n c).openHandles k d = σ.openHandles k d := by
      ext h
      rw [mem_openHandles_openHandle hs]
      tauto
    rw [hsame, Nat.add_zero]

theorem Sound.openHandle (hσ : σ.Sound) (n c : Nat) : (σ.openHandle n c).Sound := by
  cases hs : σ.sources[n]? with
  | none =>
    rw [openHandle_of_none hs]
    exact hσ
  | some s =>
    -- The new handle comes last, and the observers of its source gain one callback.
    have hhandle : ∀ (h : Nat) (x : SignalHandle), (σ.openHandle n c).handles[h]? = some x →
        σ.handles[h]? = some x ∨ h = σ.handles.length ∧ x = ⟨n, ⟨c, false⟩⟩ := by
      intro h x hx
      rw [openHandle_of_some hs, getElem?_concat_eq_some_iff] at hx
      exact hx.imp_right fun ⟨hh, hx⟩ => ⟨hh, hx.symm⟩
    have hjournal : (σ.openHandle n c).journal = σ.journal := by rw [openHandle_of_some hs]
    refine ⟨fun k d s' hs' => ?_, fun k => ?_, fun h x hx => ?_, fun h x hx => ?_, fun h hh => ?_⟩
    · rw [card_openHandles_openHandle hs]
      rw [openHandle_of_some hs] at hs'
      rcases of_getElem?_set hs' with ⟨rfl, rfl⟩ | ⟨hne, hold⟩
      · rw [SignalSource.observers_withObservers, List.count_append, hσ.count_eq k d s hs,
          List.count_singleton]
        simp only [beq_iff_eq, true_and, @eq_comm _ c d]
      · rw [if_neg fun heq => hne heq.1, Nat.add_zero]
        exact hσ.count_eq k d s' hold
    · rw [isCancelled_of_set hs (by rw [openHandle_of_some hs]), hσ.cancelled_iff, hjournal]
    · rw [hjournal]
      rcases hhandle h x hx with hold | ⟨rfl, rfl⟩
      · exact hσ.closed_iff h x hold
      · exact iff_of_false nofun fun hh => absurd (hσ.closed_lt _ hh) (Nat.lt_irrefl _)
    · rw [openHandle_of_some hs, List.length_set]
      rcases hhandle h x hx with hold | ⟨rfl, rfl⟩
      · exact hσ.source_lt h x hold
      · exact (List.getElem?_eq_some_iff.mp hs).1
    · rw [hjournal] at hh
      rw [openHandle_of_some hs, List.length_append]
      exact Nat.lt_add_right _ (hσ.closed_lt h hh)

/-! ### Handles that are closed -/

theorem closeHandle_of_open {s : SignalSource} (hh : σ.handles[h]? = some ⟨n, ⟨c, false⟩⟩)
    (hs : σ.sources[n]? = some s) :
    σ.closeHandle h = { σ with
      sources := σ.sources.set n (s.withObservers (s.observers.erase c))
      handles := σ.handles.set h ⟨n, ⟨c, true⟩⟩
      journal := .closed h :: σ.journal } := by
  unfold closeHandle
  rw [hh]
  dsimp only
  rw [hs]
  rfl

theorem closeHandle_of_closed {x : SignalHandle} (hh : σ.handles[h]? = some x)
    (hx : x.subscription.closed = true) : σ.closeHandle h = σ := by
  unfold closeHandle
  rw [hh]
  exact if_pos hx

/-- To close a handle that is not open changes nothing. -/
theorem closeHandle_eq_or_open (σ : Signals) (h : Nat) :
    σ.closeHandle h = σ ∨ ∃ n c, σ.handles[h]? = some ⟨n, ⟨c, false⟩⟩ := by
  cases hh : σ.handles[h]? with
  | none =>
    left
    unfold closeHandle
    rw [hh]
  | some x =>
    obtain ⟨n, c, closed⟩ := x
    cases closed with
    | true => exact Or.inl (closeHandle_of_closed hh rfl)
    | false => exact Or.inr ⟨n, c, rfl⟩

theorem handles_closeHandle (hh : σ.handles[h]? = some ⟨n, ⟨c, false⟩⟩) :
    (σ.closeHandle h).handles = σ.handles.set h ⟨n, ⟨c, true⟩⟩ := by
  unfold closeHandle
  rw [hh]
  rfl

theorem exists_closed_closeHandle (hlt : h < σ.handles.length) :
    ∃ x : SignalHandle, (σ.closeHandle h).handles[h]? = some x ∧ x.subscription.closed = true := by
  have hh := List.getElem?_eq_getElem hlt
  cases hclosed : σ.handles[h].subscription.closed with
  | true => exact ⟨_, by rw [closeHandle_of_closed hh hclosed, hh], hclosed⟩
  | false =>
    have hopen : σ.handles[h]? =
        some ⟨σ.handles[h].source, ⟨σ.handles[h].subscription.callback, false⟩⟩ := by
      rw [hh, ← hclosed]
    rw [handles_closeHandle hopen]
    exact ⟨_, List.getElem?_set_self hlt, rfl⟩

/-- The handle that is closed is the only one less. -/
theorem openHandles_closeHandle {s : SignalSource} (hh : σ.handles[h]? = some ⟨n, ⟨c, false⟩⟩)
    (hs : σ.sources[n]? = some s) (k d : Nat) :
    (σ.closeHandle h).openHandles k d = (σ.openHandles k d).erase h := by
  ext h'
  rw [Finset.mem_erase, mem_openHandles, mem_openHandles, closeHandle_of_open hh hs,
    List.getElem?_set]
  split
  · rename_i heq
    subst heq
    simp
  · rename_i hne
    simp [Ne.symm hne]

theorem Sound.closeHandle (hσ : σ.Sound) (h : Nat) : (σ.closeHandle h).Sound := by
  rcases closeHandle_eq_or_open σ h with heq | ⟨n, c, hh⟩
  · rw [heq]
    exact hσ
  obtain ⟨s, hs⟩ : ∃ s, σ.sources[n]? = some s :=
    ⟨_, List.getElem?_eq_getElem (hσ.source_lt h _ hh)⟩
  -- Of all handles only this one changes, and the observers of its source lose one callback.
  have hhandle : ∀ (h' : Nat) (x : SignalHandle), (σ.closeHandle h).handles[h']? = some x →
      h' = h ∧ x = ⟨n, ⟨c, true⟩⟩ ∨ h' ≠ h ∧ σ.handles[h']? = some x := by
    intro h' x hx
    rw [handles_closeHandle hh] at hx
    exact of_getElem?_set hx
  have hjournal : (σ.closeHandle h).journal = .closed h :: σ.journal := by
    rw [closeHandle_of_open hh hs]
  refine ⟨fun k d s' hs' => ?_, fun k => ?_, fun h' x hx => ?_, fun h' x hx => ?_, fun h' hh' => ?_⟩
  · rw [openHandles_closeHandle hh hs]
    have hmem : h ∈ σ.openHandles k d ↔ n = k ∧ c = d := by simp [mem_openHandles, hh]
    rw [closeHandle_of_open hh hs] at hs'
    rcases of_getElem?_set hs' with ⟨rfl, rfl⟩ | ⟨hne, hold⟩
    · rw [SignalSource.observers_withObservers, List.count_erase, hσ.count_eq k d s hs]
      by_cases hcd : c = d
      · rw [Finset.card_erase_of_mem (hmem.mpr ⟨rfl, hcd⟩), if_pos (by simp [hcd])]
      · rw [Finset.erase_eq_of_notMem fun hin => hcd (hmem.mp hin).2, if_neg (by simpa using hcd)]
        rfl
    · rw [Finset.erase_eq_of_notMem fun hin => hne (hmem.mp hin).1.symm]
      exact hσ.count_eq k d s' hold
  · rw [isCancelled_of_set hs (by rw [closeHandle_of_open hh hs]), hσ.cancelled_iff, hjournal]
    simp
  · rw [hjournal]
    rcases hhandle h' x hx with ⟨rfl, rfl⟩ | ⟨hne, hold⟩
    · simp
    · rw [hσ.closed_iff h' x hold]
      simp [hne]
  · rw [closeHandle_of_open hh hs, List.length_set]
    rcases hhandle h' x hx with ⟨rfl, rfl⟩ | ⟨-, hold⟩
    · exact hσ.source_lt h' ⟨n, ⟨c, false⟩⟩ hh
    · exact hσ.source_lt h' x hold
  · rw [hjournal] at hh'
    rw [closeHandle_of_open hh hs, List.length_set]
    rcases List.mem_cons.mp hh' with heq | hold
    · cases heq
      exact (List.getElem?_eq_some_iff.mp hh).1
    · exact hσ.closed_lt h' hold

/-! ### Flags that are raised -/

theorem raise_of_token {t : CancelToken Nat} (hs : σ.sources[n]? = some (.token t))
    (ht : t.cancelled = false) :
    σ.raise n = ({ σ with
      sources := σ.sources.set n (.token { t with cancelled := true })
      journal := .cancelled n :: σ.journal }, t.callbacks) := by
  unfold raise
  rw [hs]
  dsimp only
  rw [if_neg (by simp [ht])]
  unfold CancelToken.cancel
  rw [if_neg (by simp [ht])]
  rfl

/-- Nothing happens, and nothing is called, where there is no token, or a cancelled one. -/
theorem raise_eq_or_token (σ : Signals) (n : Nat) :
    σ.raise n = (σ, []) ∨ ∃ t, σ.sources[n]? = some (.token t) ∧ t.cancelled = false := by
  unfold raise
  split
  · rename_i t hs
    cases ht : t.cancelled with
    | true => exact Or.inl (if_pos rfl)
    | false => exact Or.inr ⟨t, hs, ht⟩
  · exact Or.inl rfl

theorem isCancelled_raise {t : CancelToken Nat} (hs : σ.sources[n]? = some (.token t))
    (ht : t.cancelled = false) :
    (σ.raise n).1.isCancelled k = true ↔ k = n ∨ σ.isCancelled k = true := by
  rw [raise_of_token hs ht, isCancelled, List.getElem?_set]
  split
  · rename_i heq
    subst heq
    simp [(List.getElem?_eq_some_iff.mp hs).1, SignalSource.cancelled]
  · rename_i hne
    simp [Ne.symm hne, isCancelled]

theorem Sound.raise (hσ : σ.Sound) (n : Nat) : (σ.raise n).1.Sound := by
  rcases raise_eq_or_token σ n with heq | ⟨t, hs, ht⟩
  · rw [heq]
    exact hσ
  have hjournal : (σ.raise n).1.journal = .cancelled n :: σ.journal := by rw [raise_of_token hs ht]
  refine ⟨fun k d s' hs' => ?_, fun k => ?_, fun h x hx => ?_, fun h x hx => ?_, fun h hh => ?_⟩
  · -- To raise a token opens no handles and closes none.
    have hopen : (σ.raise n).1.openHandles k d = σ.openHandles k d := by
      rw [raise_of_token hs ht]
      rfl
    rw [hopen]
    rw [raise_of_token hs ht] at hs'
    rcases of_getElem?_set hs' with ⟨rfl, rfl⟩ | ⟨-, hold⟩
    · exact hσ.count_eq k d (.token t) hs
    · exact hσ.count_eq k d s' hold
  · rw [isCancelled_raise hs ht, hσ.cancelled_iff, hjournal]
    simp
  · rw [hjournal, List.mem_cons, or_iff_right nofun]
    rw [raise_of_token hs ht] at hx
    exact hσ.closed_iff h x hx
  · rw [raise_of_token hs ht] at hx ⊢
    rw [List.length_set]
    exact hσ.source_lt h x hx
  · rw [hjournal, List.mem_cons, or_iff_right nofun] at hh
    rw [raise_of_token hs ht]
    exact hσ.closed_lt h hh

/-! ### Everything that happens -/

/-- Whatever happens, tokens and channels stay sound. -/
theorem Sound.move (hσ : σ.Sound) (h : σ.Moves τ) : τ.Sound := by
  cases h with
  | makes s hobservers hs => exact hσ.addSource hobservers hs
  | names => exact hσ.of_eq rfl rfl (fun _ => Iff.rfl) fun _ => Iff.rfl
  | calls n c => exact hσ.note_called n c
  | opens n c => exact hσ.openHandle n c
  | closes h => exact hσ.closeHandle h
  | raises n => exact hσ.raise n

theorem Sound.of_leads (hσ : σ.Sound) (h : σ.Leads τ) : τ.Sound := by
  induction h with
  | refl => exact hσ
  | tail _ hmove ih => exact ih.move hmove

theorem keepsSources_of_move (h : σ.Moves τ) : σ.KeepsSources τ := by
  -- Observers come and go, and a token is cancelled for good; no source is taken away.
  cases h with
  | makes s =>
    intro n r hr
    exact ⟨r, getElem?_concat_eq_some_iff.mpr (Or.inl hr), rfl, id⟩
  | names => exact .of_eq rfl
  | calls n c => exact .of_eq rfl
  | opens n c =>
    cases hs : σ.sources[n]? with
    | none => exact .of_eq (by rw [openHandle_of_none hs])
    | some s =>
      exact .of_set hs (by rw [openHandle_of_some hs]) (SignalSource.isChannel_withObservers ..)
        fun h => (SignalSource.cancelled_withObservers ..).trans h
  | closes h =>
    rcases closeHandle_eq_or_open σ h with heq | ⟨n, c, hh⟩
    · exact .of_eq (by rw [heq])
    · cases hs : σ.sources[n]? with
      | none =>
        refine .of_eq ?_
        unfold closeHandle
        rw [hh]
        exact List.set_eq_of_length_le (List.getElem?_eq_none_iff.mp hs)
      | some s =>
        exact .of_set hs (by rw [closeHandle_of_open hh hs])
          (SignalSource.isChannel_withObservers ..)
          fun h => (SignalSource.cancelled_withObservers ..).trans h
  | raises n =>
    rcases raise_eq_or_token σ n with heq | ⟨t, hs, ht⟩
    · exact .of_eq (by rw [heq])
    · have hset : (σ.raise n).1.sources =
          σ.sources.set n (.token { t with cancelled := true }) := by rw [raise_of_token hs ht]
      exact .of_set hs hset rfl fun _ => rfl

theorem keepsSources_of_leads (h : σ.Leads τ) : σ.KeepsSources τ := by
  induction h with
  | refl => exact .of_eq rfl
  | tail _ hmove ih =>
    intro n s hs
    obtain ⟨s', hs', hchannel, hcancelled⟩ := ih n s hs
    obtain ⟨s'', hs'', hchannel', hcancelled'⟩ := keepsSources_of_move hmove n s' hs'
    exact ⟨s'', hs'', hchannel'.trans hchannel, fun h => hcancelled' (hcancelled h)⟩

/-- A channel stays one. -/
theorem isChannel_of_leads (h : σ.Leads τ) (hn : τ.isChannel n = false) :
    σ.isChannel n = false := by
  cases hs : σ.sources[n]? with
  | none => rw [isChannel, hs]; rfl
  | some s =>
    obtain ⟨s', hs', hchannel, -⟩ := keepsSources_of_leads h n s hs
    rw [isChannel, hs'] at hn
    rw [isChannel, hs]
    exact hchannel.symm.trans hn

/-- A token that is cancelled stays so. -/
theorem isCancelled_of_leads (h : σ.Leads τ) (hn : σ.isCancelled n = true) :
    τ.isCancelled n = true := by
  cases hs : σ.sources[n]? with
  | none => rw [isCancelled, hs] at hn; cases hn
  | some s =>
    obtain ⟨s', hs', -, hcancelled⟩ := keepsSources_of_leads h n s hs
    rw [isCancelled, hs] at hn
    rw [isCancelled, hs']
    exact hcancelled hn

theorem closed_of_move {x : SignalHandle} (hmove : σ.Moves τ) (hx : σ.handles[h]? = some x)
    (hclosed : x.subscription.closed = true) : τ.handles[h]? = some x := by
  cases hmove with
  | makes => exact hx
  | names => exact hx
  | calls => exact hx
  | opens n c =>
    cases hs : σ.sources[n]? with
    | none => rwa [openHandle_of_none hs]
    | some s =>
      rw [openHandle_of_some hs]
      exact getElem?_concat_eq_some_iff.mpr (Or.inl hx)
  | closes i =>
    rcases closeHandle_eq_or_open σ i with heq | ⟨n, c, hi⟩
    · rwa [heq]
    · -- Only a handle that is open is closed, so it is another one.
      have hne : i ≠ h := by
        rintro rfl
        obtain rfl := Option.some.inj (hi.symm.trans hx)
        cases hclosed
      rwa [handles_closeHandle hi, List.getElem?_set_ne hne]
  | raises n =>
    rcases raise_eq_or_token σ n with heq | ⟨t, hs, ht⟩
    · rwa [heq]
    · rwa [raise_of_token hs ht]

theorem closed_of_leads {x : SignalHandle} (hleads : σ.Leads τ) (hx : σ.handles[h]? = some x)
    (hclosed : x.subscription.closed = true) : τ.handles[h]? = some x := by
  induction hleads with
  | refl => exact hx
  | tail _ hmove ih => exact closed_of_move hmove ih hclosed

/-- A handle that was closed can be closed again at any time, which changes nothing. -/
theorem closeHandle_of_leads (hlt : h < σ.handles.length) (hleads : (σ.closeHandle h).Leads τ) :
    τ.closeHandle h = τ := by
  obtain ⟨x, hx, hclosed⟩ := exists_closed_closeHandle hlt
  exact closeHandle_of_closed (closed_of_leads hleads hx hclosed) hclosed

end Signals

end CommandShell
