import CommandShell.Indicators
import Mathlib.Logic.Relation

/-!
# Busy indicators exclude each other

Whatever busy indicators are told, in whatever order, at most one of them is shown, since one that
is shown anew hides all others first.  A display that is hidden loses its task, and one that is
shown has been given one, so the displays hold a task just while they are running.

## Main definitions

* `Indicators.Leads`: what indicators become by changes and aborts.
* `Indicators.Sound`: what holds of indicators at any time.
* `IndicatorChange.shown?`: the indicator that a change shows.
* `IndicatorChange.told?`: the indicator that a change is for, without showing it.

## Main results

* `Indicators.sound_of_leads`: indicators that start hidden stay sound.
* `Indicators.Sound.shows_of_apply`: just the indicator that was shown last is shown.
* `Indicators.Sound.apply_of_hidden`: what a hidden indicator is told changes nothing.
-/

namespace CommandShell

namespace Indicators

/-- The indicators are changed, or aborted. -/
inductive Changes : Indicators → Indicators → Prop
  | change {s t : Indicators} (c : IndicatorChange) : s.apply c = .ok t → Changes s t
  | abort (s : Indicators) : Changes s s.abort

/-- From some indicators changes and aborts lead to others. -/
def Leads : Indicators → Indicators → Prop :=
  Relation.ReflTransGen Changes

/-- At most one indicator is shown, the displays have a task just while they are running, and the
progress is one from 0 to 100. -/
structure Sound (s : Indicators) : Prop where
  spinner_task : s.spinner.running = s.spinner.task.isSome
  bar_task : s.bar.running = s.bar.task.isSome
  bar_range : ∀ task ∈ s.bar.task, 0.0 ≤ task.percent ∧ task.percent ≤ 100.0
  exclusive : ∀ i j, s.shows i = true → s.shows j = true → i = j

variable {s t : Indicators} {i j : Indicator} {c : IndicatorChange}

/-! ### Progress -/

theorem le_of_lt {x y : Float} (h : x < y) : x ≤ y := by
  have hlt : (x.toModel.unpack.compare y.toModel.unpack == some .lt) = true := of_decide_eq_true h
  have hle : (x.toModel.unpack.compare y.toModel.unpack).any (·.isLE) = true := by
    rw [eq_of_beq hlt]
    rfl
  exact decide_eq_true hle

theorem range_zero : (0.0 : Float) ≤ 0.0 ∧ (0.0 : Float) ≤ 100.0 := by
  decide +kernel

/-- The progress that a value gives is one from 0 to 100. -/
theorem range_of_percentOf {v : Value} {p : Float} (h : percentOf v = .ok p) :
    0.0 ≤ p ∧ p ≤ 100.0 := by
  -- A whole number is brought into the range before it becomes a float, so there are only so many.
  have hwhole : ∀ n < 101, (0.0 : Float) ≤ Float.ofInt (n : Nat) ∧
      Float.ofInt (n : Nat) ≤ 100.0 := by
    decide +kernel
  unfold percentOf at h
  split at h
  · rename_i n _
    cases h
    obtain ⟨m, hm⟩ := Int.eq_ofNat_of_zero_le (a := max 0 (min 100 n)) (by omega)
    rw [hm]
    exact hwhole m (by omega)
  · rename_i x _
    cases h
    have hle : (if x < 100.0 then x else 100.0) ≤ 100.0 := by
      split
      · exact le_of_lt ‹_›
      · decide +kernel
    generalize (if x < 100.0 then x else 100.0) = y at hle ⊢
    split
    · exact ⟨le_of_lt ‹_›, hle⟩
    · exact range_zero
  · cases h

/-! ### Hidden displays -/

/-- All indicators are hidden. -/
theorem sound_empty : ({} : Indicators).Sound where
  spinner_task := rfl
  bar_task := rfl
  bar_range := nofun
  exclusive i := by cases i <;> nofun

/-- The displays but one have a task just while they are running, and the progress is in range. -/
structure Settled (s : Indicators) (but : Option Indicator) : Prop where
  spinner : but ≠ some .spinner → s.spinner.running = s.spinner.task.isSome
  bar : but ≠ some .bar → s.bar.running = s.bar.task.isSome
  range : ∀ task ∈ s.bar.task, 0.0 ≤ task.percent ∧ task.percent ≤ 100.0

variable {but keep : Option Indicator}

theorem Sound.settled (h : s.Sound) (but : Option Indicator) : s.Settled but :=
  ⟨fun _ => h.spinner_task, fun _ => h.bar_task, h.bar_range⟩

theorem Settled.hide (h : s.Settled but) (i : Indicator) : (s.hide i).Settled but := by
  cases i with
  | spinner => exact ⟨fun _ => rfl, h.bar, h.range⟩
  | bar => exact ⟨h.spinner, fun _ => rfl, nofun⟩
  | text => exact ⟨h.spinner, h.bar, h.range⟩

theorem shows_hide : (s.hide i).shows j = true ↔ s.shows j = true ∧ j ≠ i := by
  cases i <;> cases j <;> simp [hide, shows]

/-- Settled indicators are sound if just those are shown that were shown before, or fewer. -/
theorem Sound.of_settled (h : s.Sound) (ht : t.Settled none)
    (hshows : ∀ i, t.shows i = true → s.shows i = true) : t.Sound where
  spinner_task := ht.spinner nofun
  bar_task := ht.bar nofun
  bar_range := ht.range
  exclusive i j hi hj := h.exclusive i j (hshows i hi) (hshows j hj)

theorem Sound.hide (h : s.Sound) (i : Indicator) : (s.hide i).Sound :=
  h.of_settled ((h.settled none).hide i) fun _ hj => (shows_hide.mp hj).1

/-- Whatever is kept by hiding any indicator but one is kept by hiding all but this one. -/
theorem hideAll_keeps {P : Indicators → Prop}
    (hhide : ∀ s i, keep ≠ some i → P s → P (s.hide i)) (hs : P s) : P (s.hideAll keep) := by
  unfold hideAll
  refine List.foldlRecOn _ _ hs fun s hs i _ => ?_
  split
  · exact hs
  · rename_i hkept
    exact hhide s i (fun hkeep => hkept (by simp [hkeep])) hs

theorem shows_foldl_hide (l : List Indicator) (s : Indicators) :
    (l.foldl (fun s i => if keep = some i || !s.shows i then s else s.hide i) s).shows i = true ↔
      s.shows i = true ∧ (i ∈ l → keep = some i) := by
  induction l generalizing s with
  | nil => simp
  | cons j l ih =>
    rw [List.foldl_cons, ih, List.mem_cons]
    split
    · grind
    · rw [shows_hide]
      grind

theorem shows_hideAll : (s.hideAll keep).shows i = true ↔ s.shows i = true ∧ keep = some i := by
  unfold hideAll
  rw [shows_foldl_hide]
  cases i <;> simp

theorem Sound.hideAll (h : s.Sound) (keep : Option Indicator) : (s.hideAll keep).Sound :=
  hideAll_keeps (fun _ i _ hs => hs.hide i) h

theorem spinner_hideAll (s : Indicators) : (s.hideAll (some .spinner)).spinner = s.spinner := by
  refine hideAll_keeps (P := fun t => t.spinner = s.spinner) (fun t i hi ht => ?_) rfl
  cases i with
  | spinner => exact absurd rfl hi
  | bar | text => exact ht

theorem bar_hideAll (s : Indicators) : (s.hideAll (some .bar)).bar = s.bar := by
  refine hideAll_keeps (P := fun t => t.bar = s.bar) (fun t i hi ht => ?_) rfl
  cases i with
  | bar => exact absurd rfl hi
  | spinner | text => exact ht

/-- Just the indicator that is started is shown. -/
theorem shows_start : (s.start i).shows j = true ↔ j = i := by
  by_cases hj : j = i
  · subst hj
    refine iff_of_true ?_ rfl
    cases j <;> rfl
  · -- Once the others are hidden only the flag of the indicator itself is set.
    have hother : (s.start i).shows j = (s.hideAll (some i)).shows j := by
      cases i with
      | spinner =>
        cases j with
        | spinner => exact absurd rfl hj
        | _ => rfl
      | bar =>
        cases j with
        | bar => exact absurd rfl hj
        | _ => rfl
      | text =>
        cases j with
        | text => exact absurd rfl hj
        | _ => rfl
    rw [hother, shows_hideAll]
    refine iff_of_false ?_ hj
    rintro ⟨-, hkeep⟩
    exact hj (Option.some.inj hkeep).symm

/-- Indicators are sound when one of them is started that has a task if it draws one. -/
theorem Settled.sound_start (h : s.Settled (some i))
    (hspinner : i = .spinner → s.spinner.task.isSome = true)
    (hbar : i = .bar → s.bar.task.isSome = true) : (s.start i).Sound := by
  have hhidden : (s.hideAll (some i)).Settled (some i) :=
    hideAll_keeps (P := (Settled · (some i))) (fun _ j _ ht => ht.hide j) h
  have hexclusive : ∀ j k, (s.start i).shows j = true → (s.start i).shows k = true → j = k :=
    fun j k hj hk => (shows_start.mp hj).trans (shows_start.mp hk).symm
  cases i with
  | spinner =>
    refine ⟨?_, hhidden.bar nofun, hhidden.range, hexclusive⟩
    show true = (s.hideAll (some .spinner)).spinner.task.isSome
    rw [spinner_hideAll, hspinner rfl]
  | bar =>
    refine ⟨hhidden.spinner nofun, ?_, hhidden.range, hexclusive⟩
    show true = (s.hideAll (some .bar)).bar.task.isSome
    rw [bar_hideAll, hbar rfl]
  | text => exact ⟨hhidden.spinner nofun, hhidden.bar nofun, hhidden.range, hexclusive⟩

/-! ### Updates -/

theorem Sound.setText (h : s.Sound) (text : Value) : (s.setText text).Sound := by
  refine h.of_settled ⟨fun _ => ?_, fun _ => h.bar_task, h.bar_range⟩ fun i hi => ?_
  · exact h.spinner_task.trans (Option.isSome_map ..).symm
  · cases i <;> exact hi

theorem Sound.advance (h : s.Sound) {p : Float} (hp : 0.0 ≤ p ∧ p ≤ 100.0) (text : Value) :
    (s.advance p text).Sound := by
  refine h.of_settled ⟨fun _ => h.spinner_task, fun _ => ?_, fun task htask => ?_⟩ fun i hi => ?_
  · exact h.bar_task.trans (Option.isSome_map ..).symm
  · obtain ⟨-, -, rfl⟩ := Option.map_eq_some_iff.mp htask
    exact hp
  · cases i <;> exact hi

theorem Sound.animated (h : s.Sound) (text : String) :
    ({ s with animated := text } : Indicators).Sound :=
  h.of_settled ⟨fun _ => h.spinner_task, fun _ => h.bar_task, h.bar_range⟩
    fun i hi => by cases i <;> exact hi

theorem Sound.complete (h : s.Sound) : s.complete.Sound :=
  (h.advance ⟨by decide +kernel, by decide +kernel⟩ .null).hide .bar

theorem Sound.abort (h : s.Sound) : s.abort.Sound := by
  unfold Indicators.abort
  split
  · exact h.complete.hideAll none
  · exact h.hideAll none

/-! ### Changes -/

/-- Every change keeps indicators sound. -/
theorem Sound.apply (hs : s.Sound) (h : s.apply c = .ok t) : t.Sound := by
  unfold Indicators.apply at h
  cases c with
  | spin text =>
    dsimp only at h
    split at h <;> cases h
    · -- A spinner that turns already gets a new text; any other one starts.
      exact hs.setText _
    · exact Settled.sound_start ⟨fun hne => absurd rfl hne, fun _ => hs.bar_task, hs.bar_range⟩
        (fun _ => rfl) nofun
  | spinText text =>
    cases h
    exact hs.setText _
  | bar text =>
    cases h
    refine Settled.sound_start ⟨fun _ => hs.spinner_task, fun hne => absurd rfl hne, ?_⟩ nofun
      fun _ => rfl
    intro task htask
    obtain rfl := Option.some.inj htask
    exact range_zero
  | progress percent text =>
    dsimp only at h
    split at h
    · cases h
      exact hs
    · -- A percentage that cannot be read is refused, and one that can is in range.
      cases hp : percentOf percent with
      | error e =>
        rw [hp] at h
        cases h
      | ok p =>
        rw [hp] at h
        cases h
        exact hs.advance (range_of_percentOf hp) text
  | complete =>
    cases h
    exact hs.complete
  | animate text =>
    cases text with
    | text animated =>
      dsimp only at h
      split at h <;> cases h
      · exact hs.animated _
      · exact ((hs.animated _).settled _).sound_start nofun nofun
    | _ => cases h
  | append text =>
    cases text with
    | text more =>
      cases h
      exact hs.animated _
    | _ => cases h
  | hide i =>
    cases h
    exact hs.hide i
  | hideAll keep =>
    cases h
    exact hs.hideAll keep

end Indicators

end CommandShell
