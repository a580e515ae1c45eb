import CommandShell.Proofs.Congruence.Line
import CommandShell.Proofs.Line.Trace

/-!
# Nested lines

Handlers run lines, and a segment that asks for a description leads to a line too.  How deep lines
lead to one another is bounded, and a line that is run inside another one has one level less.  A
line that does not come to the bound does the same under every higher one.

## Main definitions

* `nestedWithin`: how the lines run that a line leads to, with so many levels left.
* `Agrees`: two runs do the same where the first does not nest too deeply.

## Main results

* `returns_nestedWithin_iff`, `stops_nestedWithin_iff`: they run as their traces say.
* `ChainCongruence.nestedWithin`: what all parts of lines keep, nested lines keep.
* `nestedWithin_agrees`, `runLineWithin_agrees`: more levels change nothing about a line that does
  without them.
-/

namespace CommandShell

namespace Run

variable {depth : Nat} {line : String} {s s' : Session} {e : Stop}

/-- How the lines run that a line leads to, where lines may lead to one another so many levels
deep. -/
def nestedWithin (depth : Nat) (line : String) : Run Unit :=
  discard (runLineWithin depth line)

theorem runLineWithin_succ (depth : Nat) (line : String) :
    runLineWithin (depth + 1) line = runLineWith (nestedWithin depth) line :=
  rfl

theorem nestedWithin_eq (depth : Nat) (line : String) :
    nestedWithin depth line = (fun _ => ()) <$> runLineWithin depth line :=
  rfl

/-- A nested line returns where its trace has taken all of its parts. -/
theorem returns_nestedWithin_iff {u : Unit} :
    Returns (nestedWithin (depth + 1) line) s u s' ↔
      ∃ steps, LineTrace (nestedWithin depth) line s steps [] s' :=
  returns_discard_runLineWith_iff

theorem stops_nestedWithin_iff :
    Stops (nestedWithin (depth + 1) line) s e s' ↔
      Stops (runLineWith (nestedWithin depth) line) s e s' := by
  rw [nestedWithin_eq, stops_map_iff, runLineWithin_succ]

theorem stops_nestedWithin_zero_iff :
    Stops (nestedWithin 0 line) s e s' ↔ .unfinished = e ∧ s = s' := by
  rw [nestedWithin_eq, stops_map_iff]
  exact stops_throw_iff

end Run

namespace ChainCongruence

variable {C : ∀ α : Type, Run α → Run α → Prop} (hC : ChainCongruence C)

include hC

/-- What all parts of lines keep, nested lines keep, however deep they lead to one another. -/
theorem nestedWithin (depth : Nat) (line : String) :
    C Unit (Run.nestedWithin depth line) (Run.nestedWithin depth line) := by
  induction depth generalizing line with
  | zero => exact hC.bind (hC.throw _) fun _ => hC.pure _
  | succ depth ih => exact hC.bind (hC.runLineWith ih line) fun _ => hC.pure _

end ChainCongruence

namespace Run

variable {depth depth' : Nat} {line : String} {s t : Session}

/-! ### More levels -/

/-- Where the first run does not nest too deeply, the second one does the same. -/
def Agrees {α : Type} (x y : Run α) : Prop :=
  ∀ s, (∀ t, ¬ Stops x s .unfinished t) → y s = x s

theorem Agrees.returns {α : Type} {x y : Run α} {a : α} (h : Agrees x y) (hx : Returns x s a t) :
    Returns y s a t :=
  (h s fun _ => hx.not_stops).trans hx

theorem Agrees.stops_fault {α : Type} {x y : Run α} {e : Fault} (h : Agrees x y)
    (hx : Stops x s (.fault e) t) : Stops y s (.fault e) t :=
  (h s fun _ hu => by cases (hx.unique hu).1).trans hx

theorem agrees_of_endings {α : Type} {x y : Run α}
    (hr : ∀ s a t, Returns x s a t → Returns y s a t)
    (hf : ∀ s e t, Stops x s (.fault e) t → Stops y s (.fault e) t) : Agrees x y := by
  intro s hs
  rcases returns_or_stops x s with ⟨a, t, h⟩ | ⟨e | -, t, h⟩
  · exact (hr s a t h).trans h.symm
  · exact (hf s e t h).trans h.symm
  · exact absurd h (hs t)

/-- Lines agree if the lines agree that they lead to. -/
theorem agrees : LineCongruence fun _ x y => Agrees x y where
  pure _ _ _ := rfl
  throw _ _ _ := rfl
  get _ _ := rfl
  emit _ _ _ := rfl
  -- Runs that follow each other, and those that are handled, end alike if their parts do.
  bind {_ _ x y f g} hx hf := by
    refine agrees_of_endings ?_ ?_
    · intro s b t h
      obtain ⟨a, u, h₁, h₂⟩ := returns_bind_iff.mp h
      exact returns_bind_iff.mpr ⟨a, u, hx.returns h₁, (hf a).returns h₂⟩
    · intro s e t h
      rcases stops_bind_iff.mp h with h₁ | ⟨a, u, h₁, h₂⟩
      · exact stops_bind_iff.mpr (Or.inl (hx.stops_fault h₁))
      · exact stops_bind_iff.mpr (Or.inr ⟨a, u, hx.returns h₁, (hf a).stops_fault h₂⟩)
  change _ _ _ := rfl
  cancel _ _ _ := rfl
  onCancel _ _ _ _ := rfl
  recover {_ x y f g} hx hf := by
    refine agrees_of_endings ?_ ?_
    · intro s a t h
      rcases returns_recover_iff.mp h with h₁ | ⟨e, u, h₁, h₂⟩
      · exact returns_recover_iff.mpr (Or.inl (hx.returns h₁))
      · exact returns_recover_iff.mpr (Or.inr ⟨e, u, hx.stops_fault h₁, (hf e).returns h₂⟩)
    · intro s e t h
      rcases stops_recover_iff.mp h with ⟨he, -⟩ | ⟨e', u, h₁, h₂⟩
      · cases he
      · exact stops_recover_iff.mpr (Or.inr ⟨e', u, hx.stops_fault h₁, (hf e').stops_fault h₂⟩)
  process _ _ _ := rfl
  finishing {x y} hx := by
    intro s hs
    rw [ensuring_apply, ensuring_apply, hx s fun t ht => hs _ (stops_ensuring_iff.mpr ⟨t, ht, rfl⟩)]
  newToken _ _ := rfl

/-- One level more changes nothing about a line that does without it. -/
theorem nestedWithin_agrees_succ (depth : Nat) (line : String) :
    Agrees (nestedWithin depth line) (nestedWithin (depth + 1) line) := by
  induction depth generalizing line with
  | zero =>
    intro s hs
    exact absurd (stops_nestedWithin_zero_iff.mpr ⟨rfl, rfl⟩) (hs s)
  | succ depth ih => exact agrees.bind (agrees.runLineWith ih line) fun _ => agrees.pure _

/-- More levels change nothing about a line that does without them. -/
theorem nestedWithin_agrees (h : depth ≤ depth') (line : String) :
    Agrees (nestedWithin depth line) (nestedWithin depth' line) := by
  induction h with
  | refl => exact fun _ _ => rfl
  | @step more hle ih =>
    intro s hs
    have hmore := nestedWithin_agrees_succ more line s
    rw [ih s hs] at hmore
    exact hmore fun t ht => hs t (by rwa [Stops, ih s hs] at ht)

theorem runLineWithin_agrees (h : depth ≤ depth') (line : String) :
    Agrees (runLineWithin depth line) (runLineWithin depth' line) := by
  cases depth with
  | zero => exact fun s hs => absurd (stops_throw_iff.mpr ⟨rfl, rfl⟩) (hs s)
  | succ depth =>
    obtain ⟨more, rfl⟩ := Nat.exists_eq_succ_of_ne_zero (Nat.ne_of_gt (Nat.lt_of_lt_of_le
      (Nat.succ_pos depth) h))
    exact agrees.runLineWith (nestedWithin_agrees (Nat.le_of_succ_le_succ h)) line

theorem chainTrace_of_agrees {f g : String → Run Unit} {c : ChainState}
    {parts rest : List Part} {steps : List ChainStep} (hfg : ∀ line, Agrees (f line) (g line))
    (h : ChainTrace (chainRunner f) c parts s steps rest t) :
    ChainTrace (chainRunner g) c parts s steps rest t := by
  induction h with
  | nil => exact .nil
  | cons hm _ ih =>
    refine .cons (chainMove_of_segment (fun text o t _ _ h => ?_) hm) ih
    exact (agrees.runReported hfg _ _).returns h

/-- What a line has done with some levels it does with more of them. -/
theorem LineTrace.of_le {steps : List ChainStep} {rest : List Part} (h : depth ≤ depth')
    (ht : LineTrace (nestedWithin depth) line s steps rest t) :
    LineTrace (nestedWithin depth') line s steps rest t :=
  chainTrace_of_agrees (nestedWithin_agrees h) ht

end Run

end CommandShell
