import CommandShell.Proofs.Ending
import CommandShell.Shell.Description

/-!
# Runs that tell something

Some runs do nothing but let events happen.  Which events these are does not depend on where the run
starts, and runs one after another let theirs happen one after another.

## Main definitions

* `Session.told`: a session after some events.
* `Run.Tells`: from a session, a run lets some events happen, and does nothing else.

## Main results

* `Run.Tells.bind`, `Run.Tells.forM`: runs one after another.
-/

namespace CommandShell

namespace Session

variable {s : Session} {a b : List Event}

/-- The session after some events, in the order in which they happen. -/
def told (s : Session) (events : List Event) : Session :=
  { s with journal := events.reverse ++ s.journal }

@[simp] theorem told_nil (s : Session) : s.told [] = s := rfl

@[simp] theorem told_told (s : Session) (a b : List Event) :
    (s.told a).told b = s.told (a ++ b) := by
  simp [told]

@[simp] theorem told_journal : (s.told a).journal = a.reverse ++ s.journal := rfl

@[simp] theorem told_process : (s.told a).process = s.process := rfl

@[simp] theorem told_registry : (s.told a).registry = s.registry := rfl

end Session

namespace Run

variable {s t : Session} {x y : Run Unit} {a b : List Event}

/-- From `s` the run lets the events happen, and does nothing else. -/
def Tells (x : Run Unit) (s : Session) (events : List Event) : Prop :=
  Returns x s () (s.told events)

theorem tells_pure : Tells (pure ()) s [] :=
  rfl

theorem tells_emit (ev : Event) : Tells (emit ev) s [ev] :=
  rfl

theorem tells_print (line : String) : Tells (print line) s [.print line] :=
  tells_emit _

theorem Tells.bind (hx : Tells x s a) (hy : Tells y (s.told a) b) :
    Tells (x >>= fun _ => y) s (a ++ b) := by
  unfold Tells
  rw [← Session.told_told]
  exact returns_bind_iff.mpr ⟨(), _, hx, hy⟩

theorem Tells.stops_bind {e : Stop} (hx : Tells x s a) (hy : Stops y (s.told a) e t) :
    Stops (x >>= fun _ => y) s e t :=
  stops_bind_iff.mpr (Or.inr ⟨(), _, hx, hy⟩)

theorem Tells.when {p : Prop} [Decidable p] (hx : p → Tells x s a) :
    Tells (if p then x else pure ()) s (if p then a else []) := by
  by_cases hp : p
  · rw [if_pos hp, if_pos hp]
    exact hx hp
  · rw [if_neg hp, if_neg hp]
    exact tells_pure

theorem Tells.forM {α : Type} {run : α → Run Unit} {events : α → List Event}
    (h : ∀ e s, Tells (run e) s (events e)) (l : List α) :
    Tells (l.forM run) s (l.flatMap events) := by
  induction l generalizing s with
  | nil => exact tells_pure
  | cons e l ih =>
    rw [List.flatMap_cons]
    exact (h e s).bind ih

theorem tells_printLines (lines : List String) : Tells (printLines lines) s (lines.map .print) := by
  rw [List.map_eq_flatMap]
  exact Tells.forM (fun line _ => tells_print line) lines

end Run

end CommandShell
