import CommandShell.Entries
import CommandShell.Fault

/-!
# Cancellable tasks

A task is work that somebody waits for.  Cancelling it ends the waiting and not the work: the one
who waits is told that the task was cancelled, while the work goes on by itself.  Work that ends
before the one who waits is resumed has its outcome delivered all the same.  Work is a list of steps
that may wait for gates; it runs until it meets a gate that is not open.

Work runs once, for the one who waited for it first.  Others may wait for it too; once it has ended
they are told that it was taken.

## Main definitions

* `WorkStep`: a step of the work.
* `Task`: work with what is known of it.
* `TaskWait`: somebody who waits for a task.
* `Tasks`: all tasks, the open gates and the work that waits.
* `Tasks.start`, `Tasks.cancel`, `Tasks.openGate`: what happens to them.
* `Tasks.listing`: what is known of the tasks by their names.
-/

namespace CommandShell

/-- A step of the work of a task. -/
inductive WorkStep where
  /-- Waits until a gate is open. -/
  | wait (gate : String)
  /-- Leaves a note. -/
  | note (tag : String)
  /-- Cancels a task. -/
  | cancel (id : String)
  /-- Ends the work with a value. -/
  | finish (v : Value)
  /-- Ends the work with a fault. -/
  | fail (fault : Fault)

/-- Work with what is known of it. -/
structure Task where
  /-- The steps of the work. -/
  work : List WorkStep
  /-- Whether the task was cancelled. -/
  cancelled : Bool := false
  /-- Whether somebody waits or waited for it. -/
  started : Bool := false
  /-- How the work ended, once it did. -/
  ended : Option (Except Fault Value) := none

/-- Somebody who waits for a task. -/
structure TaskWait where
  /-- The number of the task. -/
  task : Nat
  /-- Whether the work runs for this one. -/
  first : Bool
  /-- What this one is told, once it is decided. -/
  answer : Option (Except Fault Value) := none

/-- Work that waits for a gate. -/
structure WaitingWork where
  /-- The number of the task. -/
  task : Nat
  /-- The gate. -/
  gate : String
  /-- The steps that follow. -/
  rest : List WorkStep

/-- All tasks with the gates. -/
structure Tasks where
  /-- The tasks by their numbers. -/
  tasks : List Task := []
  /-- The number of the latest task under each name. -/
  names : Entries Nat := []
  /-- Who waits or waited last for a task under each name. -/
  waits : Entries TaskWait := []
  /-- The open gates. -/
  gates : List String := []
  /-- The work that waits, in the order in which it began to. -/
  waiting : List WaitingWork := []
  /-- The notes that work left, the latest first. -/
  notes : List String := []

/-- What the one who waits for a task is told when resumed now: the outcome of the work if it has
ended, and else, if the task was cancelled, that it was. -/
def TaskWait.outcome? (w : TaskWait) (t : Task) : Option (Except Fault Value) :=
  match t.ended with
  | some outcome => some (if w.first then outcome else .error .workTaken)
  | none => if t.cancelled then some (.error (.cancelled "Task cancelled")) else none

namespace Tasks

/-- The number of the task with a name. -/
def number (s : Tasks) (id : String) : Except Fault Nat :=
  (s.names.get? id).elim (.error (.missingKey (.text id))) .ok

/-- The tasks with one of them changed. -/
def modify (s : Tasks) (n : Nat) (f : Task → Task) : Tasks :=
  { s with tasks := s.tasks.modify n f }

/-- The tasks with one more, which takes its name. -/
def add (s : Tasks) (id : String) (work : List WorkStep) : Tasks :=
  { s with tasks := s.tasks ++ [{ work := work }], names := s.names.insert id s.tasks.length }

/-- The tasks after one was marked as cancelled. -/
def mark (s : Tasks) (n : Nat) : Tasks :=
  s.modify n fun t => { t with cancelled := true }

/-- The tasks after the work of one has ended. -/
def finish (s : Tasks) (n : Nat) (outcome : Except Fault Value) : Tasks :=
  s.modify n fun t => { t with ended := some outcome }

/-- The tasks after some steps of the work of one, up to its end or to a gate that is not open. -/
def advance (s : Tasks) (n : Nat) : List WorkStep → Tasks
  | [] => s.finish n (.ok .null)
  | .wait gate :: rest =>
    if s.gates.contains gate then s.advance n rest
    else { s with waiting := s.waiting ++ [⟨n, gate, rest⟩] }
  | .note tag :: rest => { s with notes := tag :: s.notes }.advance n rest
  -- A task may cancel itself; its work goes on all the same.
  | .cancel id :: rest =>
    match s.number id with
    | .ok other => (s.mark other).advance n rest
    | .error f => s.finish n (.error f)
  | .finish v :: _ => s.finish n (.ok v)
  | .fail fault :: _ => s.finish n (.error fault)

/-- Somebody who waits, after being resumed if there is something to tell. -/
def settleWait (s : Tasks) (w : TaskWait) : TaskWait :=
  if w.answer.isSome then w else { w with answer := s.tasks[w.task]?.bind w.outcome? }

/-- The tasks after all who wait were resumed. -/
def settle (s : Tasks) : Tasks :=
  { s with waits := s.waits.map fun e => (e.1, s.settleWait e.2) }

/-- The tasks after somebody began to wait for one of them, whose work begins if it has not. -/
def start (s : Tasks) (id : String) : Except Fault Tasks := do
  let n ← s.number id
  -- The work runs for the first one who waits, and for nobody else.
  let work? := s.tasks[n]?.filter (!·.started) |>.map (·.work)
  let s := { s with waits := s.waits.insert id { task := n, first := work?.isSome } }
  let s := s.modify n fun t => { t with started := true }
  return (work?.elim s (s.advance n)).settle

/-- The tasks after one was cancelled. -/
def cancel (s : Tasks) (id : String) : Except Fault Tasks := do
  return (s.mark (← s.number id)).settle

/-- The tasks after a gate was opened and the work that waited for it went on. -/
def openGate (s : Tasks) (gate : String) : Tasks :=
  let (resumed, waiting) := s.waiting.partition fun w => w.gate == gate
  let s := { s with gates := gate :: s.gates, waiting := waiting }
  (resumed.foldl (fun s w => s.advance w.task w.rest) s).settle

/-- The names of the tasks, whether the latest with each was cancelled, and who waits or waited for
one. -/
def listing (s : Tasks) : List (String × Bool × Option TaskWait) :=
  s.names.map fun e =>
    (e.1, s.tasks[e.2]?.any (·.cancelled), s.waits.get? e.1)

end Tasks

end CommandShell
