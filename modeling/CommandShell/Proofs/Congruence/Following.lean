import CommandShell.Proofs.Congruence.Line

/-!
# Relations that segments follow

A relation between sessions that leads from the session before each operation to the one after it
leads from the session before a segment to the one after it.  Where the relation is only about
processors, buckets, files and services, nothing has to be shown but what the operations on these
do.

## Main definitions

* `Session.Undisturbed`: two sessions have the same processors, buckets, files and services.

## Main results

* `frameCongruence_follows`: what surrounds a handler follows what leaves all of these alone.
* `unpinnedCongruence_follows`, `segmentCongruence_follows`: what the operations follow, segments
  follow.
-/

namespace CommandShell

/-- The second session has the processors, the buckets, the files and the services of the first. -/
structure Session.Undisturbed (s t : Session) : Prop where
  registry : t.registry = s.registry
  space : t.space = s.space
  files : t.files = s.files
  locations : t.locations = s.locations
  services : t.services = s.services

theorem Session.Undisturbed.refl (s : Session) : s.Undisturbed s :=
  ⟨rfl, rfl, rfl, rfl, rfl⟩

theorem PeripheralChange.undisturbed {g : Session → Session} (h : PeripheralChange g)
    (s : Session) : s.Undisturbed (g s) where
  registry := (congrArg Session.registry (h s).1 :)
  space := (congrArg Session.space (h s).1 :)
  files := (congrArg Session.files (h s).1 :)
  locations := (congrArg Session.locations (h s).1 :)
  services := (congrArg Session.services (h s).1 :)

section Follows

variable {R : Session → Session → Prop}

variable (hrefl : ∀ s, R s s) (htrans : ∀ s t u, R s t → R t u → R s u)

include hrefl htrans

theorem tellingCongruence_follows (hemit : ∀ ev, Follows (Run.emit ev) R) :
    TellingCongruence fun _ x _ => Follows x R where
  pure _ := follows_pure hrefl
  throw _ := follows_throw hrefl
  get := follows_get hrefl
  emit := hemit
  bind := Follows.bind htrans

omit hrefl in
/-- What surrounds the handler of a command leaves what is pinned alone as well. -/
theorem frameCongruence_follows
    (hquiet : ∀ s t : Session, s.Undisturbed t → t.pinned = s.pinned → R s t) :
    FrameCongruence fun _ x _ => Follows x R := by
  have hrefl : ∀ s, R s s := fun s => hquiet s s (.refl s) rfl
  have htell : TellingCongruence fun _ x _ => Follows x R :=
    tellingCongruence_follows hrefl htrans fun _ s => hquiet _ _ ⟨rfl, rfl, rfl, rfl, rfl⟩ rfl
  exact {
    toTellingCongruence := htell
    peripheral := fun h s => hquiet _ _ (h.undisturbed s) (congrArg Session.pinned (h s).1 :)
    cancel := fun _ => by
      refine (follows_get hrefl).bind htrans fun s => Follows.bind htrans ?_ fun _ => ?_
      · exact fun _ => hquiet _ _ ⟨rfl, rfl, rfl, rfl, rfl⟩ rfl
      · exact follows_forM hrefl htrans (fun _ => htell.emit _) _
    recover := Follows.recover htrans
    process := fun _ s => hquiet _ _ ⟨rfl, rfl, rfl, rfl, rfl⟩ rfl
    finishing := fun hx s => htrans _ _ _ (hx s) (hquiet _ _ ⟨rfl, rfl, rfl, rfl, rfl⟩ rfl) }

omit hrefl in
/-- What the operations on processors and buckets follow, all parts of segments follow that pin
nothing. -/
theorem unpinnedCongruence_follows
    (hquiet : ∀ s t : Session, s.Undisturbed t → t.pinned = s.pinned → R s t)
    (hregister : ∀ p, Follows (Run.register p) R)
    (hunregister : ∀ name, Follows (Run.unregister name) R)
    (hoperate : ∀ op : BucketOperation, Follows (Run.buckets op.apply) R) :
    UnpinnedCongruence fun _ x _ => Follows x R := by
  have hrefl : ∀ s, R s s := fun s => hquiet s s (.refl s) rfl
  have hframe : FrameCongruence fun _ x _ => Follows x R := frameCongruence_follows htrans hquiet
  exact {
    hframe with
    register := hregister
    unregister := hunregister
    operate := hoperate
    inspect := fun f s => by
      rw [Run.access_apply]
      exact hquiet _ _ ⟨rfl, rfl, rfl, rfl, rfl⟩ rfl
    onCancel := fun _ _ => by
      refine (follows_get hrefl).bind htrans fun s => Follows.bind htrans ?_ fun _ => ?_
      · exact follows_forM hrefl htrans (fun _ => hframe.emit _) _
      · exact fun _ => hquiet _ _ ⟨rfl, rfl, rfl, rfl, rfl⟩ rfl
    indicate := fun _ => hframe.toTellingCongruence.indicate_of_change _
      fun _ _ => hquiet _ _ ⟨rfl, rfl, rfl, rfl, rfl⟩ rfl
    newToken := fun s => hquiet _ _ ⟨rfl, rfl, rfl, rfl, rfl⟩ rfl }

omit hrefl in
/-- What the operations on processors and buckets follow, segments follow. -/
theorem segmentCongruence_follows (hquiet : ∀ s t : Session, s.Undisturbed t → R s t)
    (hregister : ∀ p, Follows (Run.register p) R)
    (hunregister : ∀ name, Follows (Run.unregister name) R)
    (hoperate : ∀ op : BucketOperation, Follows (Run.buckets op.apply) R) :
    SegmentCongruence fun _ x _ => Follows x R :=
  { unpinnedCongruence_follows htrans (fun s t h _ => hquiet s t h) hregister hunregister
      hoperate with
    setPinned := fun _ _ => hquiet _ _ ⟨rfl, rfl, rfl, rfl, rfl⟩ }

end Follows

end CommandShell
