import CommandShell.Proofs.State.Separation
import CommandShell.Proofs.State.Subscriptions

/-!
# What a watcher awaits

While a change is delivered, some states are still to be delivered to a watcher.  Unless there is a
new state, it will have seen the last of them in the end, or what it has seen before if there are
none.  Watchers may do all sorts of things in turn; as long as they give the bucket no new state,
what a watcher awaits stays the same, and so does the state of the bucket.

## Main definitions

* `Delivery.Changes`, `Delivery.Edits`: new states, and changes in place.
* `Watcher.HasSeen`: what a watcher keeps is made of a state.
* `StateSpace.due`: the states that are still to be delivered to a watcher.
* `StateSpace.Awaits`: what a watcher will have seen last, unless there is a new state.
* `StateSpace.Steady`: a step that changes nothing about that.

## Main results

* `StateSpace.deliver_spec`: what a delivery does to watchers.
* `StateSpace.steady_of_calm`: a step that gives the bucket no new state is steady.
-/

namespace CommandShell

/-- The mark of the list or map that a live value is. -/
def Live.container? (x : Live) : Option Nat :=
  x.marks.head?

theorem Live.container?_setItem (mark : Nat) (key new x : Live) :
    (setItem mark key new x).container? = x.container? := by
  cases x <;> rfl

/-- To do the thing that comes next gives a bucket a new state. -/
def Delivery.Changes : Delivery → Prop
  | .act _ _ _ (.update _ :: _) | .act _ _ _ (.reset :: _) => True
  | _ => False

/-- To do the thing that comes next sets a part in place. -/
def Delivery.Edits : Delivery → Prop
  | .act _ _ _ (.setItem _ _ :: _) => True
  | _ => False

/-- The state that is delivered to the watcher at a position of a bucket. -/
def Delivery.stateFor? (name : String) (i : Nat) : Delivery → Option Live
  | .deliver other j y => if other = name ∧ j = i then some y else none
  | .act _ _ _ _ => none

/-- What a watcher keeps is what it makes of a state, or equals that. -/
def Watcher.HasSeen (w : Watcher) (y : Live) : Prop :=
  ∃ p q, w.part y = .ok p ∧ w.last = some q ∧ (q = p ∨ w.selector.isSome ∧ q.same p = true)

/-- A watcher without a selector keeps the state itself. -/
theorem Watcher.hasSeen_iff {w : Watcher} {y : Live} (h : w.selector = none) :
    w.HasSeen y ↔ w.last = some y := by
  have hpart : w.part y = .ok y := by rw [part, h]
  constructor
  · rintro ⟨p, q, hp, hq, rfl | ⟨hsome, -⟩⟩
    · rw [hq, ← Except.ok.inj (hpart.symm.trans hp)]
    · rw [h] at hsome
      cases hsome
  · exact fun hlast => ⟨y, y, hpart, hlast, Or.inl rfl⟩

namespace StateSpace

/-- The states that are still to be delivered to a watcher. -/
def due (name : String) (i : Nat) (agenda : List Delivery) : List Live :=
  agenda.filterMap (Delivery.stateFor? name i)

/-- What a watcher will have seen last, unless there is a new state. -/
def Awaits (name : String) (i : Nat) (c : StateSpace × List Delivery) (y : Live) : Prop :=
  (due name i c.2).getLast? = some y ∨
    due name i c.2 = [] ∧ ∃ w, c.1.watcher? name i = some w ∧ w.HasSeen y

/-- A step leaves the state of a bucket, and what a watcher awaits, as they are, but for a change in
place. -/
structure Steady (name : String) (i : Nat) (f : Live → Live) (c c' : StateSpace × List Delivery) :
    Prop where
  content : ∀ b, c.1.content? name = some b → c'.1.content? name = some (b.1, f b.2)
  awaits : ∀ y, Awaits name i c y → Awaits name i c' (f y)
  subscribed : ∀ v, c'.1.watcher? name i = some v → v.subscribed = true →
    ∃ w, c.1.watcher? name i = some w ∧ w.subscribed = true

variable {s t u : StateSpace} {name other : String} {b : Bucket} {i j : Nat} {w v : Watcher}
  {x y : Live} {d : Delivery} {agenda more : List Delivery} {a : WatcherAction}
  {rest : List WatcherAction} {op : SpaceOperation} {c c' : StateSpace × List Delivery}

/-! ### What is still to be delivered -/

theorem due_append (agenda more : List Delivery) :
    due name i (agenda ++ more) = due name i agenda ++ due name i more :=
  List.filterMap_append

theorem due_act (other : String) (j : Nat) (y : Live) (actions : List WatcherAction)
    (agenda : List Delivery) :
    due name i (.act other j y actions :: agenda) = due name i agenda :=
  rfl

theorem due_deliver_self (y : Live) (agenda : List Delivery) :
    due name i (.deliver name i y :: agenda) = y :: due name i agenda := by
  have hmine : (Delivery.deliver name i y).stateFor? name i = some y := if_pos ⟨rfl, rfl⟩
  exact List.filterMap_cons_some hmine

theorem due_deliver_of_ne (h : ¬ (other = name ∧ j = i)) (y : Live) (agenda : List Delivery) :
    due name i (.deliver other j y :: agenda) = due name i agenda := by
  have hother : (Delivery.deliver other j y).stateFor? name i = none := if_neg h
  exact List.filterMap_cons_none hother

theorem mem_due_iff : y ∈ due name i agenda ↔ .deliver name i y ∈ agenda := by
  induction agenda with
  | nil => exact ⟨fun h => absurd h List.not_mem_nil, fun h => absurd h List.not_mem_nil⟩
  | cons d agenda ih =>
    cases d with
    | act other j z actions =>
      rw [due_act, ih, List.mem_cons]
      exact ⟨Or.inr, fun h => h.resolve_left (by rintro ⟨⟩)⟩
    | deliver other j z =>
      by_cases h : other = name ∧ j = i
      · obtain ⟨rfl, rfl⟩ := h
        rw [due_deliver_self, List.mem_cons, List.mem_cons, ih]
        exact or_congr_left ⟨fun h => by rw [h], fun h => by cases h; rfl⟩
      · rw [due_deliver_of_ne h, ih, List.mem_cons]
        refine ⟨Or.inr, fun hmem => hmem.resolve_left ?_⟩
        rintro ⟨⟩
        exact h ⟨rfl, rfl⟩

theorem due_mapLive (f : Live → Live) (agenda : List Delivery) :
    due name i (agenda.map (Delivery.mapLive f)) = (due name i agenda).map f := by
  induction agenda with
  | nil => rfl
  | cons d agenda ih =>
    cases d with
    | act other j z actions => exact ih
    | deliver other j z =>
      show due name i (.deliver other j (f z) :: agenda.map (Delivery.mapLive f)) = _
      by_cases h : other = name ∧ j = i
      · obtain ⟨rfl, rfl⟩ := h
        rw [due_deliver_self, due_deliver_self, ih, List.map_cons]
      · rw [due_deliver_of_ne h, due_deliver_of_ne h, ih]

/-- A round delivers the same state to every subscriber. -/
theorem getLast?_due_round {is : List Nat} (h : i ∈ is) :
    (due name i (is.map (.deliver name · x))).getLast? = some x := by
  have hmem : x ∈ due name i (is.map (.deliver name · x)) :=
    mem_due_iff.mpr (List.mem_map.mpr ⟨i, h, rfl⟩)
  obtain ⟨y, hy⟩ := Option.ne_none_iff_exists'.mp fun hnone =>
    List.ne_nil_of_mem hmem (List.getLast?_eq_none_iff.mp hnone)
  obtain ⟨j, -, heq⟩ := List.mem_map.mp (mem_due_iff.mp (List.mem_of_getLast? hy))
  cases heq
  exact hy

/-! ### Calm steps -/

theorem watcher?_report {label : String} (hw : s.watcher? other j = some w) :
    (s.report other j label x).watcher? name i =
      if name = other ∧ i = j then some { w with last := some x, callback := .report [] }
      else s.watcher? name i := by
  have hgiven : (s.give other j x).watcher? other j = some { w with last := some x } := by
    rw [watcher?_give, if_pos ⟨rfl, rfl⟩, hw]
    rfl
  show ((s.give other j x).modifyBucket other fun b => b.modifyWatcher j fun w =>
    { w with callback := .report [] }).watcher? name i = _
  rw [watcher?_modifyWatcher, hgiven]
  split
  · rfl
  · rename_i hne
    rw [watcher?_give, if_neg hne]

/-- A delivery shows its state to a watcher, which may have something to do, and does not concern
any other watcher. -/
theorem deliver_spec (h : s.deliver other j x = (.ok more, t)) :
    (more = [] ∨ ∃ y pending, more = [.act other j y pending]) ∧
      (∀ name i, ¬ (name = other ∧ i = j) → t.watcher? name i = s.watcher? name i) ∧
      ∀ w, s.watcher? other j = some w → ∃ v, t.watcher? other j = some v ∧
        v.selector = w.selector ∧ v.subscribed = w.subscribed ∧ v.HasSeen x := by
  cases hw : s.watcher? other j with
  | none =>
    rw [deliver_of_none hw] at h
    cases h
    exact ⟨Or.inl rfl, fun _ _ _ => rfl, by rintro w ⟨⟩⟩
  | some w =>
    cases hp : w.part x with
    | error e =>
      rw [deliver_of_error hw (Watcher.receive_of_error hp)] at h
      cases h
    | ok p =>
      have hreceive := Watcher.receive_of_part hp
      split at hreceive
      · -- The part equals what the watcher keeps.
        rename_i hrepeated
        rw [deliver_of_repeated hw hreceive] at h
        cases h
        refine ⟨Or.inl rfl, fun _ _ _ => rfl, ?_⟩
        rintro w' ⟨⟩
        rw [Bool.and_eq_true, Option.any_eq_true] at hrepeated
        obtain ⟨hselector, q, hlast, hsame⟩ := hrepeated
        exact ⟨w, hw, rfl, rfl, p, q, hp, hlast, Or.inr ⟨hselector, hsame⟩⟩
      · -- The watcher keeps the part.
        have hseen : ∀ callback : Callback,
            { w with last := some p, callback := callback }.HasSeen x :=
          fun callback => ⟨p, p, hp, rfl, Or.inl rfl⟩
        cases hcallback : w.callback with
        | followAliases =>
          -- Whoever follows aliases does so at once, and has nothing to do later.
          rw [deliver_of_followAliases hw hreceive hcallback] at h
          split at h
          · cases h
            refine ⟨Or.inl rfl, fun name i hne => ?_, ?_⟩
            · show (s.give other j p).watcher? name i = _
              rw [watcher?_give, if_neg hne]
            · rintro w' ⟨⟩
              refine ⟨{ w with last := some p }, ?_, rfl, rfl, hseen w.callback⟩
              show (s.give other j p).watcher? other j = _
              rw [watcher?_give, if_pos ⟨rfl, rfl⟩, hw]
              rfl
          · cases h
        | report pending =>
          -- Whoever reports has its pending actions to do next.
          rw [deliver_of_pending hw hreceive hcallback] at h
          cases h
          refine ⟨Or.inr ⟨p, pending, rfl⟩, fun name i hne => ?_, ?_⟩
          · rw [watcher?_report hw, if_neg hne]
          · rintro w' ⟨⟩
            refine ⟨{ w with last := some p, callback := .report [] }, ?_, rfl, rfl, hseen _⟩
            rw [watcher?_report hw, if_pos ⟨rfl, rfl⟩]

/-- What is kept of a watcher, but for a change in place, makes a steady step. -/
theorem steady_of_kept {f : Live → Live} (hw : s.watcher? name i = some w)
    (hv : t.watcher? name i = some v)
    (hcontent : ∀ b, s.content? name = some b → t.content? name = some (b.1, f b.2))
    (hdue : due name i more = (due name i agenda).map f) (hf : f = id ∨ w.selector = none)
    (hselector : v.selector = w.selector) (hlast : v.last = w.last.map f)
    (hopen : v.subscribed = true → w.subscribed = true) :
    Steady name i f (s, agenda) (t, more) where
  content := hcontent
  awaits y h := by
    rcases h with hfound | ⟨hnone, w', hw', hseen⟩
    · refine Or.inl ?_
      show (due name i more).getLast? = _
      rw [hdue, List.getLast?_map, hfound]
      rfl
    · obtain rfl := Option.some.inj (hw.symm.trans hw')
      refine Or.inr ⟨?_, v, hv, ?_⟩
      · show due name i more = []
        rw [hdue, hnone]
        rfl
      · -- A watcher that selects nothing has seen just what it keeps.
        rcases hf with rfl | hnone
        · obtain ⟨p, q, hp, hq, hsame⟩ := hseen
          refine ⟨p, q, ?_, ?_, ?_⟩
          · rw [← hp, Watcher.part, Watcher.part, hselector]
            rfl
          · rw [hlast, hq]
            rfl
          · rw [hselector]
            exact hsame
        · rw [Watcher.hasSeen_iff (hselector.trans hnone), hlast,
            (Watcher.hasSeen_iff hnone).mp hseen]
          rfl
  subscribed v' hv' hsub := by
    obtain rfl := Option.some.inj (hv.symm.trans hv')
    exact ⟨w, hw, hopen hsub⟩

/-- A change of a watcher that concerns neither what it selects nor what it keeps is steady. -/
theorem steady_modifyWatcher {f : Watcher → Watcher} (hw : s.watcher? name i = some w)
    (hf : ∀ w, (f w).selector = w.selector ∧ (f w).last = w.last ∧
      ((f w).subscribed = true → w.subscribed = true))
    (hdue : due name i more = due name i agenda) :
    Steady name i id (s, agenda) (s.modifyBucket other fun b => b.modifyWatcher j f, more) := by
  have hcontent : ∀ b, s.content? name = some b →
      (s.modifyBucket other fun b => b.modifyWatcher j f).content? name = some (b.1, id b.2) := by
    intro b hb
    rw [content?_modifyWatcher, hb]
    rfl
  have hsame : due name i more = (due name i agenda).map id := by rw [hdue, List.map_id]
  by_cases hplace : name = other ∧ i = j
  · obtain ⟨rfl, rfl⟩ := hplace
    refine steady_of_kept hw (v := f w) ?_ hcontent hsame (Or.inl rfl) (hf w).1 ?_ (hf w).2.2
    · rw [watcher?_modifyWatcher, if_pos ⟨rfl, rfl⟩, hw]
      rfl
    · rw [(hf w).2.1, Option.map_id]
      rfl
  · refine steady_of_kept hw (v := w) ?_ hcontent hsame (Or.inl rfl) rfl ?_ id
    · rw [watcher?_modifyWatcher, if_neg hplace, hw]
    · rw [Option.map_id]
      rfl

/-- A change in place is steady for what a watcher without a selector awaits. -/
theorem steady_setItem {key : Live} {new : Value} (hw : s.watcher? name i = some w)
    (hnone : w.selector = none) (h : s.setItem agenda x key new = (.ok more, t)) :
    ∃ f : Live → Live, (∀ x, (f x).container? = x.container?) ∧
      Steady name i f (s, agenda) (t, more) := by
  unfold setItem at h
  split at h
  · cases h
  · rename_i mark _
    cases h
    let f := Live.setItem mark key (s.fresh false new).1
    refine ⟨f, Live.container?_setItem mark key _, steady_of_kept hw
      (v := { w with last := w.last.map f }) ?_ (fun b hb => ?_) (due_mapLive f agenda)
      (Or.inr hnone) rfl rfl id⟩
    · exact (watcher?_mapLive (s.fresh false new).2 f name i).trans
        (congrArg (Option.map fun w => { w with last := w.last.map f }) hw)
    · exact (content?_mapLive (s.fresh false new).2 f name).trans
        (congrArg (Option.map fun c => (c.1, f c.2)) hb)

/-- A delivery is steady, to the watcher itself and to any other one. -/
theorem steady_deliver (hw : s.watcher? name i = some w)
    (h : s.deliver other j x = (.ok more, t)) :
    Steady name i id (s, .deliver other j x :: agenda) (t, more ++ agenda) := by
  obtain ⟨hmore, helsewhere, hmine⟩ := deliver_spec h
  have hdue : due name i (more ++ agenda) = due name i agenda := by
    rcases hmore with rfl | ⟨y, pending, rfl⟩ <;> rfl
  have hcontent : t.content? = s.content? := by
    have hstep := content?_deliver s other j x
    rwa [h] at hstep
  -- The watcher itself has now seen the state; for any other one nothing has changed.
  by_cases hplace : name = other ∧ i = j
  · obtain ⟨rfl, rfl⟩ := hplace
    obtain ⟨v, hv, hselector, hsubscribed, hseen⟩ := hmine w hw
    refine ⟨fun b hb => ?_, fun y h => ?_, fun v' hv' hsub => ⟨w, hw, ?_⟩⟩
    · show t.content? name = _
      rw [hcontent]
      exact hb
    · -- What was due first is what the watcher has seen now.
      have hlast : (due name i agenda).getLast?.getD x = y := by
        rcases h with hfound | ⟨hempty, -⟩
        · rw [due_deliver_self, List.getLast?_cons] at hfound
          exact Option.some.inj hfound
        · rw [due_deliver_self] at hempty
          cases hempty
      cases hrest : (due name i agenda).getLast? with
      | some z =>
        rw [hrest] at hlast
        refine Or.inl ?_
        show (due name i (more ++ agenda)).getLast? = _
        rw [hdue, hrest, ← hlast]
        rfl
      | none =>
        rw [hrest] at hlast
        refine Or.inr ⟨hdue.trans (List.getLast?_eq_none_iff.mp hrest), v, hv, ?_⟩
        rwa [← hlast]
    · obtain rfl := Option.some.inj (hv.symm.trans hv')
      rwa [← hsubscribed]
  · have hv := (helsewhere name i hplace).trans hw
    refine steady_of_kept hw hv (fun b hb => ?_) ?_ (Or.inl rfl) rfl ?_ id
    · rw [hcontent, hb]
      rfl
    · rw [hdue, List.map_id, due_deliver_of_ne fun h => hplace ⟨h.1.symm, h.2.symm⟩]
    · rw [Option.map_id]
      rfl

/-- A step in which no bucket gets a new state is a steady one; a part is set in place only of what
a watcher without a selector keeps. -/
theorem steady_of_calm (hw : s.watcher? name i = some w) (hcalm : ¬ d.Changes)
    (hedits : d.Edits → w.selector = none) (h : s.takeStep d agenda = (.ok more, t)) :
    ∃ f : Live → Live, (∀ x, (f x).container? = x.container?) ∧
      Steady name i f (s, d :: agenda) (t, more) := by
  -- What puts a new state into the bucket is ruled out, and all else leaves what is due.
  match d with
  | .deliver other j x =>
    obtain ⟨new, hdeliver, rfl⟩ := exists_of_takeStep_deliver h
    exact ⟨id, fun _ => rfl, steady_deliver hw hdeliver⟩
  | .act other j x [] =>
    cases h
    exact ⟨id, fun _ => rfl, fun b hb => hb, fun y hy => hy, fun v hv hsub => ⟨v, hv, hsub⟩⟩
  | .act other j x (.later a :: rest) =>
    cases h
    refine ⟨id, fun _ => rfl, steady_modifyWatcher hw (fun w => ?_) rfl⟩
    split <;> exact ⟨rfl, rfl, id⟩
  | .act other j x (.unsubscribe label :: rest) =>
    have hact : s.act (.act other j x rest :: agenda) other j x (.unsubscribe label) =
        (.ok more, t) := h
    obtain ⟨rfl, handle, rfl⟩ := exists_of_act_unsubscribe hact
    exact ⟨id, fun _ => rfl, steady_modifyWatcher hw (fun w => ⟨rfl, rfl, by rintro ⟨⟩⟩) rfl⟩
  | .act other j x (.fail message :: rest) => cases h
  | .act other j x (.setItem key new :: rest) =>
    have hnone := hedits trivial
    obtain ⟨f, hf, hsteady⟩ := steady_setItem (s := (s.fresh false key).2) hw hnone h
    exact ⟨f, hf, hsteady.content, hsteady.awaits, hsteady.subscribed⟩
  | .act _ _ _ (.update _ :: _) | .act _ _ _ (.reset :: _) => exact absurd trivial hcalm

end StateSpace

end CommandShell
