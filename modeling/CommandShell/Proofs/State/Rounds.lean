import CommandShell.Proofs.State.Awaiting
import CommandShell.Proofs.State.Finishing

/-!
# Rounds of deliveries

A change is delivered to the watchers one after another.  A watcher that changes the bucket in turn
starts another round, in which the new state is delivered to all of them, and only after that the
round that was going on continues with its older state.  So a watcher that had not had its turn in
the older round gets the older state last.

## Main definitions

* `StateSpace.Calmly`: a course in which no bucket gets a new state.
* `StateSpace.Overtaken`: the last new state comes while an older one is still to be delivered.
* `StateSpace.InTurn`: nobody but watchers before it comes before a delivery to a watcher.

## Main results

* `StateSpace.current_or_overtaken`: a watcher awaits the current state, or is overtaken.
* `StateSpace.ends_on_current_iff`: which watchers end on the current state.
* `StateSpace.not_overtaken_of_later`: no watcher is overtaken by those that came after it.
* `StateSpace.watcher_ends_on_older_state`: a watcher that is overtaken.
-/

namespace CommandShell

theorem Live.le_of_container? {x : Live} {next after k : Nat}
    (h : Live.TakenFrom x.marks next after) (hk : x.container? = some k) : next ≤ k :=
  (h.2 k (List.mem_of_head? hk)).1

/-- The position of the watcher that has its turn. -/
def Delivery.position : Delivery → Nat
  | .deliver _ j _ => j
  | .act _ j _ _ => j

namespace StateSpace

/-- A step that gives no bucket a new state. -/
inductive CalmStep : StateSpace × List Delivery → StateSpace × List Delivery → Prop
  | step {s t : StateSpace} {d : Delivery} {agenda more : List Delivery}
    (h : s.takeStep d agenda = (.ok more, t)) (hcalm : ¬ d.Changes) :
    CalmStep (s, d :: agenda) (t, more)

/-- Several steps that give no bucket a new state. -/
abbrev Calmly : StateSpace × List Delivery → StateSpace × List Delivery → Prop :=
  Relation.ReflTransGen CalmStep

/-- In the course of what is to be done, the last new state comes while an older one is still to be
delivered to a watcher. -/
def Overtaken (name : String) (i : Nat) (c c' : StateSpace × List Delivery) : Prop :=
  ∃ s t d agenda more, Course c (s, d :: agenda) ∧ d.Changes ∧
    s.takeStep d agenda = (.ok more, t) ∧ (∃ y, .deliver name i y ∈ agenda) ∧
    Calmly (t, more) c'

/-- Nothing that comes up in the course of what is to be done sets a part in place. -/
def Unedited (c : StateSpace × List Delivery) : Prop :=
  ∀ t d agenda, Course c (t, d :: agenda) → ¬ d.Edits

variable {s t u : StateSpace} {name other : String} {b : Bucket} {i j : Nat} {w v : Watcher}
  {x y : Live} {d : Delivery} {agenda more : List Delivery} {a : WatcherAction}
  {rest : List WatcherAction} {op : SpaceOperation} {c c' : StateSpace × List Delivery}

/-! ### New states -/

/-- All that is still to be done belongs to the bucket with a name. -/
def Tidy (name : String) (c : StateSpace × List Delivery) : Prop :=
  c.1.Separated ∧ ∀ d ∈ c.2, c.1.Brings name d

theorem Tidy.step (hc : Tidy name (s, d :: agenda)) (h : s.takeStep d agenda = (.ok more, t)) :
    Tidy name (t, more) := by
  obtain ⟨hs, hagenda⟩ := hc
  have hrest : ∀ d ∈ agenda, s.Brings name d := fun d hd => hagenda d (List.mem_cons_of_mem _ hd)
  -- What is done for the bucket concerns the bucket alone, and so does what comes of it.
  match d with
  | .deliver other i x =>
    obtain ⟨rfl, hx⟩ := hagenda _ List.mem_cons_self
    obtain ⟨hstays, hnew⟩ := leadsTo_deliver hs hx i
    obtain ⟨new, hdeliver, rfl⟩ := exists_of_takeStep_deliver h
    rw [hdeliver] at hstays hnew
    refine ⟨hstays.separated, fun d hd => ?_⟩
    rcases List.mem_append.mp hd with hd | hd
    · exact hnew new rfl d hd
    · exact (hrest d hd).of_changesOnly hstays.toChangesOnly
  | .act other i x [] =>
    cases h
    exact ⟨hs, hrest⟩
  | .act other i x (a :: rest) =>
    obtain ⟨rfl, hx⟩ := hagenda _ List.mem_cons_self
    have hmine : ∀ d ∈ .act other i x rest :: agenda, s.Brings other d := by
      intro d hd
      rcases List.mem_cons.mp hd with rfl | hd
      · exact ⟨rfl, hx⟩
      · exact hrest d hd
    obtain ⟨hstays, hnew⟩ := leadsTo_act hs hx hmine i a
    have hact : s.act (.act other i x rest :: agenda) other i x a = (.ok more, t) := h
    rw [hact] at hstays hnew
    exact ⟨hstays.separated, hnew more rfl⟩

/-- A step that gives the bucket a new state starts a round with it; where the state at first is a
list or map, the new state is a fresh one. -/
theorem exists_of_changes (hc : Tidy name (s, d :: agenda)) (hd : d.Changes)
    (hb : s.bucket? name = some b) (h : s.takeStep d agenda = (.ok more, t)) :
    ∃ y next left, more = b.subscribers.map (.deliver name · y) ++ left ∧
      (∀ i, due name i left = due name i agenda) ∧
      t = ({ s with nextMark := next } : StateSpace).withState name y ∧
      (b.initial.container?.isSome → ∃ k, y.container? = some k ∧ s.nextMark ≤ k) := by
  -- Only an update and a reset change a bucket; either one makes its state a fresh one.
  match d with
  | .act other i x (.update v :: rest) =>
    obtain ⟨rfl, -⟩ := hc.2 _ List.mem_cons_self
    unfold takeStep act at h
    dsimp only at h
    rcases merged_cases s other v with
      ⟨e, next, hmerged⟩ | ⟨c, mark, old, k, given, next, -, hgiven, hmerged⟩
    · rw [hmerged] at h
      cases h
    · have hround := setState_of_some (s := { s with nextMark := next })
        (x := .map k (Live.overlay old given)) hb
      rw [hmerged] at h
      dsimp only at h
      rw [hround] at h
      cases h
      refine ⟨_, next, _, rfl, fun i => rfl, rfl, fun _ => ⟨k, rfl, ?_⟩⟩
      have htaken : Live.TakenFrom (Live.ofValue false s.nextMark v).1.marks s.nextMark _ :=
        Live.takenFrom_ofValue s.nextMark v
      rw [hgiven] at htaken
      exact Live.le_of_container? htaken rfl
  | .act other i x (.reset :: rest) =>
    obtain ⟨rfl, -⟩ := hc.2 _ List.mem_cons_self
    unfold takeStep act setInitial at h
    dsimp only at h
    rw [hb] at h
    have hround := setState_of_some (s := { s with nextMark := (b.initial.copy s.nextMark).2 })
      (x := (b.initial.copy s.nextMark).1) hb
    dsimp only at h
    rw [hround] at h
    cases h
    refine ⟨_, _, _, rfl, fun i => rfl, rfl, fun hsome => ?_⟩
    have hcontainer : (b.initial.copy s.nextMark).1.container?.isSome := by
      generalize b.initial = y at hsome
      cases y <;> exact hsome
    obtain ⟨k, hk⟩ := Option.isSome_iff_exists.mp hcontainer
    exact ⟨k, hk, Live.le_of_container? (Live.takenFrom_copy s.nextMark b.initial) hk⟩

/-- A watcher awaits the state that its bucket has. -/
def Current (name : String) (i : Nat) (c : StateSpace × List Delivery) : Prop :=
  ∃ b, c.1.content? name = some b ∧ Awaits name i c b.2

/-- A watcher awaits another list or map than its bucket has. -/
def Outdated (name : String) (i : Nat) (c : StateSpace × List Delivery) : Prop :=
  ∃ b y, c.1.content? name = some b ∧ Awaits name i c y ∧ y.container? ≠ b.2.container?

theorem Steady.current {f : Live → Live} (h : Steady name i f c c') (hc : Current name i c) :
    Current name i c' := by
  obtain ⟨b, hb, hawaits⟩ := hc
  exact ⟨_, h.content b hb, h.awaits _ hawaits⟩

theorem Steady.outdated {f : Live → Live} (h : Steady name i f c c')
    (hf : ∀ x, (f x).container? = x.container?) (hc : Outdated name i c) :
    Outdated name i c' := by
  obtain ⟨b, y, hb, hawaits, hne⟩ := hc
  exact ⟨_, _, h.content b hb, h.awaits y hawaits, by rw [hf, hf]; exact hne⟩

theorem content?_withState_of_some {next : Nat} (hb : s.bucket? name = some b) (y : Live) :
    (({ s with nextMark := next } : StateSpace).withState name y).content? name =
      some (b.initial, y) := by
  have hcontent : ({ s with nextMark := next } : StateSpace).content? name =
      some (b.initial, b.state) := by
    show (s.bucket? name).map (fun b => (b.initial, b.state)) = _
    rw [hb, Option.map_some]
  rw [content?_withState, if_pos rfl, hcontent, Option.map_some]

/-- Whoever is subscribed when the bucket gets a new state awaits this one, unless an older one is
still to be delivered after it. -/
theorem current_of_changes (hc : Tidy name (s, d :: agenda)) (hd : d.Changes)
    (hb : s.bucket? name = some b) (h : s.takeStep d agenda = (.ok more, t))
    (hw : t.watcher? name i = some w) (hsub : w.subscribed = true)
    (hnone : due name i agenda = []) : Current name i (t, more) := by
  obtain ⟨y, next, left, rfl, hleft, rfl, -⟩ := exists_of_changes hc hd hb h
  rw [watcher?_withState] at hw
  have hat : b.watchers[i]? = some w := (watcher?_eq hb i).symm.trans hw
  refine ⟨(b.initial, y), content?_withState_of_some hb y, Or.inl ?_⟩
  show (due name i (_ ++ left)).getLast? = _
  rw [due_append, hleft, hnone, List.append_nil]
  exact getLast?_due_round (mem_subscribers_iff.mpr ⟨w, hat, hsub⟩)

/-- Where an older state is still to be delivered when the bucket gets a new one, the older one
comes last. -/
theorem outdated_of_changes (hc : Tidy name (s, d :: agenda)) (hd : d.Changes)
    (hb : s.bucket? name = some b) (hinitial : b.initial.container?.isSome)
    (h : s.takeStep d agenda = (.ok more, t)) (hdue : .deliver name i x ∈ agenda) :
    Outdated name i (t, more) := by
  obtain ⟨y, next, left, rfl, hleft, rfl, hfresh⟩ := exists_of_changes hc hd hb h
  obtain ⟨k, hk, hle⟩ := hfresh hinitial
  obtain ⟨z, hz⟩ := Option.ne_none_iff_exists'.mp fun hnone =>
    List.ne_nil_of_mem (mem_due_iff.mpr hdue) (List.getLast?_eq_none_iff.mp hnone)
  refine ⟨(b.initial, y), z, content?_withState_of_some hb y, Or.inl ?_, ?_⟩
  · show (due name i (_ ++ left)).getLast? = _
    rw [due_append, hleft, List.getLast?_append, hz]
    rfl
  · -- The older state has its mark from before.
    rw [hk]
    intro hcontainer
    have hmem := mem_due_iff.mp (List.mem_of_getLast? hz)
    have hold := ((hc.2 _ (List.mem_cons_of_mem _ hmem)).2 k (List.mem_of_head? hcontainer)).1
    exact absurd hold (Nat.not_lt.mpr hle)

/-! ### Courses -/

theorem Framed.of_takeStep (h : s.takeStep d agenda = (.ok more, t)) : s.Framed t := by
  have hframed := framed_takeStep s d agenda
  rwa [h] at hframed

theorem framed_course (h : Course c c') : c.1.Framed c'.1 := by
  induction h with
  | refl => exact .refl _
  | tail _ hstep ih =>
    cases hstep with
    | step h => exact ih.trans (.of_takeStep h)

theorem Tidy.course (hc : Tidy name c) (h : Course c c') : Tidy name c' := by
  induction h with
  | refl => exact hc
  | tail _ hstep ih =>
    cases hstep with
    | step h => exact ih.step h

theorem Framed.exists_bucket (h : s.Framed t) (hb : s.bucket? name = some b) :
    ∃ b', t.bucket? name = some b' ∧ b'.initial = b.initial := by
  have houtline := h.outline_bucket? name
  rw [hb, Option.map_some] at houtline
  obtain ⟨b', hb', heq⟩ := Option.map_eq_some_iff.mp houtline
  exact ⟨b', hb', congrArg (·.2.1) heq⟩

theorem Framed.exists_watcher (h : s.Framed t) (hw : t.watcher? name i = some w) :
    ∃ v, s.watcher? name i = some v ∧ v.selector = w.selector := by
  have hsome := h.isSome_watcher? name i
  rw [hw, Option.isSome_some] at hsome
  obtain ⟨v, hv⟩ := Option.isSome_iff_exists.mp hsome.symm
  exact ⟨v, hv, (h.selector_eq hv hw).symm⟩

/-- In the course of what is to be done, a watcher that is subscribed awaits the current state, or
an older one that was still to be delivered to it when the last new state came. -/
theorem current_or_overtaken (hc : Tidy name c) (hb : c.1.bucket? name = some b)
    (hstart : ∀ w, c.1.watcher? name i = some w → w.subscribed = true → Current name i c)
    (h : Course c c') (hw : c'.1.watcher? name i = some w) (hsub : w.subscribed = true)
    (hedits : Unedited c ∨ w.selector = none) : Current name i c' ∨ Overtaken name i c c' := by
  induction h generalizing w with
  | refl => exact Or.inl (hstart w hw hsub)
  | tail hcourse hstep ih =>
    cases hstep with
    | @step s t d agenda more hstep =>
      obtain ⟨v, hv, hselector⟩ := (Framed.of_takeStep hstep).exists_watcher hw
      by_cases hd : d.Changes
      · -- The last new state is this one.
        obtain ⟨b', hb', -⟩ := (framed_course hcourse).exists_bucket hb
        by_cases hnone : due name i agenda = []
        · exact Or.inl (current_of_changes (hc.course hcourse) hd hb' hstep hw hsub hnone)
        · obtain ⟨y, hy⟩ := List.exists_mem_of_ne_nil _ hnone
          exact Or.inr ⟨s, t, d, agenda, more, hcourse, hd, hstep, ⟨y, mem_due_iff.mp hy⟩, .refl⟩
      · have hcalm : d.Edits → v.selector = none := fun hd => by
          rcases hedits with hunedited | hnone
          · exact absurd hd (hunedited s d agenda hcourse)
          · rw [hselector, hnone]
        obtain ⟨f, -, hsteady⟩ := steady_of_calm hv hd hcalm hstep
        obtain ⟨v', hv', hopen⟩ := hsteady.subscribed w hw hsub
        obtain rfl := Option.some.inj (hv.symm.trans hv')
        rcases ih hv hopen (by rwa [hselector]) with hcurrent | hovertaken
        · exact Or.inl (hsteady.current hcurrent)
        · obtain ⟨s', t', d', agenda', more', hbefore, hd', hstep', hdue, hafter⟩ := hovertaken
          exact Or.inr ⟨s', t', d', agenda', more', hbefore, hd', hstep', hdue,
            hafter.tail (.step hstep hd)⟩

/-- A watcher without a selector that is overtaken awaits an older state. -/
theorem outdated_of_overtaken (hc : Tidy name c) (hb : c.1.bucket? name = some b)
    (hinitial : b.initial.container?.isSome) (h : Overtaken name i c c')
    (hw : c'.1.watcher? name i = some w) (hnone : w.selector = none) : Outdated name i c' := by
  obtain ⟨s, t, d, agenda, more, hcourse, hd, hstep, ⟨y, hdue⟩, hcalmly⟩ := h
  obtain ⟨b', hb', hsame⟩ := (framed_course hcourse).exists_bucket hb
  have hstart := outdated_of_changes (hc.course hcourse) hd hb' (by rwa [hsame]) hstep hdue
  -- After the last new state, every step is a steady one.
  induction hcalmly generalizing w with
  | refl => exact hstart
  | tail _ hstep ih =>
    cases hstep with
    | step hstep hcalm =>
      obtain ⟨v, hv, hselector⟩ := (Framed.of_takeStep hstep).exists_watcher hw
      have hfree : v.selector = none := hselector.trans hnone
      obtain ⟨f, hf, hsteady⟩ := steady_of_calm hv hcalm (fun _ => hfree) hstep
      exact hsteady.outdated hf (ih hv hfree)

/-- What an operation gives a bucket belongs to the bucket. -/
theorem owns_of_sets? (hs : s.Separated) (h : op.sets? s = some (name, x, u)) :
    u.Separated ∧ u.Owns name x := by
  cases sets?_eq_some_iff.mp h with
  | @update _ v _ _ hends =>
    obtain ⟨hmerged, howns⟩ := stays_merged hs name v
    rw [hends] at hmerged howns
    exact ⟨hmerged.separated, howns x rfl⟩
  | @reset _ b hb =>
    have hcopy := Live.takenFrom_copy s.nextMark b.initial
    have hstays : s.Stays name { s with nextMark := (b.initial.copy s.nextMark).2 } :=
      hs.stays_of_content rfl hcopy.1
    exact ⟨hstays.separated, hs.owns_of_takenFrom hcopy rfl rfl⟩
  | @load _ b v hb hget hv =>
    obtain ⟨hfresh, hnew⟩ := hs.fresh name true v
    exact ⟨hfresh.separated, hnew⟩

theorem tidy_of_sets? (hs : s.Separated) (h : op.sets? s = some (name, x, u)) :
    Tidy name (u.setState name x) := by
  obtain ⟨hseparated, howns⟩ := owns_of_sets? hs h
  obtain ⟨hset, hround⟩ := leadsTo_setState hseparated howns
  exact ⟨hset.separated, hround _ rfl⟩

/-- Where nothing is left to be done, a watcher has seen last what it awaits. -/
theorem Current.hasSeen (h : Current name i (t, [])) (hb : t.bucket? name = some b)
    (hw : t.watcher? name i = some w) : w.HasSeen b.state := by
  obtain ⟨c, hc, hlast | ⟨-, v, hv, hseen⟩⟩ := h
  · cases hlast
  · obtain rfl := Option.some.inj (hw.symm.trans hv)
    have hcontent : t.content? name = some (b.initial, b.state) := by rw [content?, hb]; rfl
    obtain rfl := Option.some.inj (hc.symm.trans hcontent)
    exact hseen

theorem Outdated.last_ne (h : Outdated name i (t, [])) (hb : t.bucket? name = some b)
    (hw : t.watcher? name i = some w) (hnone : w.selector = none) : w.last ≠ some b.state := by
  obtain ⟨c, y, hc, hlast | ⟨-, v, hv, hseen⟩, hne⟩ := h
  · cases hlast
  · obtain rfl := Option.some.inj (hw.symm.trans hv)
    have hcontent : t.content? name = some (b.initial, b.state) := by rw [content?, hb]; rfl
    obtain rfl := Option.some.inj (hc.symm.trans hcontent)
    rw [(Watcher.hasSeen_iff hnone).mp hseen]
    rintro ⟨⟩
    exact hne rfl

/-- Which watchers end on the current state.  Something is done that may give a bucket a new state:
an update, a reset or a load; the state at first is a map, or a list.  If it gives none, nothing
changes.  If it gives one, all that this leads to is done when it returns, and a watcher that is
still subscribed ends on the current state if it is not overtaken: a watcher without a selector was
told this state last, and just then; and what a watcher with a selector was told last is the part of
the current state or equals it, as long as nothing is changed in place. -/
theorem ends_on_current_iff (hs : s.Arises) (hb : s.bucket? name = some b)
    (hinitial : b.initial.container?.isSome = true)
    (htarget : op.target? = some name) (hends : op.apply s = (.ok (), t)) :
    (op.sets? s = none → t.bucket? = s.bucket?) ∧
      ∀ x u, op.sets? s = some (name, x, u) → ∃ b', t.bucket? name = some b' ∧
        Course (u.setState name x) (t, []) ∧
        ∀ i w, b'.watchers[i]? = some w → w.subscribed = true →
          (w.selector = none → (w.last = some b'.state ↔
            ¬ Overtaken name i (u.setState name x) (t, []))) ∧
          (Unedited (u.setState name x) → ¬ Overtaken name i (u.setState name x) (t, []) →
            w.HasSeen b'.state) := by
  refine ⟨fun hnone => ?_, fun x u hsets => ?_⟩
  · obtain ⟨next, events, heq, -⟩ := apply_of_sets?_none htarget hnone
    rw [hends] at heq
    obtain rfl : t = _ := heq
    rfl
  · have hub : u.bucket? name = some b := (bucket?_of_sets? hsets name).trans hb
    have htidy := tidy_of_sets? (separated_of_arises hs) hsets
    obtain ⟨-, next, hu⟩ := exists_of_sets? hsets
    have hframed := framed_setState u name x
    have hnames : (u.setState name x).1.names.Nodup :=
      hframed.names_nodup (by rw [hu]; show s.names.Nodup; exact names_nodup_of_arises hs)
    rw [apply_of_sets? hsets] at hends
    have hcourse := course_of_settle hnames hends
    obtain ⟨b₁, hb₁, hinitial₁⟩ := hframed.exists_bucket hub
    obtain ⟨b', hb', -⟩ := (framed_course hcourse).exists_bucket hb₁
    refine ⟨b', hb', hcourse, fun i w hat hsub => ?_⟩
    have hw : t.watcher? name i = some w := (watcher?_eq hb' i).trans hat
    have hstart : ∀ w, (u.setState name x).1.watcher? name i = some w → w.subscribed = true →
        Current name i (u.setState name x) := by
      intro w hw hsub
      rw [setState_of_some hub] at hw ⊢
      rw [watcher?_withState, watcher?_eq hub] at hw
      have hmem : i ∈ b.subscribers := mem_subscribers_iff.mpr ⟨w, hw, hsub⟩
      refine ⟨(b.initial, x), ?_, Or.inl (getLast?_due_round hmem)⟩
      rw [hu]
      exact content?_withState_of_some hb x
    have hcurrent : Unedited (u.setState name x) ∨ w.selector = none →
        ¬ Overtaken name i (u.setState name x) (t, []) → w.HasSeen b'.state := fun hedits hnot =>
      ((current_or_overtaken htidy hb₁ hstart hcourse hw hsub hedits).resolve_right hnot).hasSeen
        hb' hw
    refine ⟨fun hnone => ⟨fun hlast hovertaken => ?_, fun hnot => ?_⟩, fun hunedited =>
      hcurrent (Or.inl hunedited)⟩
    · rw [← hinitial₁] at hinitial
      exact (outdated_of_overtaken htidy hb₁ hinitial hovertaken hw hnone).last_ne hb' hw hnone
        hlast
    · exact (Watcher.hasSeen_iff hnone).mp (hcurrent (Or.inr hnone) hnot)

/-! ### Watchers that are not overtaken -/

/-- Before a delivery to a watcher, none but watchers before it have their turns. -/
def InTurn (name : String) (i : Nat) (agenda : List Delivery) : Prop :=
  agenda.Pairwise fun d e => (e.stateFor? name i).isSome → d.position < i

theorem inTurn_of_due_eq_nil (h : due name i agenda = []) : InTurn name i agenda := by
  refine List.pairwise_of_forall_mem_list fun d _ e he hsome => ?_
  rw [List.filterMap_eq_nil_iff.mp h e he] at hsome
  cases hsome

/-- A round goes from the first watcher to the last. -/
theorem inTurn_round (b : Bucket) (x : Live) :
    InTurn name i (b.subscribers.map (.deliver name · x)) := by
  refine List.pairwise_map.mpr ((pairwise_subscribers b).imp fun {j k} hlt hsome => ?_)
  by_cases hk : name = name ∧ k = i
  · exact hk.2 ▸ hlt
  · rw [Delivery.stateFor?, if_neg hk] at hsome
    cases hsome

theorem InTurn.mapLive {f : Live → Live} (h : InTurn name i agenda) :
    InTurn name i (agenda.map (Delivery.mapLive f)) := by
  refine List.pairwise_map.mpr (List.Pairwise.imp (fun {d e} hlt hsome => ?_) h)
  have hposition : (d.mapLive f).position = d.position := by cases d <;> rfl
  rw [hposition]
  refine hlt ?_
  cases e with
  | act => exact hsome
  | deliver other j y =>
    by_cases hplace : other = name ∧ j = i
    · rw [Delivery.stateFor?, if_pos hplace]
      rfl
    · have hnone : ((Delivery.deliver other j y).mapLive f).stateFor? name i = none :=
        if_neg hplace
      rw [hnone] at hsome
      cases hsome

/-- A step in which no bucket gets a new state has deliveries made in turn as before. -/
theorem InTurn.calmStep (hturn : InTurn name i (d :: agenda)) (hcalm : ¬ d.Changes)
    (h : s.takeStep d agenda = (.ok more, t)) : InTurn name i more := by
  obtain ⟨hhead, htail⟩ := List.pairwise_cons.mp hturn
  -- What comes up next is done by the watcher that has its turn now.
  match d with
  | .deliver other j x =>
    obtain ⟨new, hdeliver, rfl⟩ := exists_of_takeStep_deliver h
    rcases (deliver_spec hdeliver).1 with rfl | ⟨y, pending, rfl⟩
    · exact htail
    · exact List.pairwise_cons.mpr ⟨hhead, htail⟩
  | .act other j x [] =>
    cases h
    exact htail
  | .act other j x (.later a :: rest) =>
    cases h
    exact List.pairwise_cons.mpr ⟨hhead, htail⟩
  | .act other j x (.unsubscribe label :: rest) =>
    have hact : s.act (.act other j x rest :: agenda) other j x (.unsubscribe label) =
        (.ok more, t) := h
    obtain ⟨rfl, -⟩ := exists_of_act_unsubscribe hact
    exact List.pairwise_cons.mpr ⟨hhead, htail⟩
  | .act other j x (.fail message :: rest) => cases h
  | .act other j x (.setItem key new :: rest) =>
    have hmore : ∃ f, more = (Delivery.act other j x rest :: agenda).map (Delivery.mapLive f) := by
      unfold takeStep act setItem at h
      dsimp only at h
      split at h
      · cases h
      · cases h
        exact ⟨_, rfl⟩
    obtain ⟨f, rfl⟩ := hmore
    have hsame : InTurn name i (.act other j x rest :: agenda) :=
      List.pairwise_cons.mpr ⟨hhead, htail⟩
    exact hsame.mapLive
  | .act _ _ _ (.update _ :: _) | .act _ _ _ (.reset :: _) => exact absurd trivial hcalm

/-- While no watcher but those from a position on change anything, deliveries to the one there are
made in turn. -/
theorem InTurn.step (hturn : InTurn name i (d :: agenda)) (hc : Tidy name (s, d :: agenda))
    (hb : s.bucket? name = some b) (hlater : d.Changes → i ≤ d.position)
    (h : s.takeStep d agenda = (.ok more, t)) : InTurn name i more := by
  by_cases hd : d.Changes
  · -- The watcher has had its turn in all rounds that are going on.
    have hnone : due name i agenda = [] := List.filterMap_eq_nil_iff.mpr fun e he => by
      by_contra hsome
      have hbefore := (List.pairwise_cons.mp hturn).1 e he (Option.isSome_iff_ne_none.mpr hsome)
      exact absurd hbefore (Nat.not_lt.mpr (hlater hd))
    obtain ⟨y, next, left, rfl, hleft, -, -⟩ := exists_of_changes hc hd hb h
    have hnone' : due name i left = [] := (hleft i).trans hnone
    refine List.pairwise_append.mpr ⟨inTurn_round b y, inTurn_of_due_eq_nil hnone', ?_⟩
    intro e _ e' he' hsome
    rw [List.filterMap_eq_nil_iff.mp hnone' e' he'] at hsome
    cases hsome
  · exact hturn.calmStep hd h

/-- As long as no watcher that came before it changes the bucket in turn, all that comes later is to
be delivered to a watcher in turn. -/
theorem inTurn_of_course (hs : s.Separated) (hb : s.bucket? name = some b)
    (hsets : op.sets? s = some (name, x, u))
    (hlater : ∀ t d agenda, Course (u.setState name x) (t, d :: agenda) → d.Changes →
      i ≤ d.position) (hcourse : Course (u.setState name x) c) : InTurn name i c.2 := by
  have hub : u.bucket? name = some b := (bucket?_of_sets? hsets name).trans hb
  have htidy := tidy_of_sets? hs hsets
  obtain ⟨b₁, hb₁, -⟩ := (framed_setState u name x).exists_bucket hub
  induction hcourse with
  | refl =>
    rw [setState_of_some hub]
    exact inTurn_round b x
  | tail hcourse hstep ih =>
    cases hstep with
    | @step s t d agenda more h =>
      obtain ⟨b₂, hb₂, -⟩ := (framed_course hcourse).exists_bucket hb₁
      exact ih.step (htidy.course hcourse) hb₂ (hlater s d agenda hcourse) h

/-- A watcher is not overtaken as long as no watcher that came before it changes the bucket in turn;
in particular the one that came first never is. -/
theorem not_overtaken_of_later (hs : s.Separated) (hb : s.bucket? name = some b)
    (hsets : op.sets? s = some (name, x, u))
    (hlater : ∀ t d agenda, Course (u.setState name x) (t, d :: agenda) → d.Changes →
      i ≤ d.position) : ¬ Overtaken name i (u.setState name x) c' := by
  rintro ⟨s', t', d, agenda, more, hcourse, hd, -, ⟨y, hy⟩, -⟩
  have hsome : ((Delivery.deliver name i y).stateFor? name i).isSome := by
    rw [Delivery.stateFor?, if_pos ⟨rfl, rfl⟩]
    rfl
  have hturn : InTurn name i (d :: agenda) := inTurn_of_course hs hb hsets hlater hcourse
  have hlt := (List.pairwise_cons.mp hturn).1 _ hy hsome
  exact absurd hlt (Nat.not_lt.mpr (hlater s' d agenda hcourse hd))

/-! ### A watcher that ends on an older state -/

/-- A bucket with two watchers.  The first updates it when it is told once more. -/
def answeredSpace : StateSpace :=
  let opened := { (openBucket {} "demo" (.map [("n", .int 0)])) with reports := [] }
  let answering : Watcher :=
    { label := "first", selector := none,
      callback := .report [.later (.update (.map [("n", .int 2)]))] }
  let answered := { (opened.subscribe "demo" answering).2 with reports := [] }
  { (answered.subscribe "demo" (.reporter "second" none)).2 with reports := [] }

/-- The update that the first watcher answers. -/
def answeredUpdate : SpaceOperation :=
  .act (.update "demo" (.map [("n", .int 1)]))

theorem arises_answeredSpace : answeredSpace.Arises :=
  .subscribes "demo" _ (.subscribes "demo" _
    (.operates (.act (.opening "demo" (.map [("n", .int 0)]))) (.empty rfl)))

/-- After the update the bucket has the state of the answer, and the second watcher was told the
older state last. -/
theorem apply_answeredUpdate :
    ∃ t b w, answeredUpdate.apply answeredSpace = (.ok (), t) ∧ t.bucket? "demo" = some b ∧
      b.watchers[1]? = some w ∧ w.subscribed = true ∧ w.selector = none ∧
      b.state.value.shown = "\x7b'n': 2\x7d" ∧
      w.last.map (·.value.shown) = some "\x7b'n': 1\x7d" := by
  have hends : (answeredUpdate.apply answeredSpace).1.toOption = some () := by decide +kernel
  have hshown : ((answeredUpdate.apply answeredSpace).2.bucket? "demo").map (fun b =>
      (b.state.value.shown, b.watchers[1]?.map fun w =>
        (w.subscribed, w.selector.isNone, w.last.map (·.value.shown)))) =
      some ("\x7b'n': 2\x7d", some (true, true, some "\x7b'n': 1\x7d")) := by decide +kernel
  generalize answeredUpdate.apply answeredSpace = ending at hends hshown
  obtain ⟨e | ⟨⟩, t⟩ := ending
  · cases hends
  · obtain ⟨b, hb, hfound⟩ := Option.map_eq_some_iff.mp hshown
    obtain ⟨hstate, hwatcher⟩ := Prod.mk.inj hfound
    obtain ⟨w, hw, hkept⟩ := Option.map_eq_some_iff.mp hwatcher
    obtain ⟨hsub, hrest⟩ := Prod.mk.inj hkept
    obtain ⟨hselector, hlast⟩ := Prod.mk.inj hrest
    exact ⟨t, b, w, rfl, hb, hw, hsub, Option.isNone_iff_eq_none.mp hselector, hstate, hlast⟩

/-- The second watcher is overtaken by the answer of the first one. -/
theorem second_watcher_is_overtaken :
    ∃ t x u, answeredSpace.Arises ∧ answeredUpdate.target? = some "demo" ∧
      answeredUpdate.apply answeredSpace = (.ok (), t) ∧
      answeredUpdate.sets? answeredSpace = some ("demo", x, u) ∧
      Overtaken "demo" 1 (u.setState "demo" x) (t, []) := by
  obtain ⟨t, b, w, hends, hb, hw, hsub, hselector, hstate, hlast⟩ := apply_answeredUpdate
  have hfirst : (answeredSpace.bucket? "demo").map (·.initial.container?.isSome) = some true := by
    decide +kernel
  obtain ⟨b₀, hb₀, hinitial⟩ := Option.map_eq_some_iff.mp hfirst
  have hsome : (answeredUpdate.sets? answeredSpace).isSome = true := by decide +kernel
  obtain ⟨⟨name, x, u⟩, hsets⟩ := Option.isSome_iff_exists.mp hsome
  obtain ⟨htarget, -⟩ := exists_of_sets? hsets
  obtain rfl : "demo" = name := Option.some.inj htarget
  obtain ⟨b', hb', -, hall⟩ :=
    (ends_on_current_iff arises_answeredSpace hb₀ hinitial rfl hends).2 x u hsets
  obtain rfl := Option.some.inj (hb.symm.trans hb')
  refine ⟨t, x, u, arises_answeredSpace, rfl, hends, hsets, ?_⟩
  by_contra hnot
  rw [((hall 1 w hw hsub).1 hselector).mpr hnot, Option.map_some, hstate] at hlast
  exact absurd hlast (by decide)

/-- A watcher that is still subscribed does not always end on the current state. -/
theorem watcher_ends_on_older_state :
    ¬ ∀ (s t : StateSpace) (op : SpaceOperation) (name : String) (b : Bucket), s.Arises →
      op.target? = some name → op.apply s = (.ok (), t) → t.bucket? name = some b →
      ∀ w ∈ b.watchers, w.subscribed = true → w.selector = none →
        w.last.map (·.value) = some b.state.value := by
  intro h
  obtain ⟨t, b, w, hends, hb, hw, hsub, hselector, hstate, hlast⟩ := apply_answeredUpdate
  have hcurrent := h answeredSpace t answeredUpdate "demo" b arises_answeredSpace rfl hends hb w
    (List.mem_of_getElem? hw) hsub hselector
  have hshown : (w.last.map (·.value)).map Value.shown = some "\x7b'n': 1\x7d" := by
    rw [Option.map_map]
    exact hlast
  rw [hcurrent, Option.map_some, hstate] at hshown
  exact absurd hshown (by decide)

end StateSpace

end CommandShell
