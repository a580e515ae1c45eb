import CommandShell.Proofs.State.Changes

/-!
# Subscriptions

Watchers come and go while things are done to buckets.  A watcher that comes is put where none is,
and who holds a subscription holds that of a watcher.  As long as watchers change nothing in turn, a
change of a bucket returns if they accept the new state.

## Main definitions

* `SpaceMove`: something that is done to buckets from outside.
* `SpaceMove.stateFor?`: the state that a move gives a bucket.
* `StateSpace.play`: the space after some moves.
* `Watcher.Accepts`: a watcher does not fail when it is told a state.
* `StateSpace.Held`: the subscriptions that are held are those of watchers.

## Main results

* `StateSpace.deliver_received`: what a delivery tells a watcher.
* `StateSpace.apply_ok_of_accepts`: a change that all watchers accept returns.
* `StateSpace.quiet_play`: no move brings a watcher that changes anything in turn.
* `StateSpace.held_apply`: the subscriptions that are held stay those of watchers.
-/

namespace CommandShell

/-- Something that is done to buckets from outside. -/
inductive SpaceMove where
  /-- An operation. -/
  | operate (op : SpaceOperation)
  /-- A subscription is ended. -/
  | unsubscribe (label : String)

namespace SpaceMove

/-- What a move does to a space. -/
def apply : SpaceMove → StateSpace → Except Fault Unit × StateSpace
  | operate op, s => op.apply s
  | unsubscribe label, s => s.unsubscribe label

/-- Whether a move ends the subscription under a label. -/
def ends (label : String) : SpaceMove → Bool
  | unsubscribe other => other == label
  | operate _ => false

/-- The state that a move gives the bucket with a name. -/
def stateFor? (name : String) (s : StateSpace) : SpaceMove → Option Live
  | operate op =>
    match op.sets? s with
    | some (other, x, _) => if other = name then some x else none
    | none => none
  | unsubscribe _ => none

/-- The bucket that somebody comes to watch. -/
def watched? : SpaceMove → Option String
  | operate (.observe name _ _) | operate (.follow name) => some name
  | _ => none

end SpaceMove

namespace Watcher

/-- The part of a state that a watcher is interested in. -/
def part (w : Watcher) (x : Live) : Except Fault Live :=
  match w.selector with
  | none => .ok x
  | some f => f.select x

/-- A watcher does not fail when it is told a state. -/
def Accepts (w : Watcher) (x : Live) : Prop :=
  ∃ p, w.part x = .ok p ∧
    (w.callback = .followAliases → ∃ table, AliasTable.ofValue p.value = .ok table)

/-- A watcher receives the part that it is interested in, or has received an equal one. -/
theorem receive_of_part {w : Watcher} {x p : Live} (h : w.part x = .ok p) :
    w.receive x = .ok (if w.selector.isSome && w.last.any (·.same p) then none else some p) := by
  unfold part at h
  unfold receive
  cases hs : w.selector with
  | none =>
    rw [hs] at h
    cases h
    rfl
  | some f =>
    rw [hs] at h
    dsimp only at h ⊢
    rw [h, Option.isSome_some, Bool.true_and]
    rfl

/-- A watcher receives nothing where it fails to take its part. -/
theorem receive_of_error {w : Watcher} {x : Live} {e : Fault} (h : w.part x = .error e) :
    w.receive x = .error e := by
  unfold part at h
  unfold receive
  cases hs : w.selector with
  | none =>
    rw [hs] at h
    cases h
  | some f =>
    rw [hs] at h
    dsimp only at h ⊢
    rw [h]
    rfl

theorem accepts_of_forget {v w : Watcher} {x : Live} (h : w.forget = v.forget)
    (hv : v.Accepts x) : w.Accepts x := by
  have hselector : w.selector = v.selector := (congrArg Watcher.selector h :)
  have hcallback : w.callback = v.callback := (congrArg Watcher.callback h :)
  unfold Accepts part
  rw [hselector, hcallback]
  exact hv

end Watcher

namespace StateSpace

/-- The space after some moves. -/
def play (s : StateSpace) (moves : List SpaceMove) : StateSpace :=
  moves.foldl (fun s m => (m.apply s).2) s

/-- The subscriptions that are held are those of watchers. -/
structure Held (s : StateSpace) : Prop where
  handles : ∀ label name i, s.handles.get? label = some (name, i) →
    (s.watcher? name i).isSome = true
  follower : ∀ name i, s.aliasWatcher = some (name, i) → (s.watcher? name i).isSome = true

variable {s t u : StateSpace} {name other : String} {b : Bucket} {i j : Nat} {w v : Watcher}
  {x y : Live} {is : List Nat} {op : SpaceOperation}

/-! ### What a delivery tells a watcher -/

/-- A watcher that receives something keeps it, and reports it unless it takes the aliases from
it; nothing else changes for watchers. -/
theorem deliver_received (hs : s.Quiet) (hw : s.watcher? name i = some w)
    (hx : w.receive x = .ok (some y)) :
    (∀ other j, (s.deliver name i x).2.watcher? other j = (s.give name i y).watcher? other j) ∧
      (w.callback = .followAliases → (s.deliver name i x).2.reports = s.reports) ∧
      (w.callback ≠ .followAliases →
        (s.deliver name i x).2.reports = .seen w.label y.value :: s.reports) := by
  rcases hs name i w hw with hcallback | hcallback
  · rw [deliver_of_followAliases hw hx hcallback]
    refine ⟨fun other j => ?_, fun _ => ?_, fun h => absurd hcallback h⟩
    · split <;> rfl
    · split <;> rfl
  · obtain ⟨t, ht, -, -, -, hreports, hwatchers⟩ := deliver_of_report hw hx hcallback
    rw [ht]
    refine ⟨hwatchers, fun h => ?_, fun _ => hreports⟩
    rw [hcallback] at h
    cases h

/-- A watcher that accepts a state does not end the deliveries, nor does one that is not there. -/
theorem exists_deliver_of_accepts (hs : s.Quiet)
    (h : ∀ w, s.watcher? name i = some w → w.Accepts x) :
    ∃ more, (s.deliver name i x).1 = .ok more := by
  cases hw : s.watcher? name i with
  | none => exact ⟨[], by rw [deliver_of_none hw]⟩
  | some w =>
    obtain ⟨p, hp, htable⟩ := h w hw
    have hreceive := Watcher.receive_of_part hp
    split at hreceive
    · exact ⟨[], by rw [deliver_of_repeated hw hreceive]⟩
    · rcases hs name i w hw with hcallback | hcallback
      · obtain ⟨table, htable⟩ := htable hcallback
        exact ⟨[], by rw [deliver_of_followAliases hw hreceive hcallback, htable]⟩
      · obtain ⟨t, ht, -⟩ := deliver_of_report hw hreceive hcallback
        exact ⟨_, by rw [ht]⟩

theorem accepts_deliver (hs : s.Quiet) (x : Live)
    (h : ∀ w, s.watcher? name j = some w → w.Accepts y) :
    ∀ w, (s.deliver other i x).2.watcher? name j = some w → w.Accepts y := by
  intro w hw
  obtain ⟨v, hv, hforget⟩ := (told_deliver hs other i x).exists_watcher hw
  exact Watcher.accepts_of_forget hforget (h v hv)

theorem deliverTo_ok (hs : s.Quiet)
    (h : ∀ i ∈ is, ∀ w, s.watcher? name i = some w → w.Accepts x) :
    (deliverTo name x is s).1 = .ok () := by
  induction is generalizing s with
  | nil => rfl
  | cons i is ih =>
    obtain ⟨more, hmore⟩ := exists_deliver_of_accepts hs (h i List.mem_cons_self)
    have hquiet := (told_deliver hs name i x).quiet hs
    have hrest : ∀ j ∈ is, ∀ w, (s.deliver name i x).2.watcher? name j = some w → w.Accepts x :=
      fun j hj => accepts_deliver hs x (h j (List.mem_cons_of_mem _ hj))
    rw [deliverTo_cons_of_ok hmore]
    exact ih hquiet hrest

/-! ### Single moves -/

theorem pairwise_subscribers (b : Bucket) : b.subscribers.Pairwise (· < ·) := by
  have hall : (b.watchers.zipIdx.map (·.2)).Pairwise (· < ·) := by
    rw [show (fun e : Watcher × Nat => e.2) = Prod.snd from rfl, List.zipIdx_map_snd]
    exact List.pairwise_lt_range'
  exact hall.sublist (List.filter_sublist.map _)

theorem nodup_subscribers (b : Bucket) : b.subscribers.Nodup :=
  (pairwise_subscribers b).imp Nat.ne_of_lt

theorem watcher?_eq (hb : s.bucket? name = some b) (i : Nat) :
    s.watcher? name i = b.watchers[i]? := by
  rw [watcher?, hb]
  rfl

theorem stateFor?_eq_some_iff :
    (SpaceMove.operate op).stateFor? name s = some x ↔ ∃ u, op.sets? s = some (name, x, u) := by
  show (match op.sets? s with
    | some (other, x, _) => if other = name then some x else none
    | none => none) = some x ↔ _
  cases op.sets? s with
  | none => simp
  | some new =>
    obtain ⟨other, y, u⟩ := new
    by_cases hother : other = name <;> simp [hother]

/-- An operation that gives a bucket a new state puts it there. -/
theorem apply_eq_put (hs : s.Quiet) (h : op.sets? s = some (name, x, u)) :
    op.apply s = u.put name x := by
  rw [apply_of_sets? h]
  exact settle_setState (quiet_of_sets? h hs)

theorem watcher?_of_sets? (hsets : op.sets? s = some (name, x, u)) : u.watcher? = s.watcher? := by
  obtain ⟨-, next, rfl⟩ := exists_of_sets? hsets
  rfl

/-- The watchers that a new state is delivered to accept it if all subscribers of its bucket do. -/
theorem accepts_of_mem_subscribers (hsets : op.sets? s = some (name, x, u))
    (hb : u.bucket? name = some b)
    (haccepts : ∀ j v, s.watcher? name j = some v → v.subscribed = true → v.Accepts x) :
    ∀ j ∈ b.subscribers, ∀ v, (u.withState name x).watcher? name j = some v → v.Accepts x := by
  intro j hj v hv
  rw [watcher?_withState] at hv
  obtain ⟨v', hv', hsub⟩ := mem_subscribers_iff.mp hj
  obtain rfl : v' = v := Option.some.inj (hv'.symm.trans ((watcher?_eq hb j).symm.trans hv))
  rw [watcher?_of_sets? hsets] at hv
  exact haccepts j v' hv hsub

/-- A change of a bucket whose watchers accept the new state returns. -/
theorem apply_ok_of_accepts (hs : s.Quiet)
    (hstate : (SpaceMove.operate op).stateFor? name s = some x)
    (haccepts : ∀ j v, s.watcher? name j = some v → v.subscribed = true → v.Accepts x) :
    (op.apply s).1 = .ok () := by
  obtain ⟨u, hsets⟩ := stateFor?_eq_some_iff.mp hstate
  rw [apply_eq_put hs hsets]
  cases hb : u.bucket? name with
  | none => rw [put_of_none hb]
  | some b =>
    rw [put_of_some hb]
    exact deliverTo_ok (quiet_withState (quiet_of_sets? hsets hs) name x)
      (accepts_of_mem_subscribers hsets hb haccepts)

/-- A watcher that comes is put where none is. -/
theorem watch_elsewhere (hs : s.Quiet) (hv : v.Quiet) (hw : s.watcher? name i = some w)
    (hplace : (s.watch other v).1 = .ok j) : ¬ (other = name ∧ j = i) := by
  rintro ⟨rfl, rfl⟩
  cases hb : s.bucket? other with
  | none =>
    rw [watcher?, hb] at hw
    cases hw
  | some b =>
    obtain ⟨r, hr, hat⟩ := watch_of_some hs hv hb
    rw [hr] at hplace
    rw [watcher?_eq hb, hat j hplace, List.getElem?_eq_none (Nat.le_refl _)] at hw
    cases hw

theorem forget_of_watch (hs : s.Quiet) (hw : w.Quiet)
    (h : (s.watch name w).2.watcher? other i = some v) :
    v.forget = w.forget ∨ ∃ v', s.watcher? other i = some v' ∧ v.forget = v'.forget := by
  cases hb : s.bucket? name with
  | none =>
    rw [watch_of_none hb] at h
    exact Or.inr ⟨v, h, rfl⟩
  | some b =>
    obtain ⟨v', hv', heq⟩ := (told_watch hs hw hb).exists_watcher h
    rcases watcher?_withWatcher_eq_some hv' with ⟨rfl, -⟩ | hold
    · exact Or.inl heq
    · exact Or.inr ⟨v', hold, heq⟩

/-! ### Several moves -/

/-- No operation brings a watcher that changes anything in turn. -/
theorem quiet_apply (hs : s.Quiet) (op : SpaceOperation) : (op.apply s).2.Quiet := by
  have heffect := effect_apply hs op
  generalize (op.apply s).2 = t at heffect ⊢
  cases heffect with
  | opens n initial =>
    intro other i w hw
    rw [watcher?_openBucket] at hw
    exact hs other i w hw
  | puts next hop hx => exact (puts_put_of_mark hs next _ _).quiet hs
  | follows n watcher =>
    have hreleased := quiet_released hs
    have hfollower : Watcher.follower.Quiet := Or.inl rfl
    show (s.released.watch n .follower).2.Quiet
    cases hb : s.released.bucket? n with
    | none => rwa [watch_of_none hb]
    | some b =>
      exact (told_watch hreleased hfollower hb).quiet (quiet_withWatcher hreleased hfollower)
  | observes n label f handles =>
    have hreporter : (Watcher.reporter label f).Quiet := Or.inr rfl
    show (s.watch n (.reporter label f)).2.Quiet
    cases hb : s.bucket? n with
    | none => rwa [watch_of_none hb]
    | some b => exact (told_watch hs hreporter hb).quiet (quiet_withWatcher hs hreporter)
  | _ => exact hs

theorem quiet_move (hs : s.Quiet) (m : SpaceMove) : (m.apply s).2.Quiet := by
  cases m with
  | operate op => exact quiet_apply hs op
  | unsubscribe label =>
    show (s.unsubscribe label).2.Quiet
    unfold StateSpace.unsubscribe
    split
    · exact hs
    · exact quiet_withoutWatcher hs

theorem quiet_play (hs : s.Quiet) (moves : List SpaceMove) : (s.play moves).Quiet := by
  induction moves generalizing s with
  | nil => exact hs
  | cons m moves ih => exact ih (quiet_move hs m)

theorem play_append (s : StateSpace) (moves more : List SpaceMove) :
    s.play (moves ++ more) = (s.play moves).play more :=
  List.foldl_append

/-! ### Subscriptions that are held -/

/-- Watchers stay in their places with what they select. -/
theorem Framed.outline_watcher? (h : s.Framed t) (name : String) (i : Nat) :
    (t.watcher? name i).map (fun w => (w.label, w.selector)) =
      (s.watcher? name i).map fun w => (w.label, w.selector) := by
  have houtline := h.outline_bucket? name
  unfold watcher?
  cases hs : s.bucket? name with
  | none =>
    rw [hs, Option.map_none, Option.map_eq_none_iff] at houtline
    rw [houtline]
  | some b =>
    rw [hs, Option.map_some] at houtline
    obtain ⟨c, hc, heq⟩ := Option.map_eq_some_iff.mp houtline
    have hwatchers := congrArg (fun o => o.2.2[i]?) heq
    simp only [Bucket.outline, List.getElem?_map] at hwatchers
    rw [hc]
    exact hwatchers

theorem Framed.isSome_watcher? (h : s.Framed t) (name : String) (i : Nat) :
    (t.watcher? name i).isSome = (s.watcher? name i).isSome := by
  have hsome := congrArg Option.isSome (h.outline_watcher? name i)
  rwa [Option.isSome_map, Option.isSome_map] at hsome

theorem Framed.selector_eq (h : s.Framed t) (hw : s.watcher? name i = some w)
    (hv : t.watcher? name i = some v) : v.selector = w.selector := by
  have houtline := h.outline_watcher? name i
  rw [hw, hv, Option.map_some, Option.map_some] at houtline
  exact congrArg Prod.snd (Option.some.inj houtline)

theorem Held.of_framed (h : s.Held) (hframed : s.Framed t) : t.Held where
  handles label name i hget := by
    rw [hframed.isSome_watcher?]
    exact h.handles label name i (by rwa [hframed.handles] at hget)
  follower name i hget := by
    rw [hframed.isSome_watcher?]
    exact h.follower name i (by rwa [hframed.aliasWatcher] at hget)

theorem held_of_no_handles (hhandles : s.handles = []) (hfollower : s.aliasWatcher = none) :
    s.Held := by
  refine ⟨fun label name i hget => ?_, fun name i hget => ?_⟩
  · rw [hhandles] at hget
    cases hget
  · rw [hfollower] at hget
    cases hget

theorem held_watch (h : s.Held) (hb : s.bucket? name = some b) (w : Watcher) :
    (s.watch name w).2.Held ∧
      ∀ i, (s.watch name w).1 = .ok i → ((s.watch name w).2.watcher? name i).isSome = true := by
  have hwith : (s.withWatcher name w).Held := by
    have hkept : ∀ n i, (s.watcher? n i).isSome = true →
        ((s.withWatcher name w).watcher? n i).isSome = true := by
      intro n i hsome
      obtain ⟨v, hv⟩ := Option.isSome_iff_exists.mp hsome
      exact Option.isSome_iff_exists.mpr ⟨v, watcher?_withWatcher_of_some hv⟩
    exact ⟨fun label n i hget => hkept n i (h.handles label n i hget),
      fun n i hget => hkept n i (h.follower n i hget)⟩
  have hframed := framed_settle (s.withWatcher name w) [.deliver name b.watchers.length b.state]
  rw [watch_eq_settle hb]
  refine ⟨hwith.of_framed hframed, fun i hi => ?_⟩
  generalize (s.withWatcher name w).settle _ = ending at hframed hi ⊢
  rcases ending with ⟨e | ⟨⟩, t⟩
  · cases hi
  · obtain rfl := Except.ok.inj hi
    show (t.watcher? name b.watchers.length).isSome = true
    rw [hframed.isSome_watcher?, watcher?_withWatcher hb, if_pos ⟨rfl, rfl⟩]
    rfl

theorem Held.openBucket (h : s.Held) (name : String) (initial : Value) :
    (s.openBucket name initial).Held := by
  have hwatchers : (s.openBucket name initial).watcher? = s.watcher? := watcher?_openBucket
  cases hb : s.bucket? name with
  | some b => rwa [openBucket_of_some hb]
  | none =>
    rw [openBucket_of_none hb] at hwatchers ⊢
    exact ⟨fun label n i hget => by rw [hwatchers]; exact h.handles label n i hget,
      fun n i hget => by rw [hwatchers]; exact h.follower n i hget⟩

theorem Held.persist (h : s.Held) (name : String) : (s.persist name).2.Held := by
  rcases persist_cases s name with ⟨r, heq⟩ | ⟨b, v, -, -, heq⟩ <;>
  · rw [heq]
    exact ⟨h.handles, h.follower⟩

theorem Held.followAliases (h : s.Held) (hb : s.bucket? name = some b) :
    (s.followAliases name).2.Held := by
  have hreleased : s.Framed s.released := by
    unfold released
    split
    · exact framed_modifyWatcher fun _ => ⟨rfl, rfl⟩
    · exact .refl s
  -- To let go of the last watcher closes no bucket.
  have hsome : s.released.bucket? name ≠ none := by
    intro hnone
    have houtline := hreleased.outline_bucket? name
    rw [hnone, hb] at houtline
    cases houtline
  obtain ⟨c, hc⟩ := Option.ne_none_iff_exists'.mp hsome
  have hwatch := held_watch (h.of_framed hreleased) hc .follower
  rw [followAliases_eq]
  generalize s.released.watch name .follower = ending at hwatch ⊢
  rcases ending with ⟨e | i, t⟩
  · exact hwatch.1
  · refine ⟨hwatch.1.handles, fun other j hget => ?_⟩
    cases hget
    exact hwatch.2 i rfl

theorem Held.subscribe (h : s.Held) (hb : s.bucket? name = some b) (label : String)
    (f : Option Selector) : (s.subscribe name (.reporter label f)).2.Held := by
  have hwatch := held_watch h hb (.reporter label f)
  unfold StateSpace.subscribe
  generalize s.watch name (.reporter label f) = ending at hwatch ⊢
  rcases ending with ⟨e | i, t⟩
  · exact hwatch.1
  · refine ⟨fun other m j hget => ?_, hwatch.1.follower⟩
    have hget' : (t.handles.insert label (name, i)).get? other = some (m, j) := hget
    rw [Entries.get?_insert] at hget'
    split at hget'
    · cases hget'
      exact hwatch.2 i rfl
    · exact hwatch.1.handles other m j hget'

/-- Whatever is done, the subscriptions that are held stay those of watchers, as long as buckets are
opened before somebody watches them. -/
theorem held_apply (h : s.Held) (m : SpaceMove)
    (hopen : ∀ n, m.watched? = some n → ∃ b, s.bucket? n = some b) : (m.apply s).2.Held := by
  cases m with
  | unsubscribe label => exact h.of_framed (framed_unsubscribe s label)
  | operate op =>
    cases op with
    | act op =>
      cases op with
      | opening n initial => exact h.openBucket n initial
      | persist n => exact h.persist n
      | update n v => exact h.of_framed (framed_apply rfl)
      | reset n => exact h.of_framed (framed_apply rfl)
    | load n => exact h.of_framed (framed_apply rfl)
    | follow n =>
      obtain ⟨b, hb⟩ := hopen n rfl
      exact h.followAliases hb
    | observe n label f =>
      obtain ⟨b, hb⟩ := hopen n rfl
      exact h.subscribe hb label f

end StateSpace

end CommandShell
