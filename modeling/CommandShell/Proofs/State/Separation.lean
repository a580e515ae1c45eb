import CommandShell.Proofs.State.Marks
import CommandShell.Proofs.State.Operations

/-!
# Buckets that hold nothing in common

Nothing that is done to buckets puts a container of one into another.  So a change of a bucket stays
in it, whatever its watchers do in turn: they may update the bucket, and change in place what they
have received, but this is held by no other bucket.

## Main definitions

* `StateSpace.Owns`: no bucket but one holds a container of a value.
* `StateSpace.Separated`: no two buckets hold a container in common.
* `StateSpace.ChangesOnly`: one bucket is changed at most.
* `StateSpace.Stays`, `StateSpace.LeadsTo`: after that, the buckets are separated, and so is what is
  still to be delivered.
* `StateSpace.Arises`: the spaces that come about.

## Main results

* `StateSpace.stays_settleWithin`: what a change leads to stays in the bucket.
* `StateSpace.stays_update`, `StateSpace.stays_reset`: so do updates and resets.
* `StateSpace.separated_of_arises`: whatever is done to buckets keeps them separated.
-/

namespace CommandShell

namespace StateSpace

/-- No bucket but the one with a name holds a container of the value, and the marks of its
containers have been given out. -/
def Owns (s : StateSpace) (name : String) (x : Live) : Prop :=
  ∀ m ∈ x.marks, m < s.nextMark ∧
    ∀ other c, other ≠ name → s.content? other = some c → m ∉ c.2.marks

/-- No two buckets hold a container in common. -/
def Separated (s : StateSpace) : Prop :=
  ∀ name c, s.content? name = some c → s.Owns name c.2

/-- Nothing but the bucket with a name is changed. -/
structure ChangesOnly (s : StateSpace) (name : String) (t : StateSpace) : Prop where
  content : ∀ other, other ≠ name → t.content? other = s.content? other
  next : s.nextMark ≤ t.nextMark

/-- What is delivered belongs to the bucket with a name. -/
def Brings (s : StateSpace) (name : String) : Delivery → Prop
  | .deliver bucket _ state => bucket = name ∧ s.Owns name state
  | .act bucket _ received _ => bucket = name ∧ s.Owns name received

/-- Nothing but the bucket with a name is changed, and the buckets have nothing in common after
that. -/
structure Stays (s : StateSpace) (name : String) (t : StateSpace) : Prop
    extends ChangesOnly s name t where
  separated : t.Separated

/-- The spaces that come about: from one without buckets, by operations, by watchers that come and
go, whatever these do, and by changes in place from outside. -/
inductive Arises : StateSpace → Prop
  | empty {s : StateSpace} (h : s.buckets = []) : Arises s
  | operates {s : StateSpace} (op : SpaceOperation) :
    Arises s → Arises { (op.apply s).2 with reports := [] }
  | subscribes {s : StateSpace} (name : String) (w : Watcher) :
    Arises s → Arises { (s.subscribe name w).2 with reports := [] }
  | unsubscribes {s : StateSpace} (label : String) : Arises s → Arises (s.unsubscribe label).2
  | edits {s : StateSpace} (name : String) (path : List Value) (v : Value) :
    Arises s → Arises (s.edit name path v).2

variable {s t u : StateSpace} {name : String} {x y key new : Live} {v : Value} {i : Nat}
  {d : Delivery} {agenda : List Delivery} {e : Fault}

/-! ### What belongs to a bucket -/

theorem ChangesOnly.refl (s : StateSpace) (name : String) : s.ChangesOnly name s :=
  ⟨fun _ _ => rfl, Nat.le_refl _⟩

theorem ChangesOnly.trans (h : s.ChangesOnly name t) (h' : t.ChangesOnly name u) :
    s.ChangesOnly name u :=
  ⟨fun other hne => (h'.content other hne).trans (h.content other hne), Nat.le_trans h.next h'.next⟩

theorem ChangesOnly.of_content (h : t.content? = s.content?) (hnext : s.nextMark ≤ t.nextMark) :
    s.ChangesOnly name t :=
  ⟨fun _ _ => by rw [h], hnext⟩

theorem Owns.of_subset (h : s.Owns name x) (hsub : y.marks ⊆ x.marks) : s.Owns name y :=
  fun m hm => h m (hsub hm)

/-- What belongs to a bucket belongs to it when no other one has changed. -/
theorem Owns.of_changesOnly (h : s.Owns name x) (hc : s.ChangesOnly name t) : t.Owns name x := by
  intro m hm
  obtain ⟨hlt, hothers⟩ := h m hm
  refine ⟨Nat.lt_of_lt_of_le hlt hc.next, fun other c hne hcontent => ?_⟩
  rw [hc.content other hne] at hcontent
  exact hothers other c hne hcontent

theorem Brings.of_changesOnly (h : s.Brings name d) (hc : s.ChangesOnly name t) :
    t.Brings name d := by
  cases d with
  | deliver => exact ⟨h.1, h.2.of_changesOnly hc⟩
  | act => exact ⟨h.1, h.2.of_changesOnly hc⟩

/-- Where one bucket is changed, it alone has to be looked at. -/
theorem Separated.of_changesOnly (hs : s.Separated) (hc : s.ChangesOnly name t)
    (hown : ∀ c, t.content? name = some c → t.Owns name c.2) : t.Separated := by
  intro a c hcontent
  by_cases ha : a = name
  · subst ha
    exact hown c hcontent
  · have hbefore : s.content? a = some c := by rw [← hc.content a ha, hcontent]
    intro m hm
    obtain ⟨hlt, hothers⟩ := hs a c hbefore m hm
    refine ⟨Nat.lt_of_lt_of_le hlt hc.next, fun b d hne hb hmem => ?_⟩
    -- The other bucket may be the one that has changed, and is then looked at from there.
    by_cases hbname : b = name
    · subst hbname
      exact (hown d hb m hmem).2 a c ha hcontent hm
    · rw [hc.content b hbname] at hb
      exact hothers b d hne hb hmem

theorem Separated.stays_of_content (hs : s.Separated) (h : t.content? = s.content?)
    (hnext : s.nextMark ≤ t.nextMark) : s.Stays name t where
  toChangesOnly := .of_content h hnext
  separated := by
    have hchange : s.ChangesOnly name t := .of_content h hnext
    refine hs.of_changesOnly hchange fun c hc => ?_
    rw [h] at hc
    exact (hs name c hc).of_changesOnly hchange

theorem Separated.stays (hs : s.Separated) : s.Stays name s :=
  hs.stays_of_content rfl (Nat.le_refl _)

theorem Stays.trans (h : s.Stays name t) (h' : t.Stays name u) : s.Stays name u :=
  ⟨h.toChangesOnly.trans h'.toChangesOnly, h'.separated⟩

/-- What concerns neither buckets nor marks may change as well. -/
theorem Stays.of_content (h : s.Stays name t) (hu : u.content? = t.content?)
    (hnext : t.nextMark ≤ u.nextMark) : s.Stays name u :=
  h.trans (h.separated.stays_of_content hu hnext)

/-- Marks that are fresh belong to any bucket. -/
theorem Separated.owns_of_takenFrom (hs : s.Separated) {after : Nat}
    (h : Live.TakenFrom x.marks s.nextMark after) (ht : t.content? = s.content?)
    (hnext : t.nextMark = after) : t.Owns name x := by
  intro m hm
  have hbounds := h.2 m hm
  refine ⟨by omega, fun other c _ hc hmem => ?_⟩
  rw [ht] at hc
  have hgiven := (hs other c hc m hmem).1
  omega

/-- A value that is made afresh belongs to any bucket. -/
theorem Separated.fresh (hs : s.Separated) (name : String) (shared : Bool) (v : Value) :
    s.Stays name (s.fresh shared v).2 ∧ (s.fresh shared v).2.Owns name (s.fresh shared v).1 := by
  have htaken : Live.TakenFrom (s.fresh shared v).1.marks s.nextMark
      (s.fresh shared v).2.nextMark :=
    Live.takenFrom_ofValue s.nextMark v
  exact ⟨hs.stays_of_content rfl htaken.1, hs.owns_of_takenFrom htaken rfl rfl⟩

/-! ### Deliveries -/

/-- What belongs to a bucket, and what is made of it, is all that a step for the bucket changes and
leaves to be delivered. -/
def LeadsTo (s : StateSpace) (name : String) (r : Except Fault (List Delivery) × StateSpace) :
    Prop :=
  s.Stays name r.2 ∧ ∀ agenda, r.1 = .ok agenda → ∀ d ∈ agenda, r.2.Brings name d

theorem Stays.leadsTo_error (h : s.Stays name t) : s.LeadsTo name (.error e, t) :=
  ⟨h, by rintro agenda ⟨⟩⟩

theorem Stays.leadsTo_ok (h : s.Stays name t) (hagenda : ∀ d ∈ agenda, t.Brings name d) :
    s.LeadsTo name (.ok agenda, t) :=
  ⟨h, by rintro agenda ⟨⟩; exact hagenda⟩

/-- A delivery changes no bucket, and leaves its watcher to act on a part of the state. -/
theorem leadsTo_deliver (hs : s.Separated) (hx : s.Owns name x) (i : Nat) :
    s.LeadsTo name (s.deliver name i x) := by
  have hnothing : ∀ t : StateSpace, ∀ d ∈ ([] : List Delivery), t.Brings name d :=
    fun t d hd => by cases hd
  rcases s.deliver_cases name i x with ⟨r, heq, hmore⟩ | ⟨w, received, hw, hreceived⟩
  · rw [heq]
    refine ⟨hs.stays, fun agenda hagenda => ?_⟩
    rw [hmore agenda hagenda]
    exact hnothing s
  · have hgive : s.Stays name (s.give name i received) :=
      hs.stays_of_content content?_modifyWatcher (Nat.le_refl _)
    cases hcallback : w.callback with
    | followAliases =>
      -- The aliases are taken from what is received.
      rw [deliver_of_followAliases hw hreceived hcallback]
      split
      · rename_i table _
        exact Stays.leadsTo_ok (t := { s.give name i received with aliases := table })
          (hgive.of_content rfl (Nat.le_refl _)) (hnothing _)
      · exact hgive.leadsTo_error
    | report pending =>
      -- What is received is reported, and the pending actions come next.
      rw [deliver_of_pending hw hreceived hcallback]
      have hstays : s.Stays name (s.report name i w.label received) :=
        hs.stays_of_content (content?_modifyWatcher.trans content?_modifyWatcher) (Nat.le_refl _)
      refine hstays.leadsTo_ok fun d hd => ?_
      obtain rfl := List.mem_singleton.mp hd
      have hpart : s.Owns name received :=
        hx.of_subset fun m hm => Live.mem_marks_of_receive hreceived hm
      exact ⟨rfl, hpart.of_changesOnly hstays.toChangesOnly⟩

/-! ### Changes in place -/

theorem Owns.setItem {mark : Nat} (hx : s.Owns name x) (hnew : s.Owns name new) :
    s.Owns name (Live.setItem mark key new x) := by
  intro m hm
  rcases Live.mem_marks_setItem x hm with hm | hm
  · exact hx m hm
  · exact hnew m hm

theorem Brings.setItem {mark : Nat} (hd : s.Brings name d) (hnew : s.Owns name new) :
    s.Brings name (d.mapLive (Live.setItem mark key new)) := by
  cases d with
  | deliver => exact ⟨hd.1, hd.2.setItem hnew⟩
  | act => exact ⟨hd.1, hd.2.setItem hnew⟩

theorem bucket?_mapLive (s : StateSpace) (f : Live → Live) (name : String) :
    ({ s with buckets := s.buckets.map (·.mapLive f) } : StateSpace).bucket? name =
      (s.bucket? name).map (·.mapLive f) :=
  List.find?_map

theorem content?_mapLive (s : StateSpace) (f : Live → Live) (name : String) :
    ({ s with buckets := s.buckets.map (·.mapLive f) } : StateSpace).content? name =
      (s.content? name).map fun c => (c.1, f c.2) := by
  unfold content?
  rw [bucket?_mapLive, Option.map_map, Option.map_map]
  rfl

theorem watcher?_mapLive (s : StateSpace) (f : Live → Live) (name : String) (i : Nat) :
    ({ s with buckets := s.buckets.map (·.mapLive f) } : StateSpace).watcher? name i =
      (s.watcher? name i).map fun w => { w with last := w.last.map f } := by
  unfold watcher?
  rw [bucket?_mapLive]
  cases s.bucket? name with
  | none => rfl
  | some b => exact List.getElem?_map

/-- A change in place of a container of a bucket stays in the bucket, and in what is delivered. -/
theorem leadsTo_setItem (hs : s.Separated) (hx : s.Owns name x)
    (hagenda : ∀ d ∈ agenda, s.Brings name d) (key : Live) (v : Value) :
    s.LeadsTo name (s.setItem agenda x key v) := by
  unfold StateSpace.setItem
  split
  · exact hs.stays.leadsTo_error
  · rename_i mark hmark
    obtain ⟨hfresh, hnew⟩ := hs.fresh name false v
    generalize s.fresh false v = made at hfresh hnew ⊢
    obtain ⟨new, t⟩ := made
    dsimp only at hfresh hnew ⊢
    -- No other bucket holds the container that is changed.
    have hmine : ∀ other c, other ≠ name → t.content? other = some c → mark ∉ c.2.marks :=
      ((hx.of_changesOnly hfresh.toChangesOnly) mark (Live.mem_marks_of_settable? hmark)).2
    have hchange : t.ChangesOnly name
        { t with buckets := t.buckets.map (·.mapLive (Live.setItem mark key new)) } := by
      refine ⟨fun other hne => ?_, Nat.le_refl _⟩
      rw [content?_mapLive]
      cases hc : t.content? other with
      | none => rfl
      | some c =>
        rw [Option.map_some, Live.setItem_of_notMem_marks c.2 (hmine other c hne hc)]
    refine Stays.leadsTo_ok (hfresh.trans ⟨hchange, hfresh.separated.of_changesOnly hchange ?_⟩) ?_
    · -- The bucket itself may have got the new part, whose containers are fresh.
      intro c hc
      rw [content?_mapLive] at hc
      obtain ⟨old, hold, rfl⟩ := Option.map_eq_some_iff.mp hc
      exact ((hfresh.separated name old hold).setItem hnew).of_changesOnly hchange
    · -- What is still to be delivered is changed along with the bucket.
      intro d hd
      obtain ⟨d, hmem, rfl⟩ := List.mem_map.mp hd
      exact (((hagenda d hmem).of_changesOnly hfresh.toChangesOnly).setItem hnew).of_changesOnly
        hchange

/-! ### New states -/

/-- A state that is put into a bucket stays in it, and so does what is delivered. -/
theorem leadsTo_setState (hs : s.Separated) (hx : s.Owns name x) :
    s.LeadsTo name (.ok (s.setState name x).2, (s.setState name x).1) := by
  unfold setState
  split
  · exact hs.stays.leadsTo_ok fun d hd => by cases hd
  · rename_i b hb
    have hchange : s.ChangesOnly name (s.withState name x) :=
      ⟨fun other hne => by rw [content?_withState, if_neg hne], Nat.le_refl _⟩
    refine Stays.leadsTo_ok (t := s.withState name x)
      ⟨hchange, hs.of_changesOnly hchange fun c hc => ?_⟩ fun d hd => ?_
    · rw [content?_withState, if_pos rfl] at hc
      obtain ⟨old, -, rfl⟩ := Option.map_eq_some_iff.mp hc
      exact hx.of_changesOnly hchange
    · obtain ⟨i, -, rfl⟩ := List.mem_map.mp hd
      exact ⟨rfl, hx.of_changesOnly hchange⟩

theorem Separated.owns_state {b : Bucket} (hs : s.Separated) (hb : s.bucket? name = some b) :
    s.Owns name b.state :=
  hs name (b.initial, b.state) (by rw [content?, hb]; rfl)

/-- The state at first of a bucket, copied, belongs to the bucket. -/
theorem leadsTo_setInitial (hs : s.Separated) (name : String) :
    s.LeadsTo name (.ok (s.setInitial name).2, (s.setInitial name).1) := by
  unfold setInitial
  split
  · exact hs.stays.leadsTo_ok fun d hd => by cases hd
  · rename_i b hb
    have hcopy := Live.takenFrom_copy s.nextMark b.initial
    have hstays : s.Stays name { s with nextMark := (b.initial.copy s.nextMark).2 } :=
      hs.stays_of_content rfl hcopy.1
    obtain ⟨hset, hmore⟩ :=
      leadsTo_setState hstays.separated (hs.owns_of_takenFrom hcopy rfl rfl)
    exact ⟨hstays.trans hset, hmore⟩

/-- The entries of a bucket with others on top belong to the bucket. -/
theorem stays_merged (hs : s.Separated) (name : String) (v : Value) :
    s.Stays name (s.merged name v).2 ∧
      ∀ x, (s.merged name v).1 = .ok x → (s.merged name v).2.Owns name x := by
  unfold merged
  cases hb : s.bucket? name with
  | none => exact ⟨hs.stays, by rintro x ⟨⟩⟩
  | some b =>
    have hstate := hs.owns_state hb
    rw [Option.map_some, Option.getD_some]
    generalize b.state = state at hstate
    cases state with
    | map mark old =>
      obtain ⟨hfresh, hnew⟩ := hs.fresh name false v
      dsimp only
      generalize s.fresh false v = made at hfresh hnew ⊢
      obtain ⟨new, t⟩ := made
      cases new with
      | map other given =>
        -- The containers of the new state are those of the old one and fresh ones.
        refine ⟨hfresh, ?_⟩
        rintro x ⟨⟩ m hm
        rcases List.mem_cons.mp hm with rfl | hm
        · exact hnew _ List.mem_cons_self
        · rcases Live.mem_marks_overlay hm with hm | hm
          · exact hstate.of_changesOnly hfresh.toChangesOnly m (List.mem_cons_of_mem _ hm)
          · exact hnew m (List.mem_cons_of_mem _ hm)
      | _ => exact ⟨hfresh, by rintro x ⟨⟩⟩
    | _ => exact ⟨hs.stays, by rintro x ⟨⟩⟩

/-! ### What a change leads to -/

theorem stays_unsubscribe (hs : s.Separated) (name label : String) :
    s.Stays name (s.unsubscribe label).2 := by
  unfold unsubscribe
  split
  · exact hs.stays
  · exact hs.stays_of_content content?_modifyWatcher (Nat.le_refl _)

/-- Whatever a watcher does, it changes nothing but its bucket. -/
theorem leadsTo_act (hs : s.Separated) (hx : s.Owns name x)
    (hagenda : ∀ d ∈ agenda, s.Brings name d) (i : Nat) (a : WatcherAction) :
    s.LeadsTo name (s.act agenda name i x a) := by
  -- What was on the agenda stays there, and brings what it brought before.
  cases a with
  | later a =>
    have hstays : s.Stays name (s.putOff name i a) :=
      hs.stays_of_content content?_modifyWatcher (Nat.le_refl _)
    exact hstays.leadsTo_ok fun d hd => (hagenda d hd).of_changesOnly hstays.toChangesOnly
  | update v =>
    obtain ⟨hmerged, howns⟩ := stays_merged hs name v
    unfold act
    dsimp only
    generalize s.merged name v = ending at hmerged howns ⊢
    obtain ⟨e | state, t⟩ := ending
    · exact hmerged.leadsTo_error
    · obtain ⟨hset, hmore⟩ := leadsTo_setState hmerged.separated (howns state rfl)
      refine (hmerged.trans hset).leadsTo_ok fun d hd => ?_
      rcases List.mem_append.mp hd with hd | hd
      · exact hmore _ rfl d hd
      · exact (hagenda d hd).of_changesOnly (hmerged.trans hset).toChangesOnly
  | reset =>
    obtain ⟨hset, hmore⟩ := leadsTo_setInitial hs name
    refine hset.leadsTo_ok fun d hd => ?_
    rcases List.mem_append.mp hd with hd | hd
    · exact hmore _ rfl d hd
    · exact (hagenda d hd).of_changesOnly hset.toChangesOnly
  | unsubscribe label =>
    have hstays := stays_unsubscribe hs name label
    unfold act
    dsimp only
    generalize s.unsubscribe label = ending at hstays ⊢
    obtain ⟨e | ⟨⟩, t⟩ := ending
    · exact hstays.leadsTo_error
    · exact hstays.leadsTo_ok fun d hd => (hagenda d hd).of_changesOnly hstays.toChangesOnly
  | fail message => exact hs.stays.leadsTo_error
  | setItem key v =>
    obtain ⟨hfresh, -⟩ := hs.fresh name false key
    have hitem := leadsTo_setItem hfresh.separated (hx.of_changesOnly hfresh.toChangesOnly)
      (fun d hd => (hagenda d hd).of_changesOnly hfresh.toChangesOnly) (s.fresh false key).1 v
    exact ⟨hfresh.trans hitem.1, hitem.2⟩

/-- All that is delivered for a bucket, and all that watchers do about it, stays in the bucket. -/
theorem stays_settleWithin (fuel : Nat) (hs : s.Separated)
    (hagenda : ∀ d ∈ agenda, s.Brings name d) : s.Stays name (settleWithin fuel s agenda).2 := by
  -- The agenda holds nothing but what belongs to the bucket, and every step keeps that.
  induction fuel generalizing s agenda with
  | zero => cases agenda <;> exact hs.stays
  | succ fuel ih =>
    match agenda with
    | [] => exact hs.stays
    | .deliver bucket i x :: rest =>
      obtain ⟨rfl, hx⟩ := hagenda _ List.mem_cons_self
      have hdeliver := leadsTo_deliver hs hx i
      rw [settleWithin]
      generalize s.deliver bucket i x = ending at hdeliver ⊢
      obtain ⟨e | more, t⟩ := ending
      · exact hdeliver.1
      · refine hdeliver.1.trans (ih hdeliver.1.separated fun d hd => ?_)
        rcases List.mem_append.mp hd with hd | hd
        · exact hdeliver.2 more rfl d hd
        · exact (hagenda d (List.mem_cons_of_mem _ hd)).of_changesOnly hdeliver.1.toChangesOnly
    | .act bucket i x [] :: rest =>
      exact ih hs fun d hd => hagenda d (List.mem_cons_of_mem _ hd)
    | .act bucket i x (a :: actions) :: rest =>
      obtain ⟨rfl, hx⟩ := hagenda _ List.mem_cons_self
      have hrest : ∀ d ∈ .act bucket i x actions :: rest, s.Brings bucket d := by
        intro d hd
        rcases List.mem_cons.mp hd with rfl | hd
        · exact ⟨rfl, hx⟩
        · exact hagenda d (List.mem_cons_of_mem _ hd)
      have hact := leadsTo_act hs hx hrest i a
      rw [settleWithin]
      generalize s.act (.act bucket i x actions :: rest) bucket i x a = ending at hact ⊢
      obtain ⟨e | agenda, t⟩ := ending
      · exact hact.1
      · exact hact.1.trans (ih hact.1.separated (hact.2 agenda rfl))

/-- A state that is put into a bucket and delivered changes nothing but the bucket. -/
theorem stays_settle_setState (hs : s.Separated) (hx : s.Owns name x) :
    s.Stays name ((s.setState name x).1.settle (s.setState name x).2).2 := by
  obtain ⟨hset, hmore⟩ := leadsTo_setState hs hx
  exact hset.trans (stays_settleWithin _ hset.separated (hmore _ rfl))

/-! ### Operations on buckets -/

/-- An update of a bucket stays in it. -/
theorem stays_update (hs : s.Separated) (name : String) (v : Value) :
    s.Stays name (s.update name v).2 := by
  obtain ⟨hmerged, howns⟩ := stays_merged hs name v
  unfold update
  generalize s.merged name v = ending at hmerged howns ⊢
  obtain ⟨e | state, t⟩ := ending
  · exact hmerged
  · exact hmerged.trans (stays_settle_setState hmerged.separated (howns state rfl))

/-- A reset of a bucket stays in it. -/
theorem stays_reset (hs : s.Separated) (name : String) : s.Stays name (s.reset name).2 := by
  obtain ⟨hset, hmore⟩ := leadsTo_setInitial hs name
  exact hset.trans (stays_settleWithin _ hset.separated (hmore _ rfl))

theorem stays_load (hs : s.Separated) (name : String) : s.Stays name (s.load name).2 := by
  unfold load
  split
  · exact hs.stays
  · split
    · exact hs.stays_of_content rfl (Nat.le_refl _)
    · exact hs.stays
    · rename_i v _ _
      obtain ⟨hfresh, hnew⟩ := hs.fresh name true v
      exact hfresh.trans (stays_settle_setState hfresh.separated hnew)

theorem stays_persist (hs : s.Separated) (name : String) : s.Stays name (s.persist name).2 := by
  unfold persist onStore
  split
  · exact hs.stays
  · split <;> exact hs.stays_of_content rfl (Nat.le_refl _)

/-- A bucket that is opened holds what no other one does. -/
theorem stays_openBucket (hs : s.Separated) (name : String) (initial : Value) :
    s.Stays name (s.openBucket name initial) := by
  cases hb : s.bucket? name with
  | some b =>
    rw [openBucket_of_some hb]
    exact hs.stays
  | none =>
    have hfirst : s.nextMark ≤ s.firstMark initial := (Live.takenFrom_ofValue _ _).1
    have hcopy := Live.takenFrom_copy (s.firstMark initial) (s.firstState initial)
    have hnext : (s.openBucket name initial).nextMark =
        ((s.firstState initial).copy (s.firstMark initial)).2 := by
      rw [openBucket_of_none hb]
    have hchange : s.ChangesOnly name (s.openBucket name initial) := by
      refine ⟨fun other hne => content?_openBucket_of_ne hne, ?_⟩
      rw [hnext]
      exact Nat.le_trans hfirst hcopy.1
    refine ⟨hchange, hs.of_changesOnly hchange fun c hc m hm => ?_⟩
    -- The state is a copy, whose containers are all fresh.
    have hstate : c.2 = ((s.firstState initial).copy (s.firstMark initial)).1 := by
      rw [openBucket_of_none hb, content?, bucket?_append hb rfl, if_pos rfl] at hc
      exact (congrArg Prod.snd (Option.some.inj hc)).symm
    have hbounds := hcopy.2 m (hstate ▸ hm)
    refine ⟨by omega, fun other d hne hd hmem => ?_⟩
    rw [hchange.content other hne] at hd
    have hgiven := (hs other d hd m hmem).1
    omega

theorem stays_watch (hs : s.Separated) (name : String) (w : Watcher) :
    s.Stays name (s.watch name w).2 := by
  cases hb : s.bucket? name with
  | none =>
    rw [watch_of_none hb]
    exact hs.stays
  | some b =>
    have hwith : s.Stays name (s.withWatcher name w) :=
      hs.stays_of_content content?_withWatcher (Nat.le_refl _)
    have hsettle : s.Stays name ((s.withWatcher name w).settle
        [.deliver name b.watchers.length b.state]).2 := by
      refine hwith.trans (stays_settleWithin _ hwith.separated fun d hd => ?_)
      obtain rfl := List.mem_singleton.mp hd
      exact ⟨rfl, (hs.owns_state hb).of_changesOnly hwith.toChangesOnly⟩
    rw [watch_eq_settle hb]
    exact hsettle

theorem stays_subscribe (hs : s.Separated) (name : String) (w : Watcher) :
    s.Stays name (s.subscribe name w).2 := by
  have hwatch := stays_watch hs name w
  obtain ⟨handles, heq⟩ := exists_subscribe_eq s name w
  rw [heq]
  exact hwatch.of_content rfl (Nat.le_refl _)

theorem stays_followAliases (hs : s.Separated) (name : String) :
    s.Stays name (s.followAliases name).2 := by
  have hreleased : s.Stays name s.released :=
    hs.stays_of_content content?_released (by unfold released; split <;> exact Nat.le_refl _)
  have hwatch := hreleased.trans (stays_watch hreleased.separated name .follower)
  obtain ⟨watcher, heq⟩ := exists_followAliases_eq s name
  rw [heq]
  exact hwatch.of_content rfl (Nat.le_refl _)

theorem stays_freshKeys (hs : s.Separated) (name : String) (path : List Value) :
    s.Stays name (s.freshKeys path).2 := by
  induction path generalizing s with
  | nil => exact hs.stays
  | cons v path ih =>
    have hfresh := (hs.fresh name false v).1
    exact hfresh.trans (ih hfresh.separated)

/-- A part of a bucket that is set in place is not part of another one. -/
theorem stays_edit (hs : s.Separated) (name : String) (path : List Value) (v : Value) :
    s.Stays name (s.edit name path v).2 := by
  have hkeys := stays_freshKeys hs name path
  unfold edit
  generalize s.freshKeys path = made at hkeys ⊢
  obtain ⟨keys, t⟩ := made
  dsimp only
  split
  · rename_i b key hb _
    split
    · exact hkeys
    · rename_i x hx
      have hpart : t.Owns name x := (hkeys.separated.owns_state hb).of_subset fun m hm =>
        Live.mem_marks_of_itemAt? hx hm
      have hnone : ∀ d ∈ ([] : List Delivery), t.Brings name d := fun d hd => by cases hd
      have hset := leadsTo_setItem hkeys.separated hpart hnone key v
      generalize t.setItem [] x key v = ending at hset ⊢
      obtain ⟨e | agenda, u⟩ := ending
      · exact hkeys.trans hset.1
      · exact hkeys.trans hset.1
  · exact hkeys

/-- Every operation changes one bucket at most. -/
theorem exists_stays_apply (hs : s.Separated) (op : SpaceOperation) :
    ∃ name, s.Stays name (op.apply s).2 := by
  cases op with
  | act op =>
    cases op with
    | opening name initial => exact ⟨name, stays_openBucket hs name initial⟩
    | update name entries => exact ⟨name, stays_update hs name entries⟩
    | reset name => exact ⟨name, stays_reset hs name⟩
    | persist name => exact ⟨name, stays_persist hs name⟩
  | load name => exact ⟨name, stays_load hs name⟩
  | follow name => exact ⟨name, stays_followAliases hs name⟩
  | observe name label selector => exact ⟨name, stays_subscribe hs name _⟩

/-! ### Spaces that come about -/

/-- Whatever is done to buckets, they hold nothing in common. -/
theorem separated_of_arises (h : s.Arises) : s.Separated := by
  induction h with
  | empty hnone =>
    intro name c hc
    rw [content?, bucket?, hnone] at hc
    cases hc
  | operates op _ ih =>
    obtain ⟨name, hstays⟩ := exists_stays_apply ih op
    exact hstays.separated
  | subscribes name w _ ih => exact (stays_subscribe ih name w).separated
  | unsubscribes label _ ih => exact (stays_unsubscribe ih label label).separated
  | edits name path v _ ih => exact (stays_edit ih name path v).separated

theorem Arises.after (h : s.Arises) (ops : List SpaceOperation) : (s.after ops).Arises := by
  induction ops generalizing s with
  | nil => exact h
  | cons op ops ih => exact ih (h.operates op)

end StateSpace

end CommandShell
