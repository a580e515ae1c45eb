import CommandShell.Proofs.State.Works
import CommandShell.Shell.Aliasing
import Mathlib.Data.List.Induction

/-!
# The table of aliases mirrors its bucket

Commands are expanded with a table that is taken from a bucket: a watcher receives the aliases in
the bucket whenever they change, and the table is made of what it receives.  Aliases that are equal
to those received last are not received again, so the table is made of aliases that are equal to
those in the bucket, and not always of these themselves.  Equal texts are the same, but the number
one is equal to the truth value.

The invariant ties three things together: the table, what the watcher has received last, and what is
in the bucket.  The table is made of what was received last, and what was received last is equal to
what is in the bucket.  While a state is delivered, some watchers have received it and others have
not: there is always one that has, or that is still to receive it.

## Main definitions

* `StateSpace.Feeds`: the table is made of what a watcher has received last.
* `StateSpace.FeedsFrom`: and this is equal to a part of the state.
* `StateSpace.Mirrors`: the invariant.

## Main results

* `StateSpace.feeds_deliverTo`: a delivery reaches a watcher that the table is made of.
* `StateSpace.mirrors_after`: the invariant holds once the aliases are followed.
* `Run.aliases_mirror_bucket`: what this says of a shell.
-/

namespace CommandShell

open Live (keyed keyed_injective)

/-! ### Watchers of aliases -/

/-- The aliases in a map, or the absent value if there are none. -/
def aliasPart (l : Entries Live) : Live :=
  (l.get? aliasKey).getD (.plain .null)

/-- A selector finds something in every map. -/
def Selector.Total (s : Selector) : Prop :=
  ∀ mark l, ∃ x, s.select (.map mark (keyed l)) = .ok x

namespace Watcher

/-- A watcher takes the aliases from its bucket. -/
structure TakesAliases (w : Watcher) : Prop where
  selector : w.selector = some (.key (.ofText aliasKey))
  callback : w.callback = .followAliases

/-- A watcher reports what it receives, and fails on no map. -/
structure OnlyReports (w : Watcher) : Prop where
  callback : w.callback = .report []
  selector : ∀ s, w.selector = some s → s.Total

variable {w v : Watcher} {mark : Nat} {l : Entries Live} {x : Live}

theorem TakesAliases.of_forget (hw : w.TakesAliases) (h : v.forget = w.forget) : v.TakesAliases :=
  ⟨(congrArg Watcher.selector h :).trans hw.selector,
    (congrArg Watcher.callback h :).trans hw.callback⟩

theorem OnlyReports.of_forget (hw : w.OnlyReports) (h : v.forget = w.forget) : v.OnlyReports :=
  ⟨(congrArg Watcher.callback h :).trans hw.callback,
    fun s hs => hw.selector s ((congrArg Watcher.selector h :).symm.trans hs)⟩

theorem TakesAliases.not_onlyReports (hw : w.TakesAliases) : ¬ w.OnlyReports := by
  intro h
  have := hw.callback.symm.trans h.callback
  cases this

/-- A watcher of the aliases receives them from a map, unless they are equal to what it received
last. -/
theorem TakesAliases.receive_map (hw : w.TakesAliases) (mark : Nat) (l : Entries Live) :
    w.receive (.map mark (keyed l)) =
      .ok (if w.last.any (·.same (aliasPart l)) then none else some (aliasPart l)) := by
  unfold receive aliasPart
  rw [hw.selector, ← Live.valueOf?_keyed]
  rfl

/-- A watcher of the aliases fails on whatever is no map. -/
theorem TakesAliases.receive_fails (hw : w.TakesAliases)
    (hx : ∀ mark entries, x ≠ .map mark entries) :
    ∃ e, w.receive x = .error e := by
  unfold receive
  rw [hw.selector]
  cases x with
  | map mark entries => exact absurd rfl (hx mark entries)
  | _ => exact ⟨_, rfl⟩

theorem OnlyReports.receive_map (hw : w.OnlyReports) (mark : Nat) (l : Entries Live) :
    ∃ received, w.receive (.map mark (keyed l)) = .ok received := by
  unfold receive
  cases hs : w.selector with
  | none => exact ⟨_, rfl⟩
  | some s =>
    obtain ⟨part, hpart⟩ := hw.selector s hs mark l
    dsimp only
    rw [hpart]
    exact ⟨_, rfl⟩

end Watcher

namespace StateSpace

variable {s t u : StateSpace} {name other : String} {i j : Nat} {w : Watcher} {is : List Nat}
  {mark : Nat} {l : Entries Live} {state x part : Live}

/-! ### The table and what it is made of -/

/-- The watchers only report, or take the aliases from the bucket with a name. -/
def Tended (s : StateSpace) (name : String) : Prop :=
  ∀ other i w, s.watcher? other i = some w → w.OnlyReports ∨ w.TakesAliases ∧ other = name

/-- The table of aliases is made of a value, if a table can be made of it. -/
structure MadeOf (s : StateSpace) (x : Live) : Prop where
  proper : x.Proper
  table : ∀ table, AliasTable.ofValue x.value = .ok table → s.aliases = table

/-- A watcher takes the aliases from a bucket, and the table is made of what it received last. -/
def Feeds (s : StateSpace) (name : String) (i : Nat) : Prop :=
  ∃ w, s.watcher? name i = some w ∧ w.subscribed = true ∧ w.TakesAliases ∧
    ∀ x, w.last = some x → s.MadeOf x

/-- A watcher takes the aliases from a bucket, the table is made of what it has received last, and
this is a certain value or equal to it. -/
def FeedsFrom (s : StateSpace) (name : String) (i : Nat) (part : Live) : Prop :=
  ∃ w x, s.watcher? name i = some w ∧ w.subscribed = true ∧ w.TakesAliases ∧ w.last = some x ∧
    s.MadeOf x ∧ (x = part ∨ x.same part = true)

/-- The table is made of what a watcher has received last, and as long as the bucket holds a map, of
aliases that are equal to those in it. -/
def Mirrors (s : StateSpace) (name : String) : Prop :=
  (∃ i, s.Feeds name i) ∧
    ∀ initial mark l, s.content? name = some (initial, .map mark (keyed l)) →
      ∃ i, s.FeedsFrom name i (aliasPart l)

theorem FeedsFrom.feeds (h : s.FeedsFrom name i part) : s.Feeds name i := by
  obtain ⟨w, x, hw, hsubscribed, htakes, hlast, hmade, -⟩ := h
  refine ⟨w, hw, hsubscribed, htakes, fun y hy => ?_⟩
  obtain rfl := Option.some.inj (hlast.symm.trans hy)
  exact hmade

/-- The watchers of the aliases are as they were, and so is the table. -/
structure SameAliases (name : String) (s t : StateSpace) : Prop where
  aliases : t.aliases = s.aliases
  watchers : ∀ i w, s.watcher? name i = some w → w.TakesAliases → t.watcher? name i = some w

theorem SameAliases.refl (name : String) (s : StateSpace) : SameAliases name s s :=
  ⟨rfl, fun _ _ hw _ => hw⟩

theorem SameAliases.trans (h : SameAliases name s t) (h' : SameAliases name t u) :
    SameAliases name s u :=
  ⟨h'.aliases.trans h.aliases,
    fun i w hw htakes => h'.watchers i w (h.watchers i w hw htakes) htakes⟩

theorem MadeOf.of_aliases (h : s.MadeOf x) (ht : t.aliases = s.aliases) : t.MadeOf x :=
  ⟨h.proper, fun table htable => ht.trans (h.table table htable)⟩

theorem Feeds.of_same (h : s.Feeds name i) (ht : SameAliases name s t) : t.Feeds name i := by
  obtain ⟨w, hw, hsubscribed, htakes, hmade⟩ := h
  exact ⟨w, ht.watchers i w hw htakes, hsubscribed, htakes,
    fun x hx => (hmade x hx).of_aliases ht.aliases⟩

theorem FeedsFrom.of_same (h : s.FeedsFrom name i part) (ht : SameAliases name s t) :
    t.FeedsFrom name i part := by
  obtain ⟨w, x, hw, hsubscribed, htakes, hlast, hmade, heq⟩ := h
  exact ⟨w, x, ht.watchers i w hw htakes, hsubscribed, htakes, hlast, hmade.of_aliases ht.aliases,
    heq⟩

theorem Mirrors.of_same (h : s.Mirrors name) (ht : SameAliases name s t)
    (hcontent : t.content? name = s.content? name) : t.Mirrors name := by
  obtain ⟨⟨i, hi⟩, hmap⟩ := h
  refine ⟨⟨i, hi.of_same ht⟩, fun initial mark l hl => ?_⟩
  obtain ⟨j, hj⟩ := hmap initial mark l (hcontent ▸ hl)
  exact ⟨j, hj.of_same ht⟩

/-! ### Deliveries that no watcher of the aliases receives -/

/-- A watcher of a bucket receives no aliases from a state: it only reports, or it fails. -/
def Passes (s : StateSpace) (other : String) (state : Live) (j : Nat) : Prop :=
  ∀ w, s.watcher? other j = some w →
    w.OnlyReports ∨ w.TakesAliases ∧ ∀ mark entries, state ≠ .map mark entries

theorem sameAliases_deliver (h : s.Passes other state j) :
    SameAliases name s (s.deliver other j state).2 := by
  rcases s.deliver_cases other j state with ⟨r, heq, -⟩ | ⟨w, x, hw, hx⟩
  · rw [heq]
    exact .refl name s
  · rcases h w hw with hreports | ⟨htakes, hstate⟩
    · obtain ⟨t, ht, -, haliases, -, -, hwatchers⟩ := deliver_of_report hw hx hreports.callback
      rw [ht]
      refine ⟨haliases, fun i v hv htakes => ?_⟩
      rw [hwatchers, watcher?_give, if_neg]
      · exact hv
      · rintro ⟨rfl, rfl⟩
        obtain rfl := Option.some.inj (hw.symm.trans hv)
        exact htakes.not_onlyReports hreports
    · -- A watcher of the aliases receives nothing but maps.
      obtain ⟨e, hfails⟩ := htakes.receive_fails hstate
      cases hx.symm.trans hfails

theorem Passes.told (h : s.Passes other state j) (ht : s.Told t) : t.Passes other state j := by
  intro w hw
  obtain ⟨v, hv, heq⟩ := ht.exists_watcher hw
  exact (h v hv).imp (·.of_forget heq) (And.imp_left (·.of_forget heq))

theorem sameAliases_deliverTo (hs : s.Quiet) (h : ∀ j ∈ is, s.Passes other state j) :
    SameAliases name s (deliverTo other state is s).2 := by
  induction is generalizing s with
  | nil => exact .refl name s
  | cons j is ih =>
    have hstep : SameAliases name s (s.deliver other j state).2 :=
      sameAliases_deliver (h j List.mem_cons_self)
    have htold := told_deliver hs other j state
    unfold deliverTo
    generalize s.deliver other j state = ending at hstep htold ⊢
    rcases ending with ⟨e | more, t⟩
    · exact hstep
    · exact hstep.trans (ih (htold.quiet hs)
        fun i hi => (h i (List.mem_cons_of_mem _ hi)).told htold)

/-! ### Deliveries of aliases -/

theorem Tended.of_watchers (h : s.Tended name)
    (ht : ∀ other i, (t.watcher? other i).map Watcher.forget =
      (s.watcher? other i).map Watcher.forget) : t.Tended name := by
  intro other i w hw
  have hmap := ht other i
  rw [hw, Option.map_some] at hmap
  obtain ⟨v, hv, heq⟩ := Option.map_eq_some_iff.mp hmap.symm
  exact (h other i v hv).imp (·.of_forget heq.symm) (And.imp_left (·.of_forget heq.symm))

theorem Tended.quiet (h : s.Tended name) : s.Quiet :=
  fun other i w hw => (h other i w hw).elim (fun h => Or.inr h.callback)
    fun h => Or.inl h.1.callback

theorem Tended.passes (h : s.Tended name)
    (hstate : other = name → ∀ mark entries, state ≠ .map mark entries) (j : Nat) :
    s.Passes other state j :=
  fun w hw => (h other j w hw).imp_right fun ⟨htakes, hother⟩ => ⟨htakes, hstate hother⟩

theorem proper_aliasPart (h : ∀ e ∈ l, e.2.Proper) : (aliasPart l).Proper := by
  unfold aliasPart
  cases hx : l.get? aliasKey with
  | none => exact .plain rfl
  | some x => exact h _ (Entries.mem_of_get? hx)

/-- A watcher that is to receive the aliases from a map has received them before, or receives them,
and then the table is made of them. -/
theorem feedsFrom_deliver (mark : Nat) (hl : ∀ e ∈ l, e.2.Proper)
    (hw : s.watcher? name j = some w) (hsubscribed : w.subscribed = true)
    (htakes : w.TakesAliases) :
    (∃ x, w.last = some x ∧ x.same (aliasPart l) = true) ∧
        s.deliver name j (.map mark (keyed l)) = (.ok [], s) ∨
      (s.deliver name j (.map mark (keyed l))).2.FeedsFrom name j (aliasPart l) := by
  have hreceive := htakes.receive_map mark l
  cases hlast : w.last.any (·.same (aliasPart l)) with
  | true =>
    rw [hlast, if_pos rfl] at hreceive
    refine Or.inl ⟨?_, deliver_of_repeated hw hreceive⟩
    simpa [Option.any_eq_true] using hlast
  | false =>
    rw [hlast] at hreceive
    have hgiven : (s.give name j (aliasPart l)).watcher? name j =
        some { w with last := some (aliasPart l) } := by
      rw [watcher?_give, if_pos ⟨rfl, rfl⟩, hw, Option.map_some]
    have htakes' : ({ w with last := some (aliasPart l) } : Watcher).TakesAliases :=
      htakes.of_forget rfl
    rw [deliver_of_followAliases hw hreceive htakes.callback]
    right
    cases htable : AliasTable.ofValue (aliasPart l).value with
    | ok table =>
      refine ⟨_, aliasPart l, hgiven, hsubscribed, htakes', rfl, ⟨proper_aliasPart hl, ?_⟩,
        Or.inl rfl⟩
      intro table' htable'
      rw [htable] at htable'
      exact Except.ok.inj htable'
    | error e =>
      -- There is no table that could be made of the aliases.
      refine ⟨_, aliasPart l, hgiven, hsubscribed, htakes', rfl, ⟨proper_aliasPart hl, ?_⟩,
        Or.inl rfl⟩
      intro table' htable'
      rw [htable] at htable'
      cases htable'

/-- A watcher that only reports is delivered any map without a fault. -/
theorem exists_deliver_of_onlyReports (mark : Nat) (l : Entries Live)
    (hw : s.watcher? name j = some w) (hreports : w.OnlyReports) :
    ∃ more, (s.deliver name j (.map mark (keyed l))).1 = .ok more := by
  obtain ⟨received, hreceived⟩ := hreports.receive_map mark l
  cases received with
  | none => exact ⟨_, congrArg Prod.fst (deliver_of_repeated hw hreceived)⟩
  | some x =>
    obtain ⟨t, ht, -⟩ := deliver_of_report hw hreceived hreports.callback
    exact ⟨_, congrArg Prod.fst ht⟩

/-- A map is delivered to the watcher `j` of a bucket.  If the table was made of the map, it still
is; if it is made of one of the watchers `j` and `is`, it is made of the map now, or the delivery
goes on to the watcher of which it is made. -/
theorem feeds_deliver (mark : Nat) (hs : s.Tended name) (hl : ∀ e ∈ l, e.2.Proper)
    (hj : ∀ w, s.watcher? name j = some w → w.subscribed = true)
    (h : (∃ i, s.FeedsFrom name i (aliasPart l)) ∨ ∃ i ∈ j :: is, s.Feeds name i) :
    (∃ i, (s.deliver name j (.map mark (keyed l))).2.FeedsFrom name i (aliasPart l)) ∨
      (∃ more, (s.deliver name j (.map mark (keyed l))).1 = .ok more) ∧
        ∃ i ∈ is, (s.deliver name j (.map mark (keyed l))).2.Feeds name i := by
  cases hw : s.watcher? name j with
  | none =>
    rw [deliver_of_none hw]
    refine h.imp_right ?_
    rintro ⟨i, hi, hfeeds⟩
    rcases List.mem_cons.mp hi with rfl | hi
    · obtain ⟨w, hw', -⟩ := hfeeds
      rw [hw] at hw'
      cases hw'
    · exact ⟨⟨_, rfl⟩, i, hi, hfeeds⟩
  | some w =>
    rcases hs name j w hw with hreports | ⟨htakes, -⟩
    · -- A watcher that only reports leaves the table alone.
      have hsame : SameAliases name s (s.deliver name j (.map mark (keyed l))).2 := by
        refine sameAliases_deliver fun w' hw' => Or.inl ?_
        obtain rfl := Option.some.inj (hw.symm.trans hw')
        exact hreports
      refine h.imp (fun hfeeds => hfeeds.imp fun _ hi => hi.of_same hsame) ?_
      rintro ⟨i, hi, hfeeds⟩
      rcases List.mem_cons.mp hi with rfl | hi
      · obtain ⟨v, hv, -, htakes, -⟩ := hfeeds
        obtain rfl := Option.some.inj (hw.symm.trans hv)
        exact absurd hreports htakes.not_onlyReports
      · exact ⟨exists_deliver_of_onlyReports mark l hw hreports, i, hi, hfeeds.of_same hsame⟩
    · have hsubscribed := hj w hw
      rcases feedsFrom_deliver mark hl hw hsubscribed htakes with
        ⟨⟨x, hlast, hsame⟩, hdeliver⟩ | hfeeds
      · -- It has seen these aliases already.
        rw [hdeliver]
        rcases h with h | ⟨i, hi, hfeeds⟩
        · exact Or.inl h
        · rcases List.mem_cons.mp hi with rfl | hi
          · obtain ⟨v, hv, -, -, hmade⟩ := hfeeds
            obtain rfl := Option.some.inj (hw.symm.trans hv)
            exact Or.inl ⟨i, w, x, hw, hsubscribed, htakes, hlast, hmade x hlast, Or.inr hsame⟩
          · exact Or.inr ⟨⟨_, rfl⟩, i, hi, hfeeds⟩
      · exact Or.inl ⟨j, hfeeds⟩

/-- When a map is delivered to the watchers of a bucket, one of which the table is made of, then it
is made of the aliases in this map. -/
theorem feeds_deliverTo (mark : Nat) (hs : s.Tended name) (hl : ∀ e ∈ l, e.2.Proper)
    (his : ∀ j ∈ is, ∀ w, s.watcher? name j = some w → w.subscribed = true)
    (h : (∃ i, s.FeedsFrom name i (aliasPart l)) ∨ ∃ i ∈ is, s.Feeds name i) :
    ∃ i, (deliverTo name (.map mark (keyed l)) is s).2.FeedsFrom name i (aliasPart l) := by
  induction is generalizing s with
  | nil =>
    refine h.elim id ?_
    rintro ⟨i, hi, -⟩
    cases hi
  | cons j is ih =>
    have hstep := feeds_deliver mark hs hl (his j List.mem_cons_self) h
    have htold := told_deliver hs.quiet name j (.map mark (keyed l))
    unfold deliverTo
    generalize s.deliver name j (.map mark (keyed l)) = ending at htold hstep ⊢
    rcases ending with ⟨e | more, t⟩
    · refine hstep.resolve_right ?_
      rintro ⟨⟨more, hmore⟩, -⟩
      cases hmore
    · refine ih (hs.of_watchers htold.watchers) (fun i hi w hw => ?_) (hstep.imp_right And.right)
      obtain ⟨v, hv, heq⟩ := htold.exists_watcher hw
      exact (congrArg Watcher.subscribed heq :).trans (his i (List.mem_cons_of_mem _ hi) v hv)

/-! ### Operations -/

theorem Mirrors.content (h : s.Mirrors name) : ∃ c, s.content? name = some c := by
  obtain ⟨⟨i, w, hw, -⟩, -⟩ := h
  obtain ⟨b, hb, -⟩ := Option.bind_eq_some_iff.mp hw
  exact ⟨_, by rw [content?, hb]; rfl⟩

theorem sameAliases_openBucket {initial : Value} :
    SameAliases name s (s.openBucket other initial) := by
  refine ⟨?_, fun i w hw _ => by rwa [watcher?_openBucket]⟩
  cases h : s.bucket? other with
  | some b => rw [openBucket_of_some h]
  | none =>
    obtain ⟨next, mark, heq⟩ := exists_openBucket_eq h initial
    rw [heq]

theorem Mirrors.openBucket {initial : Value} (h : s.Mirrors name) :
    (s.openBucket other initial).Mirrors name := by
  obtain ⟨c, hc⟩ := h.content
  refine h.of_same sameAliases_openBucket ?_
  by_cases hother : name = other
  · subst hother
    rw [content?_openBucket_of_some hc, hc]
  · exact content?_openBucket_of_ne hother

theorem sameAliases_withWatcher : SameAliases name s (s.withWatcher other w) :=
  ⟨rfl, fun _ _ hv _ => watcher?_withWatcher_of_some hv⟩

theorem sameAliases_withState {x : Live} : SameAliases name s (s.withState other x) :=
  ⟨rfl, fun i w hw _ => by rwa [watcher?_withState]⟩

theorem Tended.withState {x : Live} (hs : s.Tended name) : (s.withState other x).Tended name :=
  hs.of_watchers fun _ _ => by rw [watcher?_withState]

/-- Aliases that are put into their bucket are mirrored. -/
theorem Mirrors.put_keyed (hs : s.Tended name) (hx : (Live.map mark (keyed l)).Proper)
    (h : s.Mirrors name) : (s.put name (.map mark (keyed l))).2.Mirrors name := by
  have hcontent := (puts_put hs.quiet name (.map mark (keyed l))).content name
  obtain ⟨⟨i, w, hw, hsubscribed, hmade⟩, -⟩ := id h
  obtain ⟨b, hb, hwatcher⟩ := Option.bind_eq_some_iff.mp hw
  rw [put_of_some hb] at hcontent ⊢
  -- The aliases go to all that have subscribed, and one of these feeds the table.
  have his : ∀ j ∈ b.subscribers, ∀ w,
      (s.withState name (.map mark (keyed l))).watcher? name j = some w → w.subscribed = true := by
    intro j hj w hw
    obtain ⟨v, hv, hsubscribed⟩ := mem_subscribers_iff.mp hj
    rw [watcher?_withState, watcher?, hb] at hw
    obtain rfl := Option.some.inj (hv.symm.trans hw)
    exact hsubscribed
  have hfeeds : ∃ i ∈ b.subscribers, (s.withState name (.map mark (keyed l))).Feeds name i :=
    ⟨i, mem_subscribers_iff.mpr ⟨w, hwatcher, hsubscribed⟩,
      Feeds.of_same ⟨w, hw, hsubscribed, hmade⟩ sameAliases_withState⟩
  obtain ⟨k, hk⟩ := feeds_deliverTo mark hs.withState hx.of_keyed.2 his (Or.inr hfeeds)
  refine ⟨⟨k, hk.feeds⟩, fun initial mark' l' hl' => ⟨k, ?_⟩⟩
  rw [hcontent, if_pos rfl] at hl'
  obtain ⟨c, -, hc⟩ := Option.map_eq_some_iff.mp hl'
  obtain rfl := keyed_injective (Live.map.inj (Prod.mk.inj hc).2).2
  exact hk

/-- A state that is put into a bucket is mirrored. -/
theorem Mirrors.put (hs : s.Tended name) (hx : x.Proper) (h : s.Mirrors name) :
    (s.put other x).2.Mirrors name := by
  by_cases hmap : ∃ mark l, other = name ∧ x = .map mark (keyed l)
  · obtain ⟨mark, l, rfl, rfl⟩ := hmap
    exact h.put_keyed hs hx
  · have hcontent := (puts_put hs.quiet other x).content name
    cases hb : s.bucket? other with
    | none =>
      rw [put_of_none hb]
      exact h
    | some b =>
      rw [put_of_some hb] at hcontent ⊢
      -- No watcher of the aliases receives any.
      have hsame :
          SameAliases name s (deliverTo other x b.subscribers (s.withState other x)).2 := by
        have htended : (s.withState other x).Tended name := hs.withState
        refine sameAliases_withState.trans
          (sameAliases_deliverTo htended.quiet fun j _ => htended.passes ?_ j)
        rintro hother mark entries rfl
        obtain ⟨l, rfl, -⟩ := hx.exists_keyed
        exact hmap ⟨mark, l, hother, rfl⟩
      refine ⟨h.1.imp fun i hi => hi.of_same hsame, fun initial mark l hl => ?_⟩
      rw [hcontent] at hl
      split at hl
      · rename_i hname
        obtain ⟨c, -, hc⟩ := Option.map_eq_some_iff.mp hl
        exact absurd ⟨mark, l, hname.symm, (Prod.mk.inj hc).2⟩ hmap
      · exact (h.2 initial mark l hl).imp fun i hi => hi.of_same hsame

theorem Tended.withWatcher (hs : s.Tended name)
    (hw : w.OnlyReports ∨ w.TakesAliases ∧ other = name) :
    (s.withWatcher other w).Tended name := by
  intro other' i v hv
  rcases watcher?_withWatcher_eq_some hv with ⟨rfl, rfl⟩ | hold
  · exact hw
  · exact hs other' i v hold

theorem Tended.released (hs : s.Tended name) : s.released.Tended name := by
  unfold StateSpace.released
  split
  · rename_i old i _
    intro other j w hw
    rw [watcher?_withoutWatcher] at hw
    split at hw
    · rename_i hother
      obtain ⟨v, hv, rfl⟩ := Option.map_eq_some_iff.mp hw
      rw [hother.1]
      exact (hs old i v hv).imp (fun h => ⟨h.callback, h.selector⟩)
        (And.imp_left fun h => ⟨h.selector, h.callback⟩)
    · exact hs other j w hw
  · exact hs

theorem Tended.watch (hs : s.Tended name) (other : String)
    (hw : w.OnlyReports ∨ w.TakesAliases ∧ other = name) :
    (s.watch other w).2.Tended name := by
  have hquiet : w.Quiet := hw.elim (fun h => Or.inr h.callback) fun h => Or.inl h.1.callback
  cases h : s.bucket? other with
  | none =>
    rw [watch_of_none h]
    exact hs
  | some b => exact (hs.withWatcher hw).of_watchers (told_watch hs.quiet hquiet h).watchers

/-- A watcher that only reports comes and changes nothing for the aliases. -/
theorem Mirrors.watch (hs : s.Tended name) (hw : w.OnlyReports) (h : s.Mirrors name) :
    (s.watch other w).2.Mirrors name := by
  have hquiet : w.Quiet := Or.inr hw.callback
  cases hb : s.bucket? other with
  | none =>
    rw [watch_of_none hb]
    exact h
  | some b =>
    refine h.of_same ?_ (congrFun (content?_watch hs.quiet hquiet) name)
    obtain ⟨r, hr, -⟩ := watch_of_some hs.quiet hquiet hb
    rw [hr]
    have htended : (s.withWatcher other w).Tended name := hs.withWatcher (Or.inl hw)
    refine sameAliases_withWatcher.trans (sameAliases_deliverTo htended.quiet fun j hj v hv => ?_)
    rw [List.mem_singleton.mp hj, watcher?_withWatcher hb, if_pos ⟨rfl, rfl⟩] at hv
    obtain rfl := Option.some.inj hv
    exact Or.inl hw

/-- Once the aliases are followed, the table mirrors them. -/
theorem mirrors_follow (hs : s.Sound) (htended : s.Tended name) {c : Live × Live}
    (hc : s.content? name = some c) : (s.watch name .follower).2.Mirrors name := by
  have htakes : Watcher.follower.TakesAliases := ⟨rfl, rfl⟩
  have hquiet : Watcher.follower.Quiet := Or.inl rfl
  obtain ⟨b, hb, rfl⟩ := Option.map_eq_some_iff.mp hc
  have hcontent : (s.watch name .follower).2.content? name = some (b.initial, b.state) := by
    rw [content?_watch hs.quiet hquiet, hc]
  obtain ⟨r, hr, -⟩ := watch_of_some hs.quiet hquiet hb
  have hwith : (s.withWatcher name .follower).Tended name :=
    htended.withWatcher (Or.inr ⟨htakes, rfl⟩)
  have hnew : (s.withWatcher name .follower).watcher? name b.watchers.length = some .follower := by
    rw [watcher?_withWatcher hb, if_pos ⟨rfl, rfl⟩]
  -- The watcher that comes has not received anything yet.
  have hfeeds : (s.withWatcher name .follower).Feeds name b.watchers.length :=
    ⟨_, hnew, rfl, htakes, fun x hx => by cases hx⟩
  rw [hr] at hcontent ⊢
  by_cases hmap : ∃ mark entries, b.state = .map mark entries
  · obtain ⟨mark, entries, hstate⟩ := hmap
    have hproper := (hs.proper name _ hc).2
    rw [hstate] at hcontent hproper ⊢
    obtain ⟨l, rfl, -, hl⟩ := hproper.exists_keyed
    obtain ⟨i, hi⟩ := feeds_deliverTo mark hwith hl
      (fun j (hj : j ∈ [b.watchers.length]) w hw => by
        rw [List.mem_singleton.mp hj, hnew] at hw
        obtain rfl := Option.some.inj hw
        rfl)
      (Or.inr ⟨_, List.mem_cons_self, hfeeds⟩)
    refine ⟨⟨i, hi.feeds⟩, fun initial mark' l' hl' => ⟨i, ?_⟩⟩
    rw [hcontent] at hl'
    obtain rfl := keyed_injective (Live.map.inj (Prod.mk.inj (Option.some.inj hl')).2).2
    exact hi
  · have hsame : SameAliases name (s.withWatcher name .follower)
        (deliverTo name b.state [b.watchers.length] (s.withWatcher name .follower)).2 :=
      sameAliases_deliverTo hwith.quiet fun j _ =>
        hwith.passes (fun _ mark entries hstate => hmap ⟨mark, entries, hstate⟩) j
    refine ⟨⟨_, hfeeds.of_same hsame⟩, fun initial mark l hl => ?_⟩
    rw [hcontent] at hl
    exact absurd ⟨mark, _, (Prod.mk.inj (Option.some.inj hl)).2⟩ hmap

/-! ### Any number of operations -/

end StateSpace

/-- An operation suits aliases that are taken from one bucket only: they are followed nowhere else,
and whoever watches a bucket finds something in every map. -/
def SpaceOperation.Suits (name : String) : SpaceOperation → Prop
  | .follow other => other = name
  | .observe _ _ (some selector) => selector.Total
  | _ => True

namespace StateSpace

variable {s : StateSpace} {name : String} {op : SpaceOperation} {ops : List SpaceOperation}

theorem onlyReports_reporter {other label : String} {selector : Option Selector}
    (h : SpaceOperation.Suits name (.observe other label selector)) :
    (Watcher.reporter label selector).OnlyReports := by
  refine ⟨rfl, fun selector' hselector => ?_⟩
  obtain rfl : selector = some selector' := hselector
  exact h

theorem tended_of_no_buckets (h : s.buckets = []) : s.Tended name := by
  intro other i w hw
  rw [watcher?, bucket?, h] at hw
  cases hw

theorem Tended.apply (hs : s.Tended name) (hop : op.Suits name) : (op.apply s).2.Tended name := by
  have heffect := effect_apply hs.quiet op
  generalize (op.apply s).2 = t at heffect ⊢
  cases heffect with
  | opens other initial => exact hs.of_watchers fun _ _ => by rw [watcher?_openBucket]
  | puts next _ _ => exact hs.of_watchers (puts_put_of_mark hs.quiet _ _ _).watchers
  | follows other watcher =>
    have htended := hs.released.watch other (w := .follower) (Or.inr ⟨⟨rfl, rfl⟩, hop⟩)
    exact htended.of_watchers fun _ _ => rfl
  | observes other label selector handles =>
    have htended := hs.watch other (Or.inl (onlyReports_reporter hop))
    exact htended.of_watchers fun _ _ => rfl
  | _ => exact hs.of_watchers fun _ _ => rfl

/-- Every operation keeps the table a mirror of the aliases. -/
theorem Mirrors.apply (hs : s.Sound) (htended : s.Tended name) (hop : op.Suits name)
    (h : s.Mirrors name) : (op.apply s).2.Mirrors name := by
  have heffect := effect_apply hs.quiet op
  generalize (op.apply s).2 = t at heffect ⊢
  cases heffect with
  | opens other initial => exact h.openBucket
  | @puts _ other x next _ hx =>
    have htended' : ({ s with nextMark := next } : StateSpace).Tended name :=
      htended.of_watchers fun _ _ => rfl
    exact (h.of_same (t := { s with nextMark := next }) ⟨rfl, fun _ _ hw _ => hw⟩ rfl).put htended'
      (hx hs)
  | follows other watcher =>
    obtain ⟨c, hc⟩ := h.content
    obtain rfl : other = name := hop
    have hmirrors := mirrors_follow hs.released htended.released
      ((congrFun content?_released other).trans hc)
    exact hmirrors.of_same ⟨rfl, fun _ _ hw _ => hw⟩ rfl
  | observes other label selector handles =>
    exact (h.watch htended (onlyReports_reporter hop)).of_same ⟨rfl, fun _ _ hw _ => hw⟩ rfl
  | _ => exact h.of_same ⟨rfl, fun _ _ hw _ => hw⟩ rfl

/-- Any number of operations keep the table a mirror of the aliases. -/
theorem Mirrors.after (hs : s.Sound) (htended : s.Tended name) (h : s.Mirrors name)
    (hops : ∀ op ∈ ops, op.Suits name) : (s.after ops).Mirrors name := by
  induction ops generalizing s with
  | nil => exact h
  | cons op ops ih =>
    have hop := hops op List.mem_cons_self
    have hsound := hs.apply op
    refine ih ⟨hsound.quiet, hsound.proper⟩ ((htended.apply hop).of_watchers fun _ _ => rfl)
      ((h.apply hs htended hop).of_same ⟨rfl, fun _ _ hw _ => hw⟩ rfl) fun op hmem => ?_
    exact hops op (List.mem_cons_of_mem _ hmem)

/-- From the moment when the aliases are followed, the table mirrors them. -/
theorem mirrors_after (hs : s.buckets = []) (hops : ∀ op ∈ ops, op.Suits name) :
    (s.after ops).Tended name ∧
      (SpaceOperation.Followed name ops → (s.after ops).Mirrors name) := by
  induction ops using List.reverseRecOn with
  | nil =>
    refine ⟨tended_of_no_buckets hs, ?_⟩
    rintro ⟨initial, h⟩
    cases h
  | append_singleton ops op ih =>
    obtain ⟨htended, hmirrors⟩ := ih fun op h => hops op (List.mem_append_left _ h)
    have hop := hops op (List.mem_append_right _ List.mem_cons_self)
    have hsound := sound_after (sound_of_no_buckets hs) ops
    rw [after_append, after_singleton]
    refine ⟨(htended.apply hop).of_watchers fun _ _ => rfl, fun h => ?_⟩
    -- The aliases were followed before, or this is the moment.
    have hfollows : (op.apply (s.after ops)).2.Mirrors name := by
      rcases SpaceOperation.afterOpening_append_singleton_iff.mp h with h | ⟨rfl, initial, hopening⟩
      · exact (hmirrors h).apply hsound htended hop
      · obtain ⟨c, hc⟩ := exists_content?_after (sound_of_no_buckets hs) hopening
        obtain ⟨watcher, heq⟩ := exists_followAliases_eq (s.after ops) name
        have hnew := mirrors_follow hsound.released htended.released
          ((congrFun content?_released name).trans hc)
        show ((s.after ops).followAliases name).2.Mirrors name
        rw [heq]
        exact hnew.of_same ⟨rfl, fun _ _ hw _ => hw⟩ rfl
    exact hfollows.of_same ⟨rfl, fun _ _ hw _ => hw⟩ rfl

end StateSpace

/-! ### What a mirror shows -/

namespace AliasTable

/-- The table that has entries with texts as keys. -/
def ofEntries (m : Entries Value) : AliasTable :=
  m.map fun e => (.text e.1, e.2)

theorem ofValue_map (m : Entries Value) : ofValue (.map m) = .ok (ofEntries m) := by
  unfold ofValue
  cases m <;> rfl

theorem target?_cons (key v : Value) (table : AliasTable) (word : String) :
    target? ((key, v) :: table) word =
      if key.same (.text word) then some v else target? table word := by
  unfold target?
  rw [List.find?_cons]
  cases key.same (.text word) <;> rfl

theorem target?_ofEntries (m : Entries Value) (word : String) :
    (ofEntries m).target? word = m.get? word := by
  induction m with
  | nil => rfl
  | cons e m ih =>
    obtain ⟨k, v⟩ := e
    rw [Entries.get?_cons, ← ih]
    show target? ((.text k, v) :: ofEntries m) word = _
    rw [target?_cons, Value.same]
    simp only [beq_iff_eq]

/-- A table shows the aliases in a bucket: it has none if there are none, and otherwise those of a
map that is equal to them.  Where the bucket has a text, or nothing, the table has just that. -/
structure Shows (table : AliasTable) (part : Live) : Prop where
  nothing : part = .plain .null → table = []
  equal : ∀ mark given, part = .map mark given → ∃ current other taken,
    given = keyed current ∧ (Live.map other (keyed taken) = part ∨
      (Live.map other (keyed taken)).same part = true) ∧
    table = ofEntries (Entries.mapValues Live.value taken) ∧
    ∀ word, (∀ y, Entries.get? current word = some y → ∃ text, y = .ofText text) →
      table.target? word = (Entries.get? current word).map Live.value

end AliasTable

theorem StateSpace.FeedsFrom.shows {s : StateSpace} {name : String} {i : Nat} {part : Live}
    (h : s.FeedsFrom name i part) (hpart : part.Proper) : s.aliases.Shows part := by
  obtain ⟨w, x, -, -, -, -, hmade, hequal⟩ := h
  refine ⟨?_, ?_⟩
  · rintro rfl
    -- Only what is nothing itself is equal to nothing.
    have hx : x.value = .null := by
      rcases hequal with rfl | hsame
      · rfl
      · cases x with
        | plain v =>
          cases v with
          | null => rfl
          | _ => simp [Live.same, Value.same, Value.sameNumber, Value.number?] at hsame
        | _ => cases hsame
    exact hmade.table [] (by rw [hx]; rfl)
  · rintro mark given rfl
    obtain ⟨current, rfl, hcurrent, -⟩ := hpart.exists_keyed
    -- Only a map is equal to a map.
    obtain ⟨other, entries, rfl⟩ : ∃ other entries, x = .map other entries := by
      rcases hequal with rfl | hsame
      · exact ⟨_, _, rfl⟩
      · cases x with
        | map other entries => exact ⟨other, entries, rfl⟩
        | _ => cases hsame
    obtain ⟨taken, rfl, htaken, -⟩ := hmade.proper.exists_keyed
    have htable : s.aliases = .ofEntries (Entries.mapValues Live.value taken) := by
      refine hmade.table _ ?_
      rw [Live.value_map other htaken, AliasTable.ofValue_map]
    refine ⟨current, other, taken, rfl, hequal, htable, fun word htext => ?_⟩
    rw [htable, AliasTable.target?_ofEntries, Entries.get?_mapValues]
    rcases hequal with heq | hsame
    · rw [keyed_injective (Live.map.inj heq).2]
    · rw [Live.get?_of_same_map htaken hsame htext]

/-- The segment that a segment stands for whose first word is an alias of a value. -/
def Session.expanded (target : Value) (word segment : String) : String :=
  trimBlanks (target.shown ++ " " ++ (textAfterWord? segment [word]).getD "")

theorem Session.expansion?_eq (s : Session) (word segment : String) :
    s.expansion? word segment =
      ((s.aliasTable.target? word).filter Value.truthy).map (expanded · word segment) := by
  unfold expansion?
  cases (s.aliasTable.target? word).filter Value.truthy <;> rfl

namespace Run

variable {s t : Session} {ops : List SpaceOperation} {name : String}

/-- The table of aliases shows what is in the bucket that they are taken from.  A shell that started
without buckets has done `ops`; among these the aliases were followed in the bucket with a name and
nowhere else, and whoever watches a bucket finds something in every map.  To set up the processors
has the aliases followed, if one processor is to follow them. -/
theorem aliases_mirror_bucket (hstart : s.space.buckets = []) (hworks : s.Works ops t)
    (hfollowed : SpaceOperation.Followed name ops) (hsuits : ∀ op ∈ ops, op.Suits name) :
    (∃ c, t.space.content? name = some c) ∧
      (∀ initial mark entries, t.space.content? name = some (initial, .map mark entries) →
        ∃ l, entries = keyed l ∧ t.space.stateOf name = .map (Entries.mapValues Live.value l) ∧
          t.space.aliases.Shows (aliasPart l) ∧
          (t.aliasTable = t.space.aliases → ∀ other current word segment,
            aliasPart l = .map other (keyed current) →
            (∀ y, Entries.get? current word = some y → ∃ text, y = .ofText text) →
            t.expansion? word segment = (((Entries.get? current word).map Live.value).filter
              Value.truthy).map (Session.expanded · word segment))) ∧
      (∀ (depth : Nat) (line : String) (u : Session), ∃ more,
        u.Works more (nestedWithin depth line u).2 ∧ ∀ op ∈ more, op.Suits name) ∧
      ∀ u v : Session, Returns initializeProcessors u () v →
        (Processor.preorderAll u.registry.processors).countP follows = 1 →
        ∃ n more, u.Works more v ∧ SpaceOperation.Followed n more ∧ ∀ op ∈ more, op.Suits n := by
  -- The invariants are those of the operations that the buckets have gone through.
  have hsound := StateSpace.sound_after (StateSpace.sound_of_no_buckets hstart) ops
  have hmirrors := (StateSpace.mirrors_after hstart hsuits).2 hfollowed
  rw [← hworks.space_eq] at hsound hmirrors
  refine ⟨hmirrors.content, fun initial mark entries hcontent => ?_, fun depth line u => ?_,
    fun u v hinit hone => ?_⟩
  · obtain ⟨l, rfl, hkeys, hl⟩ := (hsound.proper name _ hcontent).2.exists_keyed
    obtain ⟨i, hi⟩ := hmirrors.2 initial mark l hcontent
    have hshows := hi.shows (StateSpace.proper_aliasPart hl)
    refine ⟨l, rfl, ?_, hshows, fun htable other current word segment hpart htext => ?_⟩
    · rw [StateSpace.stateOf_eq, hcontent]
      exact Live.value_map mark hkeys
    · obtain ⟨current', -, -, hcurrent, -, -, htarget⟩ := hshows.equal other _ hpart
      obtain rfl := keyed_injective hcurrent
      rw [Session.expansion?_eq, htable, htarget word htext]
  · obtain ⟨acts, hacts⟩ := works_line depth line u
    refine ⟨_, hacts, fun op hop => ?_⟩
    obtain ⟨act, -, rfl⟩ := List.mem_map.mp hop
    trivial
  · obtain ⟨more, followed, hmore, -, hlength, hfollowed, honly⟩ := works_initializeProcessors hinit
    obtain ⟨n, rfl⟩ := List.length_eq_one_iff.mp (hlength.trans hone)
    refine ⟨n, more, hmore, hfollowed n List.mem_cons_self, fun op hop => ?_⟩
    rcases honly op hop with ⟨act, rfl⟩ | ⟨q, -, rfl⟩ | ⟨other, hother, rfl⟩
    · trivial
    · trivial
    · exact List.mem_singleton.mp hother

/-- Aliases that are put into the bucket once they are followed are those that the table has. -/
theorem followed_aliases_mirror_bucket :
    ∃ (shell t : Session) (ops : List SpaceOperation), shell.space.buckets = [] ∧
      shell.Works ops t ∧ SpaceOperation.Followed "aliases" ops ∧
      (∀ op ∈ ops, op.Suits "aliases") ∧
      t.space.aliases.target? "ll" = some (.text "echo hi") := by
  let aliases : Value := .map [(aliasKey, .map [("ll", .text "echo hi")])]
  let opening : SpaceOperation := .act (.opening "aliases" Builtin.aliasBucket.initial)
  let update : SpaceOperation := .act (.update "aliases" aliases)
  let shell : Session := { Session.offering [] with space := {} }
  let opened := (buckets opening.apply shell).2
  let ready := (buckets (SpaceOperation.apply (.follow "aliases")) opened).2
  let t := (buckets update.apply ready).2
  have hworks : shell.Works [opening, .follow "aliases", update] t :=
    ((Session.Works.start.operates opening).operates (.follow "aliases")).operates update
  have hfollowed : SpaceOperation.Followed "aliases" [opening, .follow "aliases", update] :=
    ⟨_, List.sublist_append_left [opening, .follow "aliases"] [update]⟩
  have hsuits : ∀ op ∈ [opening, .follow "aliases", update], op.Suits "aliases" := by
    intro op hop
    rcases List.mem_cons.mp hop with rfl | hop
    · trivial
    · rcases List.mem_pair.mp hop with rfl | rfl
      · rfl
      · trivial
  refine ⟨shell, t, _, rfl, hworks, hfollowed, hsuits, ?_⟩
  obtain ⟨x, mark, other, hcontent⟩ : ∃ x mark other, t.space.content? "aliases" =
      some (x, .map mark (keyed [(aliasKey, .map other (keyed [("ll", .ofText "echo hi")]))])) :=
    ⟨_, _, _, rfl⟩
  obtain ⟨l, hl, -, hshows, -⟩ :=
    (aliases_mirror_bucket rfl hworks hfollowed hsuits).2.1 x mark _ hcontent
  obtain rfl := keyed_injective hl
  obtain ⟨current, -, -, hcurrent, -, -, htarget⟩ := hshows.equal other _ rfl
  obtain rfl := keyed_injective hcurrent
  exact htarget "ll" fun y hy => ⟨"echo hi", (Option.some.inj hy).symm⟩

/-- Aliases that the table misses.  A truth value takes the place of the number one, to which it is
equal, and the alias still expands to the number.  The command that owns the aliases stands behind
an extension when the processors are set up, and does not follow them when it is a root again.  A
watcher that fails came before the one that takes the aliases, which it keeps from them. -/
theorem equal_covered_and_withheld_aliases_are_missed :
    (∃ ready t : Session, Returns initializeProcessors (.offering builtinProcessors) () ready ∧
      ready.Works [.act (.update "aliases" (.map [(aliasKey, .map [("x", .int 1)])])),
        .act (.update "aliases" (.map [(aliasKey, .map [("x", .bool true)])]))] t ∧
      (t.space.stateOf "aliases").shown = "\x7b'aliases': \x7b'x': True\x7d\x7d" ∧
      t.expansion? "x" "x" = some "1") ∧
    (∃ (ready : Session) (extension : ShellProcessor) (rows : Entries Value),
      extension.decl.isExtension = true ∧
      Returns initializeProcessors { Session.offering (builtinProcessors ++ [extension]) with
        space := { store := { rows := rows } } } () ready ∧
      ((unregister "alias" ready).2.space.stateOf "aliases").shown =
        "\x7b'aliases': \x7b'll': 'echo hi'\x7d\x7d" ∧
      (unregister "alias" ready).2.expansion? "ll" "ll" = none ∧
      (unregister "alias" ready).2.space.aliases.isEmpty = true) ∧
    ∃ ready watched again t : Session,
      Returns initializeProcessors (.offering builtinProcessors) () ready ∧
      ready.Works [.observe "aliases" "failing" (some (.has (.list 0 [])))] watched ∧
      Returns initializeProcessors watched () again ∧
      again.Works [.act (.update "aliases" (.map [(aliasKey, .map [("ll", .text "echo hi")])]))] t ∧
      (t.space.stateOf "aliases").shown = "\x7b'aliases': \x7b'll': 'echo hi'\x7d\x7d" ∧
      t.expansion? "ll" "ll" = none := by
  let aliases (name : String) (v : Value) : SpaceOperation :=
    .act (.update "aliases" (.map [(aliasKey, .map [(name, v)])]))
  let shell : Session := .offering builtinProcessors
  let ready := (initializeProcessors shell).2
  obtain ⟨⟨⟩, hready, -⟩ := exists_returns_of_map initializeProcessors shell (fun _ => ()) ()
    (by decide +kernel)
  refine ⟨?_, ?_, ?_⟩
  · let first := (buckets (aliases "x" (.int 1)).apply ready).2
    let t := (buckets (aliases "x" (.bool true)).apply first).2
    refine ⟨ready, t, hready, (Session.Works.start.operates _).operates _, ?_, ?_⟩
    · decide +kernel
    · decide +kernel
  · let extension : ShellProcessor :=
      ⟨0, { command := "alias", label := "alias", isExtension := true, handler := .script [] }, []⟩
    let rows : Entries Value :=
      [("store-state-aliases", .map [(aliasKey, .map [("ll", .text "echo hi")])])]
    obtain ⟨⟨⟩, hcovered, -⟩ := exists_returns_of_map initializeProcessors
      { Session.offering (builtinProcessors ++ [extension]) with
        space := { store := { rows := rows } } } (fun _ => ()) () (by decide +kernel)
    refine ⟨_, extension, rows, rfl, hcovered, ?_, ?_, ?_⟩
    · decide +kernel
    · decide +kernel
    · decide +kernel
  · let failing : SpaceOperation := .observe "aliases" "failing" (some (.has (.list 0 [])))
    let watched := (buckets failing.apply ready).2
    let again := (initializeProcessors watched).2
    let t := (buckets (aliases "ll" (.text "echo hi")).apply again).2
    obtain ⟨⟨⟩, hagain, -⟩ := exists_returns_of_map initializeProcessors watched (fun _ => ()) ()
      (by decide +kernel)
    refine ⟨ready, watched, again, t, hready, Session.Works.start.operates _, hagain,
      Session.Works.start.operates _, ?_, ?_⟩
    · decide +kernel
    · decide +kernel

end Run

end CommandShell
