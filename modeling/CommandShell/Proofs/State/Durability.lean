import CommandShell.Proofs.State.Hydration
import CommandShell.Proofs.State.Mirror

/-!
# Buckets of aliases that are kept

Every change of the aliases is kept in the store at once.  From then on the store has what the
bucket holds, and the table of aliases is the one that this makes.  A space that is set up over the
same store later comes to the same bucket and to the same table.

What is received last and what is in the bucket read the same here, and are not only equal: aliases
get texts as their targets, to which nothing else is equal, and a map that loses an entry is equal
to none that has it.

## Main definitions

* `StateSpace.kept`: what a bucket holds once it is loaded from the store.
* `AliasTable.ofState`: the table that is made of what a bucket holds.
* `StateSpace.Durable`: the store has what the bucket holds, of which the table is made.

## Main results

* `StateSpace.Durable.keep`: aliases that are put into the bucket and kept leave the space durable.
* `StateSpace.durable_followAliases`: a space is durable once the aliases of a loaded bucket are
  followed.
-/

namespace CommandShell

open Live (keyed keyed_injective)

/-! ### Equal maps of aliases -/

namespace Live

variable {l m : Entries Live} {current given : Entries Value} {mark other : Nat}

theorem eq_ofText_of_value {x : Live} {text : String} (h : x.value = .text text) :
    x = .ofText text := by
  cases x with
  | plain v => exact congrArg plain h
  | notANumber => cases h
  | foreign => cases h
  | list => rw [value] at h; cases h
  | map => rw [value] at h; cases h

/-- Texts that are given on top of a map and leave an equal one change nothing. -/
theorem overlay_eq_of_same (hl : l.keys.Nodup) (hcurrent : l.mapValues value = current)
    (hm : m.mapValues value = current.overlay given)
    (htexts : ∀ e ∈ given, ∃ text, e.2 = .text text)
    (h : (map mark (keyed l)).same (map other (keyed m)) = true) :
    current.overlay given = current := by
  -- Equal maps have as many keys, and new keys would come behind those that are there.
  have hkeys : current.keys = (current.overlay given).keys := by
    refine (Entries.keys_prefix_overlay current given).eq_of_length ?_
    rw [← hm, ← hcurrent, Entries.keys_mapValues, Entries.keys_mapValues]
    unfold Entries.keys
    rw [List.length_map, List.length_map]
    exact (same_map_iff.mp h).1
  have hnodup : current.keys.Nodup := by
    rw [← hcurrent, Entries.keys_mapValues]
    exact hl
  refine (Entries.ext_get? hkeys hnodup fun key => ?_).symm
  by_cases hkey : key ∈ given.keys
  · -- A text is equal to no value but itself, so the one that is given was there before.
    obtain ⟨v, hv, hget⟩ := Entries.exists_get?_overlay_of_mem (m := current) hkey
    obtain ⟨text, rfl⟩ := htexts _ hv
    have hsame : l.get? key = m.get? key := by
      refine get?_of_same_map hl h fun y hy => ⟨text, eq_ofText_of_value ?_⟩
      rw [← hm, Entries.get?_mapValues, hy] at hget
      exact Option.some.inj hget
    rw [← hm, ← hcurrent, Entries.get?_mapValues, Entries.get?_mapValues, hsame]
  · rw [Entries.get?_overlay_of_notMem hkey]

/-- A map that has lost an entry is not equal to what it was before. -/
theorem not_same_of_erase {name : String} (hl : l.mapValues value = current)
    (hm : m.mapValues value = current.erase name) (hname : name ∈ current.keys) :
    (map mark (keyed l)).same (map other (keyed m)) = false := by
  rw [Bool.eq_false_iff]
  intro h
  have hlt := Entries.length_erase_lt hname
  rw [← hm, ← hl] at hlt
  unfold Entries.mapValues at hlt
  rw [List.length_map, List.length_map] at hlt
  exact absurd (same_map_iff.mp h).1 (Nat.ne_of_gt hlt)

end Live

/-- The table that is made of what a bucket holds; there are no aliases where none can be made. -/
def AliasTable.ofState : Value → AliasTable
  | .map entries => (ofValue ((Entries.get? entries aliasKey).getD .null)).toOption.getD []
  | _ => []

namespace StateSpace

variable {s t : StateSpace} {name other : String} {initial : Value} {b : Bucket} {w : Watcher}
  {mark : Nat} {l l' : Entries Live} {x X : Live} {new : Entries Value}

/-! ### What the store has -/

/-- What a bucket holds that is loaded from the store, or starts with a declared state if the store
has nothing for it. -/
def kept (s : StateSpace) (name : String) (initial : Value) : Value :=
  match s.snapshot name with
  | .ok .null | .error _ => initial.declared
  | .ok v => v.held

theorem kept_of_snapshot {v : Value} (h : s.snapshot name = .ok v) (hv : v ≠ .null) :
    s.kept name initial = v.held := by
  unfold kept
  rw [h]
  cases v with
  | null => exact absurd rfl hv
  | _ => rfl

theorem kept_of_store (h : t.store = s.store) : t.kept name initial = s.kept name initial := by
  unfold kept snapshot
  rw [h]

theorem isExpressible_kept (hrows : ∀ e ∈ s.store.rows, e.2.isExpressible = true)
    (hinitial : initial.declared.isExpressible = true) :
    (s.kept name initial).isExpressible = true := by
  unfold kept
  split
  · exact hinitial
  · exact hinitial
  · rename_i v _ hv
    refine Value.isExpressible_held ?_
    unfold snapshot KeyValueStore.get at hv
    split at hv
    · cases hv
    · obtain rfl := Except.ok.inj hv
      cases hrow : s.store.rows.get? ("store-state-" ++ name) with
      | none => rfl
      | some v => exact hrows _ (Entries.mem_of_get? hrow)

/-! ### The table and the watcher -/

/-- The only watcher of a bucket takes the aliases from it.  The table is made of the aliases in the
bucket, and these read as what the watcher has received last. -/
structure Mirrored (s : StateSpace) (b : Bucket) (w : Watcher) : Prop where
  watchers : b.watchers = [w]
  subscribed : w.subscribed = true
  takes : w.TakesAliases
  table : s.aliases = .ofState b.state.value
  last : ∀ mark l, b.state = .map mark (keyed l) →
    ∃ x, w.last = some x ∧ x.Proper ∧ x.value = (aliasPart l).value

/-- The store never fails and has what a bucket holds, and the table is made of this. -/
structure Durable (s : StateSpace) (name : String) (initial : Value) : Prop where
  sound : s.Sound
  reads : s.store.failsGet = false
  writes : s.store.failsSet = false
  mirrored : ∃ b w, s.bucket? name = some b ∧ s.Mirrored b w ∧
    b.state.value = s.kept name initial ∧ b.state.value.isExpressible = true

theorem value_aliasPart (l : Entries Live) :
    (aliasPart l).value = (Entries.get? (l.mapValues Live.value) aliasKey).getD .null := by
  unfold aliasPart
  rw [Entries.get?_mapValues]
  cases l.get? aliasKey <;> rfl

theorem ofState_map (hl : l.keys.Nodup) :
    AliasTable.ofState (Live.map mark (keyed l)).value =
      (AliasTable.ofValue (aliasPart l).value).toOption.getD [] := by
  rw [Live.value_map mark hl, AliasTable.ofState, value_aliasPart]

theorem subscribers_of_mirrored (h : s.Mirrored b w) : b.subscribers = [0] := by
  unfold Bucket.subscribers
  rw [h.watchers]
  simp [h.subscribed]

theorem bucket?_withState (h : s.bucket? name = some b) :
    (s.withState name x).bucket? name = some { b with state := x } := by
  have hname : ∀ b : Bucket, ({ b with state := x } : Bucket).name = b.name := fun _ => rfl
  unfold withState
  rw [bucket?_modifyBucket hname, if_pos rfl, h]
  rfl

theorem bucket?_give (h : s.bucket? name = some b) (i : Nat) :
    (s.give name i x).bucket? name =
      some (b.modifyWatcher i fun w => { w with last := some x }) := by
  have hname : ∀ b : Bucket,
      (b.modifyWatcher i fun w => { w with last := some x }).name = b.name := fun _ => rfl
  unfold give
  rw [bucket?_modifyBucket hname, if_pos rfl, h]
  rfl

/-- The table is made of the aliases that are put into a mirrored bucket, unless equal ones were
received last. -/
theorem put_of_mirrored (hb : s.bucket? name = some b) (h : s.Mirrored b w)
    (hnew : (aliasPart l').value = .map new) (next : Nat) :
    s.put name (.map next (keyed l')) = (.ok (),
      if w.last.any (·.same (aliasPart l')) then s.withState name (.map next (keyed l'))
      else { (s.withState name (.map next (keyed l'))).give name 0 (aliasPart l') with
        aliases := .ofEntries new }) := by
  have hw : (s.withState name (.map next (keyed l'))).watcher? name 0 = some w := by
    unfold watcher?
    rw [bucket?_withState hb, Option.bind_some, h.watchers]
    rfl
  have hreceive := h.takes.receive_map next l'
  rw [put_of_some hb, subscribers_of_mirrored h, deliverTo]
  cases hsame : w.last.any (·.same (aliasPart l')) with
  | true =>
    rw [hsame, if_pos rfl] at hreceive
    rw [deliver_of_repeated hw hreceive]
    rfl
  | false =>
    rw [hsame] at hreceive
    have hdeliver := deliver_of_followAliases hw hreceive h.takes.callback
    rw [hnew, AliasTable.ofValue_map] at hdeliver
    rw [hdeliver]
    rfl

/-- A bucket is mirrored again once aliases are put into it, if they were in it before wherever they
are equal to those that were. -/
theorem mirrored_put (hb : s.bucket? name = some b) (h : s.Mirrored b w)
    (hstate : b.state = .map mark (keyed l)) (hl : l.keys.Nodup) (hl' : l'.keys.Nodup)
    (hproper : (aliasPart l').Proper) (hnew : (aliasPart l').value = .map new)
    (hchange : ∀ x : Live, x.Proper → x.value = (aliasPart l).value →
      x.same (aliasPart l') = true → (aliasPart l).value = .map new) (next : Nat) :
    ∃ t w', s.put name (.map next (keyed l')) = (.ok (), t) ∧ t.store = s.store ∧
      t.bucket? name = some { b with state := .map next (keyed l'), watchers := [w'] } ∧
      t.Mirrored { b with state := .map next (keyed l'), watchers := [w'] } w' := by
  have hwith := bucket?_withState (x := .map next (keyed l')) hb
  have htable : AliasTable.ofState (Live.map next (keyed l')).value = .ofEntries new := by
    rw [ofState_map hl', hnew, AliasTable.ofValue_map]
    rfl
  have hlast : ∀ mark' m, Live.map next (keyed l') = .map mark' (keyed m) → m = l' :=
    fun mark' m hm => keyed_injective (Live.map.inj hm).2.symm
  rw [put_of_mirrored hb h hnew]
  -- The follower is told of the aliases unless they are equal to those that it saw last.
  cases hsame : w.last.any (·.same (aliasPart l')) with
  | true =>
    obtain ⟨x, hx, hxproper, hxvalue⟩ := h.last mark l hstate
    have hold : (aliasPart l).value = .map new := by
      refine hchange x hxproper hxvalue ?_
      rwa [hx] at hsame
    refine ⟨s.withState name _, w, rfl, rfl, ?_, rfl, h.subscribed, h.takes, ?_, ?_⟩
    · rw [hwith, h.watchers]
    · show s.aliases = _
      rw [h.table, hstate, ofState_map hl, hold, htable, AliasTable.ofValue_map]
      rfl
    · intro mark' m hm
      obtain rfl := hlast mark' m hm
      exact ⟨x, hx, hxproper, by rw [hxvalue, hold, hnew]⟩
  | false =>
    refine ⟨_, { w with last := some (aliasPart l') }, rfl, rfl, ?_, rfl, h.subscribed,
      h.takes.of_forget rfl, htable.symm, ?_⟩
    · show ((s.withState name _).give name 0 _).bucket? name = _
      rw [bucket?_give hwith]
      show some { b with state := _, watchers := b.watchers.modify 0 _ } = _
      rw [h.watchers]
      rfl
    · intro mark' m hm
      obtain rfl := hlast mark' m hm
      exact ⟨_, rfl, hproper, rfl⟩

/-- Whatever else changes, a bucket is mirrored as long as the table is the same. -/
theorem Mirrored.of_aliases (h : s.Mirrored b w) (ht : t.aliases = s.aliases) : t.Mirrored b w :=
  ⟨h.watchers, h.subscribed, h.takes, ht.trans h.table, h.last⟩

theorem Durable.of_reports {reports : List Event} (h : s.Durable name initial) :
    { s with reports := reports }.Durable name initial := by
  obtain ⟨b, w, hb, hmirrored, hstate⟩ := h.mirrored
  exact ⟨⟨h.sound.quiet, h.sound.proper⟩, h.reads, h.writes, b, w, hb, hmirrored.of_aliases rfl,
    hstate⟩

theorem Durable.openBucket (h : s.Durable name initial) (other : String) (v : Value) :
    (s.openBucket other v).Durable name initial := by
  cases hother : s.bucket? other with
  | some b => rwa [openBucket_of_some hother]
  | none =>
    obtain ⟨b, w, hb, hmirrored, hstate⟩ := h.mirrored
    have hsound : (s.openBucket other v).Sound := h.sound.openBucket
    have hne : name ≠ other := fun hname => by
      rw [hname, hother] at hb
      cases hb
    obtain ⟨next, mark, heq⟩ := exists_openBucket_eq hother v
    rw [heq] at hsound ⊢
    refine ⟨hsound, h.reads, h.writes, b, w, ?_, hmirrored.of_aliases rfl, hstate⟩
    rw [bucket?_append hother rfl, if_neg hne, hb]

theorem Durable.stateOf_eq (h : s.Durable name initial) : s.stateOf name = s.kept name initial := by
  obtain ⟨b, w, hb, -, hstate, -⟩ := h.mirrored
  rw [stateOf, hb, ← hstate]
  rfl

theorem Durable.aliases_eq (h : s.Durable name initial) :
    s.aliases = .ofState (s.stateOf name) := by
  obtain ⟨b, w, hb, hmirrored, -⟩ := h.mirrored
  rw [stateOf, hb, hmirrored.table]
  rfl

theorem Durable.isExpressible_kept (h : s.Durable name initial) :
    (s.kept name initial).isExpressible = true := by
  obtain ⟨b, w, -, -, hstate, hexpressible⟩ := h.mirrored
  rwa [← hstate]

/-- A bucket that is kept in the store is what the store has for it. -/
theorem exists_persist_eq (hb : s.bucket? name = some b) (hproper : b.state.Proper)
    (hstate : b.state.value.isExpressible = true) (hreads : s.store.failsGet = false)
    (hwrites : s.store.failsSet = false) :
    ∃ store : KeyValueStore, s.persist name = (.ok (), { s with store := store }) ∧
      store.failsGet = false ∧ store.failsSet = false ∧
      { s with store := store }.snapshot name = .ok b.state.value := by
  have hkey : b.storageKey = "store-state-" ++ name := by
    unfold Bucket.storageKey
    rw [name_of_bucket? hb]
  have hpersist := persist_of_some hb
  rw [hproper.expressed_eq, if_pos hstate, hwrites] at hpersist
  refine ⟨_, hpersist, hreads, hwrites, ?_⟩
  unfold snapshot KeyValueStore.get
  show (if s.store.failsGet = true then _ else _) = _
  rw [if_neg (by rw [hreads]; decide)]
  show Except.ok (((s.store.rows.insert b.storageKey b.state.value).get?
    ("store-state-" ++ name)).getD .null) = _
  rw [Entries.get?_insert, if_pos hkey]
  rfl

/-- Aliases that are given on top of what a bucket holds. -/
theorem exists_update_aliases_eq (hs : s.Quiet) (hb : s.bucket? name = some b)
    (hstate : b.state = .map mark (keyed l)) (hkeys : new.keys.Nodup)
    (hheld : ∀ e ∈ new, e.2.held = e.2) :
    ∃ (next : Nat) (X : Live), X.Proper ∧ X.value = .map new ∧
      s.update name (.map [(aliasKey, .map new)]) =
        { s with nextMark := next }.put name (.map s.nextMark (keyed (l.insert aliasKey X))) := by
  obtain ⟨X, hX⟩ : ∃ X, X = (Live.ofValue false (s.nextMark + 1) (.map new)).1 := ⟨_, rfl⟩
  have hgiven : (Live.ofValue false s.nextMark (.map [(aliasKey, .map new)])).1 =
      .map s.nextMark (keyed [(aliasKey, X)]) :=
    Live.ofValue_map (l := [(aliasKey, X)]) (by rw [hX]; rfl)
  obtain ⟨next, hupdate⟩ := exists_update_eq hs hb hstate hgiven
  rw [Live.overlay_keyed] at hupdate
  refine ⟨next, X, hX ▸ Live.proper_ofValue _ _, ?_, hupdate⟩
  rw [hX, Live.value_ofValue, Live.held_map hkeys hheld]

/-- A space in which aliases are put into a mirrored bucket that the store can keep is durable once
the store does. -/
theorem exists_durable_persist (hs : s.Sound) (hb : s.bucket? name = some b) (h : s.Mirrored b w)
    (hstate : b.state.value.isExpressible = true) (hnull : b.state.value ≠ .null)
    (hreads : s.store.failsGet = false) (hwrites : s.store.failsSet = false) :
    ∃ u, s.persist name = (.ok (), u) ∧ u.Durable name initial := by
  obtain ⟨store, hpersist, hreads', hwrites', hsnapshot⟩ :=
    exists_persist_eq hb (hs.state_proper hb) hstate hreads hwrites
  have hkept : b.state.value = { s with store := store }.kept name initial := by
    rw [kept_of_snapshot hsnapshot hnull, (hs.state_proper hb).held_value]
  exact ⟨_, hpersist, ⟨hs.quiet, hs.proper⟩, hreads', hwrites', b, w, hb, h.of_aliases rfl,
    hkept, hstate⟩

/-- Aliases that are put into the bucket and kept in the store leave the space durable, if they were
in the bucket before wherever they are equal to those that were. -/
theorem Durable.keep (h : s.Durable name initial) (hb : s.bucket? name = some b)
    (hstate : b.state = .map mark (keyed l)) (hkeys : new.keys.Nodup)
    (hheld : ∀ e ∈ new, e.2.held = e.2) (hexpressible : ∀ e ∈ new, e.2.isExpressible = true)
    (hchange : ∀ x X : Live, x.Proper → X.Proper → x.value = (aliasPart l).value →
      X.value = .map new → x.same X = true → (aliasPart l).value = .map new) :
    ∃ t u, s.update name (.map [(aliasKey, .map new)]) = (.ok (), t) ∧
      { t with reports := [] }.persist name = (.ok (), u) ∧ u.Durable name initial := by
  obtain ⟨b', w, hb', hmirrored, -, hold⟩ := h.mirrored
  obtain rfl := Option.some.inj (hb.symm.trans hb')
  obtain ⟨hl, -⟩ := (hstate ▸ h.sound.state_proper hb).of_keyed
  obtain ⟨next, X, hX, hXvalue, hupdate⟩ :=
    exists_update_aliases_eq h.sound.quiet hb hstate hkeys hheld
  have hpart : aliasPart (l.insert aliasKey X) = X := by
    unfold aliasPart
    rw [Entries.get?_insert, if_pos rfl]
    rfl
  have hinserted : (l.insert aliasKey X).keys.Nodup := Entries.nodup_keys_insert hl
  obtain ⟨t, w', hput, hstore, hbt, hmirroredt⟩ := mirrored_put (s := { s with nextMark := next })
    hb (hmirrored.of_aliases rfl) hstate hl hinserted (by rwa [hpart]) (by rwa [hpart])
    (fun x hx hvalue hsame => hchange x X hx hX hvalue hXvalue (by rwa [hpart] at hsame))
    s.nextMark
  rw [hput] at hupdate
  have hsound : t.Sound := by
    have happly := h.sound.apply (.act (.update name (.map [(aliasKey, .map new)])))
    rwa [show (SpaceOperation.act (.update name (.map [(aliasKey, .map new)]))).apply s =
      (.ok (), t) from hupdate] at happly
  -- The store can keep what the bucket holds now.
  have hvalue : (Live.map s.nextMark (keyed (l.insert aliasKey X))).value =
      .map ((l.mapValues Live.value).insert aliasKey (.map new)) := by
    rw [Live.value_map _ hinserted, Entries.mapValues_insert, hXvalue]
  rw [hstate, Live.value_map mark hl, Value.isExpressible, Value.entriesExpressible_iff] at hold
  have hkeeps : (Live.map s.nextMark (keyed (l.insert aliasKey X))).value.isExpressible = true := by
    rw [hvalue, Value.isExpressible, Value.entriesExpressible_iff]
    exact Entries.forall_mem_insert (P := fun v : Value => v.isExpressible = true) hold
      (Value.entriesExpressible_iff.mpr hexpressible)
  have hnull : (Live.map s.nextMark (keyed (l.insert aliasKey X))).value ≠ .null := by
    rw [hvalue]
    exact fun h => by cases h
  obtain ⟨u, hpersist, hdurable⟩ := exists_durable_persist (s := { t with reports := [] })
    ⟨hsound.quiet, hsound.proper⟩ hbt (hmirroredt.of_aliases rfl) hkeeps hnull
    (by rw [show t.store = s.store from hstore]; exact h.reads)
    (by rw [show t.store = s.store from hstore]; exact h.writes)
  exact ⟨t, u, hupdate, hpersist, hdurable⟩

/-! ### Aliases that are defined and removed -/

theorem nonEmpty?_map (m : Entries Value) : (Value.map m).nonEmpty?.getD (.map []) = .map m := by
  cases m <;> rfl

section Aliases

variable {current given : Entries Value}

/-- The aliases that are in a bucket, where whatever counts as false stands for none. -/
theorem entries_of_nonEmpty (hx : x.Proper) (hexpressible : x.value.isExpressible = true)
    (h : x.value.nonEmpty?.getD (.map []) = .map current) :
    current.keys.Nodup ∧ (∀ e ∈ current, e.2.held = e.2) ∧
      ∀ e ∈ current, e.2.isExpressible = true := by
  unfold Value.nonEmpty? at h
  split at h
  · have hvalue : x.value = .map current := h
    obtain ⟨-, -, -, -, hkeys, hheld⟩ := hx.entries_of_value hvalue
    rw [hvalue, Value.isExpressible, Value.entriesExpressible_iff] at hexpressible
    exact ⟨hkeys, hheld, hexpressible⟩
  · obtain rfl : [] = current := Value.map.inj h
    exact ⟨List.nodup_nil, fun _ he => (by cases he), fun _ he => by cases he⟩

/-- What is equal to a map of aliases, and stands for some, is a map of these. -/
theorem exists_of_same (hx : x.Proper) (hX : X.Proper) (hnew : X.value = .map new)
    (hsame : x.same X = true) (h : x.value.nonEmpty?.getD (.map []) = .map current) :
    ∃ mark l other m, x = .map mark (keyed l) ∧ X = .map other (keyed m) ∧ l.keys.Nodup ∧
      x.value = .map current ∧ l.mapValues Live.value = current ∧ m.mapValues Live.value = new := by
  obtain ⟨other, m, rfl, hm, -⟩ := hX.entries_of_value hnew
  obtain ⟨mark, entries, rfl⟩ : ∃ mark entries, x = .map mark entries := by
    cases x with
    | map mark entries => exact ⟨mark, entries, rfl⟩
    | _ => cases hsame
  obtain ⟨l, rfl, hl, -⟩ := hx.exists_keyed
  have hvalue := Live.value_map mark hl
  rw [hvalue, nonEmpty?_map] at h
  exact ⟨mark, l, other, m, rfl, rfl, hl, hvalue.trans h, Value.map.inj h, hm.symm⟩

variable (h : s.Durable name initial) (hb : s.bucket? name = some b)
  (hstate : b.state = .map mark (keyed l))
  (hcurrent : (aliasPart l).value.nonEmpty?.getD (.map []) = .map current)

include h hb hstate hcurrent

theorem Durable.entries : current.keys.Nodup ∧ (∀ e ∈ current, e.2.held = e.2) ∧
    ∀ e ∈ current, e.2.isExpressible = true := by
  obtain ⟨b', w, hb', -, -, hexpressible⟩ := h.mirrored
  obtain rfl := Option.some.inj (hb.symm.trans hb')
  obtain ⟨hl, hparts⟩ := (hstate ▸ h.sound.state_proper hb).of_keyed
  rw [hstate, Live.value_map mark hl, Value.isExpressible, Value.entriesExpressible_iff]
    at hexpressible
  refine entries_of_nonEmpty (proper_aliasPart hparts) ?_ hcurrent
  rw [value_aliasPart]
  cases hget : Entries.get? (l.mapValues Live.value) aliasKey with
  | none => rfl
  | some v => exact hexpressible _ (Entries.mem_of_get? hget)

/-- Texts that are given on top of the aliases. -/
theorem Durable.keep_overlay (htexts : ∀ e ∈ given, ∃ text, e.2 = .text text) :
    ∃ t u, s.update name (.map [(aliasKey, .map (current.overlay given))]) = (.ok (), t) ∧
      { t with reports := [] }.persist name = (.ok (), u) ∧ u.Durable name initial := by
  obtain ⟨hkeys, hheld, hexpressible⟩ := h.entries hb hstate hcurrent
  refine h.keep hb hstate (Entries.nodup_keys_overlay hkeys) ?_ ?_ ?_
  · refine Entries.forall_mem_overlay (P := fun v : Value => v.held = v) hheld fun e he => ?_
    obtain ⟨text, htext⟩ := htexts e he
    rw [htext]
    rfl
  · refine Entries.forall_mem_overlay (P := fun v : Value => v.isExpressible = true) hexpressible
      fun e he => ?_
    obtain ⟨text, htext⟩ := htexts e he
    rw [htext]
    rfl
  · intro x X hx hX hvalue hnew hsame
    rw [← hvalue] at hcurrent ⊢
    obtain ⟨mark, l, other, m, rfl, rfl, hl, hmap, hcurrent', hm⟩ :=
      exists_of_same hx hX hnew hsame hcurrent
    rw [hmap, Live.overlay_eq_of_same hl hcurrent' hm htexts hsame]

/-- One of the aliases that is removed. -/
theorem Durable.keep_erase {word : String} (hword : word ∈ current.keys) :
    ∃ t u, s.update name (.map [(aliasKey, .map (current.erase word))]) = (.ok (), t) ∧
      { t with reports := [] }.persist name = (.ok (), u) ∧ u.Durable name initial := by
  obtain ⟨hkeys, hheld, hexpressible⟩ := h.entries hb hstate hcurrent
  refine h.keep hb hstate (Entries.nodup_keys_erase hkeys)
    (fun e he => hheld e (List.mem_of_mem_filter he))
    (fun e he => hexpressible e (List.mem_of_mem_filter he)) ?_
  intro x X hx hX hvalue hnew hsame
  rw [← hvalue] at hcurrent
  obtain ⟨mark, l, other, m, rfl, rfl, -, -, hcurrent', hm⟩ :=
    exists_of_same hx hX hnew hsame hcurrent
  rw [Live.not_same_of_erase hcurrent' hm hword] at hsame
  cases hsame

end Aliases

/-! ### Aliases that are followed -/

theorem ofState_of_not_map (hx : x.Proper) (hmap : ∀ mark entries, x ≠ .map mark entries) :
    AliasTable.ofState x.value = [] := by
  cases hx with
  | @plain v h =>
    cases v with
    | map => cases h
    | _ => rfl
  | list => rw [Live.value]; rfl
  | map mark hkeys h => exact absurd rfl (hmap _ _)
  | _ => rfl

/-- The aliases of a bucket that nobody watches are followed. -/
theorem watch_follower_eq (hs : s.Sound) (hb : s.bucket? name = some b)
    (hwatchers : b.watchers = []) :
    (s.watch name .follower).2 = ((s.withWatcher name .follower).deliver name 0 b.state).2 ∧
      (s.withWatcher name .follower).bucket? name = some { b with watchers := [.follower] } := by
  have hname : ∀ b : Bucket,
      ({ b with watchers := b.watchers ++ [.follower] } : Bucket).name = b.name := fun _ => rfl
  obtain ⟨r, hr, -⟩ := watch_of_some (w := .follower) hs.quiet (Or.inl rfl) hb
  refine ⟨?_, ?_⟩
  · rw [hr, hwatchers]
    exact deliverTo_singleton _ _ _ _
  · unfold withWatcher
    rw [bucket?_modifyBucket hname, if_pos rfl, hb, Option.map_some, hwatchers]
    rfl

/-- A follower that comes to a map is told it at once, keeps its aliases and makes the table of
them. -/
theorem mirrored_deliver_keyed (hstate : b.state = .map mark (keyed l))
    (hproper : b.state.Proper) (haliases : s.aliases = [])
    (hwith : s.bucket? name = some { b with watchers := [.follower] }) :
    ∃ w, (s.deliver name 0 b.state).2.bucket? name = some { b with watchers := [w] } ∧
      (s.deliver name 0 b.state).2.Mirrored { b with watchers := [w] } w ∧
      (s.deliver name 0 b.state).2.store = s.store := by
  have htakes : Watcher.follower.TakesAliases := ⟨rfl, rfl⟩
  have hw : s.watcher? name 0 = some .follower := by
    unfold watcher?
    rw [hwith]
    rfl
  rw [hstate] at hproper
  obtain ⟨hl, hparts⟩ := hproper.of_keyed
  have hdeliver := deliver_of_followAliases hw
    (show Watcher.follower.receive (.map mark (keyed l)) = .ok (some (aliasPart l)) from
      htakes.receive_map mark l) rfl
  have hgiven := bucket?_give (x := aliasPart l) hwith 0
  have hlast : ∀ mark' m, b.state = .map mark' (keyed m) →
      ∃ x, some (aliasPart l) = some x ∧ x.Proper ∧ x.value = (aliasPart m).value := by
    intro mark' m hm
    rw [hstate] at hm
    obtain rfl := keyed_injective (Live.map.inj hm).2
    exact ⟨_, rfl, proper_aliasPart hparts, rfl⟩
  have htable : AliasTable.ofState b.state.value =
      (AliasTable.ofValue (aliasPart l).value).toOption.getD [] := by
    rw [hstate, ofState_map hl]
  have hfollower :
      ({ Watcher.follower with last := some (aliasPart l) } : Watcher).TakesAliases :=
    htakes.of_forget rfl
  refine ⟨{ Watcher.follower with last := some (aliasPart l) }, ?_⟩
  rw [hstate, hdeliver]
  rw [hstate] at htable hgiven hlast
  -- If no table can be made of them, the empty one stays.
  cases hvalue : AliasTable.ofValue (aliasPart l).value with
  | ok table =>
    rw [hvalue] at htable
    exact ⟨hgiven, ⟨rfl, rfl, hfollower, htable.symm, hlast⟩, rfl⟩
  | error e =>
    rw [hvalue] at htable
    exact ⟨hgiven, ⟨rfl, rfl, hfollower, haliases.trans htable.symm, hlast⟩, rfl⟩

/-- The bucket of a space without watchers is mirrored once its aliases are followed. -/
theorem mirrored_watch (hs : s.Sound) (hb : s.bucket? name = some b) (hwatchers : b.watchers = [])
    (haliases : s.aliases = []) :
    ∃ w, (s.watch name .follower).2.bucket? name = some { b with watchers := [w] } ∧
      (s.watch name .follower).2.Mirrored { b with watchers := [w] } w ∧
      (s.watch name .follower).2.store = s.store := by
  obtain ⟨heq, hwith⟩ := watch_follower_eq hs hb hwatchers
  have hproper := hs.state_proper hb
  rw [heq]
  by_cases hmap : ∃ mark entries, b.state = .map mark entries
  · obtain ⟨mark, entries, hstate⟩ := hmap
    have hentries := hproper
    rw [hstate] at hentries
    obtain ⟨l, rfl, -⟩ := hentries.exists_keyed
    exact mirrored_deliver_keyed hstate hproper haliases hwith
  · -- A state that is no map has no aliases: the delivery fails, and the table stays empty.
    have htakes : Watcher.follower.TakesAliases := ⟨rfl, rfl⟩
    have hw : (s.withWatcher name .follower).watcher? name 0 = some .follower := by
      unfold watcher?
      rw [hwith]
      rfl
    have hfails : ∀ mark entries, b.state ≠ .map mark entries :=
      fun mark entries h => hmap ⟨mark, entries, h⟩
    obtain ⟨e, he⟩ := htakes.receive_fails hfails
    refine ⟨.follower, ?_⟩
    rw [deliver_of_error hw he]
    refine ⟨hwith, ⟨rfl, rfl, htakes, ?_, fun mark l h => absurd h (hfails _ _)⟩, rfl⟩
    exact haliases.trans (ofState_of_not_map hproper hfails).symm

/-- A space without watchers is durable once the aliases of a bucket are followed that holds what
the store has for it. -/
theorem durable_followAliases (hs : s.Sound) (hreads : s.store.failsGet = false)
    (hwrites : s.store.failsSet = false) (hb : s.bucket? name = some b)
    (hwatchers : b.watchers = []) (haliases : s.aliases = []) (hwatcher : s.aliasWatcher = none)
    (hkept : b.state.value = s.kept name initial)
    (hexpressible : b.state.value.isExpressible = true) :
    (s.followAliases name).2.Durable name initial ∧ (s.followAliases name).2.store = s.store := by
  have hreleased : s.released = s := by
    unfold released
    rw [hwatcher]
  obtain ⟨watcher, heq⟩ := exists_followAliases_eq s name
  rw [hreleased] at heq
  obtain ⟨w, hbw, hmirrored, hstore⟩ := mirrored_watch hs hb hwatchers haliases
  have hsound := @Sound.watch s name .follower hs (Or.inl rfl)
  rw [heq]
  refine ⟨⟨⟨hsound.quiet, hsound.proper⟩, ?_, ?_, _, w, hbw, hmirrored.of_aliases rfl, ?_,
    hexpressible⟩, hstore⟩
  · rw [← hreads, ← hstore]
  · rw [← hwrites, ← hstore]
  · rw [hkept]
    exact (kept_of_store hstore).symm

end StateSpace

/-! ### Keeping aliases -/

/-- To keep aliases is to put them into their bucket and to keep that. -/
theorem Run.returns_keepAliases_of_persist {s : Session} {bucket : String} {entries : Entries Value}
    {t u : StateSpace}
    (hupdate : s.space.update bucket (.map [(aliasKey, .map entries)]) = (.ok (), t))
    (hpersist : { t with reports := [] }.persist bucket = (.ok (), u)) :
    Returns (keepAliases bucket entries) s ()
      { s with
        space := { u with reports := [] }, journal := u.reports ++ (t.reports ++ s.journal) } :=
  returns_bind_iff.mpr ⟨(), _, returns_buckets_iff.mpr ⟨t, hupdate, rfl⟩,
    returns_buckets_iff.mpr ⟨u, hpersist, rfl⟩⟩

end CommandShell
