import CommandShell.Proofs.Entries
import CommandShell.State.Aliases
import CommandShell.State.Bucket
import CommandShell.Storage.KeyValue
import Mathlib.Data.List.Perm.Subperm

/-!
# The values that states hold

A state holds live values, which are made of plain ones.  Held values have every key of a map once,
and one value that is not a number: this is all that is lost when a value is held, read back from
the store, or copied.

## Main definitions

* `Live.keyed`: the entries of a live map whose keys are texts.
* `Live.Proper`: the live values that states hold.
* `Value.held`: what a value reads as once it is held.

## Main results

* `Live.value_ofValue`: what a live value reads as that is made of a plain one.
* `Live.proper_ofValue`, `Live.proper_copy`, `Live.proper_overlay`: proper values stay proper.
* `Live.Proper.expressed_eq`: the store keeps what a proper value reads as.
* `Live.same_map_iff`: when two live maps are equal.
-/

namespace CommandShell

/-! ### Plain values -/

namespace Value

/-- Whether a value has no parts, and is the same as what it reads as once it is held. -/
def isAtom : Value → Bool
  | list _ | map _ | foreign _ => false
  | float x => !x.isNaN
  | _ => true

mutual

/-- What a value reads as once it is held. -/
def held : Value → Value
  | list items => list (heldItems items)
  | map entries => map (Entries.ofPairs (heldEntries entries))
  | float x => if x.isNaN then float (0.0 / 0.0) else float x
  | v => v

/-- What the items of a list read as. -/
def heldItems : List Value → List Value
  | [] => []
  | v :: rest => held v :: heldItems rest

/-- What the entries of a map read as. -/
def heldEntries : List (String × Value) → List (String × Value)
  | [] => []
  | (k, v) :: rest => (k, held v) :: heldEntries rest

end

theorem held_of_isAtom {v : Value} (h : v.isAtom = true) : v.held = v := by
  cases v with
  | float x =>
    rw [held, if_neg]
    simpa [isAtom] using h
  | list items => cases h
  | map entries => cases h
  | _ => rfl

theorem entriesExpressible_iff {m : Entries Value} :
    entriesExpressible m = true ↔ ∀ e ∈ m, e.2.isExpressible = true := by
  induction m with
  | nil => simp [entriesExpressible]
  | cons e m ih =>
    obtain ⟨k, v⟩ := e
    rw [entriesExpressible, Bool.and_eq_true, ih, List.forall_mem_cons]

mutual

/-- What can be expressed can be expressed once it is held. -/
theorem isExpressible_held {v : Value} (h : v.isExpressible = true) :
    v.held.isExpressible = true := by
  cases v with
  | list items => exact allExpressible_heldItems h
  | map entries =>
    rw [held, isExpressible, entriesExpressible_iff]
    have hentries : ∀ e ∈ heldEntries entries, e.2.isExpressible = true :=
      entriesExpressible_iff.mp (entriesExpressible_heldEntries h)
    exact Entries.forall_mem_overlay (m := []) (P := fun v : Value => v.isExpressible = true)
      (fun e he => by cases he) hentries
  | float x =>
    rw [held]
    split <;> rfl
  | foreign shown => cases h
  | _ => rfl

theorem allExpressible_heldItems {items : List Value} (h : allExpressible items = true) :
    allExpressible (heldItems items) = true := by
  cases items with
  | nil => rfl
  | cons v items =>
    rw [allExpressible, Bool.and_eq_true] at h
    rw [heldItems, allExpressible, Bool.and_eq_true]
    exact ⟨isExpressible_held h.1, allExpressible_heldItems h.2⟩

theorem entriesExpressible_heldEntries {entries : List (String × Value)}
    (h : entriesExpressible entries = true) : entriesExpressible (heldEntries entries) = true := by
  cases entries with
  | nil => rfl
  | cons e entries =>
    obtain ⟨k, v⟩ := e
    rw [entriesExpressible, Bool.and_eq_true] at h
    rw [heldEntries, entriesExpressible, Bool.and_eq_true]
    exact ⟨isExpressible_held h.1, entriesExpressible_heldEntries h.2⟩

end

end Value

namespace Live

open Value (held heldItems heldEntries)

variable {x y : Live} {l m : Entries Live} {key : String}

/-! ### Entries with texts as keys -/

/-- The entries of a live map whose keys are texts. -/
def keyed (l : Entries Live) : List (Live × Live) :=
  l.map fun e => (ofText e.1, e.2)

@[simp] theorem keyed_nil : keyed [] = [] := rfl

@[simp] theorem keyed_cons (k : String) (x : Live) (l : Entries Live) :
    keyed ((k, x) :: l) = (ofText k, x) :: keyed l := rfl

theorem keyed_injective : Function.Injective keyed :=
  List.map_injective_iff.mpr fun e e' h => by
    obtain ⟨k, x⟩ := e
    obtain ⟨k', x'⟩ := e'
    cases h
    rfl

@[simp] theorem length_keyed (l : Entries Live) : (keyed l).length = l.length :=
  List.length_map _

@[simp] theorem sameKey_ofText (k key : String) :
    sameKey (ofText k) (ofText key) = decide (k = key) :=
  rfl

@[simp] theorem value_ofText (k : String) : (ofText k).value = .text k := rfl

theorem valueOf?_keyed (l : Entries Live) (key : String) :
    valueOf? (keyed l) (ofText key) = l.get? key := by
  induction l with
  | nil => rfl
  | cons e l ih =>
    obtain ⟨k, x⟩ := e
    rw [Entries.get?_cons, ← ih]
    unfold valueOf?
    rw [keyed_cons, List.find?_cons, sameKey_ofText]
    by_cases hk : k = key
    · simp [hk]
    · simp [hk]

theorem setEntry_keyed (l : Entries Live) (key : String) (x : Live) :
    setEntry (keyed l) (ofText key) x = keyed (l.insert key x) := by
  induction l with
  | nil => rfl
  | cons e l ih =>
    obtain ⟨k, y⟩ := e
    rw [keyed_cons, setEntry, Entries.insert, sameKey_ofText, ih]
    by_cases hk : k = key
    · simp [hk]
    · simp [hk]

theorem overlay_keyed (l m : Entries Live) : overlay (keyed l) (keyed m) = keyed (l.overlay m) := by
  induction m generalizing l with
  | nil => rfl
  | cons e m ih =>
    obtain ⟨k, x⟩ := e
    rw [Entries.overlay_cons, ← ih, ← setEntry_keyed]
    rfl

theorem entryValues_keyed (l : Entries Live) : entryValues (keyed l) = l.mapValues value := by
  induction l with
  | nil => rfl
  | cons e l ih =>
    obtain ⟨k, x⟩ := e
    rw [keyed_cons, entryValues, ih]
    rfl

/-- A live map with texts as keys, each of them once, reads as the map of what its parts read as. -/
theorem value_map (mark : Nat) (h : l.keys.Nodup) :
    (map mark (keyed l)).value = .map (l.mapValues value) := by
  rw [value, entryValues_keyed, Entries.ofPairs_eq_self]
  rwa [Entries.keys_mapValues]

/-! ### Proper values -/

/-- A live value as states hold them: its keys are texts, and every map has a key once. -/
inductive Proper : Live → Prop
  | plain {v : Value} (h : v.isAtom = true) : Proper (plain v)
  | notANumber (mark : Nat) : Proper (notANumber mark)
  | foreign (mark : Nat) (shown : String) : Proper (foreign mark shown)
  | list (mark : Nat) {items : List Live} (h : ∀ x ∈ items, Proper x) : Proper (list mark items)
  | map (mark : Nat) {l : Entries Live} (hkeys : l.keys.Nodup) (h : ∀ e ∈ l, Proper e.2) :
    Proper (map mark (keyed l))

theorem Proper.exists_keyed {mark : Nat} {entries : List (Live × Live)}
    (h : (Live.map mark entries).Proper) :
    ∃ l : Entries Live, entries = keyed l ∧ l.keys.Nodup ∧ ∀ e ∈ l, e.2.Proper := by
  cases h with
  | map _ hkeys h => exact ⟨_, rfl, hkeys, h⟩

theorem Proper.of_keyed {mark : Nat} {l : Entries Live} (h : (Live.map mark (keyed l)).Proper) :
    l.keys.Nodup ∧ ∀ e ∈ l, e.2.Proper := by
  obtain ⟨l', heq, hl⟩ := h.exists_keyed
  rwa [keyed_injective heq]

/-! ### Live values that are made of plain ones -/

section OfValue

variable {shared : Bool}

theorem ofValue_map {next : Nat} {entries : List (String × Value)}
    (h : (ofEntries shared (next + 1) entries).1 = keyed l) :
    (ofValue shared next (.map entries)).1 = map next (keyed (.ofPairs l)) := by
  have hvalue : (ofValue shared next (.map entries)).1 =
      map next (overlay (keyed []) (ofEntries shared (next + 1) entries).1) := by
    rw [ofValue]
    rfl
  rw [hvalue, h, overlay_keyed]
  rfl

mutual

/-- A live value that is made of a plain one is proper. -/
theorem proper_ofValue (next : Nat) (v : Value) : (ofValue shared next v).1.Proper := by
  cases v with
  | list items => exact .list next (proper_ofValues (next + 1) items)
  | map entries =>
    obtain ⟨l, hl, hproper⟩ := proper_ofEntries (next + 1) entries
    rw [ofValue_map hl]
    exact .map next (Entries.nodup_keys_ofPairs l)
      (Entries.forall_mem_overlay (m := []) (fun _ he => by cases he) hproper)
  | float x =>
    rw [ofValue]
    split
    · exact .notANumber _
    · rename_i h
      exact .plain (by simpa [Value.isAtom] using h)
  | foreign shown => exact .foreign next shown
  | _ => exact .plain rfl

theorem proper_ofValues (next : Nat) (items : List Value) :
    ∀ x ∈ (ofValues shared next items).1, x.Proper := by
  cases items with
  | nil => intro x hx; cases hx
  | cons v items =>
    intro x hx
    rw [ofValues] at hx
    rcases List.mem_cons.mp hx with rfl | hx
    · exact proper_ofValue next v
    · exact proper_ofValues _ items x hx

theorem proper_ofEntries (next : Nat) (entries : List (String × Value)) :
    ∃ l : Entries Live, (ofEntries shared next entries).1 = keyed l ∧ ∀ e ∈ l, e.2.Proper := by
  cases entries with
  | nil => exact ⟨[], rfl, fun _ he => by cases he⟩
  | cons e entries =>
    obtain ⟨k, v⟩ := e
    obtain ⟨l, hl, hproper⟩ := proper_ofEntries (ofValue shared next v).2 entries
    refine ⟨(k, (ofValue shared next v).1) :: l, by rw [ofEntries, keyed_cons, ← hl], ?_⟩
    intro e he
    rcases List.mem_cons.mp he with rfl | he
    · exact proper_ofValue next v
    · exact hproper e he

end

mutual

/-- What a live value reads as that is made of a plain one. -/
theorem value_ofValue (next : Nat) (v : Value) : (ofValue shared next v).1.value = v.held := by
  cases v with
  | list items => rw [ofValue, value, held, values_ofValues]
  | map entries =>
    obtain ⟨l, hl, -⟩ := proper_ofEntries (next + 1) entries
    have hvalues := entryValues_ofEntries (next + 1) entries
    rw [hl, entryValues_keyed] at hvalues
    rw [ofValue_map hl, value_map _ (Entries.nodup_keys_ofPairs l), Entries.mapValues_ofPairs,
      hvalues, held]
  | float x =>
    rw [ofValue, held]
    split <;> rfl
  | _ => rfl

theorem values_ofValues (next : Nat) (items : List Value) :
    values (ofValues shared next items).1 = heldItems items := by
  cases items with
  | nil => rfl
  | cons v items => rw [ofValues, values, heldItems, value_ofValue, values_ofValues]

theorem entryValues_ofEntries (next : Nat) (entries : List (String × Value)) :
    entryValues (ofEntries shared next entries).1 = heldEntries entries := by
  cases entries with
  | nil => rfl
  | cons e entries =>
    obtain ⟨k, v⟩ := e
    rw [ofEntries, entryValues, heldEntries, value_ofValue, entryValues_ofEntries]
    rfl

end

end OfValue

/-! ### Copies -/

mutual

/-- A copy reads as what it was copied from. -/
theorem value_copy (next : Nat) (x : Live) : (copy next x).1.value = x.value := by
  cases x with
  | list mark items => rw [copy, value, value, values_copyItems]
  | map mark entries => rw [copy, value, value, entryValues_copyEntries]
  | _ => rfl

theorem values_copyItems (next : Nat) (items : List Live) :
    values (copyItems next items).1 = values items := by
  cases items with
  | nil => rfl
  | cons x items => rw [copyItems, values, values, value_copy, values_copyItems]

theorem entryValues_copyEntries (next : Nat) (entries : List (Live × Live)) :
    entryValues (copyEntries next entries).1 = entryValues entries := by
  cases entries with
  | nil => rfl
  | cons e entries =>
    obtain ⟨k, x⟩ := e
    rw [copyEntries, entryValues, entryValues, value_copy, value_copy, entryValues_copyEntries]

end

theorem forall_mem_copyItems {P : Live → Prop} {items : List Live}
    (h : ∀ x ∈ items, ∀ next, P (copy next x).1) (next : Nat) :
    ∀ x ∈ (copyItems next items).1, P x := by
  induction items generalizing next with
  | nil =>
    intro x hx
    cases hx
  | cons y items ih =>
    intro x hx
    rw [copyItems] at hx
    rcases List.mem_cons.mp hx with rfl | hx
    · exact h y List.mem_cons_self next
    · exact ih (fun x hx => h x (List.mem_cons_of_mem _ hx)) _ x hx

/-- The keys of an object are texts, which are their own copies. -/
theorem exists_copyEntries_keyed {P : Live → Prop} {l : Entries Live}
    (h : ∀ e ∈ l, ∀ next, P (copy next e.2).1) (next : Nat) :
    ∃ l' : Entries Live, (copyEntries next (keyed l)).1 = keyed l' ∧ l'.keys = l.keys ∧
      ∀ e ∈ l', P e.2 := by
  induction l generalizing next with
  | nil => exact ⟨[], rfl, rfl, fun _ he => by cases he⟩
  | cons e l ih =>
    obtain ⟨k, y⟩ := e
    obtain ⟨l', hl', hkeys, hcopied⟩ :=
      ih (fun e he => h e (List.mem_cons_of_mem _ he)) (copy next y).2
    refine ⟨(k, (copy next y).1) :: l', ?_, ?_, List.forall_mem_cons.mpr ⟨?_, hcopied⟩⟩
    · rw [keyed_cons, keyed_cons, copyEntries, ← hl']
      rfl
    · rw [Entries.keys_cons, Entries.keys_cons, hkeys]
    · exact h (k, y) List.mem_cons_self next

/-- A copy of a proper value is proper. -/
theorem proper_copy (h : x.Proper) (next : Nat) : (copy next x).1.Proper := by
  induction h generalizing next with
  | plain h => exact .plain h
  | notANumber mark => exact .notANumber mark
  | foreign mark shown => exact .foreign next shown
  | list mark h ih => exact .list next (forall_mem_copyItems ih (next + 1))
  | @map mark l hkeys h ih =>
    obtain ⟨l', hl', hkeys', hproper⟩ := exists_copyEntries_keyed ih (next + 1)
    have hcopy : (copy next (Live.map mark (keyed l))).1 =
        Live.map next (copyEntries (next + 1) (keyed l)).1 := by
      rw [copy]
    rw [hcopy, hl']
    exact .map next (hkeys' ▸ hkeys) hproper

/-- A map with the entries of another one set on top is proper if both are. -/
theorem proper_overlay {mark other : Nat} {entries given : List (Live × Live)}
    (h : (Live.map mark entries).Proper) (hgiven : (Live.map other given).Proper) :
    (Live.map other (overlay entries given)).Proper := by
  obtain ⟨l, rfl, hkeys, hl⟩ := h.exists_keyed
  obtain ⟨m, rfl, -, hm⟩ := hgiven.exists_keyed
  rw [overlay_keyed]
  exact .map other (Entries.nodup_keys_overlay hkeys) (Entries.forall_mem_overlay hl hm)

/-! ### What proper values read as -/

theorem heldItems_values {items : List Live} (h : ∀ x ∈ items, x.value.held = x.value) :
    heldItems (values items) = values items := by
  induction items with
  | nil => rfl
  | cons x items ih =>
    rw [values, heldItems, h x List.mem_cons_self, ih fun x hx => h x (List.mem_cons_of_mem _ hx)]

theorem heldEntries_eq_self {m : Entries Value} (h : ∀ e ∈ m, e.2.held = e.2) :
    heldEntries m = m := by
  induction m with
  | nil => rfl
  | cons e m ih =>
    obtain ⟨k, v⟩ := e
    rw [heldEntries, h _ List.mem_cons_self, ih fun e he => h e (List.mem_cons_of_mem _ he)]

/-- A map that has every key once, and values that read as what they are, does so itself. -/
theorem held_map {m : Entries Value} (hkeys : m.keys.Nodup) (h : ∀ e ∈ m, e.2.held = e.2) :
    (Value.map m).held = .map m := by
  rw [held, heldEntries_eq_self h, Entries.ofPairs_eq_self hkeys]

/-- What a proper value reads as is lost no further when it is held again. -/
theorem Proper.held_value (h : x.Proper) : x.value.held = x.value := by
  induction h with
  | plain h => exact Value.held_of_isAtom h
  | notANumber mark =>
    show held (.float (0.0 / 0.0)) = _
    rw [held, ite_self]
    rfl
  | foreign mark shown => rfl
  | list mark h ih => rw [value, held, heldItems_values ih]
  | map mark hkeys h ih =>
    rw [value_map mark hkeys]
    refine held_map (by rwa [Entries.keys_mapValues]) fun e he => ?_
    obtain ⟨d, hd, rfl⟩ := List.mem_map.mp he
    exact ih d hd

/-- The entries of a map that a proper value reads as. -/
theorem Proper.entries_of_value {m : Entries Value} (h : x.Proper) (hm : x.value = .map m) :
    ∃ mark l, x = .map mark (keyed l) ∧ m = l.mapValues value ∧ m.keys.Nodup ∧
      ∀ e ∈ m, e.2.held = e.2 := by
  cases h with
  | @plain v h =>
    rw [show v = .map m from hm] at h
    cases h
  | @map mark l hkeys h =>
    rw [value_map mark hkeys] at hm
    obtain rfl := Value.map.inj hm
    refine ⟨mark, l, rfl, rfl, by rwa [Entries.keys_mapValues], fun e he => ?_⟩
    obtain ⟨d, hd, rfl⟩ := List.mem_map.mp he
    exact (h d hd).held_value
  | list => rw [value] at hm; cases hm
  | notANumber => cases hm
  | foreign => cases hm

theorem expressedItems_eq {items : List Live}
    (h : ∀ x ∈ items, x.expressed =
      if x.value.isExpressible then .ok x.value else .error (.notEncodable "Opaque")) :
    expressedItems items = if Value.allExpressible (values items) then
      .ok (values items) else .error (.notEncodable "Opaque") := by
  induction items with
  | nil => rfl
  | cons x items ih =>
    rw [expressedItems, h x List.mem_cons_self, ih fun x hx => h x (List.mem_cons_of_mem _ hx),
      values, Value.allExpressible]
    cases x.value.isExpressible <;> cases Value.allExpressible (values items) <;> rfl

theorem expressedEntries_eq {l : Entries Live}
    (h : ∀ e ∈ l, e.2.expressed =
      if e.2.value.isExpressible then .ok e.2.value else .error (.notEncodable "Opaque")) :
    expressedEntries (keyed l) = if Value.entriesExpressible (l.mapValues value) then
      .ok (l.mapValues value) else .error (.notEncodable "Opaque") := by
  induction l with
  | nil => rfl
  | cons e l ih =>
    obtain ⟨k, x⟩ := e
    have hx : x.expressed = _ := h _ List.mem_cons_self
    show expressedEntries (keyed ((k, x) :: l)) =
      if x.value.isExpressible && Value.entriesExpressible (Entries.mapValues value l)
      then .ok ((k, x.value) :: Entries.mapValues value l) else _
    rw [keyed_cons, expressedEntries, hx, ih fun e he => h e (List.mem_cons_of_mem _ he)]
    cases x.value.isExpressible <;>
      cases Value.entriesExpressible (Entries.mapValues value l) <;> rfl

/-- What the store keeps of a proper value is what it reads as, if JSON can express it. -/
theorem Proper.expressed_eq (h : x.Proper) :
    x.expressed =
      if x.value.isExpressible then .ok x.value else .error (.notEncodable "Opaque") := by
  induction h with
  | @plain v h =>
    have hv : v.isExpressible = true := by
      cases v with
      | list | map | foreign => cases h
      | _ => rfl
    rw [expressed, value, if_pos hv]
  | notANumber mark => rfl
  | foreign mark shown => rfl
  | @list mark items h ih =>
    rw [expressed, value, expressedItems_eq ih, Value.isExpressible]
    split <;> rfl
  | @map mark l hkeys h ih =>
    rw [value_map mark hkeys, expressed, expressedEntries_eq ih, Value.isExpressible]
    split
    · exact congrArg _ (congrArg _ (Entries.ofPairs_eq_self (by rwa [Entries.keys_mapValues])))
    · rfl

/-! ### Equality -/

theorem sameEntries_keyed_iff :
    sameEntries (keyed l) (keyed m) = true ↔
      ∀ e ∈ l, ∃ y, m.get? e.1 = some y ∧ (identical e.2 y || e.2.same y) = true := by
  induction l with
  | nil => simp [sameEntries]
  | cons e l ih =>
    obtain ⟨k, x⟩ := e
    rw [keyed_cons, sameEntries, valueOf?_keyed, Bool.and_eq_true, ih, List.forall_mem_cons]
    cases m.get? k <;> simp

/-- Two live maps with texts as keys are equal if they have as many entries, and if every key of the
first has an equal value in the second. -/
theorem same_map_iff {mark other : Nat} :
    (map mark (keyed l)).same (map other (keyed m)) = true ↔
      l.length = m.length ∧
        ∀ e ∈ l, ∃ y, m.get? e.1 = some y ∧ (identical e.2 y || e.2.same y) = true := by
  rw [same, length_keyed, length_keyed, Bool.and_eq_true, beq_iff_eq, sameEntries_keyed_iff]

/-- Only the text itself is equal to a text. -/
theorem same_ofText_iff {s : String} : x.same (ofText s) = true ↔ x = ofText s := by
  cases x with
  | plain v =>
    cases v with
    | text t => simp [ofText, same, Value.same]
    | _ => simp [ofText, same, Value.same, Value.sameNumber, Value.number?, Value.isNull]
  | _ => simp [ofText, same]

/-- Where two live maps are equal, a text in the second stands in the first as well, and so does a
key that has none. -/
theorem get?_of_same_map {mark other : Nat} (hl : l.keys.Nodup)
    (h : (map mark (keyed l)).same (map other (keyed m)) = true)
    (htext : ∀ y, m.get? key = some y → ∃ s, y = ofText s) : l.get? key = m.get? key := by
  obtain ⟨hlength, hentries⟩ := same_map_iff.mp h
  have hkeys : l.keys ⊆ m.keys := by
    intro k hk
    obtain ⟨⟨k, x⟩, he, rfl⟩ := List.mem_map.mp hk
    obtain ⟨y, hy, -⟩ := hentries _ he
    by_contra hnot
    rw [Entries.get?_eq_none_iff.mpr hnot] at hy
    cases hy
  -- The keys of the second map are those of the first, because there are not more of them.
  have hperm : l.keys.Perm m.keys := by
    refine (List.subperm_of_subset hl hkeys).perm_of_length_le ?_
    unfold Entries.keys
    rw [List.length_map, List.length_map]
    exact Nat.le_of_eq hlength.symm
  cases hx : l.get? key with
  | none =>
    rw [Entries.get?_eq_none_iff, hperm.mem_iff, ← Entries.get?_eq_none_iff] at hx
    rw [hx]
  | some x =>
    obtain ⟨y, hy, heq⟩ := hentries _ (Entries.mem_of_get? hx)
    obtain ⟨s, rfl⟩ := htext y hy
    rw [hy]
    rcases Bool.or_eq_true_iff.mp heq with hidentical | hsame
    · cases x <;> cases hidentical
    · exact congrArg some (same_ofText_iff.mp hsame)

end Live

/-- What a value reads as once it is held is held as it is. -/
theorem Value.held_held (v : Value) : v.held.held = v.held := by
  have hproper : (Live.ofValue false 0 v).1.Proper := Live.proper_ofValue 0 v
  have hheld := hproper.held_value
  rwa [Live.value_ofValue] at hheld

end CommandShell
