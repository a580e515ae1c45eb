import CommandShell.Entries
import Mathlib.Data.List.Nodup

/-!
# Ordered entries: keys and values

Entries that are given one after another have every key once, whatever is given; where every key is
given once, they are what was given.  A change of all values goes through every operation.

## Main definitions

* `Entries.mapValues`: the entries with their values changed.

## Main results

* `Entries.nodup_keys_overlay`: entries given on top leave every key once.
* `Entries.ofPairs_eq_self`: entries that have every key once are what their pairs build.
* `Entries.mapValues_overlay`: values may be changed before or after.
* `Entries.keys_prefix_overlay`: keys that were there keep their places.
* `Entries.ext_get?`: entries with the same keys and values are the same.
* `Entries.perm_of_get?`: entries with the same values are the same in some order.
* `pairwise_sortedBy`: what is sorted by a key comes in the order of the keys.
-/

namespace CommandShell

/-- What is sorted by a key comes in the order of the keys. -/
theorem pairwise_sortedBy {α β : Type} [LE β] [DecidableLE β]
    (htrans : ∀ {a b c : β}, a ≤ b → b ≤ c → a ≤ c) (htotal : ∀ a b : β, a ≤ b ∨ b ≤ a)
    (key : α → β) (l : List α) :
    (l.mergeSort fun x y => key x ≤ key y).Pairwise fun x y => key x ≤ key y := by
  refine (List.pairwise_mergeSort ?_ ?_ l).imp of_decide_eq_true
  · intro x y z hxy hyz
    exact decide_eq_true (htrans (of_decide_eq_true hxy) (of_decide_eq_true hyz))
  · intro x y
    simpa using htotal (key x) (key y)

namespace Entries

variable {α β : Type} {m n : Entries α} {key other : String} {v : α}

/-- The entries with their values changed. -/
def mapValues (f : α → β) (m : Entries α) : Entries β :=
  m.map fun e => (e.1, f e.2)

/-! ### Keys -/

@[simp] theorem keys_mapValues (f : α → β) (m : Entries α) : (m.mapValues f).keys = m.keys := by
  unfold keys mapValues
  rw [List.map_map]
  rfl

theorem nodup_keys_overlay (h : m.keys.Nodup) : (m.overlay n).keys.Nodup := by
  induction n generalizing m with
  | nil => exact h
  | cons e n ih => exact ih (nodup_keys_insert h)

theorem nodup_keys_ofPairs (n : List (String × α)) : (ofPairs n).keys.Nodup :=
  nodup_keys_overlay List.nodup_nil

theorem overlay_eq_append (h : (m ++ n).keys.Nodup) : m.overlay n = m ++ n := by
  induction n generalizing m with
  | nil => rw [overlay_nil, List.append_nil]
  | cons e n ih =>
    obtain ⟨k, w⟩ := e
    have hk : k ∉ m.keys := by
      unfold keys at h ⊢
      rw [List.map_append, List.nodup_append] at h
      exact fun hm => h.2.2 k hm k List.mem_cons_self rfl
    have hassoc : m ++ (k, w) :: n = (m ++ [(k, w)]) ++ n := by simp
    rw [hassoc] at h ⊢
    rw [overlay_cons, insert_of_notMem hk, ih h]

/-- Entries that have every key once are what their pairs build. -/
theorem ofPairs_eq_self (h : m.keys.Nodup) : ofPairs m = m := by
  unfold ofPairs
  rw [overlay_eq_append (by rwa [List.nil_append]), List.nil_append]

theorem keys_prefix_insert (m : Entries α) (key : String) (v : α) :
    m.keys <+: (m.insert key v).keys := by
  by_cases h : key ∈ m.keys
  · exact ⟨[], by rw [List.append_nil, keys_insert_of_mem h]⟩
  · rw [insert_of_notMem h]
    unfold keys
    rw [List.map_append]
    exact List.prefix_append _ _

theorem keys_prefix_overlay (m n : Entries α) : m.keys <+: (m.overlay n).keys := by
  induction n generalizing m with
  | nil => exact List.prefix_refl _
  | cons e n ih => exact (keys_prefix_insert m e.1 e.2).trans (ih _)

theorem length_erase_lt (h : key ∈ m.keys) : (m.erase key).length < m.length := by
  obtain ⟨e, he, rfl⟩ := List.mem_map.mp h
  unfold erase
  rw [List.length_filter_lt_length_iff_exists]
  exact ⟨e, he, by simp⟩

/-! ### Values -/

theorem mem_of_get? (h : m.get? key = some v) : (key, v) ∈ m := by
  induction m with
  | nil => cases h
  | cons e m ih =>
    obtain ⟨k, w⟩ := e
    rw [get?_cons] at h
    split at h
    · rename_i hk
      rw [← hk, Option.some.inj h]
      exact List.mem_cons_self
    · exact List.mem_cons_of_mem _ (ih h)

theorem get?_eq_none_iff : m.get? key = none ↔ key ∉ m.keys := by
  induction m with
  | nil => simp
  | cons e m ih =>
    obtain ⟨k, w⟩ := e
    rw [get?_cons, keys_cons, List.mem_cons, not_or, ← ih]
    by_cases hk : k = key
    · simp [hk]
    · simp [hk, Ne.symm hk]

theorem has_iff : m.has key = true ↔ key ∈ m.keys := by
  unfold has
  rw [Option.isSome_iff_ne_none, ne_eq, get?_eq_none_iff, not_not]

@[simp] theorem get?_mapValues (f : α → β) (m : Entries α) (key : String) :
    (m.mapValues f).get? key = (m.get? key).map f := by
  induction m with
  | nil => rfl
  | cons e m ih =>
    obtain ⟨k, w⟩ := e
    show get? ((k, f w) :: mapValues f m) key = _
    rw [get?_cons, get?_cons, ih]
    split <;> rfl

theorem get?_erase (m : Entries α) (key other : String) :
    (m.erase key).get? other = if key = other then none else m.get? other := by
  induction m with
  | nil => simp [erase]
  | cons e m ih =>
    obtain ⟨k, w⟩ := e
    unfold erase at ih ⊢
    by_cases hk : k = key
    · subst hk
      rw [List.filter_cons_of_neg (by simp), ih, get?_cons]
      by_cases ho : k = other <;> simp [ho]
    · rw [List.filter_cons_of_pos (by simpa using hk), get?_cons, get?_cons, ih]
      by_cases ho : k = other
      · subst ho
        simp [Ne.symm hk]
      · simp [ho]

theorem forall_mem_insert {P : α → Prop} (h : ∀ e ∈ m, P e.2) (hv : P v) :
    ∀ e ∈ m.insert key v, P e.2 := by
  induction m with
  | nil =>
    intro e he
    rw [List.mem_singleton.mp he]
    exact hv
  | cons d m ih =>
    obtain ⟨k, w⟩ := d
    rw [insert]
    split
    · intro e he
      rcases List.mem_cons.mp he with rfl | he
      · exact hv
      · exact h e (List.mem_cons_of_mem _ he)
    · intro e he
      rcases List.mem_cons.mp he with rfl | he
      · exact h _ List.mem_cons_self
      · exact ih (fun e he => h e (List.mem_cons_of_mem _ he)) e he

theorem forall_mem_overlay {P : α → Prop} (h : ∀ e ∈ m, P e.2) (hn : ∀ e ∈ n, P e.2) :
    ∀ e ∈ m.overlay n, P e.2 := by
  induction n generalizing m with
  | nil => exact h
  | cons d n ih =>
    exact ih (forall_mem_insert h (hn d List.mem_cons_self))
      fun e he => hn e (List.mem_cons_of_mem _ he)

theorem get?_overlay_of_notMem (h : key ∉ n.keys) : (m.overlay n).get? key = m.get? key := by
  induction n generalizing m with
  | nil => rfl
  | cons e n ih =>
    obtain ⟨k, w⟩ := e
    rw [keys_cons, List.mem_cons, not_or] at h
    rw [overlay_cons, ih h.2, get?_insert, if_neg (Ne.symm h.1)]

/-- A key that is given on top has one of the values that it is given. -/
theorem exists_get?_overlay_of_mem (h : key ∈ n.keys) :
    ∃ v, (key, v) ∈ n ∧ (m.overlay n).get? key = some v := by
  induction n generalizing m with
  | nil => cases h
  | cons e n ih =>
    obtain ⟨k, w⟩ := e
    rw [overlay_cons]
    by_cases hn : key ∈ keys n
    · obtain ⟨v, hv, hget⟩ := ih (m := m.insert k w) hn
      exact ⟨v, List.mem_cons_of_mem _ hv, hget⟩
    · rw [keys_cons, List.mem_cons, or_iff_left hn] at h
      subst h
      exact ⟨w, List.mem_cons_self, by rw [get?_overlay_of_notMem hn, get?_insert, if_pos rfl]⟩

/-- Maps with the same keys in the same order, and the same values for them, are the same. -/
theorem ext_get? (hkeys : m.keys = n.keys) (hm : m.keys.Nodup)
    (h : ∀ key, m.get? key = n.get? key) : m = n := by
  induction m generalizing n with
  | nil => exact (List.map_eq_nil_iff.mp hkeys.symm).symm
  | cons e m ih =>
    obtain ⟨k, v⟩ := e
    cases n with
    | nil => cases hkeys
    | cons e' n =>
      obtain ⟨k', v'⟩ := e'
      obtain ⟨rfl, hrest⟩ := List.cons_eq_cons.mp hkeys
      rw [keys_cons, List.nodup_cons] at hm
      have hfirst := h k
      rw [get?_cons, get?_cons, if_pos rfl, if_pos rfl] at hfirst
      rw [Option.some.inj hfirst, ih hrest hm.2 fun key => ?_]
      by_cases hk : k = key
      · subst hk
        have hn : k ∉ keys n := by
          rw [← show keys m = keys n from hrest]
          exact hm.1
        rw [get?_eq_none_iff.mpr hm.1, get?_eq_none_iff.mpr hn]
      · have hkey := h key
        rwa [get?_cons, get?_cons, if_neg hk, if_neg hk] at hkey

/-- Entries that have every key once have a value for a key just where it stands with the key. -/
theorem get?_eq_some_iff (hm : m.keys.Nodup) : m.get? key = some v ↔ (key, v) ∈ m := by
  refine ⟨mem_of_get?, fun h => ?_⟩
  induction m with
  | nil => cases h
  | cons e m ih =>
    obtain ⟨k, w⟩ := e
    rw [keys_cons, List.nodup_cons] at hm
    rw [get?_cons]
    rcases List.mem_cons.mp h with heq | h
    · obtain ⟨rfl, rfl⟩ := Prod.mk.inj heq
      rw [if_pos rfl]
    · have hne : k ≠ key := fun hk => hm.1 (hk ▸ List.mem_map.mpr ⟨_, h, rfl⟩)
      rw [if_neg hne, ih hm.2 h]

/-- Maps with the same values for all keys are the same up to the order of their entries. -/
theorem perm_of_get? (hm : m.keys.Nodup) (hn : n.keys.Nodup)
    (h : ∀ key, m.get? key = n.get? key) : m.Perm n := by
  refine (List.perm_ext_iff_of_nodup (.of_map _ hm) (.of_map _ hn)).mpr ?_
  rintro ⟨key, v⟩
  rw [← get?_eq_some_iff hm, ← get?_eq_some_iff hn, h]

theorem mapValues_insert (f : α → β) :
    (m.insert key v).mapValues f = (m.mapValues f).insert key (f v) := by
  induction m with
  | nil => rfl
  | cons e m ih =>
    obtain ⟨k, w⟩ := e
    show mapValues f (insert ((k, w) :: m) key v) = insert ((k, f w) :: mapValues f m) key (f v)
    rw [insert, insert]
    split
    · rfl
    · rw [← ih]
      rfl

theorem mapValues_erase (f : α → β) :
    (m.erase key).mapValues f = (m.mapValues f).erase key := by
  unfold mapValues erase
  rw [List.filter_map]
  rfl

theorem mapValues_overlay (f : α → β) (m n : Entries α) :
    (m.overlay n).mapValues f = (m.mapValues f).overlay (n.mapValues f) := by
  induction n generalizing m with
  | nil => rfl
  | cons e n ih =>
    obtain ⟨k, w⟩ := e
    rw [overlay_cons, ih, mapValues_insert]
    rfl

theorem mapValues_ofPairs (f : α → β) (n : List (String × α)) :
    (ofPairs n).mapValues f = ofPairs (mapValues f n) :=
  mapValues_overlay f [] n

end Entries

end CommandShell
