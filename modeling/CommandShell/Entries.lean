/-!
# Ordered entries

A map from texts that remembers the order in which its keys were first given.  Giving a key again
changes its value and keeps its place.

## Main definitions

* `Entries`: the entries of a map, in order.
* `Entries.get?`, `Entries.insert`, `Entries.erase`: one key at a time.
* `Entries.overlay`: all entries of a second map given on top of a first.
-/

namespace CommandShell

/-- The entries of a map, in the order in which their keys were first given. -/
abbrev Entries (α : Type) := List (String × α)

namespace Entries

variable {α : Type}

/-- The value of a key. -/
def get? : Entries α → String → Option α
  | [], _ => none
  | (k, v) :: rest, key => if k = key then some v else get? rest key

/-- Whether a key has a value. -/
def has (m : Entries α) (key : String) : Bool :=
  (m.get? key).isSome

/-- The keys in order. -/
def keys (m : Entries α) : List String :=
  m.map (·.1)

/-- The entries with a value for a key: in the key's place if it has one, else at the end. -/
def insert : Entries α → String → α → Entries α
  | [], key, value => [(key, value)]
  | (k, v) :: rest, key, value =>
    if k = key then (k, value) :: rest else (k, v) :: insert rest key value

/-- The entries without a key. -/
def erase (m : Entries α) (key : String) : Entries α :=
  m.filter fun e => e.1 ≠ key

/-- The entries of `m` with those of `n` given on top. -/
def overlay (m n : Entries α) : Entries α :=
  n.foldl (fun acc e => acc.insert e.1 e.2) m

/-- The map that a list of pairs builds when its pairs are given one after another. -/
def ofPairs (pairs : List (String × α)) : Entries α :=
  overlay [] pairs

@[simp] theorem get?_nil (key : String) : get? ([] : Entries α) key = none := rfl

theorem get?_cons (k : String) (v : α) (rest : Entries α) (key : String) :
    get? ((k, v) :: rest) key = if k = key then some v else get? rest key := rfl

/-- A key that was given has the value last given, and the others keep theirs. -/
theorem get?_insert (m : Entries α) (key : String) (value : α) (other : String) :
    (m.insert key value).get? other = if key = other then some value else m.get? other := by
  induction m with
  | nil => simp [insert, get?_cons]
  | cons e rest ih =>
    obtain ⟨k, v⟩ := e
    by_cases hk : k = key
    · subst hk
      by_cases ho : k = other <;> simp [insert, get?_cons, ho]
    · by_cases ho : k = other
      · subst ho
        simp [insert, get?_cons, hk, Ne.symm hk]
      · simp [insert, get?_cons, hk, ho, ih]

@[simp] theorem keys_nil : keys ([] : Entries α) = [] := rfl

@[simp] theorem keys_cons (k : String) (v : α) (m : Entries α) :
    keys ((k, v) :: m) = k :: m.keys := rfl

section Keys

variable {m : Entries α} {key : String} {v : α}

theorem insert_of_notMem (h : key ∉ m.keys) : m.insert key v = m ++ [(key, v)] := by
  induction m with
  | nil => rfl
  | cons e m ih =>
    obtain ⟨k, w⟩ := e
    rw [keys_cons, List.mem_cons, not_or] at h
    rw [insert, if_neg (Ne.symm h.1), ih h.2, List.cons_append]

theorem keys_insert_of_mem (h : key ∈ m.keys) : (m.insert key v).keys = m.keys := by
  induction m with
  | nil => cases h
  | cons e m ih =>
    obtain ⟨k, w⟩ := e
    rw [insert]
    split
    · rfl
    · rename_i hk
      rw [keys_cons, List.mem_cons] at h
      rw [keys_cons, keys_cons, ih (h.resolve_left (Ne.symm hk))]

theorem nodup_keys_insert (h : m.keys.Nodup) : (m.insert key v).keys.Nodup := by
  by_cases hk : key ∈ m.keys
  · rwa [keys_insert_of_mem hk]
  · rw [insert_of_notMem hk]
    unfold keys at *
    rw [List.map_append, List.nodup_append]
    refine ⟨h, by simp, ?_⟩
    rintro a ha b hb rfl
    rw [List.map_singleton, List.mem_singleton] at hb
    rw [hb] at ha
    exact hk ha

theorem nodup_keys_erase (h : m.keys.Nodup) : (m.erase key).keys.Nodup :=
  h.sublist (List.filter_sublist.map _)

end Keys

@[simp] theorem overlay_nil (m : Entries α) : m.overlay [] = m := rfl

@[simp] theorem overlay_cons (m : Entries α) (k : String) (v : α) (rest : Entries α) :
    m.overlay ((k, v) :: rest) = (m.insert k v).overlay rest := rfl

end Entries

end CommandShell
