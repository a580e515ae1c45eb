import CommandShell.Proofs.Storage.KeyOrder
import CommandShell.Proofs.Storage.PlainMap
import CommandShell.Proofs.Value.Encoding
import CommandShell.Storage.KeyValue
import Mathlib.Data.List.Permutation

/-!
# The stores refine the plain map

A store that keeps texts belongs to the map of the values that these texts are read as.  That the
store in memory does is all about texts: a value is read back from the text that it is encoded as.
For the store in a database the rows must besides be those that a rollback leaves, which holds
between transactions, and their keys come in the order of their bytes.

## Main definitions

* `Value.Lasts`: a value is read back from the text that stores keep of it.
* `Database.Lawful`: what a database is relied on for.

## Main results

* `Database.select_transaction_error`: a transaction that fails leaves all rows as they were.
* `Store.refines_memory`, `Store.refines_database`: both stores refine the plain map.
* `KeyValueStore.accesses_eq_plain`: so does the store of a session for what is not refused.
* `Store.stores_run_as_plain_map`: a caller is told the same by both stores as by the plain map.
-/

namespace CommandShell

namespace Value

/-- The text that stores keep of a value. -/
def keptText (v : Value) : String :=
  String.ofList (Json.textAt .line 1 v)

/-- Whether a value is read back from the text that stores keep of it. -/
structure Lasts (v : Value) : Prop where
  read : Json.read v.keptText = .ok v
  held : v.held = v

/-- A held value is refused, or it lasts. -/
theorem encode_cases {v : Value} (h : v.held = v) :
    (∃ e, Json.encode v = .error e) ∨ Json.encode v = .ok v.keptText ∧ v.Lasts := by
  cases hencode : Json.encode v with
  | error e => exact Or.inl ⟨e, rfl⟩
  | ok text =>
    obtain ⟨-, rfl⟩ := Json.encode_eq_ok_iff.mp hencode
    have hread := Json.read_of_encode hencode
    rw [h] at hread
    exact Or.inr ⟨rfl, hread, h⟩

end Value

open Value (keptText)

variable {σ ε : Type} {D : Database σ} {s s' : σ} {m : Entries Value} {key : String}

theorem Store.readBack_get? (h : ∀ e ∈ m, e.2.Lasts) (key : String) :
    readBack ((m.get? key).map keptText) = plain.get m key := by
  show _ = Except.ok ((m.get? key).getD .null)
  cases hget : m.get? key with
  | none => rfl
  | some v => exact (h _ (Entries.mem_of_get? hget)).read

/-! ## The store in memory -/

/-- The texts in memory are those that are kept of the values of a map. -/
structure Store.InMemory (texts : Entries String) (m : Entries Value) : Prop where
  texts_eq : texts = m.mapValues keptText
  lasts : ∀ e ∈ m, e.2.Lasts

theorem Store.refines_memory : memory.Refines InMemory where
  empty := ⟨rfl, nofun⟩
  held h e he := (h.lasts e he).held
  get h key := by
    obtain ⟨rfl, hlasts⟩ := h
    show readBack (Entries.get? _ key) = _
    rw [Entries.get?_mapValues, readBack_get? hlasts]
  set h key v hv := by
    obtain ⟨rfl, hlasts⟩ := h
    rcases Value.encode_cases hv with ⟨e, he⟩ | ⟨hencode, hlast⟩
    · simp only [memory, plain, he]
      exact ⟨trivial, rfl, hlasts⟩
    · simp only [memory, plain, hencode]
      refine ⟨trivial, ?_, Entries.forall_mem_insert (P := Value.Lasts) hlasts hlast⟩
      rw [Entries.mapValues_insert]
  delete h key := by
    obtain ⟨rfl, hlasts⟩ := h
    exact ⟨(Entries.mapValues_erase keptText).symm, fun e he => hlasts e (List.mem_filter.mp he).1⟩
  keys h := by
    obtain ⟨rfl, -⟩ := h
    show (Entries.keys _).mergeSort _ = _
    rw [Entries.keys_mapValues]
    rfl

/-! ## The store in a database -/

namespace Database

/-- The text of a key's row that stays if nothing more is committed. -/
def saved (D : Database σ) (s : σ) (key : String) : Option String :=
  D.select (D.rollback s) key

/-- What a database is relied on for: a row for each key, transactions, and an order of keys. -/
structure Lawful (D : Database σ) : Prop where
  /-- The table is empty at first, -/
  select_opened : ∀ key, D.select D.opened key = none
  /-- and so it stays if nothing is committed. -/
  saved_opened : ∀ key, D.saved D.opened key = none
  /-- A row is inserted or changed for its key, and the others stay as they are. -/
  select_upsert : ∀ s key text other,
    D.select (D.upsert s key text) other = if key = other then some text else D.select s other
  /-- This is not committed yet. -/
  saved_upsert : ∀ s key text other, D.saved (D.upsert s key text) other = D.saved s other
  /-- The row of a key is deleted, and the others stay as they are. -/
  select_delete : ∀ s key other,
    D.select (D.delete s key) other = if key = other then none else D.select s other
  /-- This is not committed yet. -/
  saved_delete : ∀ s key other, D.saved (D.delete s key) other = D.saved s other
  /-- A commit leaves the rows as they are, -/
  select_commit : ∀ s key, D.select (D.commit s) key = D.select s key
  /-- and from then on they stay. -/
  saved_commit : ∀ s key, D.saved (D.commit s) key = D.select s key
  /-- A rollback leaves what stays as it is. -/
  saved_rollback : ∀ s key, D.saved (D.rollback s) key = D.saved s key
  /-- The keys are those that have a row. -/
  mem_keys : ∀ s key, key ∈ D.keys s ↔ (D.select s key).isSome = true
  /-- They come in the order of their bytes. -/
  keys_sorted : ∀ s, (D.keys s).Pairwise fun a b => keyBytes a < keyBytes b

/-- Whether a state is one between two transactions: a rollback leaves its rows as they are. -/
def Settled (D : Database σ) (s : σ) : Prop :=
  ∀ key, D.saved s key = D.select s key

/-- What statements make of a state, which is neither committed nor taken back. -/
inductive Pending (D : Database σ) (s : σ) : σ → Prop
  | none : Pending D s s
  | upsert {s' : σ} (h : Pending D s s') (key text : String) : Pending D s (D.upsert s' key text)
  | delete {s' : σ} (h : Pending D s s') (key : String) : Pending D s (D.delete s' key)

theorem Pending.saved_eq (hD : D.Lawful) (h : D.Pending s s') (key : String) :
    D.saved s' key = D.saved s key := by
  induction h with
  | none => rfl
  | upsert _ k text ih => rw [hD.saved_upsert, ih]
  | delete _ k ih => rw [hD.saved_delete, ih]

/-- A transaction that fails leaves all rows as they were, whatever was done in it. -/
theorem select_transaction_error (hD : D.Lawful) (hs : D.Settled s)
    {statements : σ → Except ε Unit × σ} {e : ε} (h : statements s = (.error e, s'))
    (hpending : D.Pending s s') :
    (D.transaction statements s).1 = .error e ∧ D.Settled (D.transaction statements s).2 ∧
      ∀ key, D.select (D.transaction statements s).2 key = D.select s key := by
  have hkept : ∀ key, D.select (D.rollback s') key = D.select s key := fun key =>
    (hpending.saved_eq hD key).trans (hs key)
  unfold transaction
  rw [h]
  exact ⟨rfl, hD.saved_rollback s', hkept⟩

/-- A transaction that succeeds leaves the rows as its statements do. -/
theorem select_transaction_ok (hD : D.Lawful) {statements : σ → Except ε Unit × σ}
    (h : statements s = (.ok (), s')) :
    (D.transaction statements s).1 = .ok () ∧ D.Settled (D.transaction statements s).2 ∧
      ∀ key, D.select (D.transaction statements s).2 key = D.select s' key := by
  unfold transaction
  rw [h]
  refine ⟨rfl, fun key => ?_, hD.select_commit s'⟩
  rw [hD.saved_commit, hD.select_commit]

end Database

/-- The rows of a database are the texts that are kept of the values of a map, and no transaction
is under way. -/
structure Store.InDatabase (D : Database σ) (s : σ) (m : Entries Value) : Prop where
  select_eq : ∀ key, D.select s key = (m.get? key).map keptText
  settled : D.Settled s
  nodup : m.keys.Nodup
  lasts : ∀ e ∈ m, e.2.Lasts

theorem Store.InDatabase.keys_eq (hD : D.Lawful) (h : InDatabase D s m) :
    D.keys s = plain.keys m := by
  refine eq_mergeSort_of_keyBytes (hD.keys_sorted s) h.nodup fun key => ?_
  rw [hD.mem_keys, h.select_eq, Option.isSome_map]
  exact Entries.has_iff

theorem Store.refines_database (hD : D.Lawful) : (database D).Refines (InDatabase D) where
  empty :=
    { select_eq := hD.select_opened
      settled := fun key => (hD.saved_opened key).trans (hD.select_opened key).symm
      nodup := List.nodup_nil
      lasts := nofun }
  held h e he := (h.lasts e he).held
  get h key := by
    show readBack (D.select _ key) = _
    rw [h.select_eq, readBack_get? h.lasts]
  set {s m} h key v hv := by
    -- A value that cannot be encoded fails before any row is written, here and in the plain map.
    rcases Value.encode_cases hv with ⟨e, he⟩ | ⟨hencode, hlast⟩
    · have hfails : D.upsertEncoded key v s = (.error e, s) := by
        rw [Database.upsertEncoded, he]
      have hset : plain.set m key v = (.error e, m) := by
        simp only [plain, he]
      obtain ⟨hanswer, hsettled, hselect⟩ :=
        Database.select_transaction_error hD h.settled hfails .none
      rw [hset]
      exact ⟨hanswer, fun other => (hselect other).trans (h.select_eq other), hsettled, h.nodup,
        h.lasts⟩
    · have hdone : D.upsertEncoded key v s = (.ok (), D.upsert s key v.keptText) := by
        rw [Database.upsertEncoded, hencode]
      have hset : plain.set m key v = (.ok (), m.insert key v) := by
        simp only [plain, hencode]
      obtain ⟨hanswer, hsettled, hselect⟩ := Database.select_transaction_ok hD hdone
      rw [hset]
      refine ⟨hanswer, fun other => ?_, hsettled, Entries.nodup_keys_insert h.nodup,
        Entries.forall_mem_insert (P := Value.Lasts) h.lasts hlast⟩
      refine (hselect other).trans ?_
      rw [hD.select_upsert, Entries.get?_insert, h.select_eq]
      split <;> rfl
  delete {s m} h key := by
    have hdone : D.deleteRow key s = (.ok (), D.delete s key) := rfl
    obtain ⟨-, hsettled, hselect⟩ := Database.select_transaction_ok hD hdone
    refine ⟨fun other => (hselect other).trans ?_, hsettled, Entries.nodup_keys_erase h.nodup,
      fun e he => h.lasts e (List.mem_filter.mp he).1⟩
    rw [hD.select_delete]
    show _ = (Entries.get? (m.erase key) other).map _
    rw [Entries.get?_erase, h.select_eq]
    split <;> rfl
  keys h := h.keys_eq hD

/-! ### A database in memory -/

/-- The database of a table that is held in memory can be relied on. -/
theorem KeyedTable.lawful_database : KeyedTable.database.Lawful where
  select_opened _ := rfl
  saved_opened _ := rfl
  select_upsert t key text other := Entries.get?_insert t.working.texts key text other
  saved_upsert _ _ _ _ := rfl
  select_delete t key other := Entries.get?_erase t.working.texts key other
  saved_delete _ _ _ := rfl
  select_commit _ _ := rfl
  saved_commit _ _ := rfl
  saved_rollback _ _ := rfl
  mem_keys t key := by
    show key ∈ List.mergeSort _ _ ↔ _
    rw [List.mem_mergeSort]
    exact Entries.has_iff.symm
  keys_sorted t := by
    have hpairs : (KeyedTable.database.keys t).Pairwise fun a b => keyBytes a ≤ keyBytes b :=
      pairwise_sortedBy List.le_trans List.le_total keyBytes _
    have hnodup : (KeyedTable.database.keys t).Nodup :=
      (List.mergeSort_perm _ _).nodup_iff.mpr t.working.nodup
    refine (hpairs.and hnodup).imp fun {a b} h => ?_
    rcases List.le_iff_lt_or_eq.mp h.1 with hlt | heq
    · exact hlt
    · exact absurd (keyBytes_injective heq) h.2

/-! ## The store of a session -/

/-- The store of a session, as long as it does not fail, is the plain map for all values that are
not refused. -/
theorem KeyValueStore.accesses_eq_plain {s : KeyValueStore} (hget : s.failsGet = false)
    (hset : s.failsSet = false) (key : String) :
    s.get key = .ok ((s.rows.get? key).getD .null) ∧
      (s.delete key).rows = Store.plain.delete s.rows key ∧ s.keys = Store.plain.keys s.rows ∧
      ∀ {v text}, Json.encode v = .ok text →
        (s.set key v).map rows = .ok (Store.plain.set s.rows key v).2 := by
  refine ⟨by simp [get, hget], rfl, rfl, fun {v text} hencode => ?_⟩
  have hexpressible := Json.isExpressible_of_refusal? (Json.encode_eq_ok_iff.mp hencode).1
  simp only [set, put, hset, hexpressible, Store.plain, hencode]
  rfl

/-! ## Both stores -/

/-- **Both stores are the plain map**: with whatever values a store starts, and whatever a caller
does with it and with the values that it passes and is given, it is told what the plain map from
texts to values tells. -/
theorem Store.stores_run_as_plain_map (hD : D.Lawful) (initial : Entries Value)
    (moves : List Move) :
    memory.run initial moves = plain.run initial moves ∧
      (database D).run initial moves = plain.run initial moves :=
  ⟨refines_memory.run_eq initial moves, (refines_database hD).run_eq initial moves⟩

/-- A caller that changes a list after it was kept, then passes a value that is refused under the
same key, is told the list as it was kept; the keys come in the order of their bytes. -/
theorem Store.database_runs_after_change :
    (database KeyedTable.database).run [("é", .null)]
        [.hold (.list [.int 1]), .set "b" 0, .keys, .change 0 (.foreign "x"), .set "b" 0, .get "b",
          .delete "é", .get "é", .keys] =
      .ok [.nothing, .nothing, .keys ["b", "é"], .nothing, .refused (.notEncodable "Opaque"),
        .value (.list [.int 1]), .nothing, .value .null, .keys ["b"]] := by
  refine (stores_run_as_plain_map KeyedTable.lawful_database _ _).2.trans ?_
  cbv

end CommandShell
