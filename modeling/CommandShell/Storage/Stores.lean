import CommandShell.Entries
import CommandShell.Value.Json.Encoder

/-!
# Key-value stores that keep JSON texts

A store keeps the JSON text of every value, so that it shares nothing with those who pass it values
and are given them.  One store holds the texts in memory.  The other one holds them in the table of
a database, where every change is a transaction; what the database does is taken as given.

## Main definitions

* `Store`: the accesses to a key-value store.
* `Store.memory`: the store that holds its texts in memory.
* `Database`: what a database does with a table of texts.
* `Database.transaction`: some statements as a transaction.
* `Store.database`: the store that holds its texts in a database.
* `KeyedTable.database`: a database whose rows are held in memory.
-/

namespace CommandShell

/-- The accesses to a key-value store that has states of type `σ`. -/
structure Store (σ : Type) where
  /-- The state of a store that nothing was done to yet. -/
  empty : σ
  /-- The value under a key; the absent value stands for none. -/
  get : σ → String → Except Json.ReadError Value
  /-- Puts a value under a key, and tells whether that was refused. -/
  set : σ → String → Value → Except Json.WriteError Unit × σ
  /-- Removes a key; a key that is missing is ignored. -/
  delete : σ → String → σ
  /-- The keys in order. -/
  keys : σ → List String

namespace Store

variable {σ : Type}

/-- A value under a key, unless it is refused. -/
def put (S : Store σ) (s : σ) (e : String × Value) : Except Json.WriteError σ :=
  let (r, s) := S.set s e.1 e.2
  r.map fun _ => s

/-- A store with some values from the start. -/
def filled (S : Store σ) (initial : Entries Value) : Except Json.WriteError σ :=
  initial.foldlM S.put S.empty

/-- The value of a text that a store holds, if it holds one. -/
def readBack : Option String → Except Json.ReadError Value
  | none => .ok .null
  | some text => Json.read text

/-- The store that holds its texts in memory. -/
def memory : Store (Entries String) where
  empty := []
  get m key := readBack (m.get? key)
  set m key v :=
    match Json.encode v with
    | .ok text => (.ok (), m.insert key text)
    | .error e => (.error e, m)
  delete m key := m.erase key
  keys m := m.keys.mergeSort fun a b => a ≤ b

end Store

/-- What a database does with a table that has a text for each key. -/
structure Database (σ : Type) where
  /-- The database when the table has just been set up. -/
  opened : σ
  /-- Inserts a row, or changes the text of the row that the key has already. -/
  upsert : σ → String → String → σ
  /-- Deletes the row of a key. -/
  delete : σ → String → σ
  /-- The text of a key's row. -/
  select : σ → String → Option String
  /-- The keys of all rows, in the order of the database. -/
  keys : σ → List String
  /-- Ends a transaction and keeps what it did. -/
  commit : σ → σ
  /-- Ends a transaction and takes back what it did. -/
  rollback : σ → σ

namespace Database

variable {σ ε : Type}

/-- Some statements as a transaction: when they fail, what they did is taken back. -/
def transaction (D : Database σ) (statements : σ → Except ε Unit × σ) (s : σ) :
    Except ε Unit × σ :=
  match statements s with
  | (.ok (), s) => (.ok (), D.commit s)
  | (.error e, s) => (.error e, D.rollback s)

/-- The statement that puts the text of a value under a key, if there is one. -/
def upsertEncoded (D : Database σ) (key : String) (v : Value) (s : σ) :
    Except Json.WriteError Unit × σ :=
  match Json.encode v with
  | .ok text => (.ok (), D.upsert s key text)
  | .error e => (.error e, s)

/-- The statement that deletes the row of a key, which does not fail. -/
def deleteRow (D : Database σ) (key : String) (s : σ) : Except Empty Unit × σ :=
  (.ok (), D.delete s key)

end Database

/-- The store that holds its texts in a database. -/
def Store.database {σ : Type} (D : Database σ) : Store σ where
  empty := D.opened
  get s key := readBack (D.select s key)
  set s key v := D.transaction (D.upsertEncoded key v) s
  delete s key := (D.transaction (D.deleteRow key) s).2
  keys := D.keys

/-! ### A database in memory -/

/-- The bytes of a key, by which a database compares it. -/
def keyBytes (key : String) : List UInt8 :=
  key.toUTF8.data.toList

/-- The rows of a table: there is one for each key. -/
structure Rows where
  /-- The texts by key. -/
  texts : Entries String
  /-- The key is the primary one. -/
  nodup : texts.keys.Nodup

namespace Rows

/-- No rows. -/
def empty : Rows := ⟨[], by simp⟩

/-- The rows with a text for a key. -/
def upsert (r : Rows) (key text : String) : Rows :=
  ⟨r.texts.insert key text, Entries.nodup_keys_insert r.nodup⟩

/-- The rows without a key. -/
def delete (r : Rows) (key : String) : Rows :=
  ⟨r.texts.erase key, Entries.nodup_keys_erase r.nodup⟩

end Rows

/-- A table that is held in memory. -/
structure KeyedTable where
  /-- The rows as of the last transaction that was kept. -/
  committed : Rows := .empty
  /-- The rows with what was done since then. -/
  working : Rows := .empty

/-- The database of a table that is held in memory. -/
def KeyedTable.database : Database KeyedTable where
  opened := {}
  upsert t key text := { t with working := t.working.upsert key text }
  delete t key := { t with working := t.working.delete key }
  select t key := t.working.texts.get? key
  keys t := t.working.texts.keys.mergeSort fun a b => keyBytes a ≤ keyBytes b
  commit t := { t with committed := t.working }
  rollback t := { t with working := t.committed }

end CommandShell
