import CommandShell.Value.Json.Reader
import CommandShell.Value.Json.Writer
import CommandShell.Fault

/-!
# Key-value stores

Values under keys, as far as JSON can express them.  A store has a text, a JSON object, from which
it can be read again.

## Main definitions

* `Value.isExpressible`: whether JSON can express a value.
* `KeyValueStore`: the values, and which accesses fail.
* `KeyValueStore.get`, `KeyValueStore.set`, `KeyValueStore.delete`, `KeyValueStore.keys`: the
  accesses.
* `KeyValueStore.text`, `KeyValueStore.ofText?`: the text of a store, and the store of a text.
-/

namespace CommandShell

namespace Value

mutual

/-- Whether JSON can express a value. -/
def isExpressible : Value → Bool
  | foreign _ => false
  | list items => allExpressible items
  | map entries => entriesExpressible entries
  | _ => true

/-- Whether JSON can express all items of a list. -/
def allExpressible : List Value → Bool
  | [] => true
  | v :: rest => isExpressible v && allExpressible rest

/-- Whether JSON can express the values of all entries of a map. -/
def entriesExpressible : List (String × Value) → Bool
  | [] => true
  | (_, v) :: rest => isExpressible v && entriesExpressible rest

end

end Value

/-- Values under keys. -/
structure KeyValueStore where
  /-- The values; each of them can be expressed in JSON. -/
  rows : Entries Value := []
  /-- Whether reading fails. -/
  failsGet : Bool := false
  /-- Whether writing fails. -/
  failsSet : Bool := false

namespace KeyValueStore

/-- The value under a key; the absent value stands for none. -/
def get (s : KeyValueStore) (key : String) : Except Fault Value :=
  if s.failsGet then .error (.failure "storage offline") else .ok ((s.rows.get? key).getD .null)

/-- The store with a value under a key, which may turn out not to be expressible. -/
def put (s : KeyValueStore) (key : String) (v : Except Fault Value) :
    Except Fault KeyValueStore := do
  if s.failsSet then throw (.failure "storage full")
  return { s with rows := s.rows.insert key (← v) }

/-- The store with a value under a key. -/
def set (s : KeyValueStore) (key : String) (v : Value) : Except Fault KeyValueStore :=
  s.put key (if v.isExpressible then .ok v else .error (.notEncodable "Opaque"))

/-- The store with some values given one after another. -/
def setAll (s : KeyValueStore) (entries : Entries Value) : Except Fault KeyValueStore :=
  entries.foldlM (fun s e => s.set e.1 e.2) s

/-- The store without a key. -/
def delete (s : KeyValueStore) (key : String) : KeyValueStore :=
  { s with rows := s.rows.erase key }

/-- The keys in order. -/
def keys (s : KeyValueStore) : List String :=
  s.rows.keys.mergeSort fun a b => a ≤ b

/-- The values with their keys in order, whether reading fails or not. -/
def dump (s : KeyValueStore) : Entries Value :=
  s.keys.map fun k => (k, (s.rows.get? k).getD .null)

/-- The text of a store. -/
def text (s : KeyValueStore) : String :=
  Json.encodeShown (.map s.rows)

/-- The store of a text; no text at all is that of an empty one. -/
def ofText? (text : String) : Option KeyValueStore :=
  if text = "" then some {}
  else
    match Json.read text with
    | .ok (.map rows) => some { rows := rows }
    | _ => none

end KeyValueStore

end CommandShell
