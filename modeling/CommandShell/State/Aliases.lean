import CommandShell.Fault

/-!
# Alias tables

The aliases that commands are expanded with.  They come from a value: a map, or a list of pairs, in
which a later pair with an equal key replaces the value of an earlier one.

## Main definitions

* `AliasTable`: aliases with the values that they stand for.
* `AliasTable.ofValue`: the table that a value makes.
* `AliasTable.target?`: the value that an alias stands for.
-/

namespace CommandShell

/-- Aliases with the values that they stand for. -/
abbrev AliasTable := List (Value × Value)

namespace AliasTable

/-- The table with one more alias; an equal one keeps its place and gets the new value. -/
def insert : AliasTable → Value → Value → AliasTable
  | [], k, v => [(k, v)]
  | (l, w) :: rest, k, v => if l.same k then (l, v) :: rest else (l, w) :: insert rest k v

/-- The parts of an item that is to become an alias; a text has its characters as parts and a map
its keys. -/
def parts? : Value → Option (List Value)
  | .text s => some (s.toList.map fun c => .text c.toString)
  | .list items => some items
  | .map entries => some (entries.map fun e => .text e.1)
  | _ => none

/-- Whether a value can be a key. -/
def isKey : Value → Bool
  | .list _ | .map _ => false
  | _ => true

/-- The table with further items, the first of which has a given position. -/
def addItems (position : Nat) (table : AliasTable) : List Value → Except Fault AliasTable
  | [] => .ok table
  | item :: rest =>
    match parts? item with
    | none => .error (.notPair position)
    | some [k, v] =>
      if isKey k then addItems (position + 1) (table.insert k v) rest
      else .error (.unhashable k.kind)
    | some ps => .error (.pairLength position ps.length)

/-- The table that a value makes; whatever is empty makes an empty one. -/
def ofValue (v : Value) : Except Fault AliasTable :=
  if v.truthy then
    match v with
    | .map entries => .ok (entries.map fun e => (.text e.1, e.2))
    | .list items => addItems 0 [] items
    | .text s => addItems 0 [] (s.toList.map fun c => .text c.toString)
    | v => .error (.notIterable v.kind)
  else .ok []

/-- The value that an alias stands for. -/
def target? (table : AliasTable) (name : String) : Option Value :=
  (table.find? fun e => e.1.same (.text name)).map (·.2)

end AliasTable

end CommandShell
