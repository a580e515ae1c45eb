import CommandShell.Fault
import CommandShell.Value.Json.Writer

/-!
# Live values

A live value can be changed in place.  Each list and map in it carries a mark, and a change of the
container with a mark reaches every live value that holds that container.  Values that are not
numbers, and those that JSON cannot express, carry a mark as well, because they are equal to nothing
but themselves.  The keys of a live map are live values without parts.

## Main definitions

* `Live`: a value whose containers carry marks.
* `Live.value`: the plain value, whose keys are texts.
* `Live.expressed`: the plain value that JSON makes of a live one.
* `Live.ofValue`: a live value with fresh marks.
* `Live.copy`: a copy whose containers are its own.
* `Live.same`: equality, in which a container is equal to itself.
* `Live.item?`: a part of a live value.
* `Live.setItem`: a change of the container with a mark.
* `Live.marks`: the marks of the containers that a live value holds.
-/

namespace CommandShell

/-- A value whose containers carry marks. -/
inductive Live where
  /-- A value without parts. -/
  | plain (v : Value)
  /-- The floating-point value that is not a number. -/
  | notANumber (mark : Nat)
  /-- A value that JSON cannot express. -/
  | foreign (mark : Nat) (shown : String)
  /-- A list. -/
  | list (mark : Nat) (items : List Live)
  /-- A map. -/
  | map (mark : Nat) (entries : List (Live × Live))
deriving Inhabited

namespace Live

mutual

/-- The plain value of a live one; a key becomes the text that it is shown as, and of two keys with
one text the later counts. -/
def value : Live → Value
  | plain v => v
  | notANumber _ => .float (0.0 / 0.0)
  | foreign _ shown => .foreign shown
  | list _ items => .list (values items)
  | map _ entries => .map (Entries.ofPairs (entryValues entries))

/-- The plain values of some live ones. -/
def values : List Live → List Value
  | [] => []
  | x :: rest => value x :: values rest

/-- The plain entries of a map. -/
def entryValues : List (Live × Live) → List (String × Value)
  | [] => []
  | (k, x) :: rest => ((value k).shown, value x) :: entryValues rest

end

/-- The name of a live value's kind, as messages give it. -/
def kind (x : Live) : String :=
  x.value.kind

/-- A text as a live value. -/
def ofText (s : String) : Live :=
  plain (.text s)

/-! ### Live values as JSON -/

/-- The key that JSON makes of a live one. -/
def expressedKey : Live → Except Fault String
  | plain (.text s) => .ok s
  | plain .null => .ok "null"
  | plain (.bool b) => .ok (if b then "true" else "false")
  | plain (.int n) => .ok (toString n)
  | plain (.float x) => .ok (Json.jsonFloats.write x)
  | notANumber _ => .ok Json.jsonFloats.notANumber
  | x => .error (.notEncodableKey x.kind)

mutual

/-- The plain value that is read back from the JSON text of a live one, if all of it can be
expressed. -/
def expressed : Live → Except Fault Value
  | plain v => .ok v
  | notANumber _ => .ok (.float (0.0 / 0.0))
  | foreign _ shown => .error (.notEncodable (Value.foreign shown).kind)
  | list _ items => do return .list (← expressedItems items)
  | map _ entries => do return .map (Entries.ofPairs (← expressedEntries entries))

/-- The plain values that are read back from some live ones. -/
def expressedItems : List Live → Except Fault (List Value)
  | [] => .ok []
  | x :: rest => do return (← expressed x) :: (← expressedItems rest)

/-- The plain entries that are read back from those of a live map. -/
def expressedEntries : List (Live × Live) → Except Fault (List (String × Value))
  | [] => .ok []
  | (k, x) :: rest => do
    let key ← expressedKey k
    return (key, ← expressed x) :: (← expressedEntries rest)

end

/-! ### Marks and keys -/

/-- The mark that a live value carries. -/
def mark? : Live → Option Nat
  | plain _ => none
  | notANumber m => some m
  | foreign m _ => some m
  | list m _ => some m
  | map m _ => some m

/-- Whether two live values carry the same mark, and so are one. -/
def identical (x y : Live) : Bool :=
  match x.mark?, y.mark? with
  | some m, some n => m == n
  | _, _ => false

/-- Whether two live values without parts are the same key. -/
def sameKey (k l : Live) : Bool :=
  identical k l ||
    match k, l with
    | plain v, plain w => v.same w
    | _, _ => false

/-- The value of a key in the entries of a map. -/
def valueOf? (entries : List (Live × Live)) (key : Live) : Option Live :=
  (entries.find? fun e => sameKey e.1 key).map (·.2)

/-- The entries of a map with a part set under a key: in the key's place if it has one, else at the
end. -/
def setEntry : List (Live × Live) → Live → Live → List (Live × Live)
  | [], key, new => [(key, new)]
  | (k, x) :: rest, key, new =>
    if sameKey k key then (k, new) :: rest else (k, x) :: setEntry rest key new

/-- The entries of a map with those of another one set on top. -/
def overlay (entries given : List (Live × Live)) : List (Live × Live) :=
  given.foldl (fun entries e => setEntry entries e.1 e.2) entries

mutual

/-- The marks of the lists and maps that a live value holds. -/
def marks : Live → List Nat
  | list m items => m :: marksOfItems items
  | map m entries => m :: marksOfEntries entries
  | _ => []

/-- The marks in the items of a list. -/
def marksOfItems : List Live → List Nat
  | [] => []
  | x :: rest => marks x ++ marksOfItems rest

/-- The marks in the entries of a map, whose keys hold no containers. -/
def marksOfEntries : List (Live × Live) → List Nat
  | [] => []
  | (_, x) :: rest => marks x ++ marksOfEntries rest

end

theorem mem_marksOfItems_iff {m : Nat} {items : List Live} :
    m ∈ marksOfItems items ↔ ∃ x ∈ items, m ∈ x.marks := by
  induction items with
  | nil => simp [marksOfItems]
  | cons x items ih => simp [marksOfItems, ih]

theorem mem_marksOfEntries_iff {m : Nat} {entries : List (Live × Live)} :
    m ∈ marksOfEntries entries ↔ ∃ e ∈ entries, m ∈ e.2.marks := by
  induction entries with
  | nil => simp [marksOfEntries]
  | cons e entries ih => simp [marksOfEntries, ih]

/-- The value of a key holds no containers but those of its map. -/
theorem mem_marks_of_valueOf? {m : Nat} {entries : List (Live × Live)} {key x : Live}
    (h : valueOf? entries key = some x) (hm : m ∈ x.marks) : m ∈ marksOfEntries entries := by
  obtain ⟨e, he, rfl⟩ := Option.map_eq_some_iff.mp h
  exact mem_marksOfEntries_iff.mpr ⟨e, List.mem_of_find?_eq_some he, hm⟩

/-! ### Fresh marks -/

/-- The mark of values that are not numbers in snapshots, which all share one. -/
def snapshotMark : Nat := 0

mutual

/-- A value as a live one with fresh marks from `next` on, and the next fresh mark; a map has every
key once.  With `shared` values that are not numbers carry the mark of snapshots. -/
def ofValue (shared : Bool) (next : Nat) : Value → Live × Nat
  | .list items =>
    let (items, after) := ofValues shared (next + 1) items
    (list next items, after)
  | .map entries =>
    let (entries, after) := ofEntries shared (next + 1) entries
    (map next (overlay [] entries), after)
  | .float x =>
    if x.isNaN then (notANumber (if shared then snapshotMark else next), next + 1)
    else (plain (.float x), next)
  | .foreign shown => (foreign next shown, next + 1)
  | v => (plain v, next)

/-- Some values as live ones. -/
def ofValues (shared : Bool) (next : Nat) : List Value → List Live × Nat
  | [] => ([], next)
  | v :: rest =>
    let (x, next) := ofValue shared next v
    let (xs, next) := ofValues shared next rest
    (x :: xs, next)

/-- The entries of a map as live ones. -/
def ofEntries (shared : Bool) (next : Nat) : List (String × Value) → List (Live × Live) × Nat
  | [] => ([], next)
  | (k, v) :: rest =>
    let (x, next) := ofValue shared next v
    let (xs, next) := ofEntries shared next rest
    ((ofText k, x) :: xs, next)

end

mutual

/-- A copy whose containers, and the values that JSON cannot express, carry fresh marks from `next`
on, and the next fresh mark. -/
def copy (next : Nat) : Live → Live × Nat
  | list _ items =>
    let (items, after) := copyItems (next + 1) items
    (list next items, after)
  | map _ entries =>
    let (entries, after) := copyEntries (next + 1) entries
    (map next entries, after)
  | foreign _ shown => (foreign next shown, next + 1)
  | x => (x, next)

/-- Copies of the items of a list. -/
def copyItems (next : Nat) : List Live → List Live × Nat
  | [] => ([], next)
  | x :: rest =>
    let (x, next) := copy next x
    let (xs, next) := copyItems next rest
    (x :: xs, next)

/-- Copies of the entries of a map. -/
def copyEntries (next : Nat) : List (Live × Live) → List (Live × Live) × Nat
  | [] => ([], next)
  | (k, x) :: rest =>
    let (k, next) := copy next k
    let (x, next) := copy next x
    let (xs, next) := copyEntries next rest
    ((k, x) :: xs, next)

end

/-! ### Equality -/

mutual

/-- Whether two live values are equal; their parts are also equal where they are one. -/
def same : Live → Live → Bool
  | plain v, y => match y with | plain w => v.same w | _ => false
  | notANumber _, _ => false
  | foreign m _, y => match y with | foreign n _ => m == n | _ => false
  | list _ xs, y => match y with | list _ ys => sameItems xs ys | _ => false
  | map _ m, y => match y with | map _ n => m.length == n.length && sameEntries m n | _ => false

/-- Whether two lists are equal item by item. -/
def sameItems : List Live → List Live → Bool
  | [], ys => ys.isEmpty
  | x :: xs, ys =>
    match ys with
    | [] => false
    | y :: ys => (identical x y || same x y) && sameItems xs ys

/-- Whether every entry of the first map has an equal value in the second. -/
def sameEntries : List (Live × Live) → List (Live × Live) → Bool
  | [], _ => true
  | (k, x) :: rest, n =>
    (match valueOf? n k with | some y => identical x y || same x y | none => false) &&
      sameEntries rest n

end

/-! ### Looking up and changing parts -/

/-- A live value as a key, if it can be one. -/
def asKey : Live → Except Fault Live
  | list m items => .error (.unhashable (list m items).kind)
  | map m entries => .error (.unhashable (map m entries).kind)
  | x => .ok x

/-- The position in a list that a live value is, if it is one. -/
def position? : Live → Option Int
  | plain (.int n) => some n
  | plain (.bool b) => some (if b then 1 else 0)
  | _ => none

/-- The first number that is too large for a position. -/
def endOfPositions : Int := 0x8000000000000000

/-- Whether a number is too large for a position, counted from the start or from the end. -/
def isTooLarge (n : Int) : Bool :=
  n < -endOfPositions || endOfPositions ≤ n

/-- The index that a position means in a list of some length; a negative one counts from the end. -/
def index? (length : Nat) (n : Int) : Option Nat :=
  let i := if n < 0 then n + length else n
  if 0 ≤ i ∧ i < length then some i.toNat else none

/-- The index that a key means in a list of some length: `none'` is the fault if there is no such
position, and `bad` if the key is no position. -/
def indexOf (length : Nat) (none' bad : Fault) (key : Live) : Except Fault Nat :=
  match key.position? with
  | none => .error bad
  | some n =>
    if isTooLarge n then .error .positionTooLarge
    else
      match index? length n with
      | some i => .ok i
      | none => .error none'

/-- The part of a live value under a key. -/
def item? : Live → Live → Except Fault Live
  | map _ entries, key => do
    match valueOf? entries (← key.asKey) with
    | some x => return x
    | none => throw (.missingKey key.value)
  | list _ items, key => do
    let i ← indexOf items.length .positionMissing (.badPosition key.kind) key
    return (items[i]?).getD (plain .null)
  | plain (.text s), key => do
    let i ← indexOf s.length .textPositionMissing (.badTextPosition key.kind) key
    return ofText (String.ofList (s.toList[i]?).toList)
  | x, _ => .error (.noLookup x.kind)

/-- The part of a live value that some keys lead to. -/
def itemAt? : Live → List Live → Except Fault Live
  | x, [] => .ok x
  | x, key :: rest => do (← x.item? key).itemAt? rest

/-- The mark of the container in which a part can be set under a key. -/
def settable? : Live → Live → Except Fault Nat
  | map m _, key => do
    let _ ← key.asKey
    return m
  | list m items, key => do
    let _ ← indexOf items.length .positionRange (.badPosition key.kind) key
    return m
  | x, key =>
    match x, key.position? with
    | plain (.text _), some n | foreign _ _, some n =>
      if isTooLarge n then .error .positionTooLarge else .error (.noAssignment x.kind)
    | _, _ => .error (.noAssignment x.kind)

/-- The items of a list with a part set at a position. -/
def setPosition (items : List Live) (key new : Live) : List Live :=
  match key.position?.bind (index? items.length) with
  | some i => items.set i new
  | none => items

mutual

/-- A live value after a part was set under a key in the container with a mark. -/
def setItem (mark : Nat) (key new : Live) : Live → Live
  | list m items =>
    let items := setItemAll mark key new items
    list m (if m = mark then setPosition items key new else items)
  | map m entries =>
    let entries := setItemEntries mark key new entries
    map m (if m = mark then setEntry entries key new else entries)
  | x => x

/-- Some live values after a part was set in the container with a mark. -/
def setItemAll (mark : Nat) (key new : Live) : List Live → List Live
  | [] => []
  | x :: rest => setItem mark key new x :: setItemAll mark key new rest

/-- The entries of a map after a part was set in the container with a mark. -/
def setItemEntries (mark : Nat) (key new : Live) : List (Live × Live) → List (Live × Live)
  | [] => []
  | (k, x) :: rest => (k, setItem mark key new x) :: setItemEntries mark key new rest

end

end Live

end CommandShell
