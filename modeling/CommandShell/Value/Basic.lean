import CommandShell.Decimal.Shortest
import CommandShell.Entries

/-!
# Values

The data that commands take, pass on and keep: the values of JSON, with whole numbers apart from
floating-point ones, and values that JSON cannot express.

## Main definitions

* `Value`: a value.
* `Value.kind`: the name of a value's kind, as messages give it.
* `Value.truthy`: whether a value counts as true in a condition.
* `Value.same`: equality across the kinds of numbers, with maps compared regardless of order.
-/

namespace CommandShell

/-- A value that commands take, pass on and keep. -/
inductive Value where
  /-- The absent value. -/
  | null
  /-- A truth value. -/
  | bool (b : Bool)
  /-- A whole number of any size. -/
  | int (n : Int)
  /-- A floating-point number. -/
  | float (x : Float)
  /-- A text. -/
  | text (s : String)
  /-- A list of values. -/
  | list (items : List Value)
  /-- A map from texts, in order. -/
  | map (entries : List (String × Value))
  /-- A value that JSON cannot express, known only by the text it is shown as. -/
  | foreign (shown : String)
deriving Inhabited

namespace Value

/-- The name of a value's kind, as messages give it. -/
def kind : Value → String
  | null => "NoneType"
  | bool _ => "bool"
  | int _ => "int"
  | float _ => "float"
  | text _ => "str"
  | list _ => "list"
  | map _ => "dict"
  | foreign _ => "Opaque"

/-- Whether a value is the absent one. -/
def isNull : Value → Bool
  | null => true
  | _ => false

/-- Whether a value counts as true in a condition: zeros, the absent value and whatever is empty do
not. -/
def truthy : Value → Bool
  | null => false
  | bool b => b
  | int n => n != 0
  | float x => x != 0.0
  | text s => s != ""
  | list items => !items.isEmpty
  | map entries => !entries.isEmpty
  | foreign _ => true

/-- The value if it counts as true, and nothing otherwise. -/
def nonEmpty? (v : Value) : Option Value :=
  if v.truthy then some v else none

/-- The text that a value is, if it is one. -/
def text? : Value → Option String
  | text s => some s
  | _ => none

end Value

/-- The whole number that a floating-point number is equal to, if there is one. -/
def Float.whole? (x : Float) : Option Int :=
  let d := DoubleFields.ofFloat x
  if !d.isFinite then none
  else
    let r := (Binary.ofFields d).value
    if r.num % r.den = 0 then
      let n : Int := (r.num / r.den : Nat)
      some (if d.negative then -n else n)
    else none

namespace Value

/-- A value as a number: truth values count as `0` and `1`. -/
inductive Number where
  /-- A whole number. -/
  | whole (n : Int)
  /-- A floating-point number. -/
  | floating (x : Float)

/-- Equality of numbers by what they stand for. -/
def Number.same : Number → Number → Bool
  | whole m, whole n => m == n
  | whole m, floating y => Float.whole? y == some m
  | floating x, whole n => Float.whole? x == some n
  | floating x, floating y => x == y

/-- The number that a value is, if it is one. -/
def number? : Value → Option Number
  | bool b => some (.whole (if b then 1 else 0))
  | int n => some (.whole n)
  | float x => some (.floating x)
  | _ => none

/-- Whether two values are equal as numbers. -/
def sameNumber (v w : Value) : Bool :=
  match v.number?, w.number? with
  | some m, some n => m.same n
  | _, _ => false

mutual

/-- Whether two values are equal. -/
def same : Value → Value → Bool
  | null, w => w.isNull
  | text s, w => match w with | text t => s == t | _ => false
  | foreign s, w => match w with | foreign t => s == t | _ => false
  | list xs, w => match w with | list ys => sameItems xs ys | _ => false
  | map m, w => match w with | map n => m.length == n.length && sameEntries m n | _ => false
  | bool b, w => sameNumber (bool b) w
  | int n, w => sameNumber (int n) w
  | float x, w => sameNumber (float x) w

/-- Whether two lists are equal item by item. -/
def sameItems : List Value → List Value → Bool
  | [], ys => ys.isEmpty
  | x :: xs, ys => match ys with | [] => false | y :: ys => same x y && sameItems xs ys

/-- Whether every entry of the first map has an equal value in the second. -/
def sameEntries : List (String × Value) → List (String × Value) → Bool
  | [], _ => true
  | (k, v) :: rest, n =>
    (match Entries.get? n k with | some w => same v w | none => false) && sameEntries rest n

end

mutual

/-- How deep lists and maps are nested in a value. -/
def nesting : Value → Nat
  | list items => nestingOfItems items + 1
  | map entries => nestingOfEntries entries + 1
  | _ => 0

/-- How deep lists and maps are nested in the items of a list. -/
def nestingOfItems : List Value → Nat
  | [] => 0
  | v :: rest => max (nesting v) (nestingOfItems rest)

/-- How deep lists and maps are nested in the values of a map. -/
def nestingOfEntries : List (String × Value) → Nat
  | [] => 0
  | (_, v) :: rest => max (nesting v) (nestingOfEntries rest)

end

/-- Whether a value is equal to one of a list. -/
def oneOf (v : Value) (choices : List Value) : Bool :=
  choices.any fun c => c.same v

end Value

end CommandShell
