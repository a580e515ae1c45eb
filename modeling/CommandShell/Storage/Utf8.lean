import CommandShell.Fault

/-!
# Decoding UTF-8

The bytes of a file as a text, or the first place at which they are not UTF-8.

## Main definitions

* `Utf8.tails`: the ranges of the bytes that must follow a leading byte.
* `Utf8.firstError?`: the first place at which bytes are not UTF-8.
* `decodeUtf8`: the text of some bytes.
* `showBytes`: the text of some bytes, with those that are not UTF-8 as escapes.
-/

namespace CommandShell

namespace Utf8

/-- The ranges of the bytes that must follow a leading byte; nothing if no character starts with
it. -/
def tails (b : Nat) : Option (List (Nat × Nat)) :=
  if b < 0x80 then some []
  else if b < 0xC2 then none
  else if b < 0xE0 then some [(0x80, 0xBF)]
  else if b = 0xE0 then some [(0xA0, 0xBF), (0x80, 0xBF)]
  else if b = 0xED then some [(0x80, 0x9F), (0x80, 0xBF)]
  else if b < 0xF0 then some [(0x80, 0xBF), (0x80, 0xBF)]
  else if b = 0xF0 then some [(0x90, 0xBF), (0x80, 0xBF), (0x80, 0xBF)]
  else if b < 0xF4 then some [(0x80, 0xBF), (0x80, 0xBF), (0x80, 0xBF)]
  else if b = 0xF4 then some [(0x80, 0x8F), (0x80, 0xBF), (0x80, 0xBF)]
  else none

/-- How far the bytes after a leading byte fit the ranges that they must lie in. -/
inductive Fit where
  /-- All ranges are met, and these bytes are left. -/
  | complete (rest : List Nat)
  /-- The bytes end too early. -/
  | short
  /-- After so many fitting bytes comes one outside its range. -/
  | broken (fitting : Nat)

/-- How far some bytes fit some ranges. -/
def fit : List (Nat × Nat) → List Nat → Fit
  | [], bytes => .complete bytes
  | _ :: _, [] => .short
  | (low, high) :: ranges, b :: bytes =>
    if low ≤ b ∧ b ≤ high then
      match fit ranges bytes with
      | .broken n => .broken (n + 1)
      | other => other
    else .broken 0

/-- The next character's error, or the bytes after it. -/
def step (position b : Nat) (bytes : List Nat) : DecodeError ⊕ List Nat :=
  match tails b with
  | none => .inl ⟨[b], position, "invalid start byte"⟩
  | some ranges =>
    match fit ranges bytes with
    | .complete rest => .inr rest
    | .short => .inl ⟨b :: bytes, position, "unexpected end of data"⟩
    | .broken n => .inl ⟨b :: bytes.take n, position, "invalid continuation byte"⟩

/-- The first place at which bytes are not UTF-8; each character takes one from `fuel`. -/
def firstErrorFrom? : Nat → Nat → List Nat → Option DecodeError
  | _, _, [] => none
  | 0, _, _ => none
  | fuel + 1, position, b :: bytes =>
    match step position b bytes with
    | .inl e => some e
    | .inr rest => firstErrorFrom? fuel (position + (bytes.length + 1 - rest.length)) rest

/-- The first place at which bytes are not UTF-8. -/
def firstError? (bytes : List Nat) : Option DecodeError :=
  firstErrorFrom? bytes.length 0 bytes

/-- Some bytes as characters, with those that are not UTF-8 as escapes; each character or escape
takes one from `fuel`. -/
def showFrom : Nat → List Nat → List Char
  | _, [] => []
  | 0, _ => []
  | fuel + 1, b :: bytes =>
    match step 0 b bytes with
    | .inl e =>
      e.bytes.flatMap (fun n => '\\' :: 'x' :: Chars.hex 2 n) ++
        showFrom fuel ((b :: bytes).drop e.bytes.length)
    | .inr rest =>
      let size := bytes.length - rest.length
      let lead := if size = 0 then b else b % (1 <<< (6 - size))
      Char.ofNat ((bytes.take size).foldl (fun n c => n * 64 + c % 64) lead) :: showFrom fuel rest

end Utf8

/-- The text of some bytes. -/
def decodeUtf8 (bytes : ByteArray) : Except Fault String :=
  match String.fromUTF8? bytes with
  | some s => .ok s
  | none =>
    let ns := bytes.toList.map UInt8.toNat
    .error (.undecodable ((Utf8.firstError? ns).getD ⟨[], 0, "invalid start byte"⟩))

/-- The text of some bytes, with those that are not UTF-8 as escapes. -/
def showBytes (bytes : ByteArray) : String :=
  match String.fromUTF8? bytes with
  | some s => s
  | none =>
    let ns := bytes.toList.map UInt8.toNat
    String.ofList (Utf8.showFrom ns.length ns)

end CommandShell
