import CommandShell.Processor.Basic

/-!
# The registry of processors

Root processors stand in ordered slots.  Registering a processor whose names meet those of a slot
replaces the slot's processor, or extends it: then the slot keeps the processors that were extended,
and unregistering brings back the last of them.  Sealed processors can be extended, but neither
replaced nor removed.

## Main definitions

* `Slot`: the current processor of a slot above those that it extends.
* `Registry`: the slots, and the links that registration leaves behind.
* `Registry.register`, `Registry.unregister`: the changes.
* `Processor.find?`, `Registry.find?`: the processor that a path of names leads to.
* `Registry.rootOf`: the processor at the top of the tree that a processor hangs in.
-/

namespace CommandShell

/-- A slot of the registry. -/
structure Slot (α : Type) where
  /-- The processor that answers. -/
  current : Processor α
  /-- The processors that it extends, the nearest first. -/
  below : List (Processor α) := []

/-- The processors of a slot from the current one down. -/
def Slot.chain {α : Type} (s : Slot α) : List (Processor α) :=
  s.current :: s.below

/-- The registered processors. -/
structure Registry (α : Type) where
  /-- The slots in the order in which they were opened. -/
  slots : List (Slot α) := []
  /-- The processor above another one, by the key of the lower; the latest link stands first. -/
  parents : List (Nat × Processor α) := []
  /-- The processor that another one extends, by the key of the upper; the latest link stands
  first. -/
  bases : List (Nat × Processor α) := []
  /-- The first key that was not given to a processor yet. -/
  nextKey : Nat := 0

/-- What became of a registration. -/
inductive Registration where
  /-- A new slot was opened. -/
  | added
  /-- The processor of a slot was replaced. -/
  | replaced
  /-- The processor of a slot was extended. -/
  | extended
  /-- The names meet those of several slots, whose commands are given. -/
  | collides (commands : List String)
  /-- The processor of the slot is sealed. -/
  | sealed
deriving DecidableEq, Repr

/-- Whether a registration changed the registry. -/
def Registration.accepted : Registration → Bool
  | added | replaced | extended => true
  | collides _ | sealed => false

/-- The warning that a registration of a command gives. -/
def Registration.warning? (command : String) : Registration → Option String
  | collides clashes =>
    some ("Processor with command: " ++ command ++ " collides with several processors (" ++
      ", ".intercalate clashes ++ ") and was not registered.")
  | sealed => some s!"Processor with command: {command} is sealed and cannot be replaced."
  | _ => none

/-- What became of a removal. -/
inductive Removal where
  /-- No slot answers to the name. -/
  | absent
  /-- The processor below was brought back. -/
  | restored
  /-- The processor is sealed. -/
  | sealed
  /-- The slot was closed. -/
  | removed
deriving DecidableEq, Repr

/-- Whether a removal changed the registry. -/
def Removal.accepted : Removal → Bool
  | restored | removed => true
  | absent | sealed => false

/-- The warning that a removal of a command gives. -/
def Removal.warning? (command : String) : Removal → Option String
  | sealed => some s!"Processor with command: {command} is sealed and cannot be removed."
  | _ => none

variable {α : Type}

/-! ### Paths of names -/

namespace Processor

/-- The first of some processors that answers to a name. -/
def answering? (name : String) (among : List (Processor α)) : Option (Processor α) :=
  among.find? fun p => p.names.contains (lowerCase name)

/-- The processor that a name and a chain of further names lead to.  Free text may take the place
of further names where a processor without subordinate ones accepts it. -/
def find? (name : String) : List String → List (Processor α) → Option (Processor α)
  | [], among => answering? name among
  | next :: rest, among =>
    match answering? name among with
    | none => none
    | some p =>
      if p.hasChildren then find? next rest p.children
      else if p.acceptsText then some p
      else none

end Processor

namespace Registry

/-! ### Questions -/

/-- The current root processors in the order of their slots. -/
def processors (r : Registry α) : List (Processor α) :=
  r.slots.map (·.current)

/-- The positions of the slots that answer to one of some names, which are in lower case. -/
def positions (r : Registry α) (names : List String) : List Nat :=
  (r.slots.zipIdx.filter fun s => s.1.current.names.any names.contains).map (·.2)

/-- Whether a root processor answers to a name. -/
def has (r : Registry α) (name : String) : Bool :=
  !(r.positions [lowerCase name]).isEmpty

/-- The processor that a path of names leads to from the root. -/
def find? (r : Registry α) (name : String) (chain : List String) : Option (Processor α) :=
  Processor.find? name chain r.processors

/-- The processor directly above another one. -/
def parent? (r : Registry α) (p : Processor α) : Option (Processor α) :=
  (r.parents.find? (·.1 == p.key)).map (·.2)

/-- The processor that another one extends. -/
def base? (r : Registry α) (p : Processor α) : Option (Processor α) :=
  (r.bases.find? (·.1 == p.key)).map (·.2)

/-- The processor reached from another one by at most `fuel` links upward. -/
def climb (r : Registry α) : Nat → Processor α → Processor α
  | 0, p => p
  | fuel + 1, p =>
    match r.parent? p with
    | some q => r.climb fuel q
    | none => p

/-- The processor at the top of the tree that a processor hangs in. -/
def rootOf (r : Registry α) (p : Processor α) : Processor α :=
  r.climb r.parents.length p

/-- The first `count` processors that are reached by following what a processor extends. -/
def basesOf (r : Registry α) : Nat → Processor α → List (Processor α)
  | 0, _ => []
  | count + 1, p =>
    match r.base? p with
    | some q => q :: r.basesOf count q
    | none => []

/-- How a command appears in lists. -/
structure Listing where
  /-- The name of the command. -/
  name : String
  /-- What the command is for. -/
  description : String
  /-- The other names of the command. -/
  aliases : List String

/-- The root commands by name, with or without the hidden ones. -/
def list (r : Registry α) (includeHidden : Bool) : List Listing :=
  let sorted := r.processors.mergeSort fun p q => lowerCase p.command ≤ lowerCase q.command
  (sorted.filter fun p => includeHidden || !p.isHidden).map fun p =>
    ⟨p.command, p.decl.description, p.decl.aliases⟩

/-! ### Changes -/

/-- A tree of processors under fresh keys. -/
def adopt (r : Registry α) (p : Processor α) : Processor α × Registry α :=
  let (p, next) := p.adopt r.nextKey
  (p, { r with nextKey := next })

/-- The registry with the links between a processor and all below it. -/
def link (r : Registry α) (p : Processor α) : Registry α :=
  { r with parents := (p.links.reverse.map fun l => (l.1.key, l.2)) ++ r.parents }

/-- The registry with another slot at a position. -/
def setSlot (r : Registry α) (i : Nat) (s : Slot α) : Registry α :=
  { r with slots := r.slots.set i s }

/-- Registers a processor: it opens a slot if its names are free, extends or replaces the processor
of the one slot that it meets, and is refused if it meets several. -/
def register (r : Registry α) (p : Processor α) : Registry α × Registration :=
  match r.positions p.names with
  | [] => let r := r.link p; ({ r with slots := r.slots ++ [⟨p, []⟩] }, .added)
  | [i] =>
    -- The links stay even if the processor of the slot turns out to be sealed.
    let r := r.link p
    match r.slots[i]? with
    | none => (r, .added)
    | some slot =>
      if p.decl.isExtension then
        ({ r.setSlot i ⟨p, slot.chain⟩ with
            bases := (p.key, slot.current) :: r.bases }, .extended)
      else if slot.current.isSealed then (r, .sealed)
      else (r.setSlot i ⟨p, []⟩, .replaced)
  | several => (r, .collides (several.filterMap fun i => r.slots[i]?.map (·.current.command)))

/-- Unregisters the processor that answers to a name: what it extends comes back, else the slot is
closed unless the processor is sealed. -/
def unregister (r : Registry α) (name : String) : Registry α × Removal :=
  match r.positions [lowerCase name] with
  | [] => (r, .absent)
  | i :: _ =>
    match r.slots[i]? with
    | none => (r, .absent)
    | some slot =>
      match slot.below with
      | q :: rest => (r.setSlot i ⟨q, rest⟩, .restored)
      | [] =>
        if slot.current.isSealed then (r, .sealed)
        else ({ r with slots := r.slots.eraseIdx i }, .removed)

end Registry

end CommandShell
