import CommandShell.Proofs.State.Values
import CommandShell.Storage.Stores

/-!
# Stores and the plain map

What a store answers is told from outside: a caller makes values, changes them at any time, passes
them to the store and is given others by it.  A store refines the plain map from texts to values if
each access answers as the map does and leaves states that still belong together; then no caller can
tell the two from each other, however long it goes on.

## Main definitions

* `Store.plain`: the plain map from texts to values.
* `Store.Move`, `Store.Answer`: what a caller does, and what it is told.
* `Store.run`: what a caller is told by a store from its start.
* `Store.Refines`: a store whose states belong to plain maps.

## Main results

* `Store.Refines.step`: a move is answered alike, and the states still belong together.
* `Store.Refines.run_eq`: a caller is told the same by a store as by the map that it refines.
-/

namespace CommandShell

namespace Store

/-- The plain map from texts to values, as far as JSON does not refuse them. -/
def plain : Store (Entries Value) where
  empty := []
  get m key := .ok ((m.get? key).getD .null)
  set m key v :=
    match Json.encode v with
    | .ok _ => (.ok (), m.insert key v)
    | .error e => (.error e, m)
  delete m key := m.erase key
  keys m := m.keys.mergeSort fun a b => a ≤ b

/-! ## Callers -/

/-- What a caller does next.  The values that it holds are known by their positions. -/
inductive Move where
  /-- It makes a value and holds it. -/
  | hold (v : Value)
  /-- It changes a value that it holds. -/
  | change (i : Nat) (v : Value)
  /-- It puts a value that it holds under a key. -/
  | set (key : String) (i : Nat)
  /-- It asks for the value under a key, and holds it from then on. -/
  | get (key : String)
  /-- It removes a key. -/
  | delete (key : String)
  /-- It asks for the keys. -/
  | keys

/-- What a caller is told. -/
inductive Answer where
  /-- Nothing is told. -/
  | nothing
  /-- The value was refused. -/
  | refused (e : Json.WriteError)
  /-- The value under the key. -/
  | value (v : Value)
  /-- The value under the key cannot be read. -/
  | unreadable (e : Json.ReadError)
  /-- The keys. -/
  | keys (keys : List String)

/-- A caller with its store. -/
structure World (σ : Type) where
  /-- The values that the caller holds. -/
  values : List Value
  /-- The state of the store. -/
  state : σ

section Run

variable {σ : Type} (S : Store σ)

/-- What a caller is told when it makes a move, and what is there afterwards. -/
def step (w : World σ) : Move → Answer × World σ
  | .hold v => (.nothing, { w with values := w.values ++ [v.held] })
  | .change i v => (.nothing, { w with values := w.values.set i v.held })
  | .set key i =>
    match S.set w.state key (w.values.getD i .null) with
    | (.ok (), s) => (.nothing, { w with state := s })
    | (.error e, s) => (.refused e, { w with state := s })
  | .get key =>
    match S.get w.state key with
    | .ok v => (.value v, { w with values := w.values ++ [v] })
    | .error e => (.unreadable e, w)
  | .delete key => (.nothing, { w with state := S.delete w.state key })
  | .keys => (.keys (S.keys w.state), w)

/-- What a caller is told when it makes some moves. -/
def answers : World σ → List Move → List Answer
  | _, [] => []
  | w, move :: moves => (S.step w move).1 :: answers (S.step w move).2 moves

/-- What a caller is told that makes some moves with a store that has some values from the start,
unless one of these is refused. -/
def run (initial : Entries Value) (moves : List Move) :
    Except Json.WriteError (List Answer) :=
  (S.filled (initial.mapValues Value.held)).map fun s => S.answers ⟨[], s⟩ moves

end Run

/-! ## Refinement -/

/-- A store refines the plain map: its states belong to maps of values as they are held. -/
structure Refines {σ : Type} (S : Store σ) (R : σ → Entries Value → Prop) : Prop where
  empty : R S.empty plain.empty
  held : ∀ {s m}, R s m → ∀ e ∈ m, e.2.held = e.2
  get : ∀ {s m}, R s m → ∀ key, S.get s key = plain.get m key
  set : ∀ {s m}, R s m → ∀ key {v : Value}, v.held = v →
    (S.set s key v).1 = (plain.set m key v).1 ∧ R (S.set s key v).2 (plain.set m key v).2
  delete : ∀ {s m}, R s m → ∀ key, R (S.delete s key) (plain.delete m key)
  keys : ∀ {s m}, R s m → S.keys s = plain.keys m

namespace Refines

variable {σ : Type} {S : Store σ} {R : σ → Entries Value → Prop}

theorem exists_set (hS : S.Refines R) {s : σ} {m : Entries Value} (h : R s m) (key : String)
    {v : Value} (hv : v.held = v) :
    ∃ r s' m', S.set s key v = (r, s') ∧ plain.set m key v = (r, m') ∧ R s' m' :=
  have ⟨hanswer, hnext⟩ := hS.set h key hv
  ⟨_, _, _, rfl, Prod.ext hanswer.symm rfl, hnext⟩

/-- A caller with a store and one with a map that belong together. -/
structure Alike (R : σ → Entries Value → Prop) (w : World σ) (w' : World (Entries Value)) :
    Prop where
  values : w.values = w'.values
  held : ∀ v ∈ w'.values, v.held = v
  states : R w.state w'.state

theorem Alike.held_getD {w : World σ} {w' : World (Entries Value)} (h : Alike R w w') (i : Nat) :
    (w'.values.getD i .null).held = w'.values.getD i .null := by
  rw [List.getD_eq_getElem?_getD]
  cases hi : w'.values[i]? with
  | none => rfl
  | some v => exact h.held v (List.mem_of_getElem? hi)

/-- Two lists of held values stay so with one more. -/
theorem held_concat {values : List Value} {v : Value} (h : ∀ w ∈ values, w.held = w)
    (hv : v.held = v) : ∀ w ∈ values ++ [v], w.held = w := by
  intro w hw
  rcases List.mem_append.mp hw with hw | hw
  · exact h w hw
  · rw [List.mem_singleton.mp hw, hv]

/-- A move is answered alike, and the states still belong together. -/
theorem step (hS : S.Refines R) {w : World σ} {w' : World (Entries Value)} (h : Alike R w w')
    (move : Move) :
    (S.step w move).1 = (plain.step w' move).1 ∧
      Alike R (S.step w move).2 (plain.step w' move).2 := by
  obtain ⟨values, s⟩ := w
  obtain ⟨values', m⟩ := w'
  have hgetD := h.held_getD
  obtain ⟨hvalues, hheld, hstates⟩ := h
  dsimp only at hvalues hheld hstates hgetD
  subst hvalues
  -- What a caller is given it holds as it is, so both callers go on with the same values.
  cases move with
  | hold v => exact ⟨rfl, rfl, held_concat hheld v.held_held, hstates⟩
  | change i v =>
    refine ⟨rfl, rfl, fun w hw => ?_, hstates⟩
    rcases List.mem_or_eq_of_mem_set hw with hw | rfl
    · exact hheld w hw
    · exact v.held_held
  | set key i =>
    obtain ⟨r, s', m', hs, hm, hnext⟩ := hS.exists_set hstates key (hgetD i)
    simp only [Store.step, hs, hm]
    cases r with
    | ok u => exact ⟨rfl, rfl, hheld, hnext⟩
    | error e => exact ⟨rfl, rfl, hheld, hnext⟩
  | get key =>
    have hvalue : ((m.get? key).getD .null).held = (m.get? key).getD .null := by
      cases hget : m.get? key with
      | none => rfl
      | some v => exact hS.held hstates _ (Entries.mem_of_get? hget)
    simp only [Store.step, hS.get hstates]
    exact ⟨rfl, rfl, held_concat hheld hvalue, hstates⟩
  | delete key => exact ⟨rfl, rfl, hheld, hS.delete hstates key⟩
  | keys => exact ⟨congrArg Answer.keys (hS.keys hstates), rfl, hheld, hstates⟩

/-- However long a caller goes on, it is told the same. -/
theorem answers_eq (hS : S.Refines R) {w : World σ} {w' : World (Entries Value)}
    (h : Alike R w w') (moves : List Move) : S.answers w moves = plain.answers w' moves := by
  induction moves generalizing w w' with
  | nil => rfl
  | cons move moves ih =>
    obtain ⟨hanswer, hnext⟩ := hS.step h move
    rw [answers, answers, hanswer, ih hnext]

/-- A store and the map start with the same values, or refuse the same one. -/
theorem foldlM_put (hS : S.Refines R) {s : σ} {m : Entries Value} (h : R s m)
    {initial : Entries Value} (hinitial : ∀ e ∈ initial, e.2.held = e.2) :
    (∃ e, initial.foldlM S.put s = .error e ∧ initial.foldlM plain.put m = .error e) ∨
      ∃ s' m', initial.foldlM S.put s = .ok s' ∧ initial.foldlM plain.put m = .ok m' ∧
        R s' m' := by
  induction initial generalizing s m with
  | nil => exact Or.inr ⟨s, m, rfl, rfl, h⟩
  | cons e initial ih =>
    rw [List.forall_mem_cons] at hinitial
    obtain ⟨r, s', m', hs, hm, hnext⟩ := hS.exists_set h e.1 hinitial.1
    rw [List.foldlM_cons, List.foldlM_cons, put, put, hs, hm]
    cases r with
    | ok u => exact ih hnext hinitial.2
    | error e => exact Or.inl ⟨e, rfl, rfl⟩

/-- A caller is told the same by a store as by the map that it refines. -/
theorem run_eq (hS : S.Refines R) (initial : Entries Value) (moves : List Move) :
    S.run initial moves = plain.run initial moves := by
  have hinitial : ∀ e ∈ initial.mapValues Value.held, e.2.held = e.2 := by
    intro e he
    obtain ⟨d, -, rfl⟩ := List.mem_map.mp he
    exact d.2.held_held
  unfold run filled
  rcases hS.foldlM_put hS.empty hinitial with ⟨e, hs, hm⟩ | ⟨s, m, hs, hm, hstates⟩
  · rw [hs, hm]
    rfl
  · have halike : Alike R ⟨[], s⟩ ⟨[], m⟩ := ⟨rfl, fun _ hv => absurd hv List.not_mem_nil, hstates⟩
    rw [hs, hm]
    exact congrArg Except.ok (hS.answers_eq halike moves)

end Refines

end Store

end CommandShell
