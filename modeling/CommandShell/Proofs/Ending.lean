import CommandShell.Shell.Session

/-!
# How runs end

A run that starts in a state returns a value or stops early, and leaves a state in both cases.  The
laws here take a run apart at its binds and handlers, so that what a run does is read off from what
its parts do.

## Main definitions

* `Returns x s a s'`: from `s` the run `x` returns `a` and leaves `s'`.
* `Stops x s e s'`: from `s` the run `x` stops with `e` and leaves `s'`.
* `StopsOnly x P`: the run `x` stops with nothing that is not in `P`.
* `Keeps x f`: whatever `x` does, what `f` sees of the state stays.
* `Follows x R`: whatever `x` does, `R` leads from the state before it to the one that it leaves.

## Main results

* `returns_or_stops`: a run ends in one of the two ways.
* `returns_bind_iff`, `stops_bind_iff`: runs one after another.
* `returns_recover_iff`, `stops_recover_iff`: runs whose faults are handled.
-/

namespace CommandShell

section Laws

variable {ε σ α β γ : Type}

/-- From `s` the run returns `a` and leaves `s'`. -/
def Returns (x : ExceptT ε (StateM σ) α) (s : σ) (a : α) (s' : σ) : Prop :=
  x s = (.ok a, s')

/-- From `s` the run stops with `e` and leaves `s'`. -/
def Stops (x : ExceptT ε (StateM σ) α) (s : σ) (e : ε) (s' : σ) : Prop :=
  x s = (.error e, s')

/-- The run stops with nothing that is not in `P`. -/
def StopsOnly (x : ExceptT ε (StateM σ) α) (P : ε → Prop) : Prop :=
  ∀ s e s', Stops x s e s' → P e

/-- Whatever the run does, what `f` sees of the state stays. -/
def Keeps (x : ExceptT ε (StateM σ) α) (f : σ → γ) : Prop :=
  ∀ s, f (x s).2 = f s

/-- Whatever the run does, `R` leads from the state before it to the one that it leaves. -/
def Follows (x : ExceptT ε (StateM σ) α) (R : σ → σ → Prop) : Prop :=
  ∀ s, R s (x s).2

variable {x y : ExceptT ε (StateM σ) α} {g : α → ExceptT ε (StateM σ) β} {s s' t t' : σ}
  {a b : α} {e e' : ε}

/-- A run returns or stops. -/
theorem returns_or_stops (x : ExceptT ε (StateM σ) α) (s : σ) :
    (∃ a s', Returns x s a s') ∨ ∃ e s', Stops x s e s' := by
  rcases hx : x s with ⟨a | e, s'⟩
  · exact Or.inr ⟨_, _, hx⟩
  · exact Or.inl ⟨_, _, hx⟩

/-- A run returns the value that it gives. -/
theorem exists_returns_of_map (x : ExceptT ε (StateM σ) α) (s : σ) (f : α → β) (b : β)
    (h : (x s).1.toOption.map f = some b) :
    ∃ a, Returns x s a (x s).2 ∧ f a = b := by
  cases hr : (x s).1 with
  | error e =>
    rw [hr] at h
    cases h
  | ok a =>
    rw [hr] at h
    exact ⟨a, Prod.ext hr rfl, Option.some.inj h⟩

theorem Returns.unique (h : Returns x s a t) (h' : Returns x s b t') : a = b ∧ t = t' := by
  unfold Returns at h h'
  rw [h] at h'
  cases h'
  exact ⟨rfl, rfl⟩

theorem Stops.unique (h : Stops x s e t) (h' : Stops x s e' t') : e = e' ∧ t = t' := by
  unfold Stops at h h'
  rw [h] at h'
  cases h'
  exact ⟨rfl, rfl⟩

theorem Returns.not_stops (h : Returns x s a t) : ¬ Stops x s e t' := by
  intro h'
  unfold Returns at h
  unfold Stops at h'
  rw [h] at h'
  cases h'

theorem Keeps.of_returns {f : σ → γ} (h : Keeps x f) (hx : Returns x s a s') : f s' = f s := by
  have := h s
  rwa [hx] at this

theorem Keeps.of_stops {f : σ → γ} (h : Keeps x f) (hx : Stops x s e s') : f s' = f s := by
  have := h s
  rwa [hx] at this

/-! ### Values and binds -/

@[simp] theorem returns_pure_iff :
    Returns (pure a : ExceptT ε (StateM σ) α) s b s' ↔ a = b ∧ s = s' := by
  constructor
  · intro h
    cases h
    exact ⟨rfl, rfl⟩
  · rintro ⟨rfl, rfl⟩
    rfl

@[simp] theorem not_stops_pure : ¬ Stops (pure a : ExceptT ε (StateM σ) α) s e s' := by
  intro h
  cases h

theorem bind_apply (x : ExceptT ε (StateM σ) α) (g : α → ExceptT ε (StateM σ) β) (s : σ) :
    (x >>= g) s = match x s with
      | (.ok a, t) => g a t
      | (.error e, t) => (.error e, t) := by
  show (x s >>= fun p => ExceptT.bindCont g p.1 p.2 : Id _) = _
  rcases x s with ⟨e | a, t⟩ <;> rfl

theorem get_bind_apply (g : σ → ExceptT ε (StateM σ) β) (s : σ) :
    ((get : ExceptT ε (StateM σ) σ) >>= g) s = g s s :=
  rfl

/-- A bind returns if the first run returns and the second one does from there. -/
theorem returns_bind_iff {b : β} :
    Returns (x >>= g) s b s' ↔ ∃ a t, Returns x s a t ∧ Returns (g a) t b s' := by
  unfold Returns
  rw [bind_apply]
  constructor
  · intro h
    rcases hx : x s with ⟨e | a, t⟩
    · rw [hx] at h
      cases h
    · rw [hx] at h
      exact ⟨a, t, rfl, h⟩
  · rintro ⟨a, t, hx, hg⟩
    rw [hx]
    exact hg

/-- A bind stops if the first run stops, or returns and the second one stops from there. -/
theorem stops_bind_iff :
    Stops (x >>= g) s e s' ↔
      Stops x s e s' ∨ ∃ a t, Returns x s a t ∧ Stops (g a) t e s' := by
  unfold Stops Returns
  rw [bind_apply]
  constructor
  · intro h
    rcases hx : x s with ⟨e' | a, t⟩
    · rw [hx] at h
      cases h
      exact Or.inl rfl
    · rw [hx] at h
      exact Or.inr ⟨a, t, rfl, h⟩
  · rintro (hx | ⟨a, t, hx, hg⟩)
    · rw [hx]
    · rw [hx]
      exact hg

theorem returns_map_iff {f : α → β} {b : β} :
    Returns (f <$> x) s b s' ↔ ∃ a, Returns x s a s' ∧ f a = b := by
  rw [← bind_pure_comp, returns_bind_iff]
  constructor
  · rintro ⟨a, t, hx, hp⟩
    obtain ⟨rfl, rfl⟩ := returns_pure_iff.mp hp
    exact ⟨a, hx, rfl⟩
  · rintro ⟨a, hx, rfl⟩
    exact ⟨a, s', hx, returns_pure_iff.mpr ⟨rfl, rfl⟩⟩

theorem stops_map_iff {f : α → β} : Stops (f <$> x) s e s' ↔ Stops x s e s' := by
  rw [← bind_pure_comp, stops_bind_iff]
  constructor
  · rintro (hx | ⟨a, t, -, hp⟩)
    · exact hx
    · exact absurd hp not_stops_pure
  · intro hx
    exact Or.inl hx

/-- What a run keeps is kept by what follows as well, if it is from where the run leads. -/
theorem Keeps.apply_bind {f : σ → γ} (hx : Keeps x f) (hg : ∀ a t, f t = f s → f (g a t).2 = f s) :
    f ((x >>= g) s).2 = f s := by
  rw [bind_apply]
  have hs := hx s
  rcases h : x s with ⟨e | a, t⟩ <;> rw [h] at hs
  · exact hs
  · exact hg a t hs

theorem Keeps.bind {f : σ → γ} (hx : Keeps x f) (hg : ∀ a, Keeps (g a) f) :
    Keeps (x >>= g) f :=
  fun _ => hx.apply_bind fun a t ht => (hg a t).trans ht

theorem keeps_pure {f : σ → γ} : Keeps (pure a : ExceptT ε (StateM σ) α) f :=
  fun _ => rfl

theorem Keeps.ite {f : σ → γ} {c : Prop} [Decidable c] (hx : Keeps x f) (hy : Keeps y f) :
    Keeps (if c then x else y) f := by
  split
  · exact hx
  · exact hy

theorem keeps_forM {f : σ → γ} {run : β → ExceptT ε (StateM σ) PUnit}
    (h : ∀ b, Keeps (run b) f) (l : List β) : Keeps (l.forM run) f := by
  induction l with
  | nil => exact keeps_pure
  | cons b l ih => exact (h b).bind fun _ => ih

/-! ### Following a relation -/

section Follows

variable {R : σ → σ → Prop}

theorem Follows.of_returns (h : Follows x R) (hx : Returns x s a s') : R s s' := by
  have := h s
  rwa [hx] at this

theorem Follows.of_stops (h : Follows x R) (hx : Stops x s e s') : R s s' := by
  have := h s
  rwa [hx] at this

theorem follows_pure (hrefl : ∀ s, R s s) : Follows (pure a : ExceptT ε (StateM σ) α) R :=
  hrefl

theorem follows_throw (hrefl : ∀ s, R s s) : Follows (throw e : ExceptT ε (StateM σ) α) R :=
  hrefl

theorem follows_get (hrefl : ∀ s, R s s) : Follows (get : ExceptT ε (StateM σ) σ) R :=
  hrefl

/-- What a run follows is followed as well with what comes after it, if this follows it from where
the run leads. -/
theorem follows_bind_apply (htrans : ∀ s t u, R s t → R t u → R s u) (hx : R s (x s).2)
    (hg : ∀ a t, Returns x s a t → R t (g a t).2) : R s ((x >>= g) s).2 := by
  rw [bind_apply]
  rcases h : x s with ⟨e | a, t⟩ <;> rw [h] at hx
  · exact hx
  · exact htrans _ _ _ hx (hg a t h)

theorem Follows.bind (htrans : ∀ s t u, R s t → R t u → R s u) (hx : Follows x R)
    (hg : ∀ a, Follows (g a) R) : Follows (x >>= g) R :=
  fun s => follows_bind_apply htrans (hx s) fun a t _ => hg a t

theorem follows_forM {run : β → ExceptT ε (StateM σ) PUnit} (hrefl : ∀ s, R s s)
    (htrans : ∀ s t u, R s t → R t u → R s u) (h : ∀ b, Follows (run b) R) (l : List β) :
    Follows (l.forM run) R := by
  induction l with
  | nil => exact follows_pure hrefl
  | cons b l ih => exact (h b).bind htrans fun _ => ih

theorem Follows.ite {c : Prop} [Decidable c] (hx : Follows x R) (hy : Follows y R) :
    Follows (if c then x else y) R := by
  split
  · exact hx
  · exact hy

end Follows

/-! ### Stopping only in some ways -/

variable {P : ε → Prop}

theorem stopsOnly_pure : StopsOnly (pure a : ExceptT ε (StateM σ) α) P := by
  intro s e s' h
  exact absurd h not_stops_pure

theorem StopsOnly.bind (hx : StopsOnly x P) (hg : ∀ a, StopsOnly (g a) P) :
    StopsOnly (x >>= g) P := by
  intro s e s' h
  rcases stops_bind_iff.mp h with h | ⟨a, t, -, h⟩
  · exact hx s e s' h
  · exact hg a t e s' h

theorem StopsOnly.ite {c : Prop} [Decidable c] (hx : StopsOnly x P) (hy : StopsOnly y P) :
    StopsOnly (if c then x else y) P := by
  split
  · exact hx
  · exact hy

theorem stopsOnly_forM {run : β → ExceptT ε (StateM σ) PUnit} (h : ∀ b, StopsOnly (run b) P)
    (l : List β) : StopsOnly (l.forM run) P := by
  induction l with
  | nil => exact stopsOnly_pure
  | cons b l ih => exact (h b).bind fun _ => ih

/-! ### Reading, changing and failing -/

@[simp] theorem returns_get_iff :
    Returns (get : ExceptT ε (StateM σ) σ) s t s' ↔ t = s ∧ s' = s := by
  constructor
  · intro h
    cases h
    exact ⟨rfl, rfl⟩
  · rintro ⟨rfl, rfl⟩
    rfl

@[simp] theorem not_stops_get : ¬ Stops (get : ExceptT ε (StateM σ) σ) s e s' := by
  intro h
  cases h

@[simp] theorem returns_modify_iff {f : σ → σ} {u : Unit} :
    Returns (modify f : ExceptT ε (StateM σ) Unit) s u s' ↔ s' = f s := by
  constructor
  · intro h
    cases h
    rfl
  · rintro rfl
    rfl

/-- What reads the state first goes on from the state that it reads. -/
theorem returns_get_bind_iff {g : σ → ExceptT ε (StateM σ) β} {b : β} :
    Returns ((get : ExceptT ε (StateM σ) σ) >>= g) s b s' ↔ Returns (g s) s b s' :=
  Iff.rfl

/-- What changes the state first goes on from the state that it leaves. -/
theorem returns_modify_bind_iff {f : σ → σ} {g : Unit → ExceptT ε (StateM σ) β} {b : β} :
    Returns ((modify f : ExceptT ε (StateM σ) Unit) >>= g) s b s' ↔ Returns (g ()) (f s) b s' :=
  Iff.rfl

@[simp] theorem not_stops_modify {f : σ → σ} :
    ¬ Stops (modify f : ExceptT ε (StateM σ) Unit) s e s' := by
  intro h
  cases h

@[simp] theorem not_stops_set : ¬ Stops (set t : ExceptT ε (StateM σ) PUnit) s e s' := by
  intro h
  cases h

@[simp] theorem not_returns_throw :
    ¬ Returns (throw e : ExceptT ε (StateM σ) α) s a s' := by
  intro h
  cases h

@[simp] theorem stops_throw_iff :
    Stops (throw e : ExceptT ε (StateM σ) α) s e' s' ↔ e = e' ∧ s = s' := by
  constructor
  · intro h
    cases h
    exact ⟨rfl, rfl⟩
  · rintro ⟨rfl, rfl⟩
    rfl

theorem stopsOnly_throw {P : ε → Prop} (h : P e) :
    StopsOnly (throw e : ExceptT ε (StateM σ) α) P := by
  intro s e' s' hs
  obtain ⟨rfl, -⟩ := stops_throw_iff.mp hs
  exact h

theorem stopsOnly_get {P : ε → Prop} : StopsOnly (get : ExceptT ε (StateM σ) σ) P := by
  intro s e s' h
  exact absurd h not_stops_get

theorem stopsOnly_modify {P : ε → Prop} {f : σ → σ} :
    StopsOnly (modify f : ExceptT ε (StateM σ) Unit) P := by
  intro s e s' h
  exact absurd h not_stops_modify

theorem stopsOnly_set {P : ε → Prop} :
    StopsOnly (set t : ExceptT ε (StateM σ) PUnit) P := by
  intro s e s' h
  exact absurd h not_stops_set

theorem keeps_get {f : σ → γ} : Keeps (get : ExceptT ε (StateM σ) σ) f :=
  fun _ => rfl

end Laws

/-! ## Runs of a shell -/

namespace Run

variable {α β γ : Type} {x : Run α} {h : Fault → Run α} {s s' : Session} {a : α} {e : Stop}

/-- A fault ends a run. -/
@[simp] theorem stops_fail_iff {f : Fault} :
    Stops (fail f : Run α) s e s' ↔ .fault f = e ∧ s = s' :=
  stops_throw_iff

@[simp] theorem not_returns_fail {f : Fault} : ¬ Returns (fail f : Run α) s a s' :=
  not_returns_throw

theorem returns_ofExcept_iff {r : Except Fault α} :
    Returns (ofExcept r) s a s' ↔ r = .ok a ∧ s' = s := by
  cases r with
  | ok b =>
    constructor
    · intro h
      cases h
      exact ⟨rfl, rfl⟩
    · rintro ⟨h, rfl⟩
      cases h
      rfl
  | error f =>
    constructor
    · intro h
      cases h
    · rintro ⟨h, -⟩
      cases h

theorem stops_ofExcept_iff {r : Except Fault α} :
    Stops (ofExcept r) s e s' ↔ ∃ f, r = .error f ∧ e = .fault f ∧ s' = s := by
  cases r with
  | ok b =>
    constructor
    · intro h
      cases h
    · rintro ⟨f, h, -⟩
      cases h
  | error f =>
    constructor
    · intro h
      cases h
      exact ⟨f, rfl, rfl, rfl⟩
    · rintro ⟨f', h, rfl, rfl⟩
      cases h
      rfl

theorem recover_apply (x : Run α) (h : Fault → Run α) (s : Session) :
    recover x h s = match x s with
      | (.error (.fault f), t) => h f t
      | r => r := by
  unfold recover
  simp only [tryCatch, tryCatchThe, MonadExceptOf.tryCatch, ExceptT.tryCatch, ExceptT.mk, bind,
    StateT.bind]
  rcases x s with ⟨(f | -) | b, t⟩ <;> rfl

/-- A handled run returns what it returns itself, or what the handler returns for its fault. -/
theorem returns_recover_iff :
    Returns (recover x h) s a s' ↔
      Returns x s a s' ∨ ∃ f t, Stops x s (.fault f) t ∧ Returns (h f) t a s' := by
  unfold Returns Stops
  rw [recover_apply]
  -- A fault goes to the handler; a run that returns or nests too deeply is left as it is.
  rcases hx : x s with ⟨(f | -) | b, t⟩
  · constructor
    · intro hh
      exact Or.inr ⟨f, t, rfl, hh⟩
    · rintro (hh | ⟨f', t', hh, hr⟩)
      · cases hh
      · cases hh
        exact hr
  · constructor
    · intro hh
      cases hh
    · rintro (hh | ⟨f', t', hh, -⟩) <;> cases hh
  · constructor
    · intro hh
      exact Or.inl hh
    · rintro (hh | ⟨f', t', hh, -⟩)
      · exact hh
      · cases hh

/-- A handled run stops because it nests too deeply, or because the handler stops. -/
theorem stops_recover_iff :
    Stops (recover x h) s e s' ↔
      (e = .unfinished ∧ Stops x s .unfinished s') ∨
        ∃ f t, Stops x s (.fault f) t ∧ Stops (h f) t e s' := by
  unfold Stops
  rw [recover_apply]
  rcases hx : x s with ⟨(f | -) | b, t⟩
  · constructor
    · intro hh
      exact Or.inr ⟨f, t, rfl, hh⟩
    · rintro (⟨-, hh⟩ | ⟨f', t', hh, hr⟩)
      · cases hh
      · cases hh
        exact hr
  · constructor
    · intro hh
      cases hh
      exact Or.inl ⟨rfl, rfl⟩
    · rintro (⟨rfl, hh⟩ | ⟨f', t', hh, -⟩)
      · exact hh
      · cases hh
  · constructor
    · intro hh
      cases hh
    · rintro (⟨-, hh⟩ | ⟨f', t', hh, -⟩) <;> cases hh

theorem keeps_ofExcept {f : Session → β} {r : Except Fault α} : Keeps (ofExcept r) f :=
  fun _ => rfl

/-! ### Events, records and files -/

@[simp] theorem returns_emit_iff {ev : Event} {u : Unit} :
    Returns (emit ev) s u s' ↔ s' = { s with journal := ev :: s.journal } :=
  returns_modify_iff

@[simp] theorem returns_say_iff {style : Style} {message : String} {u : Unit} :
    Returns (say style message) s u s' ↔
      s' = { s with journal := .print (style.mark message) :: s.journal } :=
  returns_modify_iff

@[simp] theorem not_stops_say {style : Style} {message : String} :
    ¬ Stops (say style message) s e s' :=
  not_stops_modify

@[simp] theorem returns_log_iff {source message : String} {level : Level} {u : Unit} :
    Returns (log source level message) s u s' ↔
      s' = { s with journal := .log source level message :: s.journal } :=
  returns_modify_iff

@[simp] theorem not_stops_log {source message : String} {level : Level} :
    ¬ Stops (log source level message) s e s' :=
  not_stops_modify

theorem ensuring_apply (x : Run α) (change : Session → Session) (s : Session) :
    ensuring x change s = ((x s).1, change (x s).2) :=
  rfl

/-- A run after which the session is changed stops as it stopped before. -/
theorem stops_ensuring_iff {change : Session → Session} :
    Stops (ensuring x change) s e s' ↔ ∃ t, Stops x s e t ∧ s' = change t := by
  unfold Stops
  rw [ensuring_apply]
  constructor
  · intro hh
    obtain ⟨hr, ht⟩ := Prod.mk.inj hh
    exact ⟨(x s).2, Prod.ext hr rfl, ht.symm⟩
  · rintro ⟨t, hh, rfl⟩
    rw [hh]

theorem access_apply (y : FileAccess α) (s : Session) :
    access y s = (Stop.ofExcept (y s.files).1, { s with files := (y s.files).2 }) := by
  unfold access
  rw [get_bind_apply]
  rcases hy : y s.files with ⟨a | f, files⟩ <;> simp only [ExceptT.run, hy] <;> rfl

/-- An access to the files changes nothing but them. -/
theorem returns_access_iff {y : FileAccess α} :
    Returns (access y) s a s' ↔
      ∃ files, Returns y s.files a files ∧ s' = { s with files := files } := by
  unfold Returns
  rw [access_apply]
  rcases y s.files with ⟨f | b, files⟩
  · constructor
    · intro hh
      cases hh
    · rintro ⟨files', hh, -⟩
      cases hh
  · constructor
    · intro hh
      cases hh
      exact ⟨files, rfl, rfl⟩
    · rintro ⟨files', hh, rfl⟩
      cases hh
      rfl

/-- A failing access to the files changes nothing but them. -/
theorem stops_access_iff {y : FileAccess α} :
    Stops (access y) s e s' ↔
      ∃ f files, Stops y s.files f files ∧ e = .fault f ∧ s' = { s with files := files } := by
  unfold Stops
  rw [access_apply]
  rcases y s.files with ⟨f | b, files⟩
  · constructor
    · intro hh
      cases hh
      exact ⟨f, files, rfl, rfl, rfl⟩
    · rintro ⟨f', files', hh, rfl, rfl⟩
      cases hh
      rfl
  · constructor
    · intro hh
      cases hh
    · rintro ⟨f', files', hh, -⟩
      cases hh

theorem buckets_apply (f : StateSpace → Except Fault α × StateSpace) (s : Session) :
    buckets f s = (Stop.ofExcept (f s.space).1,
      { s with space := { (f s.space).2 with reports := [] },
               journal := (f s.space).2.reports ++ s.journal }) := by
  unfold buckets
  rw [get_bind_apply]
  rcases f s.space with ⟨a | e, space⟩ <;> rfl

/-- An operation on the buckets changes nothing but them, and its reports go into the journal. -/
theorem returns_buckets_iff {f : StateSpace → Except Fault α × StateSpace} :
    Returns (buckets f) s a s' ↔ ∃ u, f s.space = (.ok a, u) ∧
      s' = { s with space := { u with reports := [] }, journal := u.reports ++ s.journal } := by
  unfold Returns
  rw [buckets_apply]
  rcases f s.space with ⟨e | b, u⟩
  · constructor
    · intro hh
      cases hh
    · rintro ⟨u', hh, -⟩
      cases hh
  · constructor
    · intro hh
      cases hh
      exact ⟨u, rfl, rfl⟩
    · rintro ⟨u', hh, rfl⟩
      cases hh
      rfl

end Run

/-- What a run and the handler of its faults follow, the handled run follows. -/
theorem Follows.recover {R : Session → Session → Prop} {α : Type} {x : Run α} {f : Fault → Run α}
    (htrans : ∀ s t u, R s t → R t u → R s u) (hx : Follows x R) (hf : ∀ e, Follows (f e) R) :
    Follows (Run.recover x f) R := by
  intro s
  have hfirst := hx s
  rw [Run.recover_apply]
  rcases h : x s with ⟨(e | -) | a, t⟩ <;> rw [h] at hfirst
  · exact htrans _ _ _ hfirst (hf e t)
  · exact hfirst
  · exact hfirst

/-- What a run and the handler of its faults keep, the handled run keeps. -/
theorem Keeps.recover {β α : Type} {view : Session → β} {x : Run α} {f : Fault → Run α}
    (hx : Keeps x view) (hf : ∀ e, Keeps (f e) view) : Keeps (Run.recover x f) view :=
  Follows.recover (R := fun s t => view t = view s) (fun _ _ _ h h' => h'.trans h) hx hf

end CommandShell
