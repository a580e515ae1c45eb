import CommandShell.Proofs.Storage.Faults
import CommandShell.Shell.Line

/-!
# Appending to files

What `>>` does with a payload: without files it fails, a payload that is absent is not written, and
any other one is put at the end of a file.  What the operating system refuses is reported; a path
that stands for no absolute one stops the line.

## Main definitions

* `Session.appendFault?`: the fault with which `>>` stops.
* `Session.reporting`: the session after an error is reported.

## Main results

* `returns_appendPayload_of_present`: a payload is written, or refused by the operating system.
* `stops_appendPayload_iff`: `>>` stops only at a path that stands for no absolute one.
* `returns_appendPayload`: `>>` reports an error just where it fails.
-/

namespace CommandShell

namespace Session

/-- The root that relative paths of `>>` start at, if there are files. -/
def appendRoot? (s : Session) : Option String :=
  match s.services.get Service.fileSystemToken with
  | .ok (.fileSystem root) => some root
  | _ => none

/-- The fault with which `>>` stops: there are files and a payload, and the path stands for no
absolute one. -/
def appendFault? (s : Session) (path : String) (payload : Value) : Option Fault :=
  match s.appendRoot? with
  | some root =>
    if payload.isNull then none
    else
      match s.locations.expand (trimBlanks path) (some root) with
      | .ok _ => none
      | .error f => some f
  | none => none

/-- The session after an error is reported. -/
def reporting (s : Session) (message : String) : Session :=
  { s with journal := .print (Style.error.mark message) :: s.journal }

end Session

namespace Run

variable {text path : String} {payload : Value} {s s' : Session} {e : Stop}

/-! ### Writing a payload -/

theorem resolvePath_apply (root path : String) (s : Session) :
    resolvePath root path s = ofExcept (s.locations.expand (trimBlanks path) (some root)) s :=
  rfl

theorem returns_resolvePath_iff {root : String} {p : Path} :
    Returns (resolvePath root path) s p s' ↔
      s.locations.expand (trimBlanks path) (some root) = .ok p ∧ s' = s := by
  unfold Returns
  rw [resolvePath_apply]
  exact returns_ofExcept_iff

theorem stops_resolvePath_iff {root : String} :
    Stops (resolvePath root path) s e s' ↔
      ∃ f, s.locations.expand (trimBlanks path) (some root) = .error f ∧
        e = .fault f ∧ s' = s := by
  unfold Stops
  rw [resolvePath_apply]
  exact stops_ofExcept_iff

/-- Puts a text at the end of the file at a path, which is made if it is not there. -/
def putAtEnd (p : AccessPath) (text : String) : Run Unit := do
  if ← access (FileAccess.ask (·.exists? p)) then access (FileAccess.write p text true)
  else access (FileAccess.create p text)

theorem appendToFile_eq (root path : String) (payload : Value) :
    appendToFile root path payload =
      resolvePath root path >>= fun p => putAtEnd (.ofPath p) (payloadText payload) :=
  rfl

/-- A text that is put at the end of a file is refused only by the operating system, and changes
nothing but the files. -/
theorem stops_putAtEnd {p : AccessPath} (hp : p.hasNull = false)
    (h : Stops (putAtEnd p text) s e s') :
    ∃ f files, f.isSystem = true ∧ e = .fault f ∧ s' = { s with files := files } := by
  rcases stops_bind_iff.mp h with h | ⟨there, t, hr, h⟩
  · obtain ⟨f, files, hf, rfl, rfl⟩ := stops_access_iff.mp h
    exact ⟨f, files, FileAccess.stopsOnly_ask (fun _ _ => FileAccess.test_error) _ _ _ hf, rfl, rfl⟩
  · obtain ⟨files, -, rfl⟩ := returns_access_iff.mp hr
    cases there with
    | true =>
      rw [if_pos rfl] at h
      obtain ⟨f, files', hf, rfl, rfl⟩ := stops_access_iff.mp h
      exact ⟨f, files', FileAccess.stopsOnly_write hp _ _ _ hf, rfl, rfl⟩
    | false =>
      rw [if_neg Bool.false_ne_true] at h
      obtain ⟨f, files', hf, rfl, rfl⟩ := stops_access_iff.mp h
      exact ⟨f, files', FileAccess.stopsOnly_create hp _ _ _ hf, rfl, rfl⟩

/-- A payload is put into the file at a path that stands for an absolute one, or the operating
system refuses it. -/
theorem stops_appendToFile {root : String} (h : Stops (appendToFile root path payload) s e s') :
    (∃ f, s.locations.expand (trimBlanks path) (some root) = .error f ∧ e = .fault f ∧ s' = s) ∨
      ∃ p f files, s.locations.expand (trimBlanks path) (some root) = .ok p ∧
        f.isSystem = true ∧ e = .fault f ∧ s' = { s with files := files } := by
  rw [appendToFile_eq] at h
  rcases stops_bind_iff.mp h with hr | ⟨p, t, hr, hput⟩
  · exact Or.inl (stops_resolvePath_iff.mp hr)
  · obtain ⟨hp, rfl⟩ := returns_resolvePath_iff.mp hr
    obtain ⟨f, files, hf, rfl, rfl⟩ := stops_putAtEnd (Locations.expand_hasNull hp) hput
    exact Or.inr ⟨p, f, files, hp, hf, rfl, rfl⟩

/-- What a path that stands for no absolute one does to appending to it. -/
theorem appendToFile_of_expand_error {root : String} {f : Fault}
    (hf : s.locations.expand (trimBlanks path) (some root) = .error f) :
    Stops (appendToFile root path payload) s (.fault f) s := by
  rw [appendToFile_eq]
  exact stops_bind_iff.mpr (Or.inl (stops_resolvePath_iff.mpr ⟨f, hf, rfl, rfl⟩))

theorem returns_putAtEnd {p : AccessPath} (h : Returns (putAtEnd p text) s () s') :
    ∃ files, s' = { s with files := files } := by
  obtain ⟨there, t, hr, hw⟩ := returns_bind_iff.mp h
  obtain ⟨files, -, rfl⟩ := returns_access_iff.mp hr
  cases there with
  | true =>
    rw [if_pos rfl] at hw
    obtain ⟨files', -, rfl⟩ := returns_access_iff.mp hw
    exact ⟨files', rfl⟩
  | false =>
    rw [if_neg Bool.false_ne_true] at hw
    obtain ⟨files', -, rfl⟩ := returns_access_iff.mp hw
    exact ⟨files', rfl⟩

theorem returns_appendToFile {root : String}
    (h : Returns (appendToFile root path payload) s () s') :
    ∃ p files, s.locations.expand (trimBlanks path) (some root) = .ok p ∧
      s' = { s with files := files } := by
  rw [appendToFile_eq] at h
  obtain ⟨p, t, hr, hput⟩ := returns_bind_iff.mp h
  obtain ⟨hp, rfl⟩ := returns_resolvePath_iff.mp hr
  obtain ⟨files, rfl⟩ := returns_putAtEnd hput
  exact ⟨p, files, hp, rfl⟩

/-! ### What `>>` does -/

/-- What `>>` does where there are no files. -/
theorem appendPayload_of_no_root (path : String) (payload : Value) (h : s.appendRoot? = none) :
    Returns (appendPayload path payload) s false
      (s.reporting ">> redirect requires the file system plugin") := by
  unfold Session.appendRoot? at h
  split at h
  · cases h
  · rename_i hno
    unfold appendPayload
    refine returns_bind_iff.mpr ⟨s, s, returns_get_iff.mpr ⟨rfl, rfl⟩, ?_⟩
    split
    · exact absurd ‹_› (hno _)
    · exact returns_bind_iff.mpr ⟨(), _, returns_say_iff.mpr rfl, returns_pure_iff.mpr ⟨rfl, rfl⟩⟩

/-- What `>>` does where there are files. -/
theorem appendPayload_of_root {root : String} (h : s.appendRoot? = some root) :
    appendPayload path payload s =
      (if payload.isNull then pure true
        else recover (do appendToFile root path payload; return true) fun f =>
          if f.isSystem then do
            say .error (">> failed: " ++ escapeMarkup f.message)
            return false
          else fail f : Run Bool) s := by
  have hget : s.services.get Service.fileSystemToken = .ok (.fileSystem root) := by
    unfold Session.appendRoot? at h
    split at h
    · rename_i hr
      cases h
      exact hr
    · cases h
  unfold appendPayload
  rw [bind_apply]
  show (match s.services.get Service.fileSystemToken with
    | .ok (.fileSystem root) => _
    | _ => _ : Run Bool) s = _
  rw [hget]

/-- A payload that is absent is not written, and this counts as done. -/
theorem appendPayload_of_null (path : String) {root : String} (h : s.appendRoot? = some root)
    (hnull : payload.isNull = true) : Returns (appendPayload path payload) s true s := by
  unfold Returns
  rw [appendPayload_of_root h, if_pos hnull]
  rfl

/-- A payload that is written, or is refused by the operating system, which is reported. -/
theorem returns_appendPayload_of_present {root : String} {done : Bool}
    (h : s.appendRoot? = some root) (hnull : payload.isNull = false) :
    Returns (appendPayload path payload) s done s' ↔
      (done = true ∧ Returns (appendToFile root path payload) s () s') ∨
        ∃ f t, Stops (appendToFile root path payload) s (.fault f) t ∧ f.isSystem = true ∧
          done = false ∧ s' = t.reporting (">> failed: " ++ escapeMarkup f.message) := by
  unfold Returns
  rw [appendPayload_of_root h, if_neg (by simp [hnull])]
  refine Iff.trans returns_recover_iff ?_
  simp only [returns_bind_iff, stops_bind_iff, not_stops_pure, returns_pure_iff, and_false,
    exists_false, or_false]
  constructor
  · rintro (⟨⟨⟩, t, hr, rfl, rfl⟩ | ⟨f, t, hs, hr⟩)
    · exact Or.inl ⟨rfl, hr⟩
    · refine Or.inr ⟨f, t, hs, ?_⟩
      -- Only what the operating system refuses becomes a failed redirect; any other fault goes on.
      cases hf : f.isSystem with
      | true =>
        rw [hf, if_pos rfl] at hr
        obtain ⟨⟨⟩, t', hsay, hp⟩ := returns_bind_iff.mp hr
        obtain ⟨rfl, rfl⟩ := returns_pure_iff.mp hp
        exact ⟨rfl, rfl, returns_say_iff.mp hsay⟩
      | false =>
        rw [hf, if_neg Bool.false_ne_true] at hr
        exact absurd hr not_returns_fail
  · rintro (⟨rfl, hr⟩ | ⟨f, t, hs, hf, rfl, rfl⟩)
    · exact Or.inl ⟨(), s', hr, rfl, rfl⟩
    · refine Or.inr ⟨f, t, hs, ?_⟩
      rw [if_pos hf]
      exact returns_bind_iff.mpr ⟨(), _, returns_say_iff.mpr rfl, returns_pure_iff.mpr ⟨rfl, rfl⟩⟩

/-- What `>>` changes are the files, and it reports an error just where it fails. -/
theorem returns_appendPayload {done : Bool} (h : Returns (appendPayload path payload) s done s') :
    ∃ files, (done = true ∧ s' = { s with files := files }) ∨
      (done = false ∧ ∃ message, s' = { s with files := files }.reporting message) := by
  cases hroot : s.appendRoot? with
  | none =>
    obtain ⟨rfl, rfl⟩ := h.unique (appendPayload_of_no_root path payload hroot)
    exact ⟨s.files, Or.inr ⟨rfl, _, rfl⟩⟩
  | some root =>
    cases hnull : payload.isNull with
    | true =>
      obtain ⟨rfl, rfl⟩ := h.unique (appendPayload_of_null path hroot hnull)
      exact ⟨s'.files, Or.inl ⟨rfl, rfl⟩⟩
    | false =>
      rcases (returns_appendPayload_of_present hroot hnull).mp h with
        ⟨rfl, hr⟩ | ⟨f, t, hs, hsys, rfl, rfl⟩
      · obtain ⟨p, files, -, rfl⟩ := returns_appendToFile hr
        exact ⟨files, Or.inl ⟨rfl, rfl⟩⟩
      · rcases stops_appendToFile hs with ⟨f', hexp, hf, -⟩ | ⟨p, f', files, -, -, -, rfl⟩
        -- A path that stands for no absolute one is no fault of the system.
        · cases hf
          rw [Locations.expand_error_not_isSystem hexp] at hsys
          cases hsys
        · exact ⟨files, Or.inr ⟨rfl, _, rfl⟩⟩

/-- `>>` stops a line just where a payload that is present has a path, from files that are there,
that stands for no absolute one. -/
theorem stops_appendPayload_iff :
    Stops (appendPayload path payload) s e s' ↔
      ∃ f, s.appendFault? path payload = some f ∧ e = .fault f ∧ s' = s := by
  cases hroot : s.appendRoot? with
  | none =>
    have hr := appendPayload_of_no_root path payload hroot
    simp [Session.appendFault?, hroot, hr.not_stops]
  | some root =>
    cases hnull : payload.isNull with
    | true =>
      have hr := appendPayload_of_null path hroot hnull
      simp [Session.appendFault?, hroot, hnull, hr.not_stops]
    | false =>
      rw [Session.appendFault?, hroot]
      simp only [hnull]
      unfold Stops
      rw [appendPayload_of_root hroot, if_neg (by simp [hnull])]
      refine Iff.trans stops_recover_iff ?_
      simp only [stops_bind_iff, not_stops_pure, and_false, exists_false, or_false]
      constructor
      · rintro (⟨rfl, hs⟩ | ⟨f, t, hs, hh⟩)
        · rcases stops_appendToFile hs with ⟨f, -, hf, -⟩ | ⟨p, f, files, -, -, hf, -⟩ <;> cases hf
        -- What the system refuses is reported, so a fault that is left comes from the path.
        · rcases stops_appendToFile hs with ⟨f', hexp, hf, rfl⟩ | ⟨p, f', files, -, hsys, hf, -⟩
          · cases hf
            rw [if_neg (by simp [Locations.expand_error_not_isSystem hexp])] at hh
            obtain ⟨rfl, rfl⟩ := stops_fail_iff.mp hh
            exact ⟨f, by simp [hexp], rfl, rfl⟩
          · cases hf
            rw [if_pos hsys] at hh
            exact absurd (stops_bind_iff.mp hh) (by simp)
      · rintro ⟨f, hf, rfl, rfl⟩
        cases hexp : s'.locations.expand (trimBlanks path) (some root) with
        | ok p => simp [hexp] at hf
        | error f' =>
          obtain rfl : f' = f := by simpa [hexp] using hf
          refine Or.inr ⟨f', s', appendToFile_of_expand_error hexp, ?_⟩
          rw [if_neg (by simp [Locations.expand_error_not_isSystem hexp])]
          exact stops_fail_iff.mpr ⟨rfl, rfl⟩

end Run

end CommandShell
