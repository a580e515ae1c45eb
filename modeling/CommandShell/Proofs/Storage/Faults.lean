import CommandShell.Proofs.Ending

/-!
# Faults of files

How the accesses to files fail.  Where a path stands for an absolute one, that one holds no NUL, and
then every fault of an access comes from the operating system.  Where it stands for none, the home
directory that it names is not known or the path holds a NUL, and neither is a fault of the
operating system.

## Main results

* `Locations.expand_error`: why a written path stands for no absolute one.
* `Locations.expand_hasNull`, `Locations.up_notMem_expand`: the path that a written path stands for
  holds no NUL and no `..`.
* `FileAccess.stopsOnly_write`, `FileAccess.stopsOnly_create`: the faults of an access to a path
  without NUL come from the operating system.
-/

namespace CommandShell

/-! ### Paths that are resolved -/

namespace WrittenPath

theorem resolve_error {p : WrittenPath} {directory : Path} {f : Fault}
    (h : p.resolve directory = .error f) : f = .nullInPath := by
  unfold resolve at h
  dsimp only at h
  split at h
  · cases h
    rfl
  · cases h

/-- The names that a resolved path takes hold no NUL if those that are resolved hold none. -/
theorem anyNull_foldl {names : List String} (h : anyNull names = false) (done : Path)
    (hdone : anyNull done = false) :
    anyNull (names.foldl
      (fun done n => if n = ".." then Path.parent done else done ++ [n]) done) = false := by
  induction names generalizing done with
  | nil => exact hdone
  | cons n rest ih =>
    simp only [anyNull, List.any_cons, Bool.or_eq_false_iff] at h
    rw [List.foldl_cons]
    refine ih (by simpa [anyNull] using h.2) _ ?_
    split
    · simp only [anyNull, List.any_eq_false] at hdone ⊢
      intro m hm
      exact hdone m (List.dropLast_subset _ hm)
    · simp only [anyNull, List.any_append, List.any_cons, List.any_nil, Bool.or_false,
        Bool.or_eq_false_iff] at hdone ⊢
      exact ⟨hdone, h.1⟩

theorem resolve_anyNull {p : WrittenPath} {directory path : Path}
    (h : p.resolve directory = .ok path) : anyNull path = false := by
  unfold resolve at h
  dsimp only at h
  split at h
  · cases h
  · rename_i hn
    cases h
    exact anyNull_foldl (by simpa using hn) [] rfl

/-- A resolved path does not go up. -/
theorem up_notMem_foldl (names : List String) (done : Path) (hdone : ".." ∉ done) :
    ".." ∉ names.foldl (fun done n => if n = ".." then Path.parent done else done ++ [n]) done := by
  induction names generalizing done with
  | nil => exact hdone
  | cons n rest ih =>
    rw [List.foldl_cons]
    refine ih _ ?_
    split
    · exact fun hmem => hdone (List.dropLast_subset _ hmem)
    · rename_i hn
      simp [hdone, Ne.symm hn]

theorem up_notMem_resolve {p : WrittenPath} {directory path : Path}
    (h : p.resolve directory = .ok path) : ".." ∉ path := by
  unfold resolve at h
  dsimp only at h
  split at h
  · cases h
  · cases h
    exact up_notMem_foldl _ [] List.not_mem_nil

end WrittenPath

namespace Locations

variable {l : Locations}

theorem homeOf_error {user : String} {f : Fault} (h : l.homeOf user = .error f) :
    f = .noHome ∨ f = .nullInPath := by
  unfold homeOf userHome at h
  grind

theorem expandUser_error {p : WrittenPath} {f : Fault} (h : l.expandUser p = .error f) :
    f = .noHome ∨ f = .nullInPath := by
  unfold expandUser at h
  split at h
  · split at h
    · rename_i rest _ _ user _
      cases hh : l.homeOf (String.ofList user) with
      | error f' =>
        rw [hh] at h
        cases h
        exact homeOf_error hh
      | ok home =>
        rw [hh] at h
        cases h
    · cases h
  · cases h

/-- Why a written path stands for no absolute one. -/
theorem expand_error {path : String} {base : Option String} {f : Fault}
    (h : l.expand path base = .error f) : f = .noHome ∨ f = .nullInPath := by
  unfold expand at h
  cases hu : l.expandUser (.ofText path) with
  | error f' =>
    rw [hu] at h
    cases h
    exact expandUser_error hu
  | ok expanded =>
    rw [hu] at h
    exact Or.inr (WrittenPath.resolve_error h)

theorem expand_error_not_isSystem {path : String} {base : Option String} {f : Fault}
    (h : l.expand path base = .error f) : f.isSystem = false := by
  rcases expand_error h with rfl | rfl <;> rfl

/-- The path that a written path stands for holds no NUL. -/
theorem expand_hasNull {path : String} {base : Option String} {p : Path}
    (h : l.expand path base = .ok p) : (AccessPath.ofPath p).hasNull = false := by
  unfold expand at h
  cases hu : l.expandUser (.ofText path) with
  | error f =>
    rw [hu] at h
    cases h
  | ok expanded =>
    rw [hu] at h
    exact WrittenPath.resolve_anyNull h

/-- The path that a written path stands for does not go up. -/
theorem up_notMem_expand {path : String} {base : Option String} {p : Path}
    (h : l.expand path base = .ok p) : ".." ∉ p := by
  unfold expand at h
  cases hu : l.expandUser (.ofText path) with
  | error f =>
    rw [hu] at h
    cases h
  | ok expanded =>
    rw [hu] at h
    exact WrittenPath.up_notMem_resolve h

end Locations

/-! ### Accesses -/

namespace FileAccess

/-- The faults of the operating system. -/
def SystemFault (f : Fault) : Prop :=
  f.isSystem = true

theorem systemFault_directoryTarget {path : String} : SystemFault (.directoryTarget path) := rfl

theorem systemFault_alreadyExists {path : String} : SystemFault (.alreadyExists path) := rfl

variable {p : AccessPath}

theorem stopsOnly_refuseNull (h : p.hasNull = false) :
    StopsOnly (refuseNull p) SystemFault := by
  unfold refuseNull
  rw [h]
  exact stopsOnly_pure

theorem stopsOnly_ask {α : Type} {f : FileTree → Except Fault α}
    (h : ∀ t e, f t = .error e → SystemFault e) : StopsOnly (ask f) SystemFault := by
  intro t e t' hs
  have hask : ask f t = (f t, t) := rfl
  unfold Stops at hs
  rw [hask] at hs
  exact h t e (congrArg Prod.fst hs)

theorem test_error {t : FileTree} {f : Node → Bool} {e : Fault} (h : t.test p f = .error e) :
    SystemFault e := by
  unfold FileTree.test at h
  split at h
  · cases h
  · split at h
    · cases h
    · cases h
      rfl
    · cases h

theorem stopsOnly_settleDirectory {e : FileError} :
    StopsOnly (settleDirectory p e) SystemFault := by
  unfold settleDirectory
  refine stopsOnly_get.bind fun t => ?_
  refine StopsOnly.ite stopsOnly_pure ?_
  exact stopsOnly_throw rfl

theorem stopsOnly_makeDirectoriesUp (names : List String) :
    StopsOnly (makeDirectoriesUp p names) SystemFault := by
  -- A directory is tried before and after those above it; each attempt fails as the system does.
  induction names generalizing p with
  | nil => exact stopsOnly_pure
  | cons name up ih =>
    unfold makeDirectoriesUp
    refine stopsOnly_get.bind fun t => ?_
    split
    · exact stopsOnly_set
    · refine ih.bind fun _ => stopsOnly_get.bind fun t => ?_
      split
      · exact stopsOnly_set
      · exact stopsOnly_throw rfl
      · exact stopsOnly_settleDirectory
    · exact stopsOnly_settleDirectory

theorem stopsOnly_makeDirectories (h : p.hasNull = false) :
    StopsOnly (makeDirectories p) SystemFault :=
  (stopsOnly_refuseNull h).bind fun _ => stopsOnly_makeDirectoriesUp _

theorem stopsOnly_put {text : String} {append : Bool} (h : p.hasNull = false) :
    StopsOnly (put p text append) SystemFault := by
  unfold put
  refine (stopsOnly_refuseNull h).bind fun _ => stopsOnly_get.bind fun t => ?_
  split
  · exact stopsOnly_throw rfl
  · exact stopsOnly_set
  · exact stopsOnly_set
  · split
    · exact stopsOnly_set
    · exact stopsOnly_throw rfl
  · exact stopsOnly_throw rfl

theorem parent_hasNull (h : p.hasNull = false) : p.parent.hasNull = false := by
  unfold AccessPath.hasNull WrittenPath.anyNull at h ⊢
  rw [List.any_eq_false] at h ⊢
  intro n hn
  exact h n (List.dropLast_subset _ hn)

/-- The faults of writing to a path without NUL come from the operating system. -/
theorem stopsOnly_write {text : String} {append : Bool} (h : p.hasNull = false) :
    StopsOnly (write p text append) SystemFault := by
  have hrest : StopsOnly (do makeDirectories p.parent; put p text append) SystemFault :=
    (stopsOnly_makeDirectories (parent_hasNull h)).bind fun _ => stopsOnly_put h
  unfold write
  refine (stopsOnly_ask fun _ _ => test_error).bind fun there => ?_
  exact StopsOnly.ite (StopsOnly.bind (stopsOnly_throw systemFault_directoryTarget)
    fun _ => hrest) hrest

/-- The faults of making a file at a path without NUL come from the operating system. -/
theorem stopsOnly_create {text : String} (h : p.hasNull = false) :
    StopsOnly (create p text) SystemFault := by
  unfold create
  refine (stopsOnly_ask fun _ _ => test_error).bind fun there => ?_
  exact StopsOnly.ite (StopsOnly.bind (stopsOnly_throw systemFault_alreadyExists)
    fun _ => stopsOnly_write h) (stopsOnly_write h)

end FileAccess

end CommandShell
