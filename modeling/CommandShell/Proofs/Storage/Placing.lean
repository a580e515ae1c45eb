import CommandShell.Proofs.Storage.Contents

/-!
# Where files are put

A path that is accessed as it was written may go up, so it is walked, and what it leads to stands
below nothing but directories.  Making the directories of a path puts directories where nothing
stood, and leaves all files as they are.  A text that is put into a file takes the place of what
stood there, and the path leads to it then.

## Main definitions

* `FileTree.file?`: what stands at a path, unless that is a directory.
* `FileTree.Stands`: a node at a path below nothing but directories.
* `FileTree.GainsDirectories`: one tree has the nodes of another one, and some directories more.
* `FileTree.target?`: the path of the file that a text is put into.

## Main results

* `FileTree.walk_cons_eq_ok_iff`: what one more name does to a walk.
* `FileTree.stands_of_locate`: where a path leads.
* `FileTree.locate_put`, `FileTree.locate_put_vacancy`: a path leads to what is put there.
* `FileTree.target?_eq_some_iff`: the path of the file that receives a text.
* `FileAccess.gainsDirectories_makeDirectories`: what making directories does.
* `FileAccess.put_of_target`, `FileAccess.put_of_no_target`: what putting a text into a file does.
* `FileTree.readText_of_locate`: a text that was put into a file is read from there.
-/

namespace CommandShell

/-- A path that has a last name is this name below its parent, or has no parent but itself. -/
theorem AccessPath.names_parent {p : AccessPath} {name : String}
    (h : p.names.getLast? = some name) :
    p.names = p.parent.names ++ [name] ∨ p.names = p.parent.names := by
  obtain ⟨⟨start, names⟩, origin⟩ := p
  rcases List.eq_nil_or_concat names with rfl | ⟨up, last, rfl⟩
  · exact Or.inr rfl
  · refine Or.inl ?_
    rw [List.concat_eq_append] at *
    unfold AccessPath.names AccessPath.parent WrittenPath.namesFrom WrittenPath.parent
      WrittenPath.isAbsolute at *
    cases start <;> simp_all [← List.append_assoc]

namespace FileTree

variable {t u : FileTree} {p : AccessPath} {q done : Path} {n here : Node}

/-! ### Nodes at paths -/

/-- What stands at a path, unless that is a directory. -/
def file? (t : FileTree) (q : Path) : Option Node :=
  (t.node? q).filter (!·.isDirectory)

theorem file?_eq_some_iff : t.file? q = some n ↔ t.node? q = some n ∧ n.isDirectory = false := by
  simp [file?, Option.filter_eq_some_iff]

theorem file?_put (hq : q ≠ []) (hn : n.isDirectory = false) (r : Path) :
    (t.put q n).file? r = if r = q then some n else t.file? r := by
  rw [file?, node?_put hq]
  split
  · simp [hn]
  · rfl

/-- A node stands at a path, and everything above it is a directory. -/
structure Stands (t : FileTree) (q : Path) (n : Node) : Prop where
  node : t.node? q = some n
  above : ∀ r name rest, q = r ++ name :: rest → t.node? r = some .directory

theorem stands_nil (t : FileTree) : t.Stands [] .directory :=
  ⟨rfl, fun r name rest h => by simp at h⟩

/-- What stands in a directory that stands itself stands. -/
theorem Stands.child (h : t.Stands done .directory) {name : String}
    (hn : t.node? (done ++ [name]) = some n) : t.Stands (done ++ [name]) n := by
  refine ⟨hn, fun r name' rest heq => ?_⟩
  rcases List.eq_nil_or_concat rest with rfl | ⟨up, last, rfl⟩
  · rw [(List.append_inj' heq rfl).1.symm]
    exact h.node
  · refine h.above r name' up ?_
    rw [List.concat_eq_append, ← List.cons_append, ← List.append_assoc] at heq
    exact (List.append_inj' heq rfl).1

theorem Stands.parent (h : t.Stands done n) : t.Stands done.parent .directory := by
  rcases List.eq_nil_or_concat done with rfl | ⟨up, last, rfl⟩
  · exact stands_nil t
  · rw [List.concat_eq_append] at h
    rw [List.concat_eq_append, Path.parent, List.dropLast_concat]
    refine ⟨h.above up last [] rfl, fun r name rest heq => h.above r name (rest ++ [last]) ?_⟩
    rw [heq]
    simp

/-- A walk over one more name goes on from the parent, or from what stands under the name. -/
theorem walk_cons_eq_ok_iff {name : String} {rest : List String} :
    t.walk done here (name :: rest) = .ok (q, n) ↔ here = .directory ∧
      (name = ".." ∧ t.walk done.parent .directory rest = .ok (q, n) ∨
        name ≠ ".." ∧ name.utf8ByteSize ≤ maxName ∧ ∃ next, t.node? (done ++ [name]) = some next ∧
          t.walk (done ++ [name]) next rest = .ok (q, n)) := by
  constructor
  · intro h
    rw [walk] at h
    split at h
    · cases h
    rename_i hdir
    have hhere : here = .directory := by
      cases here with
      | directory => rfl
      | _ => exact absurd rfl hdir
    split at h
    · exact ⟨hhere, Or.inl ⟨‹_›, h⟩⟩
    split at h
    · cases h
    split at h
    · exact ⟨hhere, Or.inr ⟨‹_›, Nat.le_of_not_lt ‹_›, _, ‹_›, h⟩⟩
    · cases h
  · rintro ⟨rfl, ⟨rfl, h⟩ | ⟨hup, hfits, next, hnext, h⟩⟩
    · rw [walk, if_neg (by decide), if_pos rfl]
      exact h
    · rw [walk, if_neg (by decide), if_neg hup, if_neg (Nat.not_lt.mpr hfits), hnext]
      exact h

/-- A walk that misses its only name is in a directory, in which nothing stands under this name. -/
theorem walk_singleton_eq_missing {name : String}
    (h : t.walk done here [name] = .error .missing) : here = .directory ∧ name ≠ ".." ∧
      name.utf8ByteSize ≤ maxName ∧ t.node? (done ++ [name]) = none := by
  rw [walk] at h
  split at h
  · cases h
  rename_i hdir
  split at h
  · cases h
  split at h
  · cases h
  split at h
  · cases h
  refine ⟨?_, ‹_›, Nat.le_of_not_lt ‹_›, ‹_›⟩
  cases here with
  | directory => rfl
  | _ => exact absurd rfl hdir

/-- A walk leads to what stands. -/
theorem Stands.walk (h : t.Stands done here) {names : List String}
    (hwalk : t.walk done here names = .ok (q, n)) : t.Stands q n := by
  induction names generalizing done here with
  | nil =>
    cases hwalk
    exact h
  | cons name rest ih =>
    obtain ⟨rfl, ⟨-, hrest⟩ | ⟨-, -, next, hnext, hrest⟩⟩ := walk_cons_eq_ok_iff.mp hwalk
    · exact ih h.parent hrest
    · exact ih (h.child hnext) hrest

theorem walk_of_locate (h : t.locate p = .ok (q, n)) :
    t.walk [] .directory p.names = .ok (q, n) :=
  (locate_eq_ok_iff.mp h).2

/-- What a path leads to stands. -/
theorem stands_of_locate (h : t.locate p = .ok (q, n)) : t.Stands q n :=
  (stands_nil t).walk (walk_of_locate h)

/-- A file does not stand at the root. -/
theorem Stands.ne_nil (h : t.Stands q n) (hn : n.isDirectory = false) : q ≠ [] := by
  rintro rfl
  cases h.node
  cases hn

/-! ### New nodes -/

/-- Where a path leads nowhere, but a node can be put there, nothing stands. -/
theorem node?_of_vacancy (hmissing : t.locate p = .error .missing) (h : t.vacancy p = .ok q) :
    q ≠ [] ∧ t.node? q = none := by
  unfold vacancy at h
  split at h
  · rename_i d m name hparent hname
    cases h
    have hwalk := (locate_eq_missing_iff.mp hmissing).2
    rcases AccessPath.names_parent hname with hnames | hnames
    · rw [hnames, walk_append, walk_of_locate hparent] at hwalk
      exact ⟨by simp, (walk_singleton_eq_missing hwalk).2.2.2⟩
    · rw [hnames, walk_of_locate hparent] at hwalk
      cases hwalk
  · cases h
  · cases h

/-- A directory is made where nothing stood. -/
theorem exists_of_makeDirectory (h : t.makeDirectory p = .ok u) :
    ∃ q, q ≠ [] ∧ t.node? q = none ∧ u = t.put q .directory := by
  obtain ⟨q, hl, hv, rfl⟩ := exists_vacancy_of_makeDirectory h
  obtain ⟨hq, hnone⟩ := node?_of_vacancy hl hv
  exact ⟨q, hq, hnone, rfl⟩

/-- The second tree has all nodes of the first one, and no others but directories. -/
structure GainsDirectories (t u : FileTree) : Prop where
  keeps : ∀ q n, t.node? q = some n → u.node? q = some n
  adds : ∀ q n, u.node? q = some n → t.node? q = some n ∨ n = .directory

theorem GainsDirectories.refl (t : FileTree) : t.GainsDirectories t :=
  ⟨fun _ _ h => h, fun _ _ h => Or.inl h⟩

theorem GainsDirectories.trans {v : FileTree} (h : t.GainsDirectories u)
    (h' : u.GainsDirectories v) : t.GainsDirectories v where
  keeps q n hq := h'.keeps q n (h.keeps q n hq)
  adds q n hq := (h'.adds q n hq).elim (h.adds q n) Or.inr

theorem GainsDirectories.put_directory (hq : q ≠ []) (hnone : t.node? q = none) :
    t.GainsDirectories (t.put q .directory) where
  keeps r n hr := by
    rw [node?_put hq, if_neg]
    · exact hr
    · rintro rfl
      rw [hnone] at hr
      cases hr
  adds r n hr := by
    rw [node?_put hq] at hr
    split at hr
    · exact Or.inr (Option.some.inj hr).symm
    · exact Or.inl hr

/-- Directories more leave all files as they are. -/
theorem GainsDirectories.file?_eq (h : t.GainsDirectories u) : u.file? = t.file? := by
  funext q
  ext n
  rw [file?_eq_some_iff, file?_eq_some_iff]
  constructor
  · rintro ⟨hq, hn⟩
    refine ⟨(h.adds q n hq).resolve_right ?_, hn⟩
    rintro rfl
    cases hn
  · rintro ⟨hq, hn⟩
    exact ⟨h.keeps q n hq, hn⟩

theorem walk_of_keeps {names : List String} (h : ∀ q n, t.node? q = some n → u.node? q = some n)
    (hw : t.walk done here names = .ok (q, n)) : u.walk done here names = .ok (q, n) := by
  induction names generalizing done here with
  | nil => exact hw
  | cons name rest ih =>
    rw [walk_cons_eq_ok_iff] at hw ⊢
    obtain ⟨hhere, ⟨hup, hrest⟩ | ⟨hup, hfits, next, hnext, hrest⟩⟩ := hw
    · exact ⟨hhere, Or.inl ⟨hup, ih hrest⟩⟩
    · exact ⟨hhere, Or.inr ⟨hup, hfits, next, h _ _ hnext, ih hrest⟩⟩

/-- Where a path leads, it leads in a tree that has the same nodes and others. -/
theorem locate_of_keeps (h : ∀ q n, t.node? q = some n → u.node? q = some n)
    (hl : t.locate p = .ok (q, n)) : u.locate p = .ok (q, n) := by
  rw [locate_eq_ok_iff] at hl ⊢
  exact hl.imp_right (walk_of_keeps h)

/-- Where a path led, it leads with directories more. -/
theorem GainsDirectories.locate (h : t.GainsDirectories u) (hl : t.locate p = .ok (q, n)) :
    u.locate p = .ok (q, n) :=
  locate_of_keeps h.keeps hl

/-- A path that led nowhere leads to what is put where there is room for it. -/
theorem locate_put_vacancy (hmissing : t.locate p = .error .missing) (h : t.vacancy p = .ok q)
    (m : Node) : (t.put q m).locate p = .ok (q, m) := by
  obtain ⟨hq, hnone⟩ := node?_of_vacancy hmissing h
  have hkeeps : ∀ r n, t.node? r = some n → (t.put q m).node? r = some n := by
    intro r n hr
    rw [node?_put hq, if_neg]
    · exact hr
    · rintro rfl
      rw [hnone] at hr
      cases hr
  unfold vacancy at h
  split at h
  · rename_i d n name hparent hname
    cases h
    have hup := walk_of_locate (locate_of_keeps hkeeps hparent)
    obtain ⟨hfitsPath, hwalk⟩ := locate_eq_missing_iff.mp hmissing
    rw [locate_eq_ok_iff]
    refine ⟨hfitsPath, ?_⟩
    rcases AccessPath.names_parent hname with hnames | hnames
    · -- The walk came as far as the directory, and the last name is one that could stand in it.
      rw [hnames, walk_append, walk_of_locate hparent] at hwalk
      rw [hnames, walk_append, hup]
      obtain ⟨rfl, hup', hfits, -⟩ := walk_singleton_eq_missing hwalk
      have hnode : (t.put (d ++ [name]) m).node? (d ++ [name]) = some m :=
        (node?_put hq).trans (if_pos rfl)
      exact walk_cons_eq_ok_iff.mpr ⟨rfl, Or.inr ⟨hup', hfits, m, hnode, rfl⟩⟩
    · rw [hnames, walk_of_locate hparent] at hwalk
      cases hwalk
  · cases h
  · cases h

/-! ### Files in place of others -/

/-- A walk from a directory to a file comes to what is put in its place.  Whatever it passes on the
way is a directory, so it is not the file itself. -/
theorem walk_put {names : List String} (hnode : t.node? q = some n) (hq : q ≠ [])
    (hn : n.isDirectory = false) (m : Node)
    (hw : t.walk done .directory names = .ok (q, n)) :
    (t.put q m).walk done .directory names = .ok (q, m) := by
  induction names generalizing done with
  | nil =>
    cases hw
    cases hn
  | cons name rest ih =>
    rw [walk_cons_eq_ok_iff] at hw ⊢
    obtain ⟨-, ⟨hup, hrest⟩ | ⟨hup, hfits, next, hnext, hrest⟩⟩ := hw
    · exact ⟨rfl, Or.inl ⟨hup, ih hrest⟩⟩
    · refine ⟨rfl, Or.inr ⟨hup, hfits, ?_⟩⟩
      by_cases hnextdir : next = .directory
      · subst hnextdir
        refine ⟨.directory, ?_, ih hrest⟩
        rw [node?_put hq, if_neg]
        · exact hnext
        · intro heq
          rw [heq, hnode] at hnext
          cases hnext
          cases hn
      · -- The walk ends here, with the file.
        cases rest with
        | nil =>
          cases hrest
          exact ⟨m, (node?_put hq).trans (if_pos rfl), rfl⟩
        | cons => exact absurd (walk_cons_eq_ok_iff.mp hrest).1 hnextdir

/-- A path that leads to a file leads to what is put in its place. -/
theorem locate_put (hl : t.locate p = .ok (q, n)) (hn : n.isDirectory = false) (m : Node) :
    (t.put q m).locate p = .ok (q, m) := by
  have hstands := stands_of_locate hl
  rw [locate_eq_ok_iff] at hl ⊢
  exact hl.imp_right (walk_put hstands.node (hstands.ne_nil hn) hn m)

/-! ### Files that receive texts -/

variable {bytes : ByteArray}

/-- What the file that receives a text holds stands in the tree. -/
theorem Receives.content_eq (h : t.Receives p q bytes) : t.content q = bytes := by
  cases h with
  | file hl => rw [content, (stands_of_locate hl).node]
  | database hl => rw [content, (stands_of_locate hl).node]
  | missing hl hv => rw [content, (node?_of_vacancy hl hv).2]

/-- No text is put into the root. -/
theorem Receives.ne_nil (h : t.Receives p q bytes) : q ≠ [] := by
  cases h with
  | file hl => exact (stands_of_locate hl).ne_nil rfl
  | database hl => exact (stands_of_locate hl).ne_nil rfl
  | missing hl hv => exact (node?_of_vacancy hl hv).1

/-- The path leads to what is put where the file that receives a text stands. -/
theorem Receives.locate_put (h : t.Receives p q bytes) (m : Node) :
    (t.put q m).locate p = .ok (q, m) := by
  cases h with
  | file hl => exact FileTree.locate_put hl rfl m
  | database hl => exact FileTree.locate_put hl rfl m
  | missing hl hv => exact locate_put_vacancy hl hv m

/-- A path that leads anywhere leads to the file that receives a text there. -/
theorem Receives.eq_of_locate {r : Path} (h : t.Receives p q bytes)
    (hl : t.locate p = .ok (r, n)) : q = r := by
  cases h with
  | file hl' =>
    cases hl.symm.trans hl'
    rfl
  | database hl' =>
    cases hl.symm.trans hl'
    rfl
  | missing hl' hv => cases hl.symm.trans hl'

/-- The path of the file that a text is put into: one that is there, or a new one. -/
def target? (t : FileTree) (p : AccessPath) : Option Path :=
  if p.hasNull then none
  else
    match t.locate p with
    | .ok (q, n) => if n.isDirectory then none else some q
    | .error .missing => (t.vacancy p).toOption
    | .error _ => none

theorem target?_eq_some_iff :
    t.target? p = some q ↔ p.hasNull = false ∧ ∃ bytes, t.Receives p q bytes := by
  unfold target?
  constructor
  · intro h
    split at h
    · cases h
    -- What stands at the path decides, or, where nothing does, whether something can be put there.
    refine ⟨by simp_all, ?_⟩
    split at h
    · rename_i r n hl
      cases n with
      | directory => cases h
      | file bytes =>
        cases h
        exact ⟨bytes, .file hl⟩
      | database =>
        cases h
        exact ⟨.empty, .database hl⟩
    · rename_i hl
      cases hv : t.vacancy p with
      | ok r =>
        rw [hv] at h
        cases h
        exact ⟨.empty, .missing hl hv⟩
      | error e =>
        rw [hv] at h
        cases h
    · cases h
  · rintro ⟨hnull, bytes, hreceives⟩
    rw [if_neg (by simp [hnull])]
    cases hreceives with
    | file hl => rw [hl]; rfl
    | database hl => rw [hl]; rfl
    | missing hl hv => rw [hl, hv]; rfl

/-! ### Texts of files -/

theorem decodeUtf8_toUTF8 (s : String) : decodeUtf8 s.toUTF8 = .ok s := by
  have h : String.fromUTF8? s.toUTF8 = some s := dif_pos s.isValidUTF8
  unfold decodeUtf8
  rw [h]

/-- A text that was put into a file is read with its line ends as line feeds. -/
theorem readText_of_locate {s : String} (hnull : p.hasNull = false)
    (hl : t.locate p = .ok (q, .file s.toUTF8)) : t.readText p = .ok (unifyLineEnds s) := by
  unfold readText readBytes stat
  rw [if_neg (by simp [hnull]), hl]
  show (decodeUtf8 s.toUTF8 >>= fun s => Except.ok (unifyLineEnds s)) = _
  rw [decodeUtf8_toUTF8]
  rfl

/-- A path whose text is read leads to a file, or to a database, whose bytes are not kept. -/
theorem exists_of_readText {s : String} (h : t.readText p = .ok s) :
    p.hasNull = false ∧ ∃ q n, t.locate p = .ok (q, n) ∧ n.isDirectory = false := by
  unfold readText readBytes stat at h
  split at h
  · cases h
  rename_i hnull
  refine ⟨by simpa using hnull, ?_⟩
  cases hl : t.locate p with
  | error e =>
    rw [hl] at h
    cases h
  | ok found =>
    obtain ⟨q, n⟩ := found
    refine ⟨q, n, rfl, ?_⟩
    rw [hl] at h
    cases n with
    | directory => cases h
    | _ => rfl

/-- What is read is there. -/
theorem exists?_of_readText {s : String} (h : t.readText p = .ok s) : t.exists? p = .ok true := by
  obtain ⟨hnull, q, n, hl, -⟩ := exists_of_readText h
  unfold exists? test stat
  rw [if_neg (by simp [hnull]), hl]
  rfl

end FileTree

namespace FileAccess

variable {t : FileTree} {p : AccessPath} {q : Path}

/-- Making the directories of a path puts directories where nothing stood. -/
theorem gainsDirectories_makeDirectories (p : AccessPath) :
    Follows (makeDirectories p) FileTree.GainsDirectories := by
  have htrans : ∀ s t u : FileTree, s.GainsDirectories t → t.GainsDirectories u →
      s.GainsDirectories u := fun _ _ _ => FileTree.GainsDirectories.trans
  refine Follows.bind htrans (fun t => ?_) fun _ => ?_
  · rw [show (refuseNull p t).2 = t from keeps_refuseNull p t]
    exact .refl t
  · refine follows_makeDirectoriesUp FileTree.GainsDirectories.refl htrans fun _ _ t u h => ?_
    obtain ⟨q, hq, hnone, rfl⟩ := FileTree.exists_of_makeDirectory h
    exact .put_directory hq hnone

/-- A text is put in place of what the file that receives it holds. -/
theorem put_of_target (h : t.target? p = some q) (text : String) :
    put p text false t = (.ok (), t.put q (.file text.toUTF8)) := by
  rcases put_cases p text false t with ⟨hnull, r, bytes, hreceives, hput⟩ | ⟨hnone, -⟩
  · have hr : t.target? p = some r := FileTree.target?_eq_some_iff.mpr ⟨hnull, bytes, hreceives⟩
    obtain rfl : r = q := Option.some.inj (hr.symm.trans h)
    rw [hput, if_neg Bool.false_ne_true, ByteArray.empty_append]
  · obtain ⟨hnull, bytes, hreceives⟩ := FileTree.target?_eq_some_iff.mp h
    rcases hnone with hnull' | hnone
    · cases hnull.symm.trans hnull'
    · exact absurd hreceives (hnone q bytes)

/-- Where no file receives a text, nothing happens. -/
theorem put_of_no_target (h : t.target? p = none) (text : String) :
    ∃ e, put p text false t = (.error e, t) := by
  rcases put_cases p text false t with ⟨hnull, q, bytes, hreceives, -⟩ | ⟨-, hput⟩
  · rw [FileTree.target?_eq_some_iff.mpr ⟨hnull, bytes, hreceives⟩] at h
    cases h
  · exact hput

end FileAccess

end CommandShell
