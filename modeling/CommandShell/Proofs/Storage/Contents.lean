import CommandShell.Proofs.Storage.Faults
import Mathlib.Data.List.Induction

/-!
# Contents of files

What the accesses to files make of the files that are there.  In a tree in which every node stands
in a directory, a path without `..` leads to the node that is kept for it.  There a write to the end
of a file puts its text behind what the file holds, making a file puts one where nothing stood, and
the directories that are made on the way stand where nothing stood either.

## Main definitions

* `FileTree.content`: what the file at a path holds.
* `FileTree.WellFormed`: every node stands in a directory.
* `FileTree.Receives`: the file that a text is put into, and what it holds.
* `FileTree.AddsTo`: one tree has what another one has, and some text more.

## Main results

* `FileAccess.addsNothing_makeDirectories`: making directories adds no text.
* `FileAccess.put_cases`: all that putting a text at a path can do.
* `FileAccess.returns_write`, `FileAccess.returns_create`: a text is added once.
* `FileAccess.stops_write`, `FileAccess.stops_create`: an access that fails adds no text.
-/

namespace CommandShell

namespace FileTree

variable {t t' u : FileTree} {p q : Path} {n m : Node}

/-- What the file at a path holds; where there is none, nothing. -/
def content (t : FileTree) (p : Path) : ByteArray :=
  match t.node? p with
  | some (.file bytes) => bytes
  | _ => .empty

/-- Every node stands in a directory. -/
def WellFormed (t : FileTree) : Prop :=
  ∀ p n, t.node? p = some n → t.node? p.parent = some .directory

/-! ### Nodes -/

@[simp] theorem node?_nil (t : FileTree) : t.node? [] = some .directory := rfl

theorem node?_of_ne_nil (hp : p ≠ []) : t.node? p = (t.nodes.find? (·.1 == p)).map (·.2) := by
  unfold node?
  rw [if_neg (by simpa using hp)]

/-- The node at a path after one is put there. -/
theorem node?_put (hp : p ≠ []) : (t.put p n).node? q = if q = p then some n else t.node? q := by
  by_cases hq : q = []
  · subst hq
    rw [node?_nil, node?_nil, if_neg (Ne.symm hp)]
  rw [node?_of_ne_nil hq, node?_of_ne_nil hq]
  unfold put
  split
  -- A node that is there is replaced.
  · rename_i hthere
    rw [List.find?_map, Option.map_map]
    have hkey : ((fun e : Path × Node => e.1 == q) ∘ fun e => if e.1 == p then (p, n) else e) =
        fun e => e.1 == q := by
      funext e
      by_cases he : e.1 = p <;> simp [he]
    rw [hkey]
    split
    · rename_i heq
      subst heq
      obtain ⟨e, he, hk⟩ := List.any_eq_true.mp hthere
      cases hf : t.nodes.find? (·.1 == q) with
      | none => exact absurd hk (by simpa using List.find?_eq_none.mp hf e he)
      | some d => simp [show d.1 = q by simpa using List.find?_some hf]
    · rename_i hne
      cases hf : t.nodes.find? (·.1 == q) with
      | none => rfl
      | some d =>
        have hd : d.1 = q := by simpa using List.find?_some hf
        simp [hd, hne]
  -- A node that is new comes last.
  · rename_i hnone
    rw [List.find?_append]
    split
    · rename_i heq
      subst heq
      have hf : t.nodes.find? (·.1 == q) = none := by
        rw [List.find?_eq_none]
        intro e he hk
        exact hnone (List.any_eq_true.mpr ⟨e, he, hk⟩)
      simp [hf]
    · rename_i hne
      simp [Ne.symm hne]

theorem WellFormed.node?_of_append (h : t.WellFormed) {rest : List String} (hrest : rest ≠ [])
    (hn : t.node? (p ++ rest) = some n) : t.node? p = some .directory := by
  induction rest using List.reverseRecOn generalizing n with
  | nil => exact absurd rfl hrest
  | append_singleton rest name ih =>
    have hparent := h _ _ hn
    rw [← List.append_assoc, Path.parent, List.dropLast_concat] at hparent
    by_cases hnil : rest = []
    · rwa [hnil, List.append_nil] at hparent
    · exact ih hnil hparent

/-- A tree stays well-formed with a node put into a directory, unless that takes the place of a
directory without being one. -/
theorem WellFormed.put (h : t.WellFormed) (hp : p ≠ [])
    (hparent : t.node? p.parent = some .directory)
    (hn : t.node? p = some .directory → n = .directory) : (t.put p n).WellFormed := by
  intro q m hq
  have hne : p.parent ≠ p := fun heq => by
    have hlength : p.parent.length = p.length := congrArg List.length heq
    have := List.length_pos_iff.mpr hp
    rw [Path.parent, List.length_dropLast] at hlength
    omega
  rw [node?_put hp] at hq ⊢
  by_cases hqp : q = p
  · rw [hqp, if_neg hne]
    exact hparent
  · rw [if_neg hqp] at hq
    have hdir := h q m hq
    split
    · rename_i heq
      rw [heq] at hdir
      rw [hn hdir]
    · exact hdir

theorem wellFormed_empty : ({} : FileTree).WellFormed := by
  intro p n h
  by_cases hp : p = []
  · subst hp
    rfl
  · rw [node?_of_ne_nil hp] at h
    cases h

theorem exists_node?_of_mem {e : Path × Node} (h : e ∈ t.nodes) (he : e.1 ≠ []) :
    ∃ n, t.node? e.1 = some n := by
  rw [node?_of_ne_nil he]
  cases hf : t.nodes.find? (·.1 == e.1) with
  | none => exact absurd (beq_self_eq_true e.1) (by simpa using List.find?_eq_none.mp hf e h)
  | some d => exact ⟨d.2, rfl⟩

/-- Whether every node stands in a directory can be seen in the list of nodes. -/
theorem wellFormed_iff : t.WellFormed ↔
    ∀ e ∈ t.nodes, e.1 ≠ [] → (t.node? e.1.parent).any Node.isDirectory = true := by
  constructor
  · intro h e hmem he
    obtain ⟨n, hn⟩ := exists_node?_of_mem hmem he
    rw [h _ _ hn]
    rfl
  · intro h p n hn
    -- The root is its own parent, and is always a directory.
    by_cases hp : p = []
    · subst hp
      rfl
    · rw [node?_of_ne_nil hp, Option.map_eq_some_iff] at hn
      obtain ⟨e, hfind, -⟩ := hn
      obtain rfl : e.1 = p := by simpa using List.find?_some hfind
      have hdir := h e (List.mem_of_find?_eq_some hfind) hp
      cases hm : t.node? e.1.parent with
      | none =>
        rw [hm] at hdir
        cases hdir
      | some m =>
        rw [hm] at hdir
        cases m with
        | directory => rfl
        | file => cases hdir
        | database => cases hdir

instance : Decidable t.WellFormed :=
  decidable_of_iff _ wellFormed_iff.symm

/-! ### Walks without `..` -/

/-- A walk takes the first name from a directory that holds it. -/
theorem walk_cons {done : Path} {here : Node} {name : String} {rest : List String}
    (hname : name ≠ "..") :
    t.walk done here (name :: rest) =
      if !here.isDirectory then .error .notDirectory
      else if maxName < name.utf8ByteSize then .error .nameTooLong
      else
        match t.node? (done ++ [name]) with
        | some next => t.walk (done ++ [name]) next rest
        | none => .error .missing := by
  rw [walk]
  cases here.isDirectory with
  | false => rfl
  | true => exact if_neg hname

theorem walk_append {done : Path} {here : Node} {names rest : List String} :
    t.walk done here (names ++ rest) =
      match t.walk done here names with
      | .ok (q, n) => t.walk q n rest
      | .error e => .error e := by
  induction names generalizing done here with
  | nil => rfl
  | cons name names ih =>
    rw [List.cons_append, walk, walk]
    split
    · rfl
    split
    · exact ih
    split
    · rfl
    split
    · exact ih
    · rfl

/-- A walk without `..` takes the names that it is given, to the node that is kept there. -/
theorem walk_ok {done : Path} {here : Node} {names : List String} (hup : ".." ∉ names)
    (hhere : t.node? done = some here) (h : t.walk done here names = .ok (q, n)) :
    q = done ++ names ∧ t.node? q = some n := by
  induction names generalizing done here with
  | nil =>
    cases h
    exact ⟨(List.append_nil _).symm, hhere⟩
  | cons name rest ih =>
    rw [List.mem_cons, not_or] at hup
    rw [walk_cons (Ne.symm hup.1)] at h
    split at h
    · cases h
    split at h
    · cases h
    split at h
    · rename_i next hnext
      obtain ⟨rfl, hn⟩ := ih hup.2 hnext h
      exact ⟨by simp, hn⟩
    · cases h

/-- A walk without `..` to a node of a well-formed tree comes there, unless a name is too long. -/
theorem WellFormed.walk_eq (ht : t.WellFormed) {done : Path} {here : Node} {names : List String}
    (hup : ".." ∉ names) (hhere : t.node? done = some here)
    (h : t.node? (done ++ names) = some n) :
    t.walk done here names = .ok (done ++ names, n) ∨
      t.walk done here names = .error .nameTooLong := by
  induction names generalizing done here with
  | nil =>
    rw [List.append_nil] at h ⊢
    obtain rfl : here = n := Option.some.inj (hhere.symm.trans h)
    exact Or.inl rfl
  | cons name rest ih =>
    rw [List.mem_cons, not_or] at hup
    obtain rfl : here = .directory :=
      Option.some.inj (hhere.symm.trans (ht.node?_of_append (List.cons_ne_nil _ _) h))
    rw [List.append_cons] at h ⊢
    rw [walk_cons (Ne.symm hup.1), if_neg (by decide)]
    split
    · exact Or.inr rfl
    -- The next name leads to the node itself, or to a directory above it.
    split
    · exact ih hup.2 ‹_› h
    · rename_i hnone
      by_cases hrest : rest = []
      · rw [hrest, List.append_nil, hnone] at h
        cases h
      · rw [ht.node?_of_append hrest h] at hnone
        cases hnone

/-! ### Where a path leads -/

/-- A path leads to where it is walked to, unless it is too long. -/
theorem locate_eq_iff {path : AccessPath} {r : Except FileError (Path × Node)}
    (hr : r ≠ .error .nameTooLong) :
    t.locate path = r ↔
      ¬ maxPath ≤ path.text.utf8ByteSize ∧ t.walk [] .directory path.names = r := by
  unfold locate
  split
  · rename_i hlong
    exact iff_of_false hr.symm fun h => h.1 hlong
  · rename_i hfits
    exact (and_iff_right hfits).symm

theorem locate_eq_ok_iff {path : AccessPath} : t.locate path = .ok (q, n) ↔
    ¬ maxPath ≤ path.text.utf8ByteSize ∧ t.walk [] .directory path.names = .ok (q, n) :=
  locate_eq_iff nofun

theorem locate_eq_missing_iff {path : AccessPath} : t.locate path = .error .missing ↔
    ¬ maxPath ≤ path.text.utf8ByteSize ∧ t.walk [] .directory path.names = .error .missing :=
  locate_eq_iff nofun

theorem locate_ok (hup : ".." ∉ p) (h : t.locate (.ofPath p) = .ok (q, n)) :
    q = p ∧ t.node? p = some n := by
  obtain ⟨rfl, hn⟩ := walk_ok hup (node?_nil t) (locate_eq_ok_iff.mp h).2
  exact ⟨rfl, hn⟩

theorem WellFormed.locate_eq (ht : t.WellFormed) (hup : ".." ∉ p) (h : t.node? p = some n) :
    t.locate (.ofPath p) = .ok (p, n) ∨ t.locate (.ofPath p) = .error .nameTooLong := by
  unfold locate
  split
  · exact Or.inr rfl
  · exact ht.walk_eq hup (node?_nil t) h

/-- Where a path leads nowhere although no name is too long, nothing stands. -/
theorem WellFormed.node?_of_locate (ht : t.WellFormed) (hup : ".." ∉ p) {e : FileError}
    (h : t.locate (.ofPath p) = .error e) (he : e ≠ .nameTooLong) : t.node? p = none := by
  cases hn : t.node? p with
  | none => rfl
  | some n =>
    rcases ht.locate_eq hup hn with h' | h'
    · cases h'.symm.trans h
    · cases h'.symm.trans h
      exact absurd rfl he

/-- A path at which a node can be put leads to a place in a directory at which nothing stands. -/
theorem vacancy_ok (ht : t.WellFormed) (hup : ".." ∉ p)
    (hmissing : t.locate (.ofPath p) = .error .missing) (h : t.vacancy (.ofPath p) = .ok q) :
    q = p ∧ p ≠ [] ∧ t.node? p = none ∧ t.node? p.parent = some .directory := by
  have hnone := ht.node?_of_locate hup hmissing nofun
  rcases List.eq_nil_or_concat p with rfl | ⟨names, name, rfl⟩
  · cases hnone
  rw [List.concat_eq_append] at *
  have hupNames : ".." ∉ names := fun hmem => hup (List.mem_append_left _ hmem)
  have hparent : (AccessPath.ofPath (names ++ [name])).parent = .ofPath names := by
    simp [AccessPath.parent, AccessPath.ofPath, WrittenPath.parent, WrittenPath.ofPath]
  have hlast : (AccessPath.ofPath (names ++ [name])).names.getLast? = some name :=
    List.getLast?_concat
  unfold vacancy at h
  rw [hparent, hlast] at h
  split at h
  · rename_i d m last hd hname
    obtain rfl := Option.some.inj hname
    obtain ⟨rfl, hm⟩ := locate_ok hupNames hd
    cases h
    refine ⟨rfl, by simp, hnone, ?_⟩
    rw [Path.parent, List.dropLast_concat, hm]
    -- The walk went on from the node above to miss the last name.
    have hd' : t.walk [] .directory d = .ok (d, m) := (locate_eq_ok_iff.mp hd).2
    have hmissing' : t.walk [] .directory (d ++ [name]) = .error .missing :=
      (locate_eq_missing_iff.mp hmissing).2
    rw [walk_append, hd'] at hmissing'
    dsimp only at hmissing'
    rw [walk_cons (fun hn => hup (by simp [hn]))] at hmissing'
    cases m with
    | directory => rfl
    | file => cases hmissing'
    | database => cases hmissing'
  · rename_i hname
    cases hname
  · cases h

/-- The file at `q`, which holds `bytes`, receives a text that is put at a path: a file that is
there, that of a database, which holds no text, or a new one. -/
inductive Receives (t : FileTree) (path : AccessPath) : Path → ByteArray → Prop
  | file {q : Path} {bytes : ByteArray} (hl : t.locate path = .ok (q, .file bytes)) :
    Receives t path q bytes
  | database {q : Path} (hl : t.locate path = .ok (q, .database)) : Receives t path q .empty
  | missing {q : Path} (hl : t.locate path = .error .missing) (hv : t.vacancy path = .ok q) :
    Receives t path q .empty

/-- In a tree where every node stands in a directory, the file that receives a text stands at the
path itself. -/
theorem Receives.of_wellFormed {bytes : ByteArray} (h : t.Receives (.ofPath p) q bytes)
    (hup : ".." ∉ p) (ht : t.WellFormed) :
    q = p ∧ t.content p = bytes ∧ p ≠ [] ∧ t.node? p.parent = some .directory ∧
      t.node? p ≠ some .directory := by
  have hthere : ∀ n, t.node? p = some n → n ≠ .directory →
      p ≠ [] ∧ t.node? p.parent = some .directory ∧ t.node? p ≠ some .directory := by
    intro n hn hdir
    refine ⟨?_, ht _ _ hn, fun h => hdir (Option.some.inj (hn.symm.trans h))⟩
    rintro rfl
    exact hdir (Option.some.inj hn).symm
  cases h with
  | file hl =>
    obtain ⟨rfl, hn⟩ := locate_ok hup hl
    exact ⟨rfl, by rw [content, hn], hthere _ hn nofun⟩
  | database hl =>
    obtain ⟨rfl, hn⟩ := locate_ok hup hl
    exact ⟨rfl, by rw [content, hn], hthere _ hn nofun⟩
  | missing hl hv =>
    obtain ⟨rfl, hp, hnone, hparent⟩ := vacancy_ok ht hup hl hv
    exact ⟨rfl, by rw [content, hnone], hp, hparent, by rw [hnone]; nofun⟩

/-! ### Trees that have some text more -/

/-- The second tree has what the first one has, with some text more at the end of its files. -/
structure AddsTo (t : FileTree) (added : Path → String) (t' : FileTree) : Prop where
  /-- Every node stands in a directory. -/
  wellFormed : t'.WellFormed
  /-- A file stays one, with some text more. -/
  file (p : Path) (bytes : ByteArray) :
    t.node? p = some (.file bytes) → t'.node? p = some (.file (bytes ++ (added p).toUTF8))
  /-- Where there was no file, there is one at most with this text. -/
  content (p : Path) : t'.content p = t.content p ++ (added p).toUTF8

/-- No text anywhere. -/
def noText : Path → String :=
  fun _ => ""

/-- A text at one path. -/
def textAt (p : Path) (text : String) : Path → String :=
  fun q => if q = p then text else ""

variable {added more : Path → String} {text : String}

theorem append_noText (bytes : ByteArray) : bytes ++ "".toUTF8 = bytes := by
  simp [String.toUTF8]

theorem AddsTo.refl (ht : t.WellFormed) : t.AddsTo noText t where
  wellFormed := ht
  file p bytes h := by rw [noText, append_noText, h]
  content p := (append_noText _).symm

theorem AddsTo.trans (h : t.AddsTo added u) (h' : u.AddsTo more t') :
    t.AddsTo (fun p => added p ++ more p) t' where
  wellFormed := h'.wellFormed
  file p bytes hp := by
    rw [h'.file p _ (h.file p bytes hp), ByteArray.append_assoc]
    simp [String.toUTF8]
  content p := by
    rw [h'.content, h.content, ByteArray.append_assoc]
    simp [String.toUTF8]

theorem AddsTo.trans_noText (h : t.AddsTo noText u) (h' : u.AddsTo added t') :
    t.AddsTo added t' := by
  have hnone : (fun p => noText p ++ added p) = added := by
    funext p
    simp [noText]
  exact hnone ▸ h.trans h'

/-- A file that holds what it held before and a text behind it adds the text. -/
theorem AddsTo.put_file (text : String) (ht : t.WellFormed) (hp : p ≠ [])
    (hparent : t.node? p.parent = some .directory) (hdir : t.node? p ≠ some .directory) :
    t.AddsTo (textAt p text) (t.put p (.file (t.content p ++ text.toUTF8))) where
  wellFormed := ht.put hp hparent fun h => absurd h hdir
  file q bytes hq := by
    rw [node?_put hp, textAt]
    split
    · rename_i hqp
      rw [FileTree.content, ← hqp, hq]
    · rw [append_noText, hq]
  content q := by
    rw [FileTree.content, node?_put hp, textAt]
    by_cases hqp : q = p
    · rw [if_pos hqp, if_pos hqp, hqp]
    · rw [if_neg hqp, if_neg hqp, append_noText, FileTree.content]

/-- A directory where nothing stood adds no text. -/
theorem AddsTo.put_directory (ht : t.WellFormed) (hp : p ≠ [])
    (hparent : t.node? p.parent = some .directory) (hnone : t.node? p = none) :
    t.AddsTo noText (t.put p .directory) where
  wellFormed := ht.put hp hparent fun _ => rfl
  file q bytes hq := by
    have hqp : q ≠ p := fun h => by
      rw [h, hnone] at hq
      cases hq
    rw [node?_put hp, if_neg hqp, noText, append_noText, hq]
  content q := by
    rw [noText, append_noText, FileTree.content, FileTree.content, node?_put hp]
    by_cases hqp : q = p
    · rw [if_pos hqp, hqp, hnone]
    · rw [if_neg hqp]

/-- A directory is made where nothing is found and there is a place for it. -/
theorem exists_vacancy_of_makeDirectory {path : AccessPath} (h : t.makeDirectory path = .ok t') :
    ∃ q, t.locate path = .error .missing ∧ t.vacancy path = .ok q ∧ t' = t.put q .directory := by
  unfold makeDirectory stat at h
  cases hl : t.locate path with
  | ok found =>
    rw [hl] at h
    cases h
  | error e =>
    rw [hl] at h
    cases e with
    | missing =>
      cases hv : t.vacancy path with
      | error e =>
        rw [hv] at h
        cases h
      | ok q =>
        rw [hv] at h
        cases h
        exact ⟨q, rfl, rfl, rfl⟩
    | _ => cases h

/-- Making a directory adds no text. -/
theorem AddsTo.of_makeDirectory (ht : t.WellFormed) (hup : ".." ∉ p)
    (h : t.makeDirectory (.ofPath p) = .ok t') : t.AddsTo noText t' := by
  obtain ⟨q, hl, hv, rfl⟩ := exists_vacancy_of_makeDirectory h
  obtain ⟨rfl, hp, hnone, hparent⟩ := vacancy_ok ht hup hl hv
  exact .put_directory ht hp hparent hnone

end FileTree

/-! ### Accesses -/

namespace FileAccess

open FileTree (noText textAt)

variable {t t' : FileTree} {p : Path} {text : String}

/-- What happens to files adds no text. -/
def AddsNothing {α : Type} (x : FileAccess α) : Prop :=
  Follows x fun t t' => t.WellFormed → t.AddsTo noText t'

theorem addsNothing_of_keeps {α : Type} {x : FileAccess α} (h : Keeps x id) : AddsNothing x :=
  fun t ht => by rw [show (x t).2 = t from h t]; exact .refl ht

theorem AddsNothing.bind {α β : Type} {x : FileAccess α} {g : α → FileAccess β}
    (hx : AddsNothing x) (hg : ∀ a, AddsNothing (g a)) : AddsNothing (x >>= g) := by
  refine Follows.bind (fun t u v h₁ h₂ ht => ?_) hx hg
  exact (h₁ ht).trans_noText (h₂ (h₁ ht).wellFormed)

theorem keeps_settleDirectory (p : AccessPath) (e : FileError) : Keeps (settleDirectory p e) id :=
  keeps_get.bind fun _ => Keeps.ite keeps_pure fun _ => rfl

theorem keeps_refuseNull (p : AccessPath) : Keeps (refuseNull p) id :=
  Keeps.ite (fun _ => rfl) keeps_pure

/-- An attempt to make a directory follows what making it does, if what follows where others miss
does so too. -/
theorem follows_attempt {R : FileTree → FileTree → Prop} {p : AccessPath}
    {missing : FileAccess Unit} (hrefl : ∀ t, R t t)
    (hmake : ∀ t t', t.makeDirectory p = .ok t' → R t t') (hmissing : Follows missing R) :
    Follows (do
      match (← get).makeDirectory p with
      | .ok made => set made
      | .error .missing => missing
      | .error e => settleDirectory p e) R := by
  have hsettle : ∀ e, Follows (settleDirectory p e) R := by
    intro e t
    rw [show (settleDirectory p e t).2 = t from keeps_settleDirectory p e t]
    exact hrefl t
  intro t
  rw [get_bind_apply]
  cases hm : t.makeDirectory p with
  | ok made => exact hmake t made hm
  | error e =>
    cases e with
    | missing => exact hmissing t
    | _ => exact hsettle _ t

/-- What making one directory does is done by making all that lead to it. -/
theorem follows_makeDirectoriesUp {R : FileTree → FileTree → Prop} {p : AccessPath}
    {names : List String} (hrefl : ∀ t, R t t) (htrans : ∀ t u v, R t u → R u v → R t v)
    (hmake : ∀ up, up <:+ names → ∀ t t', t.makeDirectory (p.withNames up.reverse) = .ok t' →
      R t t') :
    Follows (makeDirectoriesUp p names) R := by
  induction names generalizing p with
  | nil => exact follows_pure hrefl
  | cons name up ih =>
    have hhere := hmake (name :: up) List.suffix_rfl
    unfold makeDirectoriesUp
    -- A directory is tried before and after those above it.
    refine follows_attempt hrefl hhere (Follows.bind htrans (ih fun rest hrest => ?_) fun _ => ?_)
    · exact hmake rest (hrest.trans (List.suffix_cons name up))
    · exact follows_attempt hrefl hhere (follows_throw hrefl)

theorem addsNothing_makeDirectoriesUp (names : List String) (hup : ".." ∉ names) :
    AddsNothing (makeDirectoriesUp (.ofPath p) names) := by
  refine follows_makeDirectoriesUp (fun t ht => .refl ht)
    (fun t u v h₁ h₂ ht => (h₁ ht).trans_noText (h₂ (h₁ ht).wellFormed))
    fun up hsuffix t t' h ht => ?_
  refine .of_makeDirectory ht (fun hmem => hup ?_) h
  exact hsuffix.subset (List.mem_reverse.mp hmem)

theorem addsNothing_makeDirectories (hup : ".." ∉ p) :
    AddsNothing (makeDirectories (.ofPath p)) :=
  (addsNothing_of_keeps (keeps_refuseNull _)).bind fun _ =>
    addsNothing_makeDirectoriesUp _ fun hmem => hup (List.mem_reverse.mp hmem)

/-- To put a text at a path puts it into the file that receives it, behind what this holds or in
place of that; where no file does, nothing happens. -/
theorem put_cases (path : AccessPath) (text : String) (append : Bool) (t : FileTree) :
    (path.hasNull = false ∧ ∃ q bytes, t.Receives path q bytes ∧
      put path text append t =
        (.ok (), t.put q (.file ((if append then bytes else .empty) ++ text.toUTF8)))) ∨
    (path.hasNull = true ∨ ∀ q bytes, ¬ t.Receives path q bytes) ∧
      ∃ f, put path text append t = (.error f, t) := by
  cases hnull : path.hasNull with
  | true =>
    refine Or.inr ⟨Or.inl rfl, .nullInPath, ?_⟩
    unfold put refuseNull
    rw [if_pos hnull]
    rfl
  | false =>
    -- Where the path leads nowhere for another reason than that nothing is there, nothing receives.
    have hrefused : ∀ e : FileError, t.locate path = .error e → e ≠ .missing →
        ∀ q bytes, ¬ t.Receives path q bytes := by
      rintro e he hne q bytes (hl | hl | ⟨hl, hv⟩) <;> cases he.symm.trans hl
      exact hne rfl
    unfold put refuseNull
    rw [if_neg (by simp [hnull]), pure_bind, get_bind_apply]
    -- What stands at the path decides; where nothing does, whether there is room for it.
    cases hl : t.locate path with
    | ok found =>
      obtain ⟨q, n⟩ := found
      cases n with
      | directory =>
        refine Or.inr ⟨Or.inr ?_, _, rfl⟩
        rintro q' bytes (hl' | hl' | ⟨hl', hv⟩) <;> cases hl.symm.trans hl'
      | file bytes =>
        refine Or.inl ⟨rfl, q, bytes, .file hl, ?_⟩
        cases append with
        | true => rfl
        | false =>
          rw [if_neg Bool.false_ne_true, ByteArray.empty_append]
          rfl
      | database =>
        refine Or.inl ⟨rfl, q, .empty, .database hl, ?_⟩
        rw [ite_self, ByteArray.empty_append]
        rfl
    | error e =>
      cases e with
      | missing =>
        cases hv : t.vacancy path with
        | ok q =>
          refine Or.inl ⟨rfl, q, .empty, .missing hl hv, ?_⟩
          rw [ite_self, ByteArray.empty_append]
          rfl
        | error e =>
          refine Or.inr ⟨Or.inr ?_, _, rfl⟩
          rintro q bytes (hl' | hl' | ⟨hl', hv'⟩)
          · cases hl.symm.trans hl'
          · cases hl.symm.trans hl'
          · cases hv.symm.trans hv'
      | _ => exact Or.inr ⟨Or.inr (hrefused _ hl nofun), _, rfl⟩

/-- A text that is put into a file comes behind what the file holds; what the file holds is left out
only where that is nothing. -/
theorem returns_put {append : Bool} (hup : ".." ∉ p) (ht : t.WellFormed)
    (hempty : append = false → t.content p = .empty)
    (h : Returns (put (.ofPath p) text append) t () t') : t.AddsTo (textAt p text) t' := by
  rcases put_cases (.ofPath p) text append t with ⟨-, q, bytes, hreceives, hput⟩ | ⟨-, f, hput⟩
  · obtain ⟨rfl, rfl, hp, hparent, hdir⟩ := hreceives.of_wellFormed hup ht
    obtain rfl : t' = _ := congrArg Prod.snd (h.symm.trans hput)
    have hadds := FileTree.AddsTo.put_file text ht hp hparent hdir
    cases append with
    | true => exact hadds
    | false => rwa [hempty rfl] at hadds
  · cases h.symm.trans hput

/-- Where a text is not put into a file, the tree stays as it is. -/
theorem stops_put {path : AccessPath} {append : Bool} {f : Fault}
    (h : Stops (put path text append) t f t') : t' = t := by
  rcases put_cases path text append t with ⟨-, q, bytes, -, hput⟩ | ⟨-, e, hput⟩
  · cases h.symm.trans hput
  · exact congrArg Prod.snd (h.symm.trans hput)

theorem keeps_ask {α : Type} (f : FileTree → Except Fault α) : Keeps (ask f) id :=
  fun _ => rfl

theorem returns_ask_iff {α : Type} {f : FileTree → Except Fault α} {a : α} :
    Returns (ask f) t a t' ↔ f t = .ok a ∧ t' = t := by
  constructor
  · intro h
    obtain ⟨hf, ht⟩ := Prod.mk.inj h
    exact ⟨hf, ht.symm⟩
  · rintro ⟨hf, rfl⟩
    exact Prod.ext hf rfl

section Unless

variable {q : FileTree → Except Fault Bool} {refusal f : Fault} {x : FileAccess Unit}

/-- What is refused where a question is answered with yes returns where it is answered with no. -/
theorem returns_unless
    (h : Returns (do
      if ← ask q then throw refusal
      x) t () t') :
    q t = .ok false ∧ Returns x t () t' := by
  obtain ⟨there, u, hask, h⟩ := returns_bind_iff.mp h
  obtain ⟨hq, rfl⟩ := returns_ask_iff.mp hask
  cases there with
  | true => cases h
  | false => exact ⟨hq, h⟩

/-- The question and the refusal leave the tree alone. -/
theorem stops_unless
    (h : Stops (do
      if ← ask q then throw refusal
      x) t f t') :
    t' = t ∨ Stops x t f t' := by
  rcases stops_bind_iff.mp h with hask | ⟨there, u, hask, h⟩
  · exact Or.inl ((keeps_ask _).of_stops hask)
  · obtain rfl : u = t := (keeps_ask _).of_returns hask
    cases there with
    | true =>
      cases h
      exact Or.inl rfl
    | false => exact Or.inr h

end Unless

/-- A write to the end of a file adds its text; a write in place of what was there does where that
is nothing. -/
theorem returns_write {append : Bool} (hup : ".." ∉ p) (ht : t.WellFormed)
    (hempty : append = false → t.content p = .empty)
    (h : Returns (write (.ofPath p) text append) t () t') : t.AddsTo (textAt p text) t' := by
  have hupParent : ".." ∉ p.dropLast := fun hmem => hup (List.dropLast_subset _ hmem)
  obtain ⟨-, hwrite⟩ := returns_unless h
  obtain ⟨⟨⟩, v, hmade, hput⟩ := returns_bind_iff.mp hwrite
  have hadds : t.AddsTo noText v := (addsNothing_makeDirectories hupParent).of_returns hmade ht
  refine hadds.trans_noText (returns_put hup hadds.wellFormed (fun ha => ?_) hput)
  rw [hadds.content, hempty ha, noText, FileTree.append_noText]

theorem stops_write {append : Bool} {f : Fault} (hup : ".." ∉ p) (ht : t.WellFormed)
    (h : Stops (write (.ofPath p) text append) t f t') : t.AddsTo noText t' := by
  have hupParent : ".." ∉ p.dropLast := fun hmem => hup (List.dropLast_subset _ hmem)
  rcases stops_unless h with rfl | hwrite
  · exact .refl ht
  · rcases stops_bind_iff.mp hwrite with hmade | ⟨⟨⟩, v, hmade, hput⟩
    · exact (addsNothing_makeDirectories hupParent).of_stops hmade ht
    · rw [stops_put hput]
      exact (addsNothing_makeDirectories hupParent).of_returns hmade ht

/-- Where nothing is found, nothing stands. -/
theorem node?_of_not_exists (hup : ".." ∉ p) (ht : t.WellFormed)
    (hnull : (AccessPath.ofPath p).hasNull = false) (h : t.exists? (.ofPath p) = .ok false) :
    t.node? p = none := by
  unfold FileTree.exists? FileTree.test FileTree.stat at h
  rw [if_neg (by simp [hnull])] at h
  cases hl : t.locate (.ofPath p) with
  | ok found =>
    rw [hl] at h
    cases h
  | error e =>
    rw [hl] at h
    refine ht.node?_of_locate hup hl fun he => ?_
    rw [he] at h
    cases h

/-- A file that is made holds the text that it is made with. -/
theorem returns_create (hup : ".." ∉ p) (ht : t.WellFormed)
    (hnull : (AccessPath.ofPath p).hasNull = false)
    (h : Returns (create (.ofPath p) text) t () t') : t.AddsTo (textAt p text) t' := by
  obtain ⟨hexists, hwrite⟩ := returns_unless h
  refine returns_write hup ht (fun _ => ?_) hwrite
  rw [FileTree.content, node?_of_not_exists hup ht hnull hexists]

theorem stops_create {f : Fault} (hup : ".." ∉ p) (ht : t.WellFormed)
    (h : Stops (create (.ofPath p) text) t f t') : t.AddsTo noText t' := by
  rcases stops_unless h with rfl | hwrite
  · exact .refl ht
  · exact stops_write hup ht hwrite

end FileAccess

end CommandShell
