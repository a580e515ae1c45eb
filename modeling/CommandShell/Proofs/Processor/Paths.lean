import CommandShell.Processor.Registry
import CommandShell.Proofs.Processor.Tree
import CommandShell.Proofs.Text.Casing

/-!
# Paths of words

Words lead down into some trees of processors, one word a level.  Where a look-up leads is the end
of such a path; what is left over of the words is free text for a processor that takes it and has
nothing below it.

## Main definitions

* `Processor.Path`: the words that lead to a processor, one for each level.

## Main results

* `find?_eq_some_iff`: a look-up gives the end of a path.
* `Path.unique`: the words decide how many of them belong to the path.
* `Path.lowerCase_last_mem`: the last word of a path is a name of the processor.
* `Path.mem_tree`, `Path.mem_descendants`: a path leads downwards.
-/

namespace CommandShell

namespace Processor

/-- Some words lead to a processor: the first names one of those at hand, and each further one names
one of those below the last. -/
inductive Path {α : Type} : List (Processor α) → List String → Processor α → Prop
  /-- One word names one of the processors. -/
  | last {among w p} (h : answering? w among = some p) : Path among [w] p
  /-- The path goes on below the processor that the first word names. -/
  | down {among w q words p} (h : answering? w among = some q) (hp : Path q.children words p) :
    Path among (w :: words) p

variable {α : Type} {among : List (Processor α)} {p q d : Processor α} {name w : String}
  {chain words path path' rest rest' : List String}

/-! ### Names -/

theorem mem_of_answering? (h : answering? w among = some p) : p ∈ among :=
  List.mem_of_find?_eq_some h

theorem lowerCase_mem_names (h : answering? w among = some p) : lowerCase w ∈ p.names := by
  unfold answering? at h
  simpa using List.find?_some h

@[simp] theorem answering?_lowerCase (w : String) (among : List (Processor α)) :
    answering? (lowerCase w) among = answering? w among := by
  unfold answering?
  rw [lowerCase_lowerCase]

/-- The names of a processor are in lower case. -/
theorem lowerCase_of_mem_names (h : name ∈ p.names) : lowerCase name = name := by
  rcases List.mem_cons.mp h with rfl | h
  · exact lowerCase_lowerCase _
  · obtain ⟨other, -, rfl⟩ := List.mem_map.mp h
    exact lowerCase_lowerCase _

/-! ### Paths -/

theorem Path.ne_nil (h : Path among path p) : path ≠ [] := by
  cases h <;> exact List.cons_ne_nil _ _

/-- The last word of a path is a name of the processor that it leads to. -/
theorem Path.lowerCase_last_mem (h : Path among path p) :
    ∃ front w, path = front ++ [w] ∧ lowerCase w ∈ p.names := by
  induction h with
  | last h => exact ⟨[], _, rfl, lowerCase_mem_names h⟩
  | @down among v q words p _ _ ih =>
    obtain ⟨front, w, rfl, hw⟩ := ih
    exact ⟨v :: front, w, rfl, hw⟩

/-- A path leads to a processor in one of the trees. -/
theorem Path.mem_tree (h : Path among path p) : ∃ q ∈ among, p ∈ q.tree := by
  induction h with
  | last h => exact ⟨_, mem_of_answering? h, mem_tree_self _⟩
  | down h _ ih =>
    obtain ⟨c, hc, hp⟩ := ih
    exact ⟨_, mem_of_answering? h, mem_tree_trans hp (mem_tree_of_mem_children hc)⟩

/-- A path from the subordinate processors of one leads below it. -/
theorem Path.mem_descendants (h : Path q.children path p) : p ∈ q.descendants :=
  mem_descendants_iff.mpr h.mem_tree

/-- The end of a path: no words are left, or they are free text. -/
def Ends (p : Processor α) (rest : List String) : Prop :=
  rest = [] ∨ p.hasChildren = false ∧ p.acceptsText = true

theorem not_path_of_leaf (h : p.hasChildren = false) : ¬ Path p.children path q := by
  intro hp
  have hnone : p.children = [] := by simpa [hasChildren] using h
  rw [hnone] at hp
  cases hp with
  | last h => cases h
  | down h _ => cases h

/-- The words decide how many of them belong to the path, and where it leads. -/
theorem Path.unique (h : Path among path p) (h' : Path among path' q) (hp : p.Ends rest)
    (hq : q.Ends rest') (heq : path ++ rest = path' ++ rest') :
    path = path' ∧ rest = rest' ∧ p = q := by
  induction h generalizing path' with
  | @last among w p h =>
    cases h' with
    | last h' =>
      obtain ⟨rfl, rfl⟩ := List.cons.inj heq
      obtain rfl := Option.some.inj (h.symm.trans h')
      exact ⟨rfl, rfl, rfl⟩
    | @down among w' q' words q h' hrest =>
      obtain ⟨rfl, hwords⟩ := List.cons.inj heq
      obtain rfl := Option.some.inj (h.symm.trans h')
      -- The other path goes on below, where this one has words left.
      rcases hp with rfl | ⟨hleaf, -⟩
      · obtain ⟨hnil, -⟩ := List.append_eq_nil_iff.mp hwords.symm
        exact absurd hnil hrest.ne_nil
      · exact absurd hrest (not_path_of_leaf hleaf)
  | @down among w r words p h hrest ih =>
    cases h' with
    | last h' =>
      obtain ⟨rfl, hwords⟩ := List.cons.inj heq
      obtain rfl := Option.some.inj (h.symm.trans h')
      rcases hq with rfl | ⟨hleaf, -⟩
      · obtain ⟨hnil, -⟩ := List.append_eq_nil_iff.mp hwords
        exact absurd hnil hrest.ne_nil
      · exact absurd hrest (not_path_of_leaf hleaf)
    | down h' hrest' =>
      obtain ⟨rfl, hwords⟩ := List.cons.inj heq
      obtain rfl := Option.some.inj (h.symm.trans h')
      obtain ⟨rfl, rfl, rfl⟩ := ih hrest' hp hwords
      exact ⟨rfl, rfl, rfl⟩

/-! ### Look-up -/

theorem exists_path_of_find? (h : find? name chain among = some p) :
    ∃ path rest, name :: chain = path ++ rest ∧ Path among path p ∧ p.Ends rest := by
  induction chain generalizing name among with
  | nil => exact ⟨[name], [], rfl, .last h, Or.inl rfl⟩
  | cons next chain ih =>
    unfold find? at h
    split at h
    · cases h
    rename_i q hq
    split_ifs at h with hbelow htext
    · obtain ⟨path, rest, heq, hp, hends⟩ := ih h
      exact ⟨name :: path, rest, congrArg (name :: ·) heq, .down hq hp, hends⟩
    · obtain rfl := Option.some.inj h
      exact ⟨[name], next :: chain, rfl, .last hq, Or.inr ⟨by simpa using hbelow, htext⟩⟩

theorem Path.find?_eq (h : Path among path p) (hends : p.Ends rest)
    (heq : name :: chain = path ++ rest) : find? name chain among = some p := by
  induction h generalizing name chain with
  | last h =>
    obtain ⟨rfl, rfl⟩ := List.cons.inj heq
    rcases hends with hnil | ⟨hleaf, htext⟩
    · obtain rfl : chain = [] := hnil
      exact h
    · cases chain with
      | nil => exact h
      | cons next chain => simp [find?, h, hleaf, htext]
  | @down among w q words p h hp ih =>
    obtain ⟨rfl, hwords⟩ : name = w ∧ chain = words ++ rest := List.cons.inj heq
    have hbelow : q.hasChildren = true := by
      by_contra hleaf
      exact not_path_of_leaf (by simpa using hleaf) hp
    obtain ⟨next, words, rfl⟩ := List.exists_cons_of_ne_nil hp.ne_nil
    rw [hwords, List.cons_append, find?, h]
    dsimp only
    rw [if_pos hbelow]
    exact ih hends rfl

/-- A look-up gives the end of a path. -/
theorem find?_eq_some_iff :
    find? name chain among = some p ↔
      ∃ path rest, name :: chain = path ++ rest ∧ Path among path p ∧ p.Ends rest := by
  constructor
  · exact exists_path_of_find?
  · rintro ⟨path, rest, heq, hp, hends⟩
    exact hp.find?_eq hends heq

/-- Upper and lower case are the same for a look-up. -/
theorem find?_map_lowerCase (name : String) (chain : List String) (among : List (Processor α)) :
    find? name (chain.map lowerCase) among = find? name chain among := by
  have hname : ∀ chain name (among : List (Processor α)),
      find? (lowerCase name) chain among = find? name chain among := by
    intro chain name among
    cases chain <;> simp [find?]
  induction chain generalizing name among with
  | nil => rfl
  | cons next chain ih =>
    rw [List.map_cons, find?, find?]
    cases answering? name among with
    | none => rfl
    | some q =>
      dsimp only
      rw [hname, ih]

end Processor

end CommandShell
