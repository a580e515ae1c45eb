import CommandShell.Proofs.Line.HandlerCalls
import CommandShell.Proofs.Line.Words
import CommandShell.Proofs.Processor.Paths

/-!
# Free text

A look-up takes the words of a segment level by level, while the free text of a command is sought
anew, behind the first word that is a name of the processor.  The two agree unless a word further up
the path is a name of the processor as well.

## Main results

* `resolve?_eq_some_iff`: a segment leads to the end of a path of its words.
* `text_after_first_name`: the free text follows the first word that is a name of the processor.
* `text_follows_path_iff`: when the free text is what follows the path.
* `repeated_name_is_text`: a segment with a word too many in its text.
-/

namespace CommandShell

variable {s : Session} {p : ShellProcessor} {i : Invocation} {segment text w : String}
  {names words front back path rest : List String} {data : Value} {n : Nat}

/-! ### Where the words of a segment lead -/

/-- A segment leads to the end of a path of its words; the words behind it are free text. -/
theorem Session.resolve?_eq_some_iff (hne : wordsOf segment ≠ []) :
    s.resolve? segment = some p ↔
      ∃ path rest, wordsOf segment = path ++ rest ∧ Processor.Path s.commands path p ∧
        p.Ends rest := by
  have hwords : splitWords (readSegment segment).name = wordsOf segment :=
    splitWords_intercalate (fun _ => isWord_of_mem_wordsOf) hne
  obtain ⟨name, chain, hcons⟩ := List.exists_cons_of_ne_nil hne
  unfold resolve?
  rw [hwords, hcons]
  dsimp only
  rw [Processor.find?_map_lowerCase, Processor.find?_eq_some_iff]

/-! ### Where free text starts -/

theorem wordsAfter?_of_first (hfront : ∀ v ∈ front, lowerCase v ∉ names)
    (hw : lowerCase w ∈ names) : wordsAfter? names (front ++ w :: back) = some back := by
  induction front with
  | nil => simp [wordsAfter?, hw]
  | cons v front ih =>
    have hv := hfront v List.mem_cons_self
    have hrest := ih fun u hu => hfront u (List.mem_cons_of_mem _ hu)
    simp [wordsAfter?, hv, hrest]

/-- The names that free text may follow are those of the processor. -/
theorem mem_wanted_iff (hw : IsWord w) :
    lowerCase w ∈ (p.names.filter (· ≠ "")).map lowerCase ↔ lowerCase w ∈ p.names := by
  have hne : lowerCase w ≠ "" := fun h => hw.ne_empty (lowerCase_eq_empty_iff.mp h)
  constructor
  · intro h
    obtain ⟨name, hname, heq⟩ := List.mem_map.mp h
    have hmem := List.mem_of_mem_filter hname
    rwa [← heq, Processor.lowerCase_of_mem_names hmem]
  · intro h
    refine List.mem_map.mpr ⟨lowerCase w, List.mem_filter.mpr ⟨h, ?_⟩, lowerCase_lowerCase w⟩
    simp [hne]

/-- The free text follows the first word that is a name of the processor. -/
theorem text_after_first_name (hword : ∀ v ∈ front ++ w :: back, IsWord v)
    (hfront : ∀ v ∈ front, lowerCase v ∉ p.names) (hw : lowerCase w ∈ p.names) :
    textAfterWord? (" ".intercalate (front ++ w :: back)) p.names =
      some (" ".intercalate back) := by
  have hback : ∀ v ∈ back, IsWord v := fun v hv =>
    hword v (List.mem_append_right _ (List.mem_cons_of_mem _ hv))
  have hfront' : ∀ v ∈ front, lowerCase v ∉ (p.names.filter (· ≠ "")).map lowerCase := by
    intro v hv
    rw [mem_wanted_iff (hword v (List.mem_append_left _ hv))]
    exact hfront v hv
  have hw' : lowerCase w ∈ (p.names.filter (· ≠ "")).map lowerCase :=
    (mem_wanted_iff (hword w (by simp))).mpr hw
  unfold textAfterWord?
  dsimp only
  rw [splitWords_intercalate hword (by simp), wordsAfter?_of_first hfront' hw', Option.map_some,
    trimBlanks_intercalate hback]

/-- Words up to the first name of the processor, if its path has several. -/
theorem exists_first_name (hpath : ∃ front w, path = front ++ [w] ∧ lowerCase w ∈ p.names) :
    ∃ front w back, path = front ++ w :: back ∧ lowerCase w ∈ p.names ∧
      (∀ v ∈ front, lowerCase v ∉ p.names) ∧
      (back = [] ↔ ∀ v ∈ path.dropLast, lowerCase v ∉ p.names) := by
  obtain ⟨init, last, rfl, hlast⟩ := hpath
  rw [List.dropLast_concat]
  induction init with
  | nil => exact ⟨[], last, [], rfl, hlast, by simp, by simp⟩
  | cons v init ih =>
    by_cases hv : lowerCase v ∈ p.names
    · exact ⟨[], v, init ++ [last], rfl, hv, by simp, by simp [hv]⟩
    · obtain ⟨front, w, back, heq, hw, hfront, hback⟩ := ih
      refine ⟨v :: front, w, back, congrArg (v :: ·) heq, hw, ?_, ?_⟩
      · exact List.forall_mem_cons.mpr ⟨hv, hfront⟩
      · rw [hback, List.forall_mem_cons]
        exact ⟨fun h => ⟨hv, h⟩, And.right⟩

namespace Run

/-- When the value of a command is what follows the path.  Let a segment lead to a processor that
takes free text, whatever aliases it stands for, and let the first words of the command that is read
be the path from the commands in force down to the processor.  The text that the checks and the
handler get is made of the words behind the path just where no word in front of the last one of the
path is a name of the processor, in upper or lower case. -/
theorem text_follows_path_iff (hd : s.delivery? data maxExpansions text = some (p, i))
    (htext : p.acceptsText = true) (hwords : wordsOf i.raw = path ++ rest)
    (hpath : Processor.Path s.commands path p) :
    ((p.deliver i).text = some (" ".intercalate rest) ↔
        ∀ w ∈ path.dropLast, lowerCase w ∉ p.names) ∧
      ∀ given c u, Dispatches s text data p given c u → given = p.deliver i := by
  constructor
  · obtain ⟨raw, -, rfl⟩ := delivery?_resolve hd
    have hall : ∀ w ∈ path ++ rest, IsWord w := by
      intro w hw
      rw [← hwords] at hw
      exact isWord_of_mem_wordsOf hw
    -- The text is what follows the first word that names the processor, which may be one of those
    -- in front of the last one of the path.
    obtain ⟨front, w, back, rfl, hw, hfront, hback⟩ := exists_first_name hpath.lowerCase_last_mem
    rw [List.append_assoc, List.cons_append] at hall hwords
    have hgiven : (p.deliver (.ofSegment raw p.decl.parameters data)).text =
        some (" ".intercalate (back ++ rest)) := by
      unfold Processor.deliver
      rw [if_pos htext]
      show textAfterWord? (" ".intercalate (wordsOf raw)) p.names = _
      have hraw : wordsOf raw = front ++ w :: (back ++ rest) := hwords
      rw [hraw, text_after_first_name hall hfront hw]
    have hrest : ∀ v ∈ back ++ rest, IsWord v := fun v hv =>
      hall v (List.mem_append_right _ (List.mem_cons_of_mem _ hv))
    rw [hgiven, ← hback, Option.some.injEq, intercalate_append_eq_iff hrest]
  · intro given c u h
    obtain ⟨i', hd', hgiven, -⟩ := h.admissible
    obtain rfl : i = i' := (Prod.mk.inj (Option.some.inj (hd.symm.trans hd'))).2
    exact hgiven

end Run

/-! ### A package with a command of its own name -/

/-- A processor that takes free text. -/
def Processor.takingText (name : String) : ShellProcessor where
  key := 0
  decl := { command := name, label := name, allowsText := true, handler := .script [.record] }
  children := []

/-- A package, below which stands a command of the same name and another one. -/
def packageTree : ShellProcessor :=
  { Processor.scripted "pkg" [.record] [] with children := [.takingText "pkg", .takingText "add"] }

/-- A shell with that package. -/
def packageShell : Session :=
  .offering [packageTree]

theorem packageShell_commands : packageShell.commands = [(packageTree.adopt 0).1] :=
  rfl

theorem packageShell_path_pkg : Processor.Path packageShell.commands ["pkg", "pkg"]
    { Processor.takingText "pkg" with key := 0 } := by
  rw [packageShell_commands]
  refine .down (List.find?_cons_of_pos (by decide +kernel)) (.last ?_)
  exact List.find?_cons_of_pos (by decide +kernel)

theorem packageShell_path_add : Processor.Path packageShell.commands ["pkg", "add"]
    { Processor.takingText "add" with key := 1 } := by
  rw [packageShell_commands]
  refine .down (List.find?_cons_of_pos (by decide +kernel)) (.last ?_)
  refine (List.find?_cons_of_neg (by decide +kernel)).trans ?_
  exact List.find?_cons_of_pos (by decide +kernel)

namespace Run

/-- A segment whose text follows its path. -/
theorem text_follows_distinct_names :
    let add : ShellProcessor := { Processor.takingText "add" with key := 1 }
    let i : Invocation := .ofSegment "pkg add a  b" [] .null
    packageShell.delivery? .null maxExpansions "pkg add a  b" = some (add, i) ∧
      add.acceptsText = true ∧ wordsOf i.raw = ["pkg", "add"] ++ ["a", "b"] ∧
      Processor.Path packageShell.commands ["pkg", "add"] add ∧
      (add.deliver i).text = some (" ".intercalate ["a", "b"]) := by
  intro add i
  have hwords : wordsOf i.raw = ["pkg", "add"] ++ ["a", "b"] := by decide +kernel
  have hnames : ∀ w ∈ ["pkg", "add"].dropLast, lowerCase w ∉ add.names := by decide +kernel
  have hresolve : packageShell.resolve? "pkg add a  b" = some add :=
    (Session.resolve?_eq_some_iff (by decide +kernel)).mpr
      ⟨_, _, hwords, packageShell_path_add, Or.inr ⟨rfl, rfl⟩⟩
  have hd := Session.delivery?_of_resolve hresolve .null maxExpansions
  exact ⟨hd, rfl, hwords, packageShell_path_add,
    (text_follows_path_iff hd rfl hwords packageShell_path_add).1.mpr hnames⟩

/-- A text that starts with the last word of the path, since the package above has the same name. -/
theorem repeated_name_is_text :
    ∃ p i, packageShell.delivery? .null maxExpansions "pkg pkg foo" = some (p, i) ∧
      p.acceptsText = true ∧ wordsOf i.raw = ["pkg", "pkg"] ++ ["foo"] ∧
      Processor.Path packageShell.commands ["pkg", "pkg"] p ∧
      (p.deliver i).text = some "pkg foo" ∧ " ".intercalate ["foo"] = "foo" ∧
      (dispatch? packageShell "pkg pkg foo" .null).map (·.2.1.text) = some (some "pkg foo") := by
  have hwords : wordsOf "pkg pkg foo" = ["pkg", "pkg"] ++ ["foo"] := by decide +kernel
  have hresolve : packageShell.resolve? "pkg pkg foo" =
      some { Processor.takingText "pkg" with key := 0 } :=
    (Session.resolve?_eq_some_iff (by decide +kernel)).mpr
      ⟨_, _, hwords, packageShell_path_pkg, Or.inr ⟨rfl, rfl⟩⟩
  exact ⟨_, _, Session.delivery?_of_resolve hresolve _ _, rfl, hwords, packageShell_path_pkg,
    by decide +kernel, rfl, by decide +kernel⟩

end Run

end CommandShell
