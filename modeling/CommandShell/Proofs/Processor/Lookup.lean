import CommandShell.Proofs.Processor.Paths

/-!
# Look-ups along lines of processors

A look-up goes down a line of processors, one word a level.  It takes the first processor at hand
that has the word among its names and goes on below it, and it gives the last processor of the line
if all words are used up, or if what is left is free text for it.  Where no processor of a line
shares a name with another one beside it, any of the names will do.

## Main definitions

* `Processor.FirstNamed`: the first of some processors with a name.
* `Processor.NamedLine`: words name a line of processors, one below the other.
* `Processor.UniqueLine`: no processor of a line shares a name with another one beside it.

## Main results

* `path_iff_namedLine`: the line of processors along a path of words.
* `UniqueLine.namedLine`: any of their names lead along a line of unique processors.
* `find?_follows_names`: what look-ups give.
-/

namespace CommandShell

namespace Processor

/-! ### Lines of processors -/

section Lines

variable {α : Type}

/-- A processor is the first of some that has a word as a name, in any case of letters. -/
def FirstNamed (w : String) (among : List (Processor α)) (p : Processor α) : Prop :=
  ∃ before after, among = before ++ p :: after ∧ lowerCase w ∈ p.names ∧
    ∀ q ∈ before, lowerCase w ∉ q.names

/-- Words name a line of processors: the first word names the first processor with this name among
those at hand, and each further one names the first below the processor before. -/
inductive NamedLine : List (Processor α) → List String → List (Processor α) → Prop
  /-- One word names one of the processors. -/
  | last {among w p} (h : FirstNamed w among p) : NamedLine among [w] [p]
  /-- The line goes on below the processor that the first word names. -/
  | down {among w q words line} (h : FirstNamed w among q)
    (hrest : NamedLine q.children words line) : NamedLine among (w :: words) (q :: line)

/-- A processor shares no name with another one of some. -/
def UniqueAmong (among : List (Processor α)) (p : Processor α) : Prop :=
  p ∈ among ∧ ∀ q ∈ among, q ≠ p → ∀ name ∈ q.names, name ∉ p.names

/-- A line of processors, one below the other, none of which shares a name with another one beside
it. -/
inductive UniqueLine : List (Processor α) → List (Processor α) → Prop
  /-- One of the processors. -/
  | last {among p} (h : UniqueAmong among p) : UniqueLine among [p]
  /-- The line goes on below the first processor. -/
  | down {among q line} (h : UniqueAmong among q) (hrest : UniqueLine q.children line) :
    UniqueLine among (q :: line)

end Lines

variable {α : Type} {among : List (Processor α)} {p : Processor α} {w : String}
  {words : List String} {line : List (Processor α)}

theorem answering?_eq_some_iff : answering? w among = some p ↔ FirstNamed w among p := by
  unfold answering? FirstNamed
  rw [List.find?_eq_some_iff_append]
  simp only [Bool.not_eq_true', List.contains_eq_mem, decide_eq_false_iff_not,
    decide_eq_true_eq]
  constructor
  · rintro ⟨hp, before, after, rfl, hbefore⟩
    exact ⟨before, after, rfl, hp, hbefore⟩
  · rintro ⟨before, after, rfl, hp, hbefore⟩
    exact ⟨hp, before, after, rfl, hbefore⟩

/-- Along a path of words stands a line of processors that they name. -/
theorem path_iff_namedLine :
    Path among words p ↔ ∃ line, NamedLine among words line ∧ line.getLast? = some p := by
  constructor
  · intro h
    induction h with
    | last h => exact ⟨[_], .last (answering?_eq_some_iff.mp h), rfl⟩
    | down h _ ih =>
      obtain ⟨line, hline, hlast⟩ := ih
      refine ⟨_ :: line, .down (answering?_eq_some_iff.mp h) hline, ?_⟩
      rw [List.getLast?_cons, hlast, Option.getD_some]
  · rintro ⟨line, hline, hlast⟩
    induction hline with
    | last h =>
      obtain rfl := Option.some.inj hlast
      exact .last (answering?_eq_some_iff.mpr h)
    | @down among w q words line h hrest ih =>
      refine .down (answering?_eq_some_iff.mpr h) (ih ?_)
      -- The line below has a last processor, which is that of the whole line.
      have hne : line ≠ [] := by cases hrest <;> exact List.cons_ne_nil _ _
      rwa [List.getLast?_cons_of_ne_nil hne] at hlast

/-- Among processors with whom it shares no name, a processor is the first that has any of its
names. -/
theorem UniqueAmong.firstNamed (h : UniqueAmong among p) (hw : lowerCase w ∈ p.names) :
    FirstNamed w among p := by
  obtain ⟨before, after, rfl, hbefore⟩ := List.eq_append_cons_of_mem h.1
  refine ⟨before, after, rfl, hw, fun q hq hname => ?_⟩
  have hne : q ≠ p := fun heq => hbefore (heq ▸ hq)
  exact h.2 q (List.mem_append_left _ hq) hne _ hname hw

/-- Any names of the processors of a unique line name this line. -/
theorem UniqueLine.namedLine (h : UniqueLine among line)
    (hnames : List.Forall₂ (fun w q => lowerCase w ∈ q.names) words line) :
    NamedLine among words line := by
  induction h generalizing words with
  | last h =>
    obtain ⟨w, words, hw, hnil, rfl⟩ := List.forall₂_cons_right_iff.mp hnames
    rw [List.forall₂_nil_right_iff.mp hnil]
    exact .last (h.firstNamed hw)
  | down h _ ih =>
    obtain ⟨w, words, hw, hrest, rfl⟩ := List.forall₂_cons_right_iff.mp hnames
    exact .down (h.firstNamed hw) (ih hrest)

/-! ### Look-ups -/

/-- What look-ups give.  A look-up gives the last processor of the line that its words name, if all
of them do, or if those behind are free text for a processor that takes it and has nothing below it,
and nothing otherwise.  So along a line in which no processor shares a name with another one beside
it any of the names will do, and free text does not change what a look-up gives. -/
theorem find?_follows_names (name : String) (chain : List String) (among : List (Processor α)) :
    (∀ p, find? name chain among = some p ↔ ∃ words rest line, name :: chain = words ++ rest ∧
      NamedLine among words line ∧ line.getLast? = some p ∧
      (rest = [] ∨ rest ≠ [] ∧ p.children = [] ∧ p.acceptsText = true)) ∧
      (∀ line p, UniqueLine among line → line.getLast? = some p →
        List.Forall₂ (fun w q => lowerCase w ∈ q.names) (name :: chain) line →
        find? name chain among = some p) ∧
      ∀ p, find? name chain among = some p → p.children = [] → p.acceptsText = true →
        ∀ text, find? name (chain ++ text) among = some p := by
  have hends : ∀ (p : Processor α) rest, p.Ends rest ↔
      rest = [] ∨ rest ≠ [] ∧ p.children = [] ∧ p.acceptsText = true := by
    intro p rest
    unfold Ends hasChildren
    rw [Bool.not_eq_false', List.isEmpty_iff]
    by_cases hrest : rest = []
    · exact ⟨fun _ => Or.inl hrest, fun _ => Or.inl hrest⟩
    · simp [hrest]
  refine ⟨fun p => ?_, fun line p hline hlast hnames => ?_, fun p hp hleaf htext text => ?_⟩
  · rw [find?_eq_some_iff]
    constructor
    · rintro ⟨words, rest, heq, hpath, hrest⟩
      obtain ⟨line, hline, hlast⟩ := path_iff_namedLine.mp hpath
      exact ⟨words, rest, line, heq, hline, hlast, (hends p rest).mp hrest⟩
    · rintro ⟨words, rest, line, heq, hline, hlast, hrest⟩
      have hpath := path_iff_namedLine.mpr ⟨line, hline, hlast⟩
      exact ⟨words, rest, heq, hpath, (hends p rest).mpr hrest⟩
  · have hpath : Path among (name :: chain) p :=
      path_iff_namedLine.mpr ⟨line, hline.namedLine hnames, hlast⟩
    exact hpath.find?_eq (Or.inl rfl) (List.append_nil _).symm
  · obtain ⟨words, rest, heq, hpath, -⟩ := exists_path_of_find? hp
    have hends' : p.Ends (rest ++ text) := Or.inr ⟨by rw [hasChildren, hleaf]; rfl, htext⟩
    refine hpath.find?_eq hends' ?_
    rw [← List.cons_append, heq, List.append_assoc]

/-- Two commands with a command below them each, of which one takes free text; an alias and a name
in other letters lead to it, with free text behind them. -/
theorem alias_leads_past_sibling :
    let find : Processor Unit :=
      ⟨0, { command := "find", label := "find", handler := .echo, allowsText := true }, []⟩
    let add : Processor Unit := ⟨1, { command := "add", label := "add", handler := .echo }, []⟩
    let pkg : Processor Unit :=
      ⟨2, { command := "pkg", label := "pkg", handler := .echo, aliases := ["P"] }, [add, find]⟩
    let repo : Processor Unit :=
      ⟨3, { command := "repo", label := "repo", handler := .echo }, [add]⟩
    UniqueLine [repo, pkg] [pkg, find] ∧ find? "p" (["Find"] ++ ["some", "text"]) [repo, pkg] =
      some find := by
  intro find add pkg repo
  have hfind : UniqueAmong pkg.children find := by
    refine ⟨List.mem_cons_of_mem _ List.mem_cons_self, fun q hq hne => ?_⟩
    rcases List.mem_pair.mp hq with rfl | rfl
    · decide +kernel
    · exact absurd rfl hne
  have hpkg : UniqueAmong [repo, pkg] pkg := by
    refine ⟨List.mem_cons_of_mem _ List.mem_cons_self, fun q hq hne => ?_⟩
    rcases List.mem_pair.mp hq with rfl | rfl
    · decide +kernel
    · exact absurd rfl hne
  have hline : UniqueLine [repo, pkg] [pkg, find] := .down hpkg (.last hfind)
  have hfound : find? "p" ["Find"] [repo, pkg] = some find := by
    refine (find?_follows_names "p" ["Find"] [repo, pkg]).2.1 _ find hline rfl ?_
    exact .cons (by decide +kernel) (.cons (by decide +kernel) .nil)
  exact ⟨hline, (find?_follows_names "p" ["Find"] [repo, pkg]).2.2 find hfound rfl rfl _⟩

end Processor

end CommandShell
