import CommandShell.Proofs.Line.HelpCommand
import Mathlib.Data.List.SplitBy
import Mathlib.Data.String.Basic

/-!
# The list of all commands

The list of `help` stands in groups, which are cut from the visible processors after these were
sorted by their groups: only then does what has one group stand together.  Sorting the processors of
a group by their commands afterwards leaves the groups as they are.

## Main definitions

* `Processor.InModule`: the heading that a processor belongs under.
* `commandListLines`: the lines of the list.

## Main results

* `flatMap_groupRuns`, `group_of_mem_groupRuns`, `pairwise_groupRuns`: what groups are cut from,
  what stands in one, and how they follow each other.
* `perm_groups`, `pairwise_groups`: the groups of a registry.
* `help_lists_commands`: what `help` prints without further words.
-/

namespace CommandShell

variable {α : Type} {p q : Processor α} {ps : List (Processor α)} {r : Registry α} {name : String}
  {g : String × List (Processor α)}

/-! ### Groups -/

/-- The processor belongs under the heading: this is the group that its metadata name, or
`uncategorized` where they name none. -/
def Processor.InModule (p : Processor α) (name : String) : Prop :=
  (p.decl.metadata.bind (·.group) = some name ∧ name ≠ "") ∨
    ((∀ other, p.decl.metadata.bind (·.group) = some other → other = "") ∧
      name = "uncategorized")

theorem Processor.group_eq_iff : p.group = name ↔ p.InModule name := by
  unfold Processor.group InModule
  cases p.decl.metadata.bind (·.group) with
  | none => simp [eq_comm]
  | some own =>
    -- An empty name of a group counts as none.
    by_cases hown : own = ""
    · simp only [hown, Option.some.injEq, forall_eq', true_and]
      constructor
      · intro h
        exact Or.inr h.symm
      · rintro (⟨rfl, hne⟩ | rfl)
        · exact absurd rfl hne
        · rfl
    · simp only [Option.some.injEq, forall_eq', hown, false_and, or_false]
      rw [Option.filter_some, if_pos (by simpa using hown), Option.getD_some]
      constructor
      · rintro rfl
        exact ⟨rfl, hown⟩
      · exact And.left

/-- To name runs that are not empty leaves none out. -/
theorem map_snd_named {runs : List (List (Processor α))} (hruns : [] ∉ runs) :
    (runs.filterMap fun run => run.head?.map fun p => (p.group, run)).map (·.2) = runs := by
  induction runs with
  | nil => rfl
  | cons run runs ih =>
    rw [List.mem_cons, not_or] at hruns
    obtain ⟨p, rest, rfl⟩ := List.exists_cons_of_ne_nil (Ne.symm hruns.1)
    show (p :: rest) :: _ = _
    rw [ih hruns.2]

/-- The runs themselves, without their names. -/
theorem map_snd_groupRuns (ps : List (Processor α)) :
    (groupRuns ps).map (·.2) = ps.splitBy fun p q => p.group == q.group :=
  map_snd_named (List.nil_notMem_splitBy _ ps)

/-- What runs are cut from is all that stands in them, in the same order. -/
theorem flatMap_groupRuns (ps : List (Processor α)) : (groupRuns ps).flatMap (·.2) = ps := by
  rw [List.flatMap_def, map_snd_groupRuns, List.flatten_splitBy]

/-- A run is not empty, and all of it has the group that it is named by. -/
theorem group_of_mem_groupRuns (hg : g ∈ groupRuns ps) :
    g.2 ≠ [] ∧ ∀ p ∈ g.2, p.group = g.1 := by
  obtain ⟨run, hrun, hname⟩ := List.mem_filterMap.mp hg
  obtain ⟨p, hp, rfl⟩ := Option.map_eq_some_iff.mp hname
  obtain ⟨rest, rfl⟩ := List.head?_eq_some_iff.mp hp
  refine ⟨List.cons_ne_nil _ _, ?_⟩
  -- Neighbours have the same group, so all have that of the first.
  have hchain : ((p :: rest).map (·.group)).IsChain (· = ·) := by
    rw [List.isChain_map]
    exact (List.isChain_of_mem_splitBy hrun).imp fun _ _ h => eq_of_beq h
  rw [List.isChain_iff_pairwise, List.map_cons, List.pairwise_cons] at hchain
  intro q hq
  obtain rfl | hq := List.mem_cons.mp hq
  · rfl
  · exact (hchain.1 _ (List.mem_map_of_mem hq)).symm

/-- Runs of what is sorted by groups follow each other as their names do, so no name comes twice. -/
theorem pairwise_groupRuns (h : ps.Pairwise fun p q => p.group ≤ q.group) :
    ((groupRuns ps).map (·.1)).Pairwise (· < ·) := by
  rw [← List.isChain_iff_pairwise, List.isChain_map,
    List.isChain_iff_forall_rel_of_append_cons_cons]
  intro g g' front back hcut
  have hruns : (ps.splitBy fun p q => p.group == q.group) =
      front.map (·.2) ++ g.2 :: g'.2 :: back.map (·.2) := by
    rw [← map_snd_groupRuns, hcut]
    simp
  have hcuts : (ps.splitBy fun p q => p.group == q.group).flatten.IsChain
      fun p q => p.group ≤ q.group := by
    rw [List.flatten_splitBy]
    exact h.isChain
  -- Where two runs meet the groups do not fall, and they differ there.
  have hmeets := ((List.isChain_flatten (List.nil_notMem_splitBy _ ps)).mp hcuts).2
  have hdiffer := List.isChain_getLast_head_splitBy (fun p q => p.group == q.group) ps
  rw [List.isChain_iff_forall_rel_of_append_cons_cons] at hmeets hdiffer
  obtain ⟨hlast, hhead, hne⟩ := hdiffer hruns
  have hle := hmeets hruns _ (List.getLast?_eq_some_getLast hlast) _
    (List.head?_eq_some_head hhead)
  have hmem : g ∈ groupRuns ps ∧ g' ∈ groupRuns ps := by simp [hcut]
  rw [(group_of_mem_groupRuns hmem.1).2 _ (List.getLast_mem hlast),
    (group_of_mem_groupRuns hmem.2).2 _ (List.head_mem hhead)] at hle hne
  exact lt_of_le_of_ne hle (by simpa using hne)

/-! ### The groups of a registry -/

/-- The processors of a registry that are listed. -/
def Registry.visible (r : Registry α) : List (Processor α) :=
  r.processors.filter fun p => !p.isHidden

/-- The groups of a registry hold what is visible, each processor once. -/
theorem perm_groups (r : Registry α) : (r.groups.flatMap (·.2)).Perm r.visible := by
  unfold Registry.groups
  dsimp only
  rw [List.flatMap_map]
  refine (List.Perm.flatMap_left _ fun g _ => List.mergeSort_perm _ _).trans ?_
  rw [flatMap_groupRuns]
  exact List.mergeSort_perm _ _

/-- In each group stands something, in the order of the commands, and all of it belongs there. -/
theorem sorted_of_mem_groups (hg : g ∈ r.groups) :
    g.2 ≠ [] ∧ (g.2.Pairwise fun p q => p.command ≤ q.command) ∧ ∀ p ∈ g.2, p.InModule g.1 := by
  obtain ⟨run, hrun, rfl⟩ := List.mem_map.mp hg
  obtain ⟨hne, hgroup⟩ := group_of_mem_groupRuns hrun
  refine ⟨?_, pairwise_sortedBy le_trans le_total Processor.command run.2, fun p hp => ?_⟩
  · simpa [← List.length_eq_zero_iff] using hne
  · exact Processor.group_eq_iff.mp (hgroup p (List.mem_mergeSort.mp hp))

theorem pairwise_groups (r : Registry α) : (r.groups.map (·.1)).Pairwise (· < ·) := by
  unfold Registry.groups
  rw [List.map_map]
  exact pairwise_groupRuns (pairwise_sortedBy le_trans le_total Processor.group _)

/-- How a processor appears in lists. -/
def Processor.listing (p : Processor α) : Registry.Listing :=
  ⟨p.command, p.decl.description, p.decl.aliases⟩

/-- What the registry lists without what is hidden. -/
theorem perm_list (r : Registry α) : (r.list false).Perm (r.visible.map Processor.listing) := by
  unfold Registry.list Registry.visible
  simp only [Bool.false_or]
  exact ((List.mergeSort_perm _ _).filter _).map _

/-! ### What is printed -/

/-- The line of a processor in the list. -/
def Processor.entryLine (p : Processor α) : String :=
  "  " ++ coloured "cyan" p.command ++ p.aliasNote ++ " - " ++
    if p.decl.description = "" then "Missing description" else p.decl.description

/-- The lines of a group: its name, its processors, and an empty line. -/
def groupLines (g : String × List (Processor α)) : List String :=
  coloured "yellow" (capitalize g.1) :: (g.2.map Processor.entryLine ++ [""])

/-- The lines of the list of all commands. -/
def commandListLines (groups : List (String × List (Processor α))) : List String :=
  [coloured "yellow" "Available commands:", ""] ++ groups.flatMap groupLines ++
    ["Type " ++ coloured "cyan" "help <command>" ++
      " to get more information about a specific command"]

namespace Run

variable {s : Session} {h : ShellProcessor}

theorem tells_describeGroup (g : String × List ShellProcessor) (s : Session) :
    Tells (describeGroup g.1 g.2) s ((groupLines g).map .print) := by
  have hentries : ∀ s, Tells (g.2.forM fun p => print p.entryLine) s
      (g.2.flatMap fun p => [.print p.entryLine]) :=
    fun s => Tells.forM (fun p _ => tells_print p.entryLine) g.2
  simp only [← List.map_eq_flatMap] at hentries
  unfold groupLines
  rw [List.map_cons, List.map_append, List.map_map]
  exact (tells_print _).bind ((hentries _).bind (tells_print _))

/-- Without further words `help` prints the groups of the registry. -/
theorem tells_describeAll (s : Session) :
    Tells describeAll s ((commandListLines s.registry.groups).map .print) := by
  have hgroups : ∀ t, Tells (s.registry.groups.forM fun g => describeGroup g.1 g.2) t
      (s.registry.groups.flatMap fun g => (groupLines g).map .print) :=
    fun t => Tells.forM tells_describeGroup s.registry.groups
  unfold Tells Returns describeAll
  rw [get_bind_apply]
  unfold commandListLines
  simp only [List.map_append, List.map_flatMap]
  exact (tells_print _).bind ((tells_print _).bind ((hgroups _).bind (tells_print _)))

/-- A line that is `help` alone prints the list and succeeds. -/
theorem exists_returns_helpLine (hforce : Processor.answering? "help" s.commands = some h)
    (hh : h.IsHelp) (depth : Nat) :
    ∃ t, Returns (runLineWithin (depth + 1) "help") s true t ∧ t.process.exitCode = .int 0 ∧
      t.journal = ((commandListLines s.registry.groups).map .print).reverse ++
        (s.space.reports ++ s.journal) := by
  have hwords : wordsOf "help" = ["help"] := by decide +kernel
  have hline : splitLine "help" = [.segment "help"] := by decide +kernel
  have hrequest : ¬ MakesRequest "help" := by
    refine not_makesRequest_of_flags fun f hf => ?_
    have hnone : (readSegment "help").flags = [] := by decide +kernel
    rw [hnone] at hf
    cases hf
  obtain ⟨i, c, u, hd, hasked⟩ := exists_dispatches_help hforce hh hwords hrequest
  obtain ⟨-, -, -, -, hscope⟩ := hd.admissible
  have hregistry : u.registry = s.registry :=
    (Prod.mk.inj (keepsLookup_openScope.of_returns hscope)).1
  -- No hook stands around the handler of `help`, which finds the processors of the session.
  have hbetween : Returns (handleBetweenHooks (nestedWithin depth) c h i) u ()
      (u.told ((commandListLines s.registry.groups).map .print)) := by
    rw [handleBetweenHooks_of_isHelp hh, ← hregistry]
    unfold help
    rw [hasked]
    exact tells_describeAll u
  have hcode : (u.told ((commandListLines s.registry.groups).map .print)).finished.process.exitCode
      = .int 0 := by
    show u.process.finish.exitCode = _
    rw [process_of_openScope hscope]
    rfl
  have hends := endsWith_of_returns (hd.returns_runSegment hbetween) hcode rfl
  refine ⟨_, hends.returns_runLine hline, hcode, ?_⟩
  show _ ++ u.journal = _
  rw [journal_of_openScope hscope]

/-- What `help` lists.  Where the built-in `help` is in force it succeeds, and prints the lines of
the groups of the registry and nothing else: for each group its name, a line for each processor of
it, and an empty line.  In every registry the names of the groups are strictly ordered, so that none
comes twice; no group is empty, its processors stand in the order of their commands, and they all
belong under its name.  All groups together hold the root processors that are not hidden, each
exactly once, and what they list is what the registry itself lists without the hidden ones. -/
theorem help_lists_visible_commands (s : Session) (depth : Nat) :
    (∀ h, Processor.answering? "help" s.commands = some h → h.IsHelp →
      ∃ t, Returns (runLineWithin (depth + 1) "help") s true t ∧ t.process.exitCode = .int 0 ∧
        t.journal = ((commandListLines s.registry.groups).map .print).reverse ++
          (s.space.reports ++ s.journal)) ∧
    (s.registry.groups.map (·.1)).Pairwise (· < ·) ∧
    (∀ g ∈ s.registry.groups, g.2 ≠ [] ∧ (g.2.Pairwise fun p q => p.command ≤ q.command) ∧
      ∀ p ∈ g.2, p.InModule g.1) ∧
    (s.registry.groups.flatMap (·.2)).Perm s.registry.visible ∧
    ((s.registry.groups.flatMap (·.2)).map Processor.listing).Perm (s.registry.list false) := by
  refine ⟨fun h hforce hh => exists_returns_helpLine hforce hh depth, pairwise_groups _,
    fun g hg => sorted_of_mem_groups hg, perm_groups _, ?_⟩
  exact ((perm_groups _).map _).trans (perm_list _).symm

/-- In a shell with the built-in processors `help` lists these four. -/
theorem builtin_commands_are_listed :
    ∃ t, Returns (runLine "help") Session.blankShell true t ∧
      t.journal = ((commandListLines Builtin.registry.groups).map .print).reverse ∧
      ((Builtin.registry.groups.flatMap (·.2)).map Processor.command).Perm
        ["help", "alias", "unalias", "echo"] := by
  obtain ⟨hhelp, -, -, hperm, -⟩ := help_lists_visible_commands Session.blankShell 499
  have hforce : Processor.answering? "help" Session.blankShell.commands =
      some ⟨0, Builtin.help, []⟩ := by
    show Processor.answering? "help" Builtin.registry.processors = _
    rw [Builtin.processors_registry]
    exact List.find?_cons_of_pos (by decide +kernel)
  obtain ⟨t, ht, -, hjournal⟩ := hhelp _ hforce ⟨rfl, rfl⟩
  refine ⟨t, ht, hjournal.trans (List.append_nil _), ?_⟩
  have hvisible : Builtin.registry.visible.map Processor.command =
      ["help", "alias", "unalias", "echo"] := by
    unfold Registry.visible
    rw [Builtin.processors_registry]
    decide
  rw [← hvisible]
  exact hperm.map _

end Run

end CommandShell
