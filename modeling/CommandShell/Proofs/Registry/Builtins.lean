import CommandShell.Proofs.Ending
import CommandShell.Shell.SetUp
import CommandShell.Shell.Start

/-!
# The registry of the built-in processors

A shell that starts without further processors has a registry with four roots, one of which has a
processor below it.  None of the five runs a script, and the two that change aliases share a bucket.

## Main definitions

* `Builtin.processors`, `Builtin.registry`: the roots with their keys, and the registry.
* `Builtin.nodes`: all five processors.

## Main results

* `Builtin.registry_of_returns_openShell`: a shell that opens with them has this registry.
* `Builtin.mem_nodes_of_resolve?`, `Builtin.mem_nodes_of_find?`: names lead to none but the five.
-/

namespace CommandShell

namespace Processor

variable {α : Type} {p q : Processor α} {name : String} {ps : List (Processor α)}

theorem mem_preorderAll_of_mem (h : p ∈ ps) : p ∈ preorderAll ps := by
  induction ps with
  | nil => cases h
  | cons q ps ih =>
    rw [preorderAll]
    rcases List.mem_cons.mp h with rfl | h
    · refine List.mem_append_left _ ?_
      cases p
      exact List.mem_cons_self
    · exact List.mem_append_right _ (ih h)

theorem preorderAll_children_subset (h : q ∈ ps) :
    preorderAll q.children ⊆ preorderAll ps := by
  induction ps with
  | nil => cases h
  | cons r ps ih =>
    intro p hp
    rw [preorderAll]
    rcases List.mem_cons.mp h with rfl | h
    · refine List.mem_append_left _ ?_
      cases q
      exact List.mem_cons_of_mem _ hp
    · exact List.mem_append_right _ (ih h hp)

/-- A path of names leads to one of the processors that it starts from, or to one below them. -/
theorem mem_preorderAll_of_find? {chain : List String} (h : find? name chain ps = some p) :
    p ∈ preorderAll ps := by
  induction chain generalizing name ps with
  | nil => exact mem_preorderAll_of_mem (List.mem_of_find?_eq_some h)
  | cons next rest ih =>
    unfold find? at h
    split at h
    · cases h
    · rename_i q hq
      have hmem : q ∈ ps := List.mem_of_find?_eq_some hq
      split at h
      · exact preorderAll_children_subset hmem (ih h)
      · split at h
        · obtain rfl := Option.some.inj h
          exact mem_preorderAll_of_mem hmem
        · cases h

end Processor

namespace Builtin

/-! ### The registry -/

/-- The built-in roots as they are registered, with the keys that they get. -/
def processors : List ShellProcessor :=
  [⟨0, help, []⟩, ⟨2, defineAliases, [⟨1, listAliases, []⟩]⟩, ⟨3, removeAlias, []⟩, ⟨4, echo, []⟩]

/-- The registry with the built-in processors and no others. -/
def registry : Registry Action where
  slots := processors.map fun p => ⟨p, []⟩
  parents := [(1, ⟨2, defineAliases, [⟨1, listAliases, []⟩]⟩)]
  nextKey := 5

/-- The built-in processors, roots and others. -/
def nodes : List ShellProcessor :=
  Processor.preorderAll processors

theorem processors_registry : registry.processors = processors := rfl

theorem mem_nodes_iff {p : ShellProcessor} :
    p ∈ nodes ↔ p = ⟨0, help, []⟩ ∨ p = ⟨2, defineAliases, [⟨1, listAliases, []⟩]⟩ ∨
      p = ⟨1, listAliases, []⟩ ∨ p = ⟨3, removeAlias, []⟩ ∨ p = ⟨4, echo, []⟩ := by
  show p ∈ [_, _, _, _, _] ↔ _
  simp only [List.mem_cons, List.not_mem_nil, or_false]

theorem children_subset_nodes {p : ShellProcessor} (h : p ∈ nodes) :
    Processor.preorderAll p.children ⊆ nodes := by
  intro q hq
  rcases mem_nodes_iff.mp h with rfl | rfl | rfl | rfl | rfl
  · cases hq
  · rw [List.mem_singleton.mp (show q ∈ [⟨1, listAliases, []⟩] from hq)]
    exact mem_nodes_iff.mpr (Or.inr (Or.inr (Or.inl rfl)))
  · cases hq
  · cases hq
  · cases hq

/-- Whatever is pinned, names lead to built-in processors only. -/
theorem mem_nodes_of_resolve? {s : Session} {segment : String} {p : ShellProcessor}
    (hregistry : s.registry = registry) (hpinned : ∀ q, s.pinned = some q → q ∈ nodes)
    (h : s.resolve? segment = some p) : p ∈ nodes := by
  have hcommands : Processor.preorderAll s.commands ⊆ nodes := by
    unfold Session.commands
    split
    · rename_i q hq
      exact children_subset_nodes (hpinned q hq)
    · rw [hregistry, processors_registry]
      exact List.Subset.refl _
  unfold Session.resolve? at h
  split at h
  · cases h
  · exact hcommands (Processor.mem_preorderAll_of_find? h)

theorem mem_nodes_of_find? {name : String} {chain : List String} {p : ShellProcessor}
    (h : registry.find? name chain = some p) : p ∈ nodes :=
  Processor.mem_preorderAll_of_find? h

/-! ### Shells that open -/

open Run

/-- The registry with a slot of its own for a new processor. -/
def withSlot (r : Registry Action) (p : ShellProcessor) : Registry Action :=
  let (q, r) := r.adopt p
  { r.link q with slots := r.slots ++ [⟨q, []⟩] }

/-- Whether some new processors meet no slot when they are registered in order. -/
def areFree : Registry Action → List ShellProcessor → Bool
  | _, [] => true
  | r, p :: ps =>
    ((r.adopt p).2.positions (r.adopt p).1.names).isEmpty && areFree (withSlot r p) ps

theorem returns_register_of_free {p : ShellProcessor} {s : Session}
    (hfree : ((s.registry.adopt p).2.positions (s.registry.adopt p).1.names).isEmpty = true) :
    Returns (Run.register p) s .added { s with registry := withSlot s.registry p } := by
  have hregister : (s.registry.adopt p).2.register (s.registry.adopt p).1 =
      (withSlot s.registry p, .added) := by
    unfold Registry.register
    rw [List.isEmpty_iff.mp hfree]
    rfl
  have hadopted : Returns (Run.adopt p) s (s.registry.adopt p).1
      { s with registry := (s.registry.adopt p).2 } := rfl
  refine returns_bind_iff.mpr ⟨_, _, hadopted, ?_⟩
  unfold Run.enter Returns
  rw [get_bind_apply]
  dsimp only
  rw [hregister]
  rfl

/-- Processors that meet no slot get one each. -/
theorem returns_registerAll_of_areFree {ps : List ShellProcessor} {s : Session}
    (h : areFree s.registry ps = true) :
    Returns (registerAll ps) s () { s with registry := ps.foldl withSlot s.registry } := by
  induction ps generalizing s with
  | nil => rfl
  | cons p ps ih =>
    obtain ⟨hfree, hrest⟩ := Bool.and_eq_true_iff.mp h
    have hfirst : Returns (discard (Run.register p)) s ()
        { s with registry := withSlot s.registry p } :=
      returns_map_iff.mpr ⟨.added, returns_register_of_free hfree, rfl⟩
    exact returns_bind_iff.mpr ⟨(), _, hfirst, ih hrest⟩

theorem returns_registerAll_builtins {s : Session} (h : s.registry = {}) :
    Returns (registerAll builtinProcessors) s () { s with registry := registry } := by
  have hfree : areFree s.registry builtinProcessors = true := by
    rw [h]
    decide +kernel
  have hall := returns_registerAll_of_areFree hfree
  rw [h] at hall
  exact hall

/-- All that a shell does to its processors when it opens is to register them, and it does nothing
to its buckets. -/
theorem exists_returns_registerAll {ps : List ShellProcessor} {settings : Settings}
    {lasting : Bool} {s t : Session} (ht : Returns (openShell settings lasting ps) s () t) :
    ∃ u, Returns (registerAll ps) s () u ∧ t.registry = u.registry ∧ t.pinned = u.pinned ∧
      t.space = u.space ∧ t.ready = u.ready := by
  unfold openShell at ht
  obtain ⟨⟨⟩, u, hu, hrest⟩ := returns_bind_iff.mp ht
  refine ⟨u, hu, ?_⟩
  -- All that is done after the registrations concerns files and services.
  let view (s : Session) := (s.registry, s.pinned, s.space, s.ready)
  have haccess : ∀ p x, Keeps (accessAt p x) view := by
    intro p x
    refine Keeps.bind keeps_get fun s t => ?_
    rw [access_apply]
  have hoffer : ∀ token service, Keeps (offer token service) view := fun _ _ _ => rfl
  have hfiles : ∀ root, Keeps (openFiles root) view := fun root =>
    (haccess _ _).bind fun _ => hoffer _ _
  have hservices : Keeps (do
      offer Service.keyValueToken .keyValue
      offer Service.registryToken .registry
      if (settings.get .enableFiles).truthy then
        let root ← ofExcept (WrittenPath.ofValue (settings.get .workspace))
        openFiles (← ofExcept ((← get).locations.expandUser root))) view := by
    refine (hoffer _ _).bind fun _ => (hoffer _ _).bind fun _ => Keeps.ite ?_ keeps_pure
    exact keeps_ofExcept.bind fun _ => keeps_get.bind fun _ => keeps_ofExcept.bind fun _ => hfiles _
  have hkeeps := Keeps.of_returns (f := view) ?_ hrest
  · exact ⟨congrArg (·.1) hkeeps, congrArg (·.2.1) hkeeps, congrArg (·.2.2.1) hkeeps,
      congrArg (·.2.2.2) hkeeps⟩
  · exact Keeps.ite (keeps_ofExcept.bind fun _ => (haccess _ _).bind fun _ => hservices) hservices

/-- A shell that opens with the built-in processors alone has their registry, and nothing is pinned
or watched that was not before. -/
theorem registry_of_returns_openShell {settings : Settings} {lasting : Bool} {s t : Session}
    (h : s.registry = {}) (ht : Returns (openShell settings lasting builtinProcessors) s () t) :
    t.registry = registry ∧ t.pinned = s.pinned ∧ t.space = s.space := by
  obtain ⟨u, hu, hregistry, hpinned, hspace, -⟩ := exists_returns_registerAll ht
  obtain ⟨-, rfl⟩ := (returns_registerAll_builtins h).unique hu
  exact ⟨hregistry, hpinned, hspace⟩

end Builtin

end CommandShell
