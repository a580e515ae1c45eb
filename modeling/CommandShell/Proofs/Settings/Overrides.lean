import CommandShell.Proofs.Settings.Values

/-!
# Settings from the environment

The settings in use are those of the file, with what the environment gives in front and with what is
given to updates.  All of them are written when any are, those from the environment among them.
Beside the settings it is kept where their values come from: which one was given last, or else was
in the file first, which one the environment lent at the last load, and which one a write has taken
over from it.

## Main definitions

* `Origins`: where the values of the settings come from.
* `Origins.next`: what a load or a write makes of that.
* `Ledger`: a file of settings in use, with the origins of their values.
* `Ledger.Moves`, `Ledger.Runs`: calls that return, one and several.
* `Ledger.Holds`: the file holds the values that have these origins.

## Main results

* `Ledger.Sound.step`: a write leaves the values that have these origins in the file.
* `Ledger.saved_settings_have_origins`: the same for all calls of a run.
-/

namespace CommandShell

namespace SettingsFile

/-- The members that a call is given, as they are given. -/
def Call.given : Call → Entries Value
  | save => []
  | update given =>
    match argumentsOf given with
    | .ok entries => entries
    | .error _ => []

/-- A call names settings one by one: it gives neither all members as a whole nor the member that
tells which of them are written. -/
structure Call.IsPlain (c : Call) : Prop where
  all : Settings.allMembers ∉ c.given.keys
  written : Settings.writtenMembers ∉ c.given.keys

/-- What is done with a file of settings. -/
inductive Act where
  /-- Takes the settings from the file and the environment. -/
  | load (environment : Entries String)
  /-- Changes and writes them. -/
  | write (c : Call)

/-- Whether the file is written. -/
def Act.writes : Act → Bool
  | load _ => false
  | write _ => true

end SettingsFile

open SettingsFile (Act Call)

/-- Where the values of the settings come from. -/
structure Origins where
  /-- The value of a setting that was given last, or else was in the file first. -/
  given : Setting → Value
  /-- The value that the environment gave for a setting at the last load, unless another one was
  given since. -/
  lent : Setting → Option String
  /-- The value that a write took over from the environment last, unless another one was given
  since. -/
  taken : Setting → Option String

namespace Origins

/-- The origins when a file that holds some entries is loaded first. -/
def first (home : Path) (environment : Entries String) (original : Entries Value) : Origins where
  given := ((Settings.default home).overlay original).get
  lent := Settings.lent environment
  taken := fun _ => none

/-- The origins after a load or a write.  A load lends what the environment gives; a write takes
over what is lent and not given. -/
def next (o : Origins) : Act → Origins
  | .load environment => { o with lent := Settings.lent environment }
  | .write c =>
    { given := fun x => (Settings.given? c.given x).getD (o.given x)
      lent := fun x => if (Settings.given? c.given x).isSome then none else o.lent x
      taken := fun x =>
        if (Settings.given? c.given x).isSome then none else o.lent x <|> o.taken x }

/-- The value of a setting in the file. -/
def stored (o : Origins) (x : Setting) : Value :=
  ((o.taken x).map .text).getD (o.given x)

/-- The value of a setting that holds. -/
def current (o : Origins) (x : Setting) : Value :=
  ((o.lent x).map .text).getD (o.stored x)

variable {o : Origins} {c : Call}

/-- After a write the values that hold are those that were given, or else held before. -/
theorem current_next_write (o : Origins) (c : Call) (x : Setting) :
    (o.next (.write c)).current x = (Settings.given? c.given x).getD (o.current x) := by
  unfold current stored next
  dsimp only
  cases Settings.given? c.given x with
  | some v => rfl
  | none => cases o.lent x <;> rfl

/-- After a write the file has the values that hold. -/
theorem stored_next_write (o : Origins) (c : Call) (x : Setting) :
    (o.next (.write c)).stored x = (o.next (.write c)).current x := by
  unfold current stored next
  dsimp only
  cases Settings.given? c.given x with
  | some v => rfl
  | none => cases o.lent x <;> rfl

end Origins

/-- A file of settings in use, with the origins of their values. -/
structure Ledger where
  /-- The file with the settings that hold. -/
  file : SettingsFile
  /-- The files. -/
  tree : FileTree
  /-- Where the values come from. -/
  origins : Origins

namespace Ledger

/-- The ledger when a file that holds some entries is loaded first. -/
def opened (l : Locations) (environment : Entries String) (t : FileTree) (p : WrittenPath)
    (original : Entries Value) : Ledger where
  file := (SettingsFile.load environment t l p).2
  tree := t
  origins := .first l.home environment original

/-- Something is done, and returns. -/
inductive Moves (l : Locations) : Ledger → Act → Ledger → Prop
  | load (g : Ledger) (environment : Entries String) :
    Moves l g (.load environment)
      { file := (SettingsFile.load environment g.tree l g.file.path).2
        tree := g.tree
        origins := g.origins.next (.load environment) }
  | write {g : Ledger} {c : Call} {u : FileTree} :
    c.IsPlain → Returns (c.access l g.file) g.tree () u →
    Moves l g (.write c)
      { file := c.after l g.file
        tree := u
        origins := g.origins.next (.write c) }

/-- Several things are done one after another, and return; each comes with the ledger behind it. -/
inductive Runs (l : Locations) : Ledger → List (Act × Ledger) → Prop
  | nil (g : Ledger) : Runs l g []
  | cons {g g' : Ledger} {a : Act} {steps : List (Act × Ledger)} :
    Moves l g a g' → Runs l g' steps → Runs l g ((a, g') :: steps)

/-- The file holds for every setting the value that has its origin. -/
def Holds (l : Locations) (g : Ledger) : Prop :=
  ∃ (text : String) (entries : Entries Value), g.tree.readText (l.access g.file.path) = .ok text ∧
    Json.read text = .ok (.map entries) ∧
    ∀ x : Setting, entries.get? x.name = some (g.origins.stored x).held

/-! ### The invariant -/

variable {l : Locations} {environment : Entries String} {t u : FileTree} {p : WrittenPath}
  {original : Entries Value} {g g' : Ledger} {a : Act} {c : Call} {steps : List (Act × Ledger)}

/-- The settings that hold and those that the file gives have their origins. -/
structure Sound (l : Locations) (g : Ledger) : Prop where
  plain : g.file.settings.IsPlain
  held : ∀ x, (g.file.settings.get x).held = (g.origins.current x).held
  stored : ∃ (text : String) (entries : Entries Value),
    g.tree.readText (l.access g.file.path) = .ok text ∧ Json.read text = .ok (.map entries) ∧
    ∀ x, (((Settings.default l.home).overlay entries).get x).held = (g.origins.stored x).held

/-- Settings that are loaded on top of an object have their origins. -/
theorem sound_of_load {text : String} {entries : Entries Value}
    (htext : t.readText (l.access p) = .ok text) (hread : Json.read text = .ok (.map entries))
    (environment : Entries String) {o : Origins} (hlent : o.lent = Settings.lent environment)
    (hstored : ∀ x, (((Settings.default l.home).overlay entries).get x).held = (o.stored x).held) :
    Sound l ⟨(SettingsFile.load environment t l p).2, t, o⟩ := by
  rw [SettingsFile.load_of_map htext hread environment]
  refine ⟨((Settings.isPlain_default l.home).overlay entries).override environment, fun x => ?_,
    text, entries, htext, hread, hstored⟩
  unfold Origins.current
  dsimp only
  rw [Settings.get_override, hlent]
  cases Settings.lent environment x with
  | none => exact hstored x
  | some w => rfl

/-- A file with an object is sound when it is loaded first. -/
theorem sound_opened {text : String} (htext : t.readText (l.access p) = .ok text)
    (hread : Json.read text = .ok (.map original)) (environment : Entries String) :
    (opened l environment t p original).Sound l :=
  sound_of_load htext hread environment rfl fun _ => rfl

/-- A load finds the object in the file. -/
theorem Sound.load (h : g.Sound l) (environment : Entries String) :
    (SettingsFile.load environment g.tree l g.file.path).1 = .ok none ∧
      Sound l ⟨(SettingsFile.load environment g.tree l g.file.path).2, g.tree,
        g.origins.next (.load environment)⟩ := by
  obtain ⟨text, entries, htext, hread, hstored⟩ := h.stored
  exact ⟨congrArg Prod.fst (SettingsFile.load_of_map htext hread environment),
    sound_of_load htext hread environment rfl hstored⟩

/-- A call that returns was not refused: it saved the settings that hold after it. -/
theorem returns_save_of_returns_access {f : SettingsFile} (h : Returns (c.access l f) t () u) :
    f.settings.assignKnown c.given = ((c.after l f).settings, none) ∧
      Returns ((c.after l f).save l) t () u := by
  cases hrefusal : c.refusal? f with
  | some e =>
    rw [c.access_of_refused hrefusal] at h
    exact absurd h not_returns_throw
  | none =>
    refine ⟨?_, by rwa [← c.access_of_accepted hrefusal]⟩
    cases c with
    | save => rfl
    | update given =>
      cases hgiven : SettingsFile.argumentsOf given with
      | error e =>
        rw [Call.refusal?, hgiven] at hrefusal
        cases hrefusal
      | ok entries =>
        rw [Call.refusal?, hgiven] at hrefusal
        rw [Call.given, hgiven, Call.after, SettingsFile.update_of_ok hgiven]
        exact Prod.ext rfl hrefusal

/-- What is given to a call holds then, and all that holds is in the file. -/
theorem Sound.write (h : g.Sound l) (hplain : c.IsPlain)
    (hcall : Returns (c.access l g.file) g.tree () u) :
    Holds l ⟨c.after l g.file, u, g.origins.next (.write c)⟩ ∧
      Sound l ⟨c.after l g.file, u, g.origins.next (.write c)⟩ := by
  obtain ⟨old, -, hold, -⟩ := h.stored
  obtain ⟨hset, hsave⟩ := returns_save_of_returns_access hcall
  have hafter : (c.after l g.file).settings.IsPlain :=
    h.plain.assignKnown hset hplain.all hplain.written
  -- A value that is given replaces the one from before, and all others stay.
  have hheld : ∀ x, ((c.after l g.file).settings.get x).held =
      ((g.origins.next (.write c)).current x).held := by
    intro x
    rw [Settings.get_assignKnown hset hplain.all, Origins.current_next_write]
    cases Settings.given? c.given x with
    | none => exact h.held x
    | some v => rfl
  rw [← c.after_path l] at hold
  obtain ⟨text, entries, htext, hread, hkeys, hget⟩ :=
    SettingsFile.exists_of_returns_save hafter hold hsave
  -- All settings are written, whether they were given or not.
  have hstored : ∀ x : Setting, entries.get? x.name =
      some ((g.origins.next (.write c)).stored x).held := by
    intro x
    rw [hget, hheld, Origins.stored_next_write]
  refine ⟨⟨text, entries, htext, hread, hstored⟩, hafter, hheld, text, entries, htext, hread,
    fun x => ?_⟩
  rw [Settings.get_overlay, Settings.given?_of_nodup hkeys, hstored]
  exact Value.held_held _

theorem Sound.step (h : g.Sound l) (hmoves : Moves l g a g') :
    (a.writes = true → g'.Holds l) ∧ g'.Sound l := by
  cases hmoves with
  | load environment => exact ⟨fun hwrites => (by cases hwrites), (h.load environment).2⟩
  | write hplain hcall => exact (h.write hplain hcall).imp_left fun hholds _ => hholds

theorem Sound.run (h : g.Sound l) (hruns : Runs l g steps) :
    ∀ x ∈ steps, (x.1.writes = true → x.2.Holds l) ∧ x.2.Sound l := by
  induction hruns with
  | nil => exact fun _ hx => by cases hx
  | cons hmoves hrest ih =>
    have hstep := h.step hmoves
    exact List.forall_mem_cons.mpr ⟨hstep, ih hstep.2⟩

/-! ### Values that are taken over -/

theorem Moves.origins_eq (h : Moves l g a g') : g'.origins = g.origins.next a := by
  cases h <;> rfl

/-- Nothing is taken over but by a write while it is lent. -/
theorem Runs.taken_eq_none {y : Setting} (hruns : Runs l g steps)
    (hlent : ∀ x ∈ steps, x.1.writes = true → x.2.origins.lent y = none)
    (htaken : g.origins.taken y = none) : ∀ x ∈ steps, x.2.origins.taken y = none := by
  induction hruns with
  | nil => exact fun _ hx => by cases hx
  | @cons g g' a steps hmoves hrest ih =>
    obtain ⟨hfirst, hlater⟩ := List.forall_mem_cons.mp hlent
    have hnext : g'.origins.taken y = none := by
      rw [hmoves.origins_eq] at hfirst ⊢
      cases a with
      | load environment => exact htaken
      | write c =>
        have hnone := hfirst rfl
        unfold Origins.next at hnone ⊢
        dsimp only at hnone ⊢
        split at hnone
        · rw [if_pos ‹_›]
        · rw [if_neg ‹_›, hnone, htaken]
          rfl
    exact List.forall_mem_cons.mpr ⟨hnext, ih hlater hnext⟩

/-- What the file of settings holds.  A file with an object is loaded, and then loaded again, saved
and updated any number of times, and all calls return.  Each write leaves for every setting the
value that was given last, or else the first one, unless a write since then came while the
environment lent another: the one that was taken over last is in the file then.  This is what a load
gives in every environment that does not give the setting itself.  A setting that is lent at no
write keeps the value that was given last or else the first one. -/
theorem saved_settings_have_origins {text : String} (htext : t.readText (l.access p) = .ok text)
    (hread : Json.read text = .ok (.map original))
    (hruns : Runs l (opened l environment t p original) steps) :
    ∀ x ∈ steps, (x.1.writes = true → x.2.Holds l) ∧
      (∀ environment', (SettingsFile.load environment' x.2.tree l x.2.file.path).1 = .ok none ∧
        ∀ y, ((SettingsFile.load environment' x.2.tree l x.2.file.path).2.settings.get y).held =
          (((Settings.lent environment' y).map .text).getD (x.2.origins.stored y)).held) ∧
      ∀ y, (∀ x' ∈ steps, x'.1.writes = true → x'.2.origins.lent y = none) →
        x.2.origins.stored y = x.2.origins.given y := by
  intro x hx
  obtain ⟨hholds, hsound⟩ := (sound_opened htext hread environment).run hruns x hx
  refine ⟨hholds, fun environment' => ?_, fun y hlent => ?_⟩
  · obtain ⟨hload, hloaded⟩ := hsound.load environment'
    exact ⟨hload, hloaded.held⟩
  · rw [Origins.stored, hruns.taken_eq_none hlent rfl x hx]
    rfl

/-! ### A level from the environment -/

open SettingsFile (promptTree promptLocations promptFile)

/-- A file with a level. -/
def levelText : String :=
  "\x7b\"log_level\": \"INFO\"\x7d"

/-- An environment with another one. -/
def levelEnvironment : Entries String :=
  [("TERMSHELL_LOG_LEVEL", "DEBUG")]

/-- The ledger when this file is loaded in this environment. -/
def levelLedger : Ledger :=
  opened promptLocations levelEnvironment (promptTree levelText) promptFile
    [("log_level", .text "INFO")]

/-- The settings that hold then. -/
def levelFile : SettingsFile where
  path := promptFile
  settings := ((Settings.default promptLocations.home).overlay
    [("log_level", .text "INFO")]).override levelEnvironment

theorem readText_levelText :
    (promptTree levelText).readText (promptLocations.access promptFile) = .ok levelText := by
  rw [FileTree.readText_of_locate (by decide) (SettingsFile.locate_promptTree levelText)]
  rw [show unifyLineEnds levelText = levelText by decide +kernel]

theorem read_levelText : Json.read levelText = .ok (.map [("log_level", .text "INFO")]) := by
  have htext : levelText =
      String.ofList (Json.textAt .line 1 (.map [("log_level", .text "INFO")])) := by
    decide +kernel
  rw [htext]
  exact Json.read_textAt .line rfl

theorem file_levelLedger : levelLedger.file = levelFile := by
  unfold levelLedger opened
  rw [SettingsFile.load_of_map readText_levelText read_levelText]
  rfl

/-- A call returns there if the settings can be written. -/
theorem exists_returns_of_levelFile (hrefusal : c.refusal? levelFile = none)
    (hplain : (c.after promptLocations levelFile).settings.IsPlain)
    (hopened : (c.after promptLocations levelFile).opened? promptLocations (promptTree levelText) =
      some ["cfg", "config.json"])
    (hnesting : (Value.map (c.after promptLocations levelFile).settings.entries).nesting ≤
      SettingsFile.maxCopied)
    (hencoded : (Json.encodePart (.indented 2)
      (.map (c.after promptLocations levelFile).settings.entries)).2 = none) :
    ∃ u, Returns (c.access promptLocations levelLedger.file) levelLedger.tree () u := by
  rw [file_levelLedger]
  refine Call.exists_returns_of_complete hrefusal hopened ?_
  rw [SettingsFile.text_of_written hplain.writtenEntries_eq hnesting]
  dsimp only
  rw [hencoded]
  rfl

/-- An update of the level. -/
def levelUpdate : Call :=
  .update (.map [("log_level", .text "ERROR")])

/-- A level that is updated is in the file then, and loaded from it. -/
theorem updated_level_is_saved :
    ∃ g, Runs promptLocations levelLedger [(.write levelUpdate, g)] ∧
      g.origins.stored .logLevel = .text "ERROR" ∧ g.Holds promptLocations ∧
      ((SettingsFile.load [] g.tree promptLocations g.file.path).2.settings.get .logLevel).held =
        .text "ERROR" := by
  obtain ⟨u, hreturns⟩ := exists_returns_of_levelFile (c := levelUpdate) rfl rfl
    (by decide +kernel) (by decide +kernel) (by decide +kernel)
  have hruns : Runs promptLocations levelLedger [(.write levelUpdate,
      ⟨levelUpdate.after promptLocations levelLedger.file, u,
        levelLedger.origins.next (.write levelUpdate)⟩)] :=
    .cons (.write ⟨by decide, by decide⟩ hreturns) (.nil _)
  have hsaved := saved_settings_have_origins readText_levelText read_levelText hruns
  rw [List.forall_mem_singleton] at hsaved
  obtain ⟨hholds, hload, -⟩ := hsaved
  refine ⟨_, hruns, rfl, hholds rfl, ?_⟩
  rw [(hload []).2]
  rfl

/-- An update of the prompt. -/
def promptUpdate : Call :=
  .update (.map [("prompt", .text "$ ")])

/-- A level from the environment gets into the file when the prompt is updated, and stays when the
environment gives none any longer. -/
theorem lent_level_is_written :
    ∃ g, Runs promptLocations levelLedger [(.write promptUpdate, g)] ∧
      g.origins.given .logLevel = .text "INFO" ∧
      (∃ (text : String) (entries : Entries Value),
        g.tree.readText (promptLocations.access promptFile) = .ok text ∧
        Json.read text = .ok (.map entries) ∧ entries.get? "log_level" = some (.text "DEBUG")) ∧
      ((SettingsFile.load [] g.tree promptLocations g.file.path).2.settings.get .logLevel).held =
        .text "DEBUG" := by
  obtain ⟨u, hreturns⟩ := exists_returns_of_levelFile (c := promptUpdate) rfl rfl
    (by decide +kernel) (by decide +kernel) (by decide +kernel)
  have hplain : promptUpdate.IsPlain := ⟨by decide, by decide⟩
  have hsound : levelLedger.Sound promptLocations :=
    sound_opened readText_levelText read_levelText levelEnvironment
  obtain ⟨⟨text, entries, htext, hread, hget⟩, hwritten⟩ := hsound.write hplain hreturns
  rw [Call.after_path, file_levelLedger] at htext
  refine ⟨_, .cons (.write hplain hreturns) (.nil _), rfl,
    ⟨text, entries, htext, hread, hget .logLevel⟩, ?_⟩
  rw [(hwritten.load []).2.held]
  rfl

end Ledger

end CommandShell
