import CommandShell.Proofs.Settings.Saving
import CommandShell.Proofs.Settings.Values
import CommandShell.Proofs.Value.Limits

/-!
# What a file of settings gives

A file of settings may hold any bytes.  Where they are an object of JSON, its known entries go on
top of the values that hold when nothing is set; where they are anything else, or where there is no
file, those values hold alone.  The environment goes on top in both cases.

Not every file comes that far.  Bytes that are not a text, and a text that exceeds a limit of the
reader, end the load, and nothing is set then.

## Main definitions

* `FileTree.Yields`: the bytes of the file at a path, if there is one.
* `textOf?`: the text that some bytes are read as.
* `Settings.IsReadable`: some bytes are a text that is read, or does not follow the grammar.
* `Settings.fileEntries`: the entries of the object that some bytes are.
* `Settings.configured`: the value that a file and the environment give for a setting.

## Main results

* `Settings.members_configured`: the members of settings that are loaded.
* `SettingsFile.load_falls_back_iff`: which files are loaded, and what they give.
-/

namespace CommandShell

/-- The bytes of the file at a path, or nothing where nothing stands. -/
def FileTree.Yields (t : FileTree) (a : AccessPath) : Option ByteArray → Prop
  | none => t.exists? a = .ok false
  | some bytes => a.hasNull = false ∧ ∃ q, t.locate a = .ok (q, .file bytes)

/-- The text that some bytes are read as, if they are one. -/
def textOf? (bytes : ByteArray) : Option String :=
  (String.fromUTF8? bytes).map unifyLineEnds

namespace FileTree

variable {t : FileTree} {a : AccessPath} {bytes : ByteArray}

theorem Yields.exists? (h : t.Yields a (some bytes)) : t.exists? a = .ok true := by
  obtain ⟨hnull, q, hl⟩ := h
  unfold FileTree.exists? test stat
  rw [if_neg (by simp [hnull]), hl]
  rfl

theorem Yields.readBytes (h : t.Yields a (some bytes)) : t.readBytes a = .ok bytes := by
  obtain ⟨hnull, q, hl⟩ := h
  unfold FileTree.readBytes stat
  rw [if_neg (by simp [hnull]), hl]
  rfl

/-- Bytes that are a text are read as it. -/
theorem Yields.readText (h : t.Yields a (some bytes)) {s : String} (hs : textOf? bytes = some s) :
    t.readText a = .ok s := by
  obtain ⟨decoded, hdecoded, rfl⟩ := Option.map_eq_some_iff.mp hs
  unfold FileTree.readText decodeUtf8
  rw [h.readBytes]
  simp only [bind, Except.bind, hdecoded]
  rfl

/-- Bytes that are no text are not read. -/
theorem Yields.exists_readText_error (h : t.Yields a (some bytes)) (hs : textOf? bytes = none) :
    ∃ f, t.readText a = .error f := by
  have hnone : String.fromUTF8? bytes = none := Option.map_eq_none_iff.mp hs
  unfold FileTree.readText decodeUtf8
  rw [h.readBytes]
  simp only [bind, Except.bind, hnone]
  exact ⟨_, rfl⟩

end FileTree

theorem textOf?_toUTF8 (s : String) : textOf? s.toUTF8 = some (unifyLineEnds s) := by
  unfold textOf?
  rw [show String.fromUTF8? s.toUTF8 = some s from dif_pos s.isValidUTF8]
  rfl

namespace Settings

variable {s : Settings} {bytes : ByteArray} {text : String} {entries : Entries Value} {home : Path}

/-! ### What bytes give -/

/-- Some bytes are a text that can be read, or that is not JSON: none that exceeds a limit. -/
def IsReadable (bytes : ByteArray) : Prop :=
  ∃ text, textOf? bytes = some text ∧ ∀ e, Json.read text = .error e → e = .malformed

/-- Some bytes are the text of an object with some entries. -/
def HoldsObject (bytes : ByteArray) (entries : Entries Value) : Prop :=
  ∃ text, textOf? bytes = some text ∧ Json.read text = .ok (.map entries)

/-- The entries of the object that some bytes are; anything else has none. -/
def fileEntries (bytes : ByteArray) : Entries Value :=
  match (textOf? bytes).map Json.read with
  | some (.ok (.map entries)) => entries
  | _ => []

theorem HoldsObject.fileEntries_eq (h : HoldsObject bytes entries) :
    fileEntries bytes = entries := by
  obtain ⟨text, htext, hread⟩ := h
  unfold fileEntries
  rw [htext, Option.map_some, hread]

theorem fileEntries_of_not_holdsObject (h : ∀ entries, ¬ HoldsObject bytes entries) :
    fileEntries bytes = [] := by
  unfold fileEntries
  split
  · rename_i entries heq
    obtain ⟨text, htext, hread⟩ := Option.map_eq_some_iff.mp heq
    exact absurd ⟨text, htext, hread⟩ (h entries)
  · rfl

/-- A text within the limits is readable. -/
theorem isReadable_of_withinLimits (htext : textOf? bytes = some text)
    (h : Json.WithinLimits text.toList) : IsReadable bytes :=
  ⟨text, htext, fun _ => Json.eq_malformed_of_withinLimits h⟩

/-- The value that a file and the environment give for a setting: a variable that is not empty goes
before the file, and the file before the value that holds when nothing is set. -/
def configured (home : Path) (environment : Entries String) (found : Option ByteArray)
    (x : Setting) : Value :=
  ((lent environment x).map .text).getD
    ((given? (found.elim [] fileEntries) x).getD (defaultValue home x))

/-! ### Members of settings -/

/-- Settings that have just the settings as members, in their order, are their entries. -/
theorem members_eq_entries (h : s.members.keys = Setting.all.map Setting.name) :
    s.members = s.entries := by
  refine Entries.ext_get? (h.trans s.keys_entries.symm) (by rw [h]; decide) fun key => ?_
  by_cases hkey : key ∈ s.members.keys
  · have hname := hkey
    rw [h] at hname
    obtain ⟨x, -, rfl⟩ := List.mem_map.mp hname
    obtain ⟨v, hv⟩ := Option.isSome_iff_exists.mp (Entries.has_iff.mpr hkey)
    rw [get?_entries, hv, get, hv]
    rfl
  · rw [Entries.get?_eq_none_iff.mpr hkey, Entries.get?_eq_none_iff.mpr]
    rw [keys_entries, ← h]
    exact hkey

theorem keys_set (h : s.members.keys = Setting.all.map Setting.name) (x : Setting) (v : Value) :
    (s.set x v).members.keys = Setting.all.map Setting.name := by
  refine (Entries.keys_insert_of_mem ?_).trans h
  rw [h]
  exact List.mem_map_of_mem (by cases x <;> decide)

theorem get_default (home : Path) (x : Setting) : (default home).get x = defaultValue home x := by
  cases x <;> rfl

/-- The members of settings that are given some entries and what the environment gives. -/
theorem members_configured (home : Path) (environment : Entries String) (given : Entries Value) :
    (((default home).overlay given).override environment).members =
      Setting.all.map fun x => (x.name,
        ((lent environment x).map .text).getD ((given? given x).getD (defaultValue home x))) := by
  have hkeys : (((default home).overlay given).override environment).members.keys =
      Setting.all.map Setting.name :=
    override_keeps (P := fun s => s.members.keys = _) (fun _ => keys_set)
      (overlay_keeps (P := fun s => s.members.keys = _) (fun _ => keys_set) rfl given) environment
  rw [members_eq_entries hkeys, entries]
  refine List.map_congr_left fun x _ => ?_
  rw [get_override, get_overlay, get_default]

/-! ### Reading a file -/

variable {t : FileTree} {l : Locations} {p : WrittenPath}

theorem read_of_missing (h : t.Yields (l.access p) none) :
    read t l p = .ok (default l.home, none) := by
  unfold read
  rw [show t.exists? (l.access p) = .ok false from h]
  rfl

/-- Where there is a file, its text decides, or the reason why it has none. -/
theorem read_of_yields (h : t.Yields (l.access p) (some bytes)) :
    read t l p = t.readText (l.access p) >>= fun text =>
      match Json.read text with
      | .ok (.map entries) => .ok ((default l.home).overlay entries, none)
      | .ok v => .ok (default l.home, some s!"'{v.kind}' is not an object")
      | .error .malformed => .ok (default l.home, some "malformed JSON")
      | .error (.tooManyDigits n) => .error (.tooManyDigits n)
      | .error (.tooDeep kind) => .error (.tooDeep kind) := by
  unfold read
  rw [h.exists?]
  rfl

/-- A readable file gives the entries of its object, and a warning unless it is one. -/
theorem read_of_isReadable (h : t.Yields (l.access p) (some bytes)) (hbytes : IsReadable bytes) :
    ∃ problem, read t l p = .ok ((default l.home).overlay (fileEntries bytes), problem) ∧
      (problem = none ↔ ∃ entries, HoldsObject bytes entries) := by
  obtain ⟨text, htext, hread⟩ := hbytes
  -- A text that is read as something else holds no object, and gives no entries.
  have hother : (∀ entries, Json.read text ≠ .ok (.map entries)) →
      fileEntries bytes = [] ∧ ¬ ∃ entries, HoldsObject bytes entries := by
    intro hne
    have hnot : ∀ entries, ¬ HoldsObject bytes entries := by
      rintro entries ⟨text', htext', hentries⟩
      obtain rfl : text = text' := Option.some.inj (htext.symm.trans htext')
      exact hne entries hentries
    exact ⟨fileEntries_of_not_holdsObject hnot, fun ⟨entries, h⟩ => hnot entries h⟩
  rw [read_of_yields h, h.readText htext]
  simp only [bind, Except.bind]
  cases hvalue : Json.read text with
  | error e =>
    obtain rfl := hread e hvalue
    obtain ⟨hentries, hnot⟩ := hother fun entries h => by rw [hvalue] at h; cases h
    rw [hentries]
    exact ⟨_, rfl, iff_of_false nofun hnot⟩
  | ok v =>
    by_cases hmap : ∃ entries, v = .map entries
    · obtain ⟨entries, rfl⟩ := hmap
      have hobject : HoldsObject bytes entries := ⟨text, htext, hvalue⟩
      rw [hobject.fileEntries_eq]
      exact ⟨none, rfl, iff_of_true rfl ⟨entries, hobject⟩⟩
    · obtain ⟨hentries, hnot⟩ := hother fun entries h => by
        rw [hvalue] at h
        exact hmap ⟨entries, Except.ok.inj h⟩
      rw [hentries]
      cases v with
      | map entries => exact absurd ⟨entries, rfl⟩ hmap
      | _ => exact ⟨_, rfl, iff_of_false nofun hnot⟩

/-- A file that is not readable ends the reading. -/
theorem exists_read_error (h : t.Yields (l.access p) (some bytes)) (hbytes : ¬ IsReadable bytes) :
    ∃ f, read t l p = .error f := by
  rw [read_of_yields h]
  cases htext : textOf? bytes with
  | none =>
    obtain ⟨f, hf⟩ := h.exists_readText_error htext
    rw [hf]
    exact ⟨f, rfl⟩
  | some text =>
    obtain ⟨e, he, hne⟩ : ∃ e, Json.read text = .error e ∧ e ≠ .malformed := by
      by_contra hall
      refine hbytes ⟨text, htext, fun e he => ?_⟩
      by_contra hne
      exact hall ⟨e, he, hne⟩
    rw [h.readText htext]
    simp only [bind, Except.bind, he]
    cases e with
    | malformed => exact absurd rfl hne
    | tooManyDigits n => exact ⟨_, rfl⟩
    | tooDeep kind => exact ⟨_, rfl⟩

end Settings

namespace SettingsFile

open Settings (IsReadable HoldsObject configured)

variable {t : FileTree} {l : Locations} {p : WrittenPath} {found : Option ByteArray}

theorem exists_of_not_isReadable (h : ¬ ∀ b ∈ found, IsReadable b) :
    ∃ b, found = some b ∧ ¬ IsReadable b := by
  by_contra hall
  refine h fun b hb => ?_
  by_contra hnot
  exact hall ⟨b, hb, hnot⟩

/-- A file that is readable, or none, is loaded. -/
theorem load_of_isReadable (h : t.Yields (l.access p) found) (hbytes : ∀ b ∈ found, IsReadable b)
    (environment : Entries String) :
    ∃ warning, load environment t l p =
      (.ok warning, ⟨p, ((Settings.default l.home).overlay
        (found.elim [] Settings.fileEntries)).override environment⟩) ∧
      (warning = none ↔ ∀ b ∈ found, ∃ entries, HoldsObject b entries) := by
  cases found with
  | none =>
    unfold load
    rw [Settings.read_of_missing h]
    exact ⟨none, rfl, iff_of_true rfl (by simp)⟩
  | some bytes =>
    obtain ⟨problem, hread, hproblem⟩ := Settings.read_of_isReadable h (hbytes bytes rfl)
    unfold load
    rw [hread]
    refine ⟨_, rfl, ?_⟩
    rw [Option.map_eq_none_iff, hproblem]
    simp

/-- A file that is not readable ends the load, and nothing is set. -/
theorem load_of_not_isReadable {bytes : ByteArray} (h : t.Yields (l.access p) (some bytes))
    (hbytes : ¬ IsReadable bytes) (environment : Entries String) :
    ∃ f, load environment t l p = (.error f, ⟨p, Settings.default l.home⟩) := by
  obtain ⟨f, hread⟩ := Settings.exists_read_error h hbytes
  unfold load
  rw [hread]
  exact ⟨f, rfl⟩

/-- Which files of settings are loaded, and what they give, in every environment.  A file is loaded
just where its bytes are a text that is read as JSON or does not follow the grammar; so is one that
is not there.  Then every setting has the value that a variable gives, or else the entry of the
object in the file, or else the value that holds when nothing is set; nothing else is set, and there
is a warning unless there is an object or no file.  Otherwise the load fails and nothing is set at
all, not by the environment either.  Bytes that are a text without too many digits in a row or too
many brackets are always loaded. -/
theorem load_falls_back_iff (h : t.Yields (l.access p) found) (environment : Entries String) :
    ((∃ warning, (load environment t l p).1 = .ok warning) ↔ ∀ b ∈ found, IsReadable b) ∧
    (∀ warning, (load environment t l p).1 = .ok warning →
      (load environment t l p).2.path = p ∧
      (load environment t l p).2.settings.members =
        Setting.all.map (fun x => (x.name, configured l.home environment found x)) ∧
      (warning = none ↔ ∀ b ∈ found, ∃ entries, HoldsObject b entries)) ∧
    (∀ f, (load environment t l p).1 = .error f →
      (load environment t l p).2 = ⟨p, Settings.default l.home⟩) ∧
    ∀ b ∈ found, ∀ text, textOf? b = some text → Json.WithinLimits text.toList → IsReadable b := by
  refine ⟨?_, ?_, ?_, fun b _ text => Settings.isReadable_of_withinLimits⟩
  · constructor
    · rintro ⟨warning, hwarning⟩ b hb
      by_contra hnot
      obtain rfl : found = some b := hb
      obtain ⟨f, hload⟩ := load_of_not_isReadable h hnot environment
      rw [hload] at hwarning
      cases hwarning
    · intro hbytes
      obtain ⟨warning, hload, -⟩ := load_of_isReadable h hbytes environment
      exact ⟨warning, congrArg Prod.fst hload⟩
  · intro warning hwarning
    by_cases hbytes : ∀ b ∈ found, IsReadable b
    · obtain ⟨warning', hload, hnone⟩ := load_of_isReadable h hbytes environment
      obtain rfl : warning = warning' :=
        Except.ok.inj (hwarning.symm.trans (congrArg Prod.fst hload))
      rw [hload]
      exact ⟨rfl, Settings.members_configured _ _ _, hnone⟩
    · obtain ⟨b, rfl, hnot⟩ := exists_of_not_isReadable hbytes
      obtain ⟨f, hload⟩ := load_of_not_isReadable h hnot environment
      rw [hload] at hwarning
      cases hwarning
  · intro f hf
    by_cases hbytes : ∀ b ∈ found, IsReadable b
    · obtain ⟨warning, hload, -⟩ := load_of_isReadable h hbytes environment
      rw [hload] at hf
      cases hf
    · obtain ⟨b, rfl, hnot⟩ := exists_of_not_isReadable hbytes
      obtain ⟨f', hload⟩ := load_of_not_isReadable h hnot environment
      rw [hload]

/-- The text of a file that is no JSON. -/
def brokenText : String :=
  "\x7bnot json"

theorem textOf?_brokenText : textOf? brokenText.toUTF8 = some brokenText :=
  (textOf?_toUTF8 _).trans (congrArg some (unifyLineEnds_of_notMem (by decide)))

theorem not_holdsObject_brokenText (entries : Entries Value) :
    ¬ HoldsObject brokenText.toUTF8 entries := by
  rintro ⟨text, htext, hread⟩
  obtain rfl : brokenText = text := Option.some.inj (textOf?_brokenText.symm.trans htext)
  have herror : (Json.read brokenText).toOption = none := by decide +kernel
  rw [hread] at herror
  cases herror

theorem yields_promptTree (text : String) :
    (promptTree text).Yields (promptLocations.access promptFile) (some text.toUTF8) :=
  ⟨by decide, _, locate_promptTree text⟩

/-- The variable that gives the log level. -/
def debugEnvironment : Entries String :=
  [("TERMSHELL_LOG_LEVEL", "DEBUG")]

/-- A file that is no JSON gives a warning, and the values that hold when nothing is set with the
environment on top. -/
theorem broken_file_falls_back :
    ∃ warning,
      (load debugEnvironment (promptTree brokenText) promptLocations promptFile).1 =
        .ok (some warning) ∧
      (load debugEnvironment (promptTree brokenText) promptLocations
          promptFile).2.settings.members =
        ((Settings.default promptLocations.home).set .logLevel (.text "DEBUG")).members := by
  obtain ⟨hiff, hloaded, -, hlimits⟩ :=
    load_falls_back_iff (yields_promptTree brokenText) debugEnvironment
  have hreadable : ∀ b ∈ some brokenText.toUTF8, IsReadable b := fun b hb =>
    hlimits b hb brokenText (Option.some.inj hb ▸ textOf?_brokenText)
      (Json.withinLimits_of_length_le (by decide))
  obtain ⟨warning, hwarning⟩ := hiff.mpr hreadable
  obtain ⟨-, hmembers, hnone⟩ := hloaded warning hwarning
  cases warning with
  | none =>
    obtain ⟨entries, hentries⟩ := hnone.mp rfl _ rfl
    exact absurd hentries (not_holdsObject_brokenText entries)
  | some warning =>
    refine ⟨warning, hwarning, hmembers.trans ?_⟩
    unfold configured
    rw [Option.elim_some, Settings.fileEntries_of_not_holdsObject not_holdsObject_brokenText]
    rfl

/-- Bytes that are no text end the load. -/
theorem bytes_without_text_are_not_loaded :
    (load debugEnvironment ⟨[(["c"], .file ⟨#[0xff]⟩)]⟩ promptLocations
      (.ofPath ["c"])).1.toOption = none := by
  decide +kernel

end SettingsFile

end CommandShell
