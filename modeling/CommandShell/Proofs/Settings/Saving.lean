import CommandShell.Proofs.Storage.Placing
import CommandShell.Proofs.Value.Encoding
import CommandShell.Settings.File

/-!
# Calls that fail to write the settings

The settings are written to their file when they are saved and when some of them are updated.  A
call is refused before anything is written if its arguments are.  Otherwise the file is opened,
which takes away what it held, and then the settings are written piece by piece, up to the first
part that cannot be.  So what a call that fails leaves is what was there before, or the part of the
settings that comes before the refused one.

## Main definitions

* `SettingsFile.Call`: the calls that write the settings.
* `SettingsFile.Call.refusal?`: why a call is refused before anything is written.
* `SettingsFile.opened?`: the path of the file that is opened for the settings.

## Main results

* `SettingsFile.save_cases`: the settings are saved, or cut short in the file, or no file is opened.
* `SettingsFile.failing_call_keeps_files_iff`: when a call that fails leaves the files as they were.
-/

namespace CommandShell

namespace SettingsFile

/-- The calls that write the settings. -/
inductive Call where
  /-- Writes them as they are. -/
  | save
  /-- Writes them with the given members set. -/
  | update (given : Value)

section Update

variable {f : SettingsFile} {l : Locations} {given : Value} {entries : Entries Value} {e : Fault}

theorem update_of_error (h : argumentsOf given = .error e) : f.update l given = (f, throw e) := by
  unfold update
  rw [h]

theorem update_of_ok (h : argumentsOf given = .ok entries) :
    f.update l given =
      ({ f with settings := (f.settings.assignKnown entries).1 },
        (f.settings.assignKnown entries).2.elim
          (save { f with settings := (f.settings.assignKnown entries).1 } l) throw) := by
  unfold update
  rw [h]

end Update

namespace Call

/-- The file with the settings that hold after a call. -/
def after (l : Locations) (f : SettingsFile) : Call → SettingsFile
  | save => f
  | update given => (f.update l given).1

/-- What a call does to the files. -/
def access (l : Locations) (f : SettingsFile) : Call → FileAccess Unit
  | save => f.save l
  | update given => (f.update l given).2

/-- Why a call is refused before anything is written, if it is. -/
def refusal? (f : SettingsFile) : Call → Option Fault
  | save => none
  | update given =>
    match argumentsOf given with
    | .error e => some e
    | .ok entries => (f.settings.assignKnown entries).2

variable {c : Call} {f : SettingsFile} {l : Locations} {e : Fault}

theorem access_of_refused (h : c.refusal? f = some e) : c.access l f = throw e := by
  cases c with
  | save => cases h
  | update given =>
    rw [access]
    simp only [refusal?] at h
    split at h
    · rename_i hgiven
      cases h
      rw [update_of_error hgiven]
    · rename_i hgiven
      rw [update_of_ok hgiven, h]
      rfl

/-- A call that is not refused saves the settings that hold after it. -/
theorem access_of_accepted (h : c.refusal? f = none) : c.access l f = (c.after l f).save l := by
  cases c with
  | save => rfl
  | update given =>
    rw [access, after]
    simp only [refusal?] at h
    split at h
    · cases h
    · rename_i hgiven
      rw [update_of_ok hgiven, h]
      rfl

theorem after_path (c : Call) (l : Locations) (f : SettingsFile) :
    (c.after l f).path = f.path := by
  cases c with
  | save => rfl
  | update given =>
    rw [after]
    cases hgiven : argumentsOf given with
    | error e => rw [update_of_error hgiven]
    | ok entries => rw [update_of_ok hgiven]

end Call

/-! ### Saving -/

variable {f : SettingsFile} {l : Locations} {t u : FileTree} {p : WrittenPath} {q : Path}
  {n : Node} {e : Fault}

/-- The path of the file that is opened for the settings, if one can be, once the directories that
lead to it are made. -/
def opened? (f : SettingsFile) (l : Locations) (t : FileTree) : Option Path :=
  match FileAccess.makeDirectories (l.access f.path).parent t with
  | (.ok (), made) => made.target? (l.access f.path)
  | (.error _, _) => none

/-- Saving the settings opens no file, or puts the text of the settings into the one that it opens,
and fails if the text ends early. -/
theorem save_cases (f : SettingsFile) (l : Locations) (t : FileTree) :
    (f.opened? l t = none ∧ ∃ e u, f.save l t = (.error e, u) ∧ t.GainsDirectories u) ∨
    ∃ q u, f.opened? l t = some q ∧ t.GainsDirectories u ∧ u.target? (l.access f.path) = some q ∧
      f.save l t = (f.text.2.elim (.ok ()) .error, u.put q (.file f.text.1.toUTF8)) := by
  have hgains := FileAccess.gainsDirectories_makeDirectories (l.access f.path).parent t
  unfold opened? save
  rw [bind_apply]
  rcases hmade : FileAccess.makeDirectories (l.access f.path).parent t with ⟨e | ⟨⟩, u⟩ <;>
    rw [hmade] at hgains
  · exact Or.inl ⟨rfl, e, u, rfl, hgains⟩
  · dsimp only
    rw [bind_apply]
    cases htarget : u.target? (l.access f.path) with
    | none =>
      obtain ⟨e, hput⟩ := FileAccess.put_of_no_target htarget f.text.1
      rw [hput]
      exact Or.inl ⟨rfl, e, u, rfl, hgains⟩
    | some q =>
      rw [FileAccess.put_of_target htarget f.text.1]
      refine Or.inr ⟨q, u, rfl, hgains, htarget, ?_⟩
      cases f.text.2 <;> rfl

/-- What a path leads to is all that counts for the settings that are loaded from there. -/
theorem load_congr (h : u.locate (l.access p) = t.locate (l.access p))
    (environment : Entries String) : load environment u l p = load environment t l p := by
  have hstat : u.stat (l.access p) = t.stat (l.access p) := congrArg (·.map (·.2)) h
  unfold load Settings.read FileTree.exists? FileTree.test FileTree.readText FileTree.readBytes
  rw [hstat]

/-- A file of settings that is there is the one that is opened, and the path leads to what is put
there. -/
theorem locate_of_opened {made : FileTree} {a : AccessPath} {r : Path}
    (hgains : t.GainsDirectories made) (htarget : made.target? a = some q)
    (hl : t.locate a = .ok (r, n)) : q = r ∧ ∀ m, (made.put q m).locate a = .ok (q, m) := by
  obtain ⟨-, bytes, hreceives⟩ := FileTree.target?_eq_some_iff.mp htarget
  exact ⟨hreceives.eq_of_locate (hgains.locate hl), hreceives.locate_put⟩

/-- What a failing call makes of the files: it leaves them as they are, up to new directories, or it
has cut the settings short in the file that it opened. -/
theorem Call.stops_cases {c : Call} (h : Stops (c.access l f) t e u) :
    (((c.refusal? f).isSome = true ∨ (c.after l f).opened? l t = none) ∧ t.GainsDirectories u) ∨
    (c.refusal? f = none ∧ ∃ q made, (c.after l f).opened? l t = some q ∧
      t.GainsDirectories made ∧ made.target? (l.access f.path) = some q ∧
      u = made.put q (.file (c.after l f).text.1.toUTF8)) := by
  cases hrefusal : c.refusal? f with
  | some e' =>
    rw [c.access_of_refused hrefusal] at h
    obtain ⟨-, rfl⟩ := stops_throw_iff.mp h
    exact Or.inl ⟨Or.inl rfl, .refl t⟩
  | none =>
    rw [c.access_of_accepted hrefusal] at h
    rcases (c.after l f).save_cases l t with
      ⟨hopened, e', v, hsave, hgains⟩ | ⟨q, made, hopened, hgains, htarget, hsave⟩
    · cases h.symm.trans hsave
      exact Or.inl ⟨Or.inr hopened, hgains⟩
    · have hu : u = made.put q (.file (c.after l f).text.1.toUTF8) :=
        congrArg Prod.snd (h.symm.trans hsave)
      rw [c.after_path] at htarget
      exact Or.inr ⟨rfl, q, made, hopened, hgains, htarget, hu⟩

/-- When a call that fails leaves the files as they were.  It does if it is refused before anything
is written, if no file can be opened, or if the file that is opened held already what is written of
the settings up to the part that cannot be; it does not otherwise, since the file is opened before
any part is looked at.  Where the files are as they were and there was a file of settings, it gives
the same settings in every environment as before. -/
theorem failing_call_keeps_files_iff (c : Call) (h : Stops (c.access l f) t e u) :
    (u.file? = t.file? ↔
      (c.refusal? f).isSome = true ∨ ∀ q ∈ (c.after l f).opened? l t,
        t.file? q = some (.file (c.after l f).text.1.toUTF8)) ∧
    (u.file? = t.file? → ∀ q n, t.locate (l.access f.path) = .ok (q, n) → n.isDirectory = false →
      ∀ environment, load environment u l f.path = load environment t l f.path) := by
  rcases c.stops_cases h with ⟨hnone, hgains⟩ | ⟨hrefusal, q, made, hopened, hgains, htarget, rfl⟩
  · refine ⟨iff_of_true hgains.file?_eq ?_, fun _ q n hl _ environment => ?_⟩
    · exact hnone.imp_right fun hopened q hq => by rw [hopened] at hq; cases hq
    · exact load_congr ((hgains.locate hl).trans hl.symm) environment
  · obtain ⟨-, bytes, hreceives⟩ := FileTree.target?_eq_some_iff.mp htarget
    have hput := fun r => FileTree.file?_put (t := made) (n := .file (c.after l f).text.1.toUTF8)
      hreceives.ne_nil rfl r
    have hkept : (made.put q (.file (c.after l f).text.1.toUTF8)).file? = t.file? ↔
        t.file? q = some (.file (c.after l f).text.1.toUTF8) := by
      rw [← hgains.file?_eq]
      constructor
      · intro heq
        rw [← heq, hput, if_pos rfl]
      · intro heq
        funext r
        rw [hput]
        split
        · rename_i hr
          rw [hr, heq]
        · rfl
    refine ⟨?_, fun heq r n hl hn environment => load_congr ?_ environment⟩
    · rw [hkept, hopened, hrefusal]
      simp
    · obtain ⟨rfl, hput⟩ := locate_of_opened hgains htarget hl
      have hfile := FileTree.file?_eq_some_iff.mpr ⟨(FileTree.stands_of_locate hl).node, hn⟩
      obtain rfl : Node.file (c.after l f).text.1.toUTF8 = n :=
        Option.some.inj ((hkept.mp heq).symm.trans hfile)
      rw [hput, hl]

/-! ### Settings that are read -/

/-- The settings that a file with an object gives. -/
theorem load_of_map {entries : Entries Value} {s : String}
    (hs : t.readText (l.access p) = .ok s) (hread : Json.read s = .ok (.map entries))
    (environment : Entries String) :
    load environment t l p =
      (.ok none, ⟨p, ((Settings.default l.home).overlay entries).override environment⟩) := by
  have hsettings : Settings.read t l p = .ok ((Settings.default l.home).overlay entries, none) := by
    unfold Settings.read
    simp only [bind, Except.bind, FileTree.exists?_of_readText hs, hs, hread]
    rfl
  unfold load
  rw [hsettings]
  rfl

/-- A file that is not JSON gives no settings, and a warning. -/
theorem load_of_malformed {s : String} (hs : t.readText (l.access p) = .ok s)
    (hread : Json.read s = .error .malformed) (environment : Entries String) :
    load environment t l p =
      (.ok (some ("Failed to load config file " ++ p.text ++ ": " ++ "malformed JSON")),
        ⟨p, (Settings.default l.home).override environment⟩) := by
  have hsettings : Settings.read t l p = .ok (Settings.default l.home, some "malformed JSON") := by
    unfold Settings.read
    simp only [bind, Except.bind, FileTree.exists?_of_readText hs, hs, hread]
    rfl
  unfold load
  rw [hsettings]
  rfl

/-! ### A prompt that is lost -/

/-- The text of settings that end in front of a part that cannot be written. -/
theorem text_of_written {entries : Entries Value} (h : f.settings.writtenEntries = .ok entries)
    (hnesting : (Value.map entries).nesting ≤ maxCopied) :
    f.text = ((Json.encodePart (.indented 2) (.map entries)).1,
      (Json.encodePart (.indented 2) (.map entries)).2.map faultOf) := by
  unfold text
  rw [h]
  dsimp only
  rw [if_neg (Nat.not_lt.mpr hnesting)]

/-- What is done when a file can be opened. -/
theorem save_of_opened (h : f.opened? l t = some q) :
    ∃ made, t.GainsDirectories made ∧ made.target? (l.access f.path) = some q ∧
      f.save l t = (f.text.2.elim (.ok ()) .error, made.put q (.file f.text.1.toUTF8)) := by
  rcases f.save_cases l t with ⟨hnone, -⟩ | ⟨r, made, hsome, hmade⟩
  · rw [h] at hnone
    cases hnone
  · obtain rfl : q = r := Option.some.inj (h.symm.trans hsome)
    exact ⟨made, hmade⟩

/-- A call that opens the file and comes to a part that cannot be written leaves what comes before
it. -/
theorem Call.exists_stops_of_cut {c : Call} (hrefusal : c.refusal? f = none)
    (hl : t.locate (l.access f.path) = .ok (q, n))
    (hopened : (c.after l f).opened? l t = some q) (htext : (c.after l f).text.2 = some e) :
    ∃ u, Stops (c.access l f) t e u ∧
      u.locate (l.access f.path) = .ok (q, .file (c.after l f).text.1.toUTF8) := by
  obtain ⟨made, hgains, htarget, hsave⟩ := save_of_opened hopened
  rw [c.after_path] at htarget
  refine ⟨made.put q (.file (c.after l f).text.1.toUTF8), ?_, ?_⟩
  · rw [c.access_of_accepted hrefusal, Stops, hsave, htext]
    rfl
  · exact (locate_of_opened hgains htarget hl).2 _

/-- A call that opens the file and comes to no such part returns. -/
theorem Call.exists_returns_of_complete {c : Call} (hrefusal : c.refusal? f = none)
    (hopened : (c.after l f).opened? l t = some q) (htext : (c.after l f).text.2 = none) :
    ∃ u, Returns (c.access l f) t () u := by
  obtain ⟨made, -, -, hsave⟩ := save_of_opened hopened
  refine ⟨made.put q (.file (c.after l f).text.1.toUTF8), ?_⟩
  rw [c.access_of_accepted hrefusal, Returns, hsave, htext]
  rfl

/-- A file of settings. -/
def promptFile : WrittenPath :=
  .ofPath ["cfg", "config.json"]

/-- The tree with this file, which sets a prompt. -/
def promptTree (text : String) : FileTree where
  nodes := [(["cfg"], .directory), (["cfg", "config.json"], .file text.toUTF8)]

/-- The directories of a shell. -/
def promptLocations : Locations where
  home := ["home"]
  working := []

/-- The settings with a prompt. -/
def promptSettings (prompt : Value) : SettingsFile where
  path := promptFile
  settings := (Settings.default ["home"]).overlay [("prompt", prompt)]

/-- A prompt that cannot be written. -/
def lostPrompt : Call :=
  .update (.map [("prompt", .foreign "x")])

/-- What is written of the settings with this prompt. -/
def cutText : String :=
  "\x7b\n  \"log_level\": \"WARNING\",\n  \"state_db\": \"/home/.termshell/state.db\",\n" ++
    "  \"workspace_dir\": \"/home/.termshell/files\",\n  \"prompt\": "

theorem lostPrompt_after :
    lostPrompt.after promptLocations (promptSettings (.text "> ")) =
      promptSettings (.foreign "x") :=
  rfl

theorem text_lostPrompt :
    (promptSettings (.foreign "x")).text = (cutText, some (.notEncodable "Opaque")) := by
  rw [text_of_written rfl (by decide +kernel)]
  have hpart : Json.encodePart (.indented 2)
      (.map (promptSettings (.foreign "x")).settings.entries) =
        (cutText, some (.notEncodable "Opaque")) := by
    decide +kernel
  rw [hpart]
  rfl

theorem locate_promptTree (text : String) :
    (promptTree text).locate (promptLocations.access promptFile) =
      .ok (["cfg", "config.json"], .file text.toUTF8) := by
  rfl

/-- The update with the lost prompt leaves the settings up to the prompt. -/
theorem exists_stops_lostPrompt (text : String) :
    ∃ u, Stops (lostPrompt.access promptLocations (promptSettings (.text "> ")))
        (promptTree text) (.notEncodable "Opaque") u ∧
      u.locate (promptLocations.access promptFile) =
        .ok (["cfg", "config.json"], .file cutText.toUTF8) := by
  have hopened : (promptSettings (.foreign "x")).opened? promptLocations (promptTree text) =
      some ["cfg", "config.json"] := rfl
  have hcut := lostPrompt.exists_stops_of_cut (f := promptSettings (.text "> "))
    (e := .notEncodable "Opaque") rfl (locate_promptTree text) hopened
  rw [lostPrompt_after, text_lostPrompt] at hcut
  exact hcut rfl

/-- An update that fails again leaves the files as they are. -/
theorem repeated_update_keeps_files :
    ∃ u, Stops (lostPrompt.access promptLocations (promptSettings (.text "> ")))
        (promptTree cutText) (.notEncodable "Opaque") u ∧ u.file? = (promptTree cutText).file? := by
  obtain ⟨u, hstops, -⟩ := exists_stops_lostPrompt cutText
  refine ⟨u, hstops, (failing_call_keeps_files_iff lostPrompt hstops).1.mpr (Or.inr fun q hq => ?_)⟩
  obtain rfl : ["cfg", "config.json"] = q := Option.some.inj hq
  rw [lostPrompt_after, text_lostPrompt]
  rfl

/-- A file with a prompt. -/
def promptText : String :=
  "\x7b\"prompt\": \"> \"\x7d"

/-- An update that fails loses the prompt that was set before it. -/
theorem failing_update_loses_prompt :
    load [] (promptTree promptText) promptLocations promptFile =
        (.ok none, promptSettings (.text "> ")) ∧
    ∃ u, Stops (lostPrompt.access promptLocations (promptSettings (.text "> ")))
        (promptTree promptText) (.notEncodable "Opaque") u ∧
      u.readText (promptLocations.access promptFile) = .ok cutText ∧ cutText ≠ promptText ∧
      load [] u promptLocations promptFile =
        (.ok (some "Failed to load config file /cfg/config.json: malformed JSON"),
          promptSettings (.text "~$ ")) := by
  have hjson : Json.read promptText = .ok (.map [("prompt", .text "> ")]) := by
    have htext : promptText =
        String.ofList (Json.textAt .line 1 (.map [("prompt", .text "> ")])) := by
      decide +kernel
    rw [htext]
    exact Json.read_textAt .line rfl
  have hread : ∀ {t : FileTree} {s : String}, unifyLineEnds s = s →
      t.locate (promptLocations.access promptFile) =
        .ok (["cfg", "config.json"], .file s.toUTF8) →
      t.readText (promptLocations.access promptFile) = .ok s := by
    intro t s hs hl
    rw [FileTree.readText_of_locate (by decide) hl, hs]
  have hcut : Json.read cutText = .error .malformed := by
    have herror : (Json.read cutText).map (fun _ => ()) = .error .malformed := by
      decide +kernel
    cases hr : Json.read cutText with
    | ok v =>
      rw [hr] at herror
      cases herror
    | error e =>
      rw [hr] at herror
      cases herror
      rfl
  obtain ⟨u, hstops, hl⟩ := exists_stops_lostPrompt promptText
  have hu := hread (by decide +kernel) hl
  refine ⟨?_, u, hstops, hu, by decide +kernel, ?_⟩
  · exact load_of_map (hread (by decide +kernel) (locate_promptTree promptText)) hjson []
  · exact load_of_malformed hu hcut []

end SettingsFile

end CommandShell
