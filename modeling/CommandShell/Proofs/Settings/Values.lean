import CommandShell.Proofs.Settings.Saving
import CommandShell.Proofs.Value.LineEnds

/-!
# The values of settings

Where the value of a setting comes from: from what is given last on top of other settings, and from
the environment before that.  The settings that are saved are read from the file as they were, up to
what their values read as once they are held.

## Main definitions

* `Settings.given?`: the value that is given last for a setting.
* `Settings.lent`: the value that the environment gives for a setting.

## Main results

* `Settings.get_overlay`, `Settings.get_override`, `Settings.get_assignKnown`: values with others on
  top.
* `SettingsFile.exists_of_returns_save`: settings that are saved can be read from the file.
-/

namespace CommandShell

namespace Setting

theorem ofName?_name (x : Setting) : ofName? x.name = some x := by
  cases x <;> decide

theorem ofName?_eq_some_iff {name : String} {x : Setting} :
    ofName? name = some x ↔ x.name = name := by
  constructor
  · intro h
    simpa using List.find?_some h
  · rintro rfl
    exact ofName?_name x

theorem name_injective {x y : Setting} (h : x.name = y.name) : x = y := by
  have hx := ofName?_name x
  rw [h, ofName?_name] at hx
  exact (Option.some.inj hx).symm

end Setting

namespace Settings

variable {s s' : Settings} {given : Entries Value} {x y : Setting} {v : Value}

/-- The value that is given last for a setting. -/
def given? (given : Entries Value) (x : Setting) : Option Value :=
  (Entries.ofPairs given).get? x.name

theorem given?_of_nodup (h : given.keys.Nodup) (x : Setting) :
    given? given x = given.get? x.name := by
  rw [given?, Entries.ofPairs_eq_self h]

/-- The value that the environment gives for a setting; an empty variable gives none. -/
def lent (environment : Entries String) (x : Setting) : Option String :=
  (x.override?.bind environment.get?).filter (· ≠ "")

theorem get_set (s : Settings) (y : Setting) (v : Value) (x : Setting) :
    (s.set y v).get x = if y = x then v else s.get x := by
  unfold get set
  rw [Entries.get?_insert]
  by_cases hxy : y = x
  · rw [if_pos (congrArg Setting.name hxy), if_pos hxy]
    rfl
  · rw [if_neg fun h => hxy (Setting.name_injective h), if_neg hxy]

/-! ### Values with others on top -/

/-- Settings and entries with more on top, where `m` holds what has been given on top of `s` so
far. -/
theorem get_overlay_of_given {m : Entries Value} {t : Settings}
    (h : t.get x = (m.get? x.name).getD (s.get x)) :
    (t.overlay given).get x = ((m.overlay given).get? x.name).getD (s.get x) := by
  induction given generalizing m t with
  | nil => exact h
  | cons e given ih =>
    obtain ⟨name, w⟩ := e
    refine @ih (m.insert name w) _ ?_
    rw [Entries.get?_insert]
    dsimp only
    cases hname : Setting.ofName? name with
    | none =>
      -- There is no such setting, so it is not the one that is looked at.
      rw [if_neg, h]
      intro hx
      rw [Setting.ofName?_eq_some_iff.mpr hx.symm] at hname
      cases hname
    | some y =>
      rw [Setting.ofName?_eq_some_iff] at hname
      subst hname
      dsimp only
      rw [get_set]
      by_cases hyx : y = x
      · rw [if_pos hyx, if_pos (congrArg Setting.name hyx)]
        rfl
      · rw [if_neg hyx, if_neg fun hx => hyx (Setting.name_injective hx), h]

/-- What is given on top of settings has the value given last, and the others keep theirs. -/
theorem get_overlay (s : Settings) (given : Entries Value) (x : Setting) :
    (s.overlay given).get x = (given? given x).getD (s.get x) :=
  @get_overlay_of_given s given x [] s rfl

/-- What the environment gives for one setting changes no other. -/
theorem get_override_step (s : Settings) (environment : Entries String) (y x : Setting) :
    (match y.override?.bind environment.get? with
      | some v => if v = "" then s else s.set y (.text v)
      | none => s).get x =
      if y = x then ((lent environment x).map .text).getD (s.get x) else s.get x := by
  by_cases hyx : y = x
  · subst hyx
    rw [if_pos rfl]
    unfold lent
    cases y.override?.bind environment.get? with
    | none => rfl
    | some v =>
      by_cases hv : v = ""
      · simp [hv, Option.filter]
      · simp [hv, get_set, Option.filter]
  · rw [if_neg hyx]
    cases y.override?.bind environment.get? with
    | none => rfl
    | some v =>
      by_cases hv : v = ""
      · simp [hv]
      · simp [hv, get_set, hyx]

theorem get_foldl_override (s : Settings) (environment : Entries String) (l : List Setting)
    (x : Setting) :
    (l.foldl (fun s setting =>
      match setting.override?.bind environment.get? with
      | some v => if v = "" then s else s.set setting (.text v)
      | none => s) s).get x =
    if x ∈ l then ((lent environment x).map .text).getD (s.get x) else s.get x := by
  induction l generalizing s with
  | nil => rfl
  | cons y l ih =>
    rw [List.foldl_cons, ih, get_override_step]
    by_cases hyx : y = x
    · subst hyx
      cases lent environment y <;> simp
    · simp [hyx, Ne.symm hyx]

/-- What the environment gives goes before what is there. -/
theorem get_override (s : Settings) (environment : Entries String) (x : Setting) :
    (s.override environment).get x = ((lent environment x).map .text).getD (s.get x) := by
  have hall : x ∈ Setting.all := by cases x <;> decide
  exact (get_foldl_override s environment Setting.all x).trans (if_pos hall)

/-- What is kept by setting one of them is kept by giving some on top. -/
theorem overlay_keeps {P : Settings → Prop} (hset : ∀ s, P s → ∀ x v, P (s.set x v)) (h : P s)
    (given : Entries Value) : P (s.overlay given) := by
  unfold overlay
  induction given generalizing s with
  | nil => exact h
  | cons e given ih =>
    rw [List.foldl_cons]
    refine ih ?_
    split
    · exact hset _ h _ _
    · exact h

/-- What is kept by setting one of them is kept by what the environment gives. -/
theorem override_keeps {P : Settings → Prop} (hset : ∀ s, P s → ∀ x v, P (s.set x v)) (h : P s)
    (environment : Entries String) : P (s.override environment) := by
  unfold override
  generalize Setting.all = l
  induction l generalizing s with
  | nil => exact h
  | cons x l ih =>
    rw [List.foldl_cons]
    refine ih ?_
    split
    · split
      · exact h
      · exact hset _ h _ _
    · exact h

/-- Members that are all set: the first one is set if there is one of its name, and is left out
otherwise; the members are not given as a whole. -/
theorem assignKnown_cons_cases {name : String} {w : Value}
    (hset : s.assignKnown ((name, w) :: given) = (s', none))
    (hall : allMembers ∉ Entries.keys ((name, w) :: given)) :
    (s.has name = true ∧
        ({ s with members := s.members.insert name w } : Settings).assignKnown given =
          (s', none)) ∨
      s.has name = false ∧ s.assignKnown given = (s', none) := by
  rw [assignKnown] at hset
  by_cases hhas : s.has name = true
  · rw [if_pos hhas] at hset
    unfold assign at hset
    split_ifs at hset with hclass hweak hdict
    · cases hset
    · cases hset
    · exact absurd (List.mem_cons.mpr (Or.inl hdict.symm)) hall
    · exact Or.inl ⟨hhas, hset⟩
  · rw [if_neg hhas] at hset
    exact Or.inr ⟨Bool.eq_false_iff.mpr hhas, hset⟩

/-- Members that are set one after another, where `m` holds what has been given on top of `s` so
far. -/
theorem get_assignKnown_of_given {m : Entries Value} {t : Settings}
    (hset : t.assignKnown given = (s', none)) (hall : allMembers ∉ given.keys)
    (h : t.get x = (m.get? x.name).getD (s.get x)) :
    s'.get x = ((m.overlay given).get? x.name).getD (s.get x) := by
  induction given generalizing m t with
  | nil =>
    obtain rfl : t = s' := congrArg Prod.fst hset
    exact h
  | cons e given ih =>
    obtain ⟨name, w⟩ := e
    have hrest : allMembers ∉ Entries.keys given := fun hmem => hall (List.mem_cons_of_mem _ hmem)
    have hother : name ≠ x.name → t.get x = ((m.insert name w).get? x.name).getD (s.get x) := by
      intro hne
      rw [Entries.get?_insert, if_neg hne, h]
    rcases assignKnown_cons_cases hset hall with ⟨-, hset⟩ | ⟨hhas, hset⟩
    · refine @ih (m.insert name w) _ hset hrest ?_
      by_cases hne : name = x.name
      · rw [get, Entries.get?_insert, Entries.get?_insert, if_pos hne, if_pos hne]
        rfl
      · rw [← hother hne, get, Entries.get?_insert, if_neg hne]
        rfl
    · -- Every setting is a member, so what is left out here is none.
      refine @ih (m.insert name w) t hset hrest (hother ?_)
      rintro rfl
      unfold has at hhas
      rw [Setting.ofName?_name] at hhas
      simp at hhas

/-- Members that are given and set have the values given last, and the settings that are not given
keep theirs.  The members are not given as a whole. -/
theorem get_assignKnown (hset : s.assignKnown given = (s', none)) (hall : allMembers ∉ given.keys)
    (x : Setting) : s'.get x = (given? given x).getD (s.get x) :=
  @get_assignKnown_of_given s s' given x [] s hset hall rfl

/-! ### What is written -/

/-- Settings are written as they are: no member tells that others are written. -/
def IsPlain (s : Settings) : Prop :=
  s.members.get? writtenMembers = none

theorem IsPlain.writtenEntries_eq (h : s.IsPlain) : s.writtenEntries = .ok s.entries := by
  unfold writtenEntries
  rw [show s.members.get? writtenMembers = none from h]

theorem isPlain_default (home : Path) : (default home).IsPlain := by
  rfl

theorem IsPlain.set (h : s.IsPlain) (x : Setting) (v : Value) : (s.set x v).IsPlain := by
  unfold IsPlain Settings.set
  rw [Entries.get?_insert, if_neg (by cases x <;> decide)]
  exact h

theorem IsPlain.overlay (h : s.IsPlain) (given : Entries Value) : (s.overlay given).IsPlain :=
  overlay_keeps (fun _ => IsPlain.set) h given

theorem IsPlain.override (h : s.IsPlain) (environment : Entries String) :
    (s.override environment).IsPlain :=
  override_keeps (fun _ => IsPlain.set) h environment

theorem IsPlain.assignKnown (h : s.IsPlain) (hset : s.assignKnown given = (s', none))
    (hall : allMembers ∉ given.keys) (hwritten : writtenMembers ∉ given.keys) : s'.IsPlain := by
  induction given generalizing s with
  | nil =>
    obtain rfl : s = s' := congrArg Prod.fst hset
    exact h
  | cons e given ih =>
    obtain ⟨name, w⟩ := e
    have hrest : allMembers ∉ Entries.keys given := fun hmem => hall (List.mem_cons_of_mem _ hmem)
    rw [Entries.keys_cons, List.mem_cons, not_or] at hwritten
    rcases assignKnown_cons_cases hset hall with ⟨-, hset⟩ | ⟨-, hset⟩
    · refine ih ?_ hset hrest hwritten.2
      unfold IsPlain
      rw [Entries.get?_insert, if_neg (Ne.symm hwritten.1)]
      exact h
    · exact ih h hset hrest hwritten.2

theorem keys_entries (s : Settings) : s.entries.keys = Setting.all.map Setting.name :=
  rfl

theorem get?_entries (s : Settings) (x : Setting) : s.entries.get? x.name = some (s.get x) := by
  cases x <;> simp [entries, Setting.all, Setting.name, Entries.get?]

theorem heldEntries_eq_mapValues (m : Entries Value) :
    Value.heldEntries m = m.mapValues Value.held := by
  induction m with
  | nil => rfl
  | cons e m ih =>
    obtain ⟨k, v⟩ := e
    rw [Value.heldEntries, ih]
    rfl

/-- What the entries of settings read as once they are held. -/
theorem held_entries (s : Settings) :
    ∃ entries : Entries Value, (Value.map s.entries).held = .map entries ∧ entries.keys.Nodup ∧
      ∀ x : Setting, entries.get? x.name = some (s.get x).held := by
  have hkeys : (s.entries.mapValues Value.held).keys.Nodup := by
    rw [Entries.keys_mapValues, keys_entries]
    decide
  refine ⟨s.entries.mapValues Value.held, ?_, hkeys, fun x => ?_⟩
  · rw [Value.held, heldEntries_eq_mapValues, Entries.ofPairs_eq_self hkeys]
  · rw [Entries.get?_mapValues, get?_entries]
    rfl

end Settings

namespace SettingsFile

variable {f : SettingsFile} {l : Locations} {t u : FileTree}

/-- Settings that are written to their end can be read from what is written. -/
theorem read_text (hplain : f.settings.IsPlain) (h : f.text.2 = none) :
    Json.read f.text.1 = .ok (Value.map f.settings.entries).held ∧ '\r' ∉ f.text.1.toList := by
  have hnesting : (Value.map f.settings.entries).nesting ≤ maxCopied := by
    by_contra hdeep
    unfold text at h
    rw [hplain.writtenEntries_eq] at h
    dsimp only at h
    rw [if_pos (Nat.lt_of_not_le hdeep)] at h
    cases h
  have htext := text_of_written hplain.writtenEntries_eq hnesting
  rw [htext, Option.map_eq_none_iff] at h
  have hrefusal : Json.refusal? Json.maxNesting (.map f.settings.entries) = none := by
    refine (Json.refusal?_eq_none_iff (.indented 2) 1).mpr ⟨fun p hp => ?_, ?_⟩
    · rw [Json.encodePart, Json.joinPart_snd] at h
      exact List.findSome?_eq_none_iff.mp h p hp
    · exact hnesting.trans (by decide)
  rw [htext, Json.encodePart_of_accepted _ hrefusal]
  refine ⟨Json.read_textAt _ hrefusal, ?_⟩
  rw [String.toList_ofList]
  exact Json.return_notMem_textAt _ _ _

/-- Settings that are saved where there was a file of settings can be read from it: it holds what
the value of each setting reads as. -/
theorem exists_of_returns_save {s : String} (hplain : f.settings.IsPlain)
    (hs : t.readText (l.access f.path) = .ok s) (h : Returns (f.save l) t () u) :
    ∃ (text : String) (entries : Entries Value), u.readText (l.access f.path) = .ok text ∧
      Json.read text = .ok (.map entries) ∧ entries.keys.Nodup ∧
      ∀ x : Setting, entries.get? x.name = some (f.settings.get x).held := by
  obtain ⟨hnull, q', n, hl, -⟩ := FileTree.exists_of_readText hs
  rcases f.save_cases l t with ⟨-, e, v, hsave, -⟩ | ⟨q, made, -, hgains, htarget, hsave⟩
  · cases h.symm.trans hsave
  · have hresult := h.symm.trans hsave
    have hcomplete : f.text.2 = none := by
      cases hfault : f.text.2 with
      | none => rfl
      | some e =>
        rw [hfault] at hresult
        cases hresult
    obtain rfl : u = made.put q (.file f.text.1.toUTF8) := congrArg Prod.snd hresult
    have hlocate := (locate_of_opened hgains htarget hl).2 (.file f.text.1.toUTF8)
    obtain ⟨hread, hreturn⟩ := read_text hplain hcomplete
    obtain ⟨entries, hentries, hkeys, hget⟩ := f.settings.held_entries
    refine ⟨f.text.1, entries, ?_, by rw [hread, hentries], hkeys, hget⟩
    rw [FileTree.readText_of_locate hnull hlocate, unifyLineEnds_of_notMem hreturn]

end SettingsFile

end CommandShell
