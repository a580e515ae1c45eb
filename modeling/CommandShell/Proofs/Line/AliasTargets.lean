import CommandShell.Proofs.Line.AliasCommands
import CommandShell.Proofs.Line.AliasText
import CommandShell.Proofs.Line.Descriptions

/-!
# Targets of aliases as they are written

The target of an alias is written between double quotes as the value of a flag.  Like the value of
any flag it is read as a number or a truth value if it looks like one, and what the alias gets is
the text of what was read.  So a target is kept as it was written unless it is a truth value, or a
number that has another text: `007` becomes `7`, and `true` becomes `True`.

## Main definitions

* `aliasLine`: the line that gives a quoted target to an alias.
* `Session.Targets`: an alias has a target in the bucket, in the store and in the table.

## Main results

* `wordsOf_aliasLine`, `flags_aliasLine`, `splitLine_aliasLine`: the line is one segment, with one
  word and one flag.
* `shown_coerce_eq_iff`: the texts that are shown as they were written once they have been read.
* `StateSpace.Mirrors.target?_eq`: a text in a bucket that is mirrored is the one in the table.
* `Run.alias_keeps_target_iff`: what the line leaves, and when it keeps the target as it is.
-/

namespace CommandShell

/-! ### Lines with a quoted target -/

/-- The name of a flag as a text. -/
def FlagName.text (name : FlagName) : String :=
  String.ofList name.chars

/-- The line that gives a quoted target to an alias. -/
def aliasLine (name : FlagName) (target : String) : String :=
  "alias --" ++ name.text ++ "=\"" ++ target ++ "\""

section Reading

variable (name : FlagName) {target : String}

theorem toList_aliasLine (target : String) : (aliasLine name target).toList =
    "alias".toList ++ ([' '] ++ ('-' :: '-' :: (name.chars ++
      '=' :: '"' :: (target.toList ++ ['"'])))) := by
  simp [aliasLine, FlagName.text]

theorem tokens_aliasLine (h : '"' ∉ target.toList) :
    Chars.tokens (aliasLine name target).toList =
      [.word "alias",
        .flag name.text (some (String.ofList ('"' :: (target.toList ++ ['"']))))] := by
  have hspace : ∀ c ∈ [' '], isBlank c = true := List.all_eq_true.mp (by decide)
  have hword : IsWord "alias" := ⟨by decide, fun c hc => (isPlain_of_all (by decide) c hc).1⟩
  have hend : ∀ c ∈ ('=' :: '"' :: (target.toList ++ ['"'])).head?, Chars.isFlagChar c = false := by
    rintro c ⟨⟩
    decide
  have hread : Chars.flagValue? ('"' :: (target.toList ++ ['"'])) =
      some ('"' :: (target.toList ++ ['"']), []) := flagValue?_quoted h
  have hflag := nextToken_value (flagName?_name name hend) hread
  rw [toList_aliasLine, tokens_append hword (by decide) (by simp [isBlank]),
    tokens_blank hspace, Chars.tokens, dif_neg (by decide), hflag, Chars.tokens]
  rfl

theorem wordsOf_aliasLine (h : '"' ∉ target.toList) :
    wordsOf (aliasLine name target) = ["alias"] := by
  have hword : (Token.word "alias").word? = some "alias" := by
    refine if_neg ?_
    rw [startsWith_dash]
    decide
  unfold wordsOf
  rw [tokens_aliasLine name h, List.filterMap_cons_some hword]
  rfl

theorem flags_aliasLine (h : '"' ∉ target.toList) :
    (readSegment (aliasLine name target)).flags = [⟨name.text, coerce target⟩] := by
  have hvalue : coerce target =
      coerce (stripQuotes (String.ofList ('"' :: (target.toList ++ ['"'])))) := by
    rw [stripQuotes_quoted, String.ofList_toList]
  unfold readSegment
  rw [tokens_aliasLine name h, hvalue]
  rfl

/-- The quotes hide whatever operators the target has. -/
theorem splitLine_aliasLine (h : '"' ∉ target.toList) :
    splitLine (aliasLine name target) = [.segment (aliasLine name target)] := by
  have hname : ∀ c ∈ '-' :: '-' :: (name.chars ++ ['=']), IsPlain c := by
    simp only [List.forall_mem_cons, List.forall_mem_append]
    exact ⟨by decide, by decide, name.isPlain, by decide, by simp⟩
  have hword : ∀ c ∈ "alias".toList, IsPlain c := isPlain_of_all (by decide)
  have hspace : ∀ c ∈ [' '], isBlank c = true := List.all_eq_true.mp (by decide)
  have hgap : Transparent [' '] :=
    ⟨fun _ => clear_of_blank hspace, Quoting.through_of_blank hspace⟩
  -- In front of the quotes there are only plain characters and blanks.
  have htransparent : Transparent (aliasLine name target).toList := by
    have hall := (transparent_of_isPlain hword).append
      (hgap.append ((transparent_of_isPlain hname).append (transparent_quoted h)))
    rw [toList_aliasLine]
    simpa using hall
  refine splitLine_of_isSegmentText ⟨?_, ⟨?_, ?_⟩, htransparent.1 []⟩
  · simp [toList_aliasLine]
  · rw [toList_aliasLine]
    rintro c ⟨⟩
    decide
  · unfold aliasLine
    rw [String.toList_append, List.getLast?_append]
    rintro c ⟨⟩
    decide

end Reading

/-- The texts that are shown as they were written once they have been read. -/
theorem shown_coerce_eq_iff (target : String) : (coerce target).shown = target ↔
    target ≠ "true" ∧ target ≠ "false" ∧ ∀ x, number? target = some x → x.shown = target := by
  -- A number is looked for first, and the names of the truth values are none.
  have htrue : number? "true" = none := Option.not_isSome_iff_eq_none.mp (by decide +kernel)
  have hfalse : number? "false" = none := Option.not_isSome_iff_eq_none.mp (by decide +kernel)
  unfold coerce
  cases hnumber : number? target with
  | some x =>
    have hne : target ≠ "true" ∧ target ≠ "false" := by
      constructor
      · rintro rfl
        rw [htrue] at hnumber
        cases hnumber
      · rintro rfl
        rw [hfalse] at hnumber
        cases hnumber
    simp [hne]
  | none =>
    by_cases ht : target = "true"
    · subst ht
      simp [Value.shown, Value.written]
    · by_cases hf : target = "false"
      · subst hf
        simp [Value.shown, Value.written]
      · simp [ht, hf]

/-! ### Targets in a state and in the table -/

/-- A state has a text as the target of an alias. -/
def Value.HasTarget (state : Value) (name text : String) : Prop :=
  ∃ entries aliases : Entries Value, state = .map entries ∧
    entries.get? aliasKey = some (.map aliases) ∧ aliases.get? name = some (.text text)

/-- An alias has a text as its target in the bucket, in what the store has of it and in the table
that commands are expanded with. -/
structure Session.Targets (s : Session) (name text : String) : Prop where
  bucket : (s.space.stateOf "aliases").HasTarget name text
  snapshot : ∃ state, s.space.snapshot "aliases" = .ok state ∧ state.HasTarget name text
  table : s.aliasTable.target? name = some (.text text)

/-- An alias has one target. -/
theorem Session.Targets.eq {s : Session} {name text other : String} (h : s.Targets name text)
    (h' : s.Targets name other) : text = other :=
  Value.text.inj (Option.some.inj (h.table.symm.trans h'.table))

/-- A text in a bucket that the table mirrors is the one that the table has. -/
theorem StateSpace.Mirrors.target?_eq {s : StateSpace} {name word text : String} (hs : s.Sound)
    (h : s.Mirrors name) (hstate : (s.stateOf name).HasTarget word text) :
    s.aliases.target? word = some (.text text) := by
  obtain ⟨entries, aliases, hentries, haliases, htext⟩ := hstate
  obtain ⟨⟨initial, x⟩, hc⟩ := h.content
  obtain ⟨mark, l, rfl, rfl, -⟩ :=
    (hs.proper name _ hc).2.entries_of_value ((stateOf_of_content hc).symm.trans hentries)
  have hl := (hs.proper name _ hc).2.of_keyed.2
  have hpart : (aliasPart l).value = .map aliases := by
    rw [value_aliasPart, haliases]
    rfl
  obtain ⟨other, current, hcurrent, rfl, -⟩ := (proper_aliasPart hl).entries_of_value hpart
  rw [Entries.get?_mapValues] at htext
  -- Whoever follows the bucket has shown the table every entry of the map that is in it.
  obtain ⟨i, hi⟩ := h.2 initial mark l hc
  obtain ⟨current', -, -, hsame, -, -, htarget⟩ :=
    (hi.shows (proper_aliasPart hl)).equal other _ hcurrent
  obtain rfl := Live.keyed_injective hsame
  refine (htarget word fun y hy => ⟨text, Live.eq_ofText_of_value ?_⟩).trans htext
  rw [hy] at htext
  exact Option.some.inj htext

/-- The commands on aliases are those that the table belongs to. -/
theorem Session.HoldsAliases.aliasTable_eq {s : Session} {defined : Entries Value}
    (h : s.HoldsAliases defined) : s.aliasTable = s.space.aliases := by
  obtain ⟨key, below, hp⟩ := h.defines
  have hfound : s.registry.find? aliasCommand [] = _ := hp.found
  unfold aliasTable
  rw [hfound]
  rfl

namespace Run

open Session

variable {s t : Session} {defined : Entries Value} {line target : String} {name : FlagName}
  {ok : Bool} {depth : Nat}

/-- A line keeps the table a mirror of the aliases. -/
theorem mirrors_of_returns_runLineWithin (hs : s.space.Sound) (htended : s.space.Tended "aliases")
    (h : s.space.Mirrors "aliases") (ht : Returns (runLineWithin depth line) s ok t) :
    t.space.Mirrors "aliases" := by
  -- A line only reads and writes buckets: it adds no watcher, as following would.
  obtain ⟨acts, hacts⟩ := works_line depth line s
  have hnested : Returns (nestedWithin depth line) s () t := returns_map_iff.mpr ⟨ok, ht, rfl⟩
  rw [show nestedWithin depth line s = _ from hnested] at hacts
  rw [hacts.space_eq]
  refine h.after hs htended fun op hop => ?_
  obtain ⟨act, -, rfl⟩ := List.mem_map.mp hop
  trivial

/-- What `alias` leaves when it is given a quoted target. -/
theorem exists_returns_aliasLine (h : s.HoldsAliases defined) (hmirrors : s.space.Mirrors "aliases")
    (hquote : '"' ∉ target.toList) (hfree : s.registry.has name.text = false)
    (hrequest : name.text ∉ requestNames) (depth : Nat) :
    ∃ t, Returns (runLineWithin (depth + 1) (aliasLine name target)) s true t ∧
      t.HoldsAliases (defined.insert name.text (.text (coerce target).shown)) ∧
      t.space.Mirrors "aliases" ∧ t.Targets name.text (coerce target).shown := by
  have hflags := flags_aliasLine name hquote
  have hnew : defined.overlay ((readSegment (aliasLine name target)).flagMap.mapValues
      fun v => .text v.shown) = defined.insert name.text (.text (coerce target).shown) := by
    unfold Segment.flagMap
    rw [hflags]
    rfl
  have hsets : SetsAliases (nestedWithin depth) s (aliasLine name target) .null
      (defined.insert name.text (.text (coerce target).shown)) := by
    rw [← hnew]
    refine (alias_cases h ?_ (wordsOf_aliasLine name hquote) (by decide +kernel) ?_).2 ?_
    · simpa [hflags] using hrequest
    · simp [hflags]
    · simpa [hflags] using hfree
  obtain ⟨t, ⟨-, payload, hsegment⟩, hreplaces, ht⟩ := hsets
  have hreturns : Returns (runLineWithin (depth + 1) (aliasLine name target)) s true t := by
    rw [runLineWithin_succ, runLineWith_segment (splitLine_aliasLine name hquote)]
    exact returns_bind_iff.mpr ⟨_, t, hsegment, rfl⟩
  have hmirrors' := mirrors_of_returns_runLineWithin h.sound h.tended hmirrors hreturns
  -- The bucket holds the new target, and so do the snapshot and the table that follow it.
  have hbucket : (t.space.stateOf "aliases").HasTarget name.text (coerce target).shown := by
    obtain ⟨entries, -, hstate⟩ := hreplaces.state
    refine ⟨_, defined.insert name.text (.text (coerce target).shown), hstate, ?_, ?_⟩
    · rw [Entries.get?_insert, if_pos rfl]
    · rw [Entries.get?_insert, if_pos rfl]
  refine ⟨t, hreturns, ht, hmirrors', hbucket, ⟨_, hreplaces.snapshot, hbucket⟩, ?_⟩
  rw [ht.aliasTable_eq]
  exact hmirrors'.target?_eq ht.sound hbucket

/-- When an alias keeps its target as it was written.  A shell holds some aliases, which its table
mirrors, and is given the line `alias --name="target"` for a name that is free and no request.  The
line succeeds, all other aliases stay, and the target in the bucket, the store and the table is the
text of the value that the written one is read as.  This is the written one itself just where that
is no truth value and no number with another text.  So it is wherever the written one does not look
like a number, and where it is a whole number in its usual form that is not too long to be read. -/
theorem alias_keeps_target_iff (name : FlagName) (target : String) (depth : Nat)
    (h : s.HoldsAliases defined) (hmirrors : s.space.Mirrors "aliases")
    (hquote : '"' ∉ target.toList) (hfree : s.registry.has name.text = false)
    (hrequest : name.text ∉ requestNames) :
    ∃ t, Returns (runLineWithin (depth + 1) (aliasLine name target)) s true t ∧
      t.HoldsAliases (defined.insert name.text (.text (coerce target).shown)) ∧
      t.space.Mirrors "aliases" ∧ t.Targets name.text (coerce target).shown ∧
      (t.Targets name.text target ↔
        target ≠ "true" ∧ target ≠ "false" ∧ ∀ x, number? target = some x → x.shown = target) ∧
      (¬ NumberLike target → target ≠ "true" → target ≠ "false" → t.Targets name.text target) ∧
      ∀ n : Int, (toString n.natAbs).length ≤ maxDigits → target = toString n →
        t.Targets name.text target := by
  obtain ⟨t, hreturns, ht, hmirrors', htarget⟩ :=
    exists_returns_aliasLine h hmirrors hquote hfree hrequest depth
  have hiff : t.Targets name.text target ↔
      target ≠ "true" ∧ target ≠ "false" ∧ ∀ x, number? target = some x → x.shown = target := by
    rw [← shown_coerce_eq_iff]
    constructor
    · exact fun hkept => htarget.eq hkept
    · intro hkept
      rwa [hkept] at htarget
  refine ⟨t, hreturns, ht, hmirrors', htarget, hiff, fun hnumber htrue hfalse => ?_,
    fun n hshort hn => ?_⟩
  · refine hiff.mpr ⟨htrue, hfalse, fun x hx => ?_⟩
    exact absurd ((isSome_number?_iff target).mp (by rw [hx]; rfl)) hnumber
  · have hshown : (coerce target).shown = target := by
      unfold coerce
      rw [hn, number?_toString n hshort]
      rfl
    rwa [hshown] at htarget

/-- A target of two words is kept as it was written, beside the aliases that there were. -/
theorem words_are_kept :
    ∃ (name : FlagName) (t : Session), aliasLine name "echo now" = "alias --no=\"echo now\"" ∧
      Returns (runLine "alias --no=\"echo now\"") aliasingShell true t ∧
      t.HoldsAliases (twoAliases.insert "no" (.text "echo now")) ∧ t.Targets "no" "echo now" := by
  let name : FlagName := ⟨['n', 'o'], by decide, by simp⟩
  have hnumber : number? "echo now" = none := Option.not_isSome_iff_eq_none.mp (by decide +kernel)
  have hshown : (coerce "echo now").shown = "echo now" :=
    (shown_coerce_eq_iff _).mpr ⟨by decide, by decide, by simp [hnumber]⟩
  obtain ⟨t, hreturns, ht, -, -, hiff, -⟩ := alias_keeps_target_iff name "echo now" 499
    holdsAliases_aliasingShell mirrors_aliasingShell (by decide) (by decide +kernel)
    (by decide +kernel)
  rw [hshown] at ht
  exact ⟨name, t, rfl, hreturns, ht, hiff.mpr ⟨by decide, by decide, by simp [hnumber]⟩⟩

/-- Leading zeros are lost, and a truth value gets a capital letter. -/
theorem zeros_and_truth_values_are_rewritten :
    ∃ ready t u : Session, Returns initializeProcessors (.offering builtinProcessors) () ready ∧
      ready.registry.has "n" = false ∧ "n" ∉ requestNames ∧
      Returns (runLine "alias --n=\"007\"") ready true t ∧ ¬ t.Targets "n" "007" ∧
      (t.space.stateOf "aliases").shown = "\x7b'aliases': \x7b'n': '7'\x7d\x7d" ∧
      (t.space.snapshot "aliases").toOption.map Value.shown =
        some "\x7b'aliases': \x7b'n': '7'\x7d\x7d" ∧
      (t.aliasTable.target? "n").map Value.shown = some "7" ∧
      Returns (runLine "alias --n=\"true\"") ready true u ∧ ¬ u.Targets "n" "true" ∧
      (u.aliasTable.target? "n").map Value.shown = some "True" := by
  obtain ⟨⟨⟩, hready, -⟩ := exists_returns_of_map initializeProcessors
    (.offering builtinProcessors) (fun _ => ()) () (by decide +kernel)
  obtain ⟨ok, ht, rfl⟩ := exists_returns_of_map (runLine "alias --n=\"007\"")
    (initializeProcessors (.offering builtinProcessors)).2 id true (by decide +kernel)
  obtain ⟨ok, hu, rfl⟩ := exists_returns_of_map (runLine "alias --n=\"true\"")
    (initializeProcessors (.offering builtinProcessors)).2 id true (by decide +kernel)
  refine ⟨_, _, _, hready, by decide +kernel, by decide, ht, fun h => ?_, by decide +kernel,
    by decide +kernel, by decide +kernel, hu, fun h => ?_, by decide +kernel⟩
  · exact absurd (congrArg (Option.map Value.shown) h.table) (by decide +kernel)
  · exact absurd (congrArg (Option.map Value.shown) h.table) (by decide +kernel)

end Run

end CommandShell
