import CommandShell.Proofs.Line.Binding
import CommandShell.Proofs.Line.FreeText
import CommandShell.Proofs.State.AliasUpdates

/-!
# Segments that change the aliases

A segment gets to the handler of `alias` or `unalias` by its first word, as long as its flags are no
requests and nothing is pinned.  From there on it ends as the handler does: with the code zero and
other aliases, or with `-1` and those that there were.

## Main definitions

* `Run.requestNames`, `Run.MakesRequest`: the flags that every command takes as requests, and the
  segments that make one.
* `Run.LeavesAliases`, `Run.SetsAliases`: how a segment ends that is refused, and one that is not.

## Main results

* `Run.exists_dispatches`: a segment with no request gets to a handler that checks nothing.
* `Run.alias_cases`, `Run.unalias_cases`: the cases of each of the two commands.
* `Run.alias_commands_update`: both commands change the aliases all at once or not at all.
-/

namespace CommandShell

namespace Run

open Session

variable {s t u : Session} {defined new : Entries Value} {c : Scope} {i : Invocation}
  {p : ShellProcessor} {segment word : String} {rest : List String} {data : Value}
  {rerun : String → Run Unit}

/-! ### Segments -/

/-- Where nothing is pinned a root processor answers to its command, in upper or lower case. -/
theorem answering?_of_isRoot (hp : s.registry.IsRoot p) (hpinned : s.pinned = none)
    (hword : lowerCase word = lowerCase p.command) :
    Processor.answering? word s.commands = some p := by
  have hcommands : s.commands = s.registry.processors := by
    unfold Session.commands
    rw [hpinned]
  rw [hcommands, ← Processor.answering?_lowerCase, hword, Processor.answering?_lowerCase]
  exact hp.found

/-- A segment leads to the processor that answers to its first word, if it ends there. -/
theorem resolve?_of_answering (hfound : Processor.answering? word s.commands = some p)
    (hwords : wordsOf segment = word :: rest) (hends : p.Ends rest) :
    s.resolve? segment = some p := by
  refine (resolve?_eq_some_iff (by rw [hwords]; exact List.cons_ne_nil _ _)).mpr
    ⟨[word], rest, hwords, ?_, hends⟩
  exact .last hfound

/-- A processor that takes free text gets the words behind the one that it answers to. -/
theorem deliver_text (data : Value) (hfound : Processor.answering? word s.commands = some p)
    (hwords : wordsOf segment = word :: rest) (htext : p.acceptsText = true) :
    (p.deliver (.ofSegment segment [] data)).text = some (" ".intercalate rest) := by
  have hall : ∀ w ∈ [] ++ word :: rest, IsWord w := fun w hw =>
    isWord_of_mem_wordsOf (hwords ▸ hw)
  have hname := Processor.lowerCase_mem_names hfound
  unfold Processor.deliver
  rw [if_pos htext]
  show textAfterWord? (" ".intercalate (wordsOf segment)) p.names = _
  rw [hwords]
  have hbehind := text_after_first_name hall (List.forall_mem_nil _) hname
  exact hbehind

/-- The names of flags that every command takes as requests. -/
def requestNames : List String :=
  ["v", "version", "h", "help", "context"]

/-- A flag of the segment makes one of the requests. -/
def MakesRequest (segment : String) : Prop :=
  ∃ name ∈ requestNames, wants (readSegment segment).flagMap name = true

theorem not_makesRequest_iff : ¬ MakesRequest segment ↔
    ∀ name ∈ requestNames, wants (readSegment segment).flagMap name = false := by
  simp [MakesRequest]

theorem not_makesRequest_of_flags (h : ∀ f ∈ (readSegment segment).flags, f.name ∉ requestNames) :
    ¬ MakesRequest segment := by
  refine not_makesRequest_iff.mpr fun name hname => ?_
  have hnone : (readSegment segment).flagMap.get? name = none := by
    rw [← bindFlags_nil,
      (summarizes_bindFlags List.Pairwise.nil _).undeclared name (by simp)]
    have hfilter : (readSegment segment).flags.filter (fun f => f.name = name) = [] := by
      refine List.filter_eq_nil_iff.mpr fun f hf hsame => h f hf ?_
      rwa [of_decide_eq_true hsame]
    rw [hfilter]
    rfl
  unfold wants
  rw [hnone]
  rfl

/-- A segment with no request gets to the handler of the processor that answers to its first word,
if that checks nothing and has the text that it needs. -/
theorem exists_dispatches (data : Value)
    (hfound : Processor.answering? word s.commands = some p)
    (hwords : wordsOf segment = word :: rest) (hends : p.Ends rest)
    (hparameters : p.decl.parameters = []) (hreplies : p.decl.replies = none)
    (hrequest : ¬ MakesRequest segment) (htext : p.decl.needsText = true → rest ≠ []) :
    ∃ c u, Dispatches s segment data p (p.deliver (.ofSegment segment [] data)) c u := by
  have hdelivery :=
    delivery?_of_resolve (resolve?_of_answering hfound hwords hends) data maxExpansions
  rw [hparameters] at hdelivery
  -- A segment without a request asks for no version, no page and no pin.
  have hwants : ∀ name ∈ requestNames,
      wants (Invocation.ofSegment segment [] data).args name = false := by
    rw [show (Invocation.ofSegment segment [] data).args = (readSegment segment).flagMap from
      bindFlags_nil _]
    exact not_makesRequest_iff.mp hrequest
  have hversion : wants (Invocation.ofSegment segment [] data).args "v" = false ∧
      wants (Invocation.ofSegment segment [] data).args "version" = false :=
    ⟨hwants _ (by decide), hwants _ (by decide)⟩
  have hhelp : wants (Invocation.ofSegment segment [] data).args "h" = false ∧
      wants (Invocation.ofSegment segment [] data).args "help" = false :=
    ⟨hwants _ (by decide), hwants _ (by decide)⟩
  have hasks : (Invocation.ofSegment segment [] data).asksForHelp = false := by
    unfold Invocation.asksForHelp
    simp [hhelp]
  have hadmissible : Admissible p (p.deliver (.ofSegment segment [] data)) := by
    refine ⟨hversion, fun _ => hhelp, hwants "context" (by decide), ?_, ?_, fun hneeds => ?_, ?_⟩
    · rw [hparameters]
      exact List.forall_mem_nil _
    · rw [hparameters]
      exact List.forall_mem_nil _
    · have htakes : p.acceptsText = true := by simp [Processor.acceptsText, hneeds]
      refine ⟨_, deliver_text data hfound hwords htakes, intercalate_ne_empty ?_ (htext hneeds)⟩
      exact fun w hw => isWord_of_mem_wordsOf (hwords ▸ List.mem_cons_of_mem _ hw)
    · unfold Processor.reply
      rw [hreplies]
      rfl
  obtain ⟨c, u, hopen, -⟩ := openScope_apply p s.started
  exact ⟨c, u, _, s.started, hdelivery, hasks,
    (returns_screen_some_iff hasks).mpr ⟨rfl, rfl, hadmissible⟩, hopen⟩

/-- A segment that leads to a processor without parameters gets to no handler if it makes a request,
unless its command starts with `help`. -/
theorem not_makesRequest_of_dispatches {q : ShellProcessor} (h : Dispatches s segment data q i c u)
    (hresolve : s.resolve? segment = some p) (hparameters : p.decl.parameters = [])
    (hhelp : (readSegment segment).name.startsWith "help" = false) : ¬ MakesRequest segment := by
  obtain ⟨given, hd, rfl, hadmissible, -⟩ := h.admissible
  rw [delivery?_of_resolve hresolve, hparameters] at hd
  obtain ⟨rfl, rfl⟩ := Prod.mk.inj (Option.some.inj hd)
  have hargs : (p.deliver (.ofSegment segment [] data)).args = (readSegment segment).flagMap :=
    bindFlags_nil _
  have hversion := hadmissible.no_version
  have hhelp := hadmissible.no_help hhelp
  have hpin := hadmissible.no_pin
  rw [hargs] at hversion hhelp hpin
  rw [not_makesRequest_iff]
  simp [requestNames, hversion, hhelp, hpin]

/-- A command starts in the bucket of its processor, and if this was open all is as it was. -/
theorem Dispatches.resembles (h : Dispatches s segment data p i c u)
    (hb : ∃ b, s.space.bucket? (s.registry.bucketOf p).1 = some b) :
    c.bucket = (s.registry.bucketOf p).1 ∧ s.Resembles u := by
  obtain ⟨-, -, -, -, hscope⟩ := h.admissible
  obtain ⟨c', u', hopen, hbucket, hspace, hregistry, hpinned⟩ := openScope_apply p s.started
  obtain ⟨rfl, rfl⟩ := hscope.unique hopen
  obtain ⟨b, hb⟩ := hb
  refine ⟨hbucket, hregistry, hpinned, [], ?_⟩
  rw [hspace, StateSpace.after_singleton]
  exact congrArg (fun space => { space with reports := [] }) (StateSpace.openBucket_of_some hb)

/-- A segment with no request gets to the handler of a root command on aliases. -/
theorem exists_dispatches_of_aliases (data : Value) (h : s.HoldsAliases defined)
    (hp : s.registry.IsRoot p) (hbucket : p.decl.bucket = some Builtin.aliasBucket)
    (hwords : wordsOf segment = word :: rest) (hword : lowerCase word = lowerCase p.command)
    (hends : p.Ends rest) (hparameters : p.decl.parameters = [])
    (hreplies : p.decl.replies = none)
    (hflags : ∀ f ∈ (readSegment segment).flags, f.name ∉ requestNames)
    (htext : p.decl.needsText = true → rest ≠ []) :
    ∃ c u, Dispatches s segment data p (p.deliver (.ofSegment segment [] data)) c u ∧
      c.bucket = "aliases" ∧ s.Resembles u := by
  have hname : (s.registry.bucketOf p).1 = "aliases" := by
    unfold Registry.bucketOf
    rw [hp.rootOf]
    dsimp only
    rw [hbucket]
    rfl
  obtain ⟨b, -, -, hb, -⟩ := h.exists_bucket
  obtain ⟨c, u, hd⟩ := exists_dispatches data (answering?_of_isRoot hp h.pinned hword) hwords hends
    hparameters hreplies (not_makesRequest_of_flags hflags) htext
  obtain ⟨hc, hu⟩ := hd.resembles ⟨b, by rw [hname, hb]⟩
  exact ⟨c, u, hd, hc.trans hname, hu⟩

/-- Without hooks a command does what its handler does. -/
theorem handleBetweenHooks_of_no_hooks (h : ∀ phase, p.hookScripts phase = []) :
    handleBetweenHooks rerun c p i = handle rerun c i p.decl.handler := by
  unfold handleBetweenHooks runHooks
  rw [h, h]
  exact (pure_bind _ _).trans bind_pure_unit

/-- A segment whose handler returns, and leaves the process record alone, ends with the code
zero. -/
theorem endsWith_of_returns_handle (h : Dispatches s segment data p i c u)
    (hhooks : ∀ phase, p.hookScripts phase = [])
    (hv : Returns (handle rerun c i p.decl.handler) u () t) (hprocess : t.process = u.process) :
    EndsWith rerun s segment data (.int 0) t.finished := by
  obtain ⟨-, -, -, -, hscope⟩ := h.admissible
  rw [← handleBetweenHooks_of_no_hooks hhooks] at hv
  refine endsWith_of_returns (h.returns_runSegment hv) ?_ rfl
  show t.process.finish.exitCode = _
  rw [hprocess, process_of_openScope hscope]
  rfl

/-- A segment whose handler is unwound by a refusal ends with its code. -/
theorem endsWith_of_stops_handle (h : Dispatches s segment data p i c u)
    (hhooks : ∀ phase, p.hookScripts phase = [])
    (hv : Stops (handle rerun c i p.decl.handler) u (.fault (.exited (.int (-1)))) t)
    (hcode : t.process.exitCode = .int (-1)) :
    ∃ v, EndsWith rerun s segment data (.int (-1)) v ∧ t.Resembles v := by
  rw [← handleBetweenHooks_of_no_hooks hhooks] at hv
  obtain ⟨v, hsettle, hprocess, -⟩ := returns_settleFault (.exited (.int (-1))) t
  have hsame := frameCongruence_resembles.settleFault (.exited (.int (-1))) t
  rw [show settleFault _ t = _ from hsettle] at hsame
  -- The refusal is settled behind the handler, so that the segment goes on to its end.
  have hreturns : Returns (runSegment rerun segment data) s () v.finished := by
    unfold Returns
    rw [h.runSegment_eq, ensuring_apply, recover_apply,
      show handleBetweenHooks rerun c p i u = _ from hv]
    dsimp only
    rw [show settleFault _ t = _ from hsettle]
  refine ⟨v.finished, endsWith_of_returns hreturns ?_ rfl, hsame.registry, hsame.pinned,
    hsame.space⟩
  show v.process.finish.exitCode = _
  rw [hprocess]
  show (if t.process.exitCode.isNull then .int 0 else t.process.exitCode : Value) = _
  rw [hcode]
  rfl

theorem mem_keys_flagMap_iff {segment : Segment} {name : String} :
    name ∈ segment.flagMap.keys ↔ ∃ f ∈ segment.flags, f.name = name := by
  rw [← bindFlags_nil,
    (summarizes_bindFlags List.Pairwise.nil segment.flags).mem_keys_iff List.Pairwise.nil]
  simp

/-! ### Commands on aliases -/

/-- The segment ends with the code `-1`, and nothing of the buckets, the store or the table has
changed. -/
def LeavesAliases (rerun : String → Run Unit) (s : Session) (segment : String) (data : Value)
    (defined : Entries Value) : Prop :=
  ∃ t, EndsWith rerun s segment data (.int (-1)) t ∧ s.space.Retains t.space ∧
    t.HoldsAliases defined

/-- The segment ends with the code zero, the shell holds new aliases, and the store has what their
bucket holds. -/
def SetsAliases (rerun : String → Run Unit) (s : Session) (segment : String) (data : Value)
    (new : Entries Value) : Prop :=
  ∃ t, EndsWith rerun s segment data (.int 0) t ∧ s.space.Replaces "aliases" new t.space ∧
    t.HoldsAliases new

section Commands

variable (h : s.HoldsAliases defined) (hd : Dispatches s segment data p i c u)
  (hu : s.Resembles u) (hhooks : ∀ phase, p.hookScripts phase = [])

include h hd hu hhooks in
/-- A handler that refuses leaves the aliases as they are. -/
theorem leavesAliases_of_stops
    (ht : Stops (handle rerun c i p.decl.handler) u (.fault (.exited (.int (-1)))) t)
    (hcode : t.process.exitCode = .int (-1)) (hsame : u.Resembles t) :
    LeavesAliases rerun s segment data defined := by
  obtain ⟨v, hv, hsettled⟩ := endsWith_of_stops_handle hd hhooks ht hcode
  have hall := hu.trans _ _ _ (hsame.trans _ _ _ hsettled)
  exact ⟨v, hv, hall.retains, h.resembles hall⟩

include hd hu hhooks in
/-- A handler that replaces the aliases leads to a shell that holds the new ones. -/
theorem setsAliases_of_returns (ht : Returns (handle rerun c i p.decl.handler) u () t)
    (hprocess : t.process = u.process) (hreplaces : u.space.Replaces "aliases" new t.space)
    (hnew : t.HoldsAliases new) : SetsAliases rerun s segment data new :=
  ⟨_, endsWith_of_returns_handle hd hhooks ht hprocess, hu.retains.replaces hreplaces,
    hnew.resembles ⟨rfl, rfl, t.space.reports, rfl⟩⟩

end Commands

/-- `alias` with flags that are no requests. -/
theorem alias_cases (h : s.HoldsAliases defined)
    (hflags : ∀ f ∈ (readSegment segment).flags, f.name ∉ requestNames)
    (hwords : wordsOf segment = [word]) (hword : lowerCase word = "alias")
    (hne : (readSegment segment).flags ≠ []) :
    ((∃ f ∈ (readSegment segment).flags, s.registry.has f.name = true) →
      LeavesAliases rerun s segment data defined) ∧
    ((∀ f ∈ (readSegment segment).flags, s.registry.has f.name = false) →
      SetsAliases rerun s segment data
        (defined.overlay ((readSegment segment).flagMap.mapValues fun v => .text v.shown))) := by
  obtain ⟨key, below, hp⟩ := h.defines
  obtain ⟨c, u, hd, hc, hu⟩ := exists_dispatches_of_aliases data h hp rfl hwords
    (hword.trans (show "alias" = lowerCase "alias" by decide +kernel)) (Or.inl rfl) rfl rfl hflags
    fun hneeds => by cases hneeds
  generalize hi : Processor.deliver _ _ = i at hd
  have hargs : i.args = (readSegment segment).flagMap := by
    rw [← hi]
    exact bindFlags_nil _
  have hgiven : i.args ≠ [] := by
    obtain ⟨f, hf⟩ := List.exists_mem_of_ne_nil _ hne
    have hkey := mem_keys_flagMap_iff.mpr ⟨f, hf, rfl⟩
    intro hnil
    rw [← hargs, hnil] at hkey
    cases hkey
  -- The handler goes through the names that are left once repeated flags are merged.
  have hany : i.args.any (fun e => u.registry.has e.1) = true ↔
      ∃ f ∈ (readSegment segment).flags, s.registry.has f.name = true := by
    rw [List.any_eq_true, hargs, hu.registry]
    constructor
    · rintro ⟨e, he, htaken⟩
      obtain ⟨f, hf, hname⟩ := mem_keys_flagMap_iff.mp (List.mem_map_of_mem he)
      exact ⟨f, hf, by rwa [hname]⟩
    · rintro ⟨f, hf, htaken⟩
      obtain ⟨e, he, hname⟩ := List.mem_map.mp (mem_keys_flagMap_iff.mpr ⟨f, hf, rfl⟩)
      exact ⟨e, he, by rwa [hname]⟩
  refine ⟨fun htaken => ?_, fun hfree => ?_⟩
  · obtain ⟨t, ht, hcode, hsame⟩ := stops_defineAliases (c := c) hgiven (hany.mpr htaken)
    exact leavesAliases_of_stops h hd hu (fun _ => rfl) ht hcode hsame
  · have hnone : i.args.any (fun e => u.registry.has e.1) = false := by
      rw [Bool.eq_false_iff, ne_eq, hany]
      rintro ⟨f, hf, htaken⟩
      rw [hfree f hf] at htaken
      cases htaken
    obtain ⟨t, ht, hprocess, hreplaces, hnew⟩ :=
      returns_defineAliases (h.resembles hu) hc hgiven hnone
    rw [hargs] at hreplaces hnew
    exact setsAliases_of_returns hd hu (fun _ => rfl) ht hprocess hreplaces hnew

/-- `unalias` with a text. -/
theorem unalias_cases (h : s.HoldsAliases defined)
    (hflags : ∀ f ∈ (readSegment segment).flags, f.name ∉ requestNames)
    (hwords : wordsOf segment = word :: rest) (hword : lowerCase word = "unalias")
    (hne : rest ≠ []) :
    (" ".intercalate rest ∈ defined.keys →
      SetsAliases rerun s segment data (defined.erase (" ".intercalate rest))) ∧
    (" ".intercalate rest ∉ defined.keys → LeavesAliases rerun s segment data defined) := by
  obtain ⟨key, hp⟩ := h.removes
  have hcommand := hword.trans (show "unalias" = lowerCase "unalias" by decide +kernel)
  obtain ⟨c, u, hd, hc, hu⟩ := exists_dispatches_of_aliases data h hp rfl hwords hcommand
    (Or.inr ⟨rfl, rfl⟩) rfl rfl hflags fun _ => hne
  have htext := deliver_text data (answering?_of_isRoot hp h.pinned hcommand) hwords rfl
  generalize Processor.deliver _ _ = i at hd htext
  have hname : i.text.getD "" = " ".intercalate rest := by rw [htext]; rfl
  refine ⟨fun hmem => ?_, fun hnone => ?_⟩
  · obtain ⟨t, ht, hprocess, hreplaces, hnew⟩ :=
      returns_removeAlias (h.resembles hu) hc (by rwa [hname])
    rw [hname] at hreplaces hnew
    exact setsAliases_of_returns hd hu (fun _ => rfl) ht hprocess hreplaces hnew
  · obtain ⟨t, ht, hcode, hsame⟩ := stops_removeAlias (h.resembles hu) hc (by rwa [hname])
    exact leavesAliases_of_stops h hd hu (fun _ => rfl) ht hcode hsame

/-- `alias` defines all aliases or none, and `unalias` removes one or none.  Let `alias` be given
flags that are no requests: if the name of one of them is that of a root command, nothing of the
buckets, the store or the table changes, and the exit code is `-1`; else every flag's last value is
put as a text on top of the aliases, and the store has what the bucket holds.  What `unalias` is
given as its text is removed from the aliases, which stay in their order and are kept in the store;
if it is none of them, nothing changes, and the exit code is `-1`. -/
theorem alias_commands_update (h : s.HoldsAliases defined)
    (hflags : ∀ f ∈ (readSegment segment).flags, f.name ∉ requestNames) :
    (∀ word, wordsOf segment = [word] → lowerCase word = "alias" →
        (readSegment segment).flags ≠ [] →
      ((∃ f ∈ (readSegment segment).flags, s.registry.has f.name = true) →
        LeavesAliases rerun s segment data defined) ∧
      ((∀ f ∈ (readSegment segment).flags, s.registry.has f.name = false) →
        SetsAliases rerun s segment data
          (defined.overlay ((readSegment segment).flagMap.mapValues fun v => .text v.shown)))) ∧
    ∀ word name, wordsOf segment = word :: name → lowerCase word = "unalias" → name ≠ [] →
      (" ".intercalate name ∈ defined.keys →
        SetsAliases rerun s segment data (defined.erase (" ".intercalate name))) ∧
      (" ".intercalate name ∉ defined.keys → LeavesAliases rerun s segment data defined) :=
  ⟨fun _ => alias_cases h hflags, fun _ _ => unalias_cases h hflags⟩

/-- A shell that holds two aliases gives another target to one of them and gets a third one, or
loses one; the name of a command, and a name that it does not hold, leave them as they are. -/
theorem two_aliases_updated :
    aliasingShell.HoldsAliases twoAliases ∧
      SetsAliases Run.rerun aliasingShell "alias --n=1 --hi=yo --n=007" .null
        [("hi", .text "yo"), ("ll", .text "echo ll"), ("n", .text "7")] ∧
      LeavesAliases Run.rerun aliasingShell "alias --n=1 --man=yo" .null twoAliases ∧
      SetsAliases Run.rerun aliasingShell "unalias hi" .null [("ll", .text "echo ll")] ∧
      LeavesAliases Run.rerun aliasingShell "unalias none" .null twoAliases := by
  have hs := holdsAliases_aliasingShell
  refine ⟨hs, ?_, ?_, ?_, ?_⟩
  · -- Values may hold floating-point numbers and cannot be compared, but their texts can.
    have hshown : (readSegment "alias --n=1 --hi=yo --n=007").flagMap.mapValues Value.shown =
        [("n", "7"), ("hi", "yo")] := by decide +kernel
    have hgiven : (readSegment "alias --n=1 --hi=yo --n=007").flagMap.mapValues
        (fun v => Value.text v.shown) = [("n", Value.text "7"), ("hi", Value.text "yo")] := by
      have hmap := congrArg (Entries.mapValues Value.text) hshown
      unfold Entries.mapValues at hmap ⊢
      rwa [List.map_map] at hmap
    have hset : SetsAliases Run.rerun aliasingShell "alias --n=1 --hi=yo --n=007" .null
        (twoAliases.overlay _) :=
      ((alias_commands_update hs (by decide +kernel)).1 "alias" (by decide +kernel)
        (by decide +kernel) (by decide +kernel)).2 (by decide +kernel)
    rw [hgiven] at hset
    exact hset
  · exact ((alias_commands_update hs (by decide +kernel)).1 "alias" (by decide +kernel)
      (by decide +kernel) (by decide +kernel)).1 (by decide +kernel)
  · exact ((alias_commands_update hs (by decide +kernel)).2 "unalias" ["hi"] (by decide +kernel)
      (by decide +kernel) (by decide +kernel)).1 (by decide +kernel)
  · exact ((alias_commands_update hs (by decide +kernel)).2 "unalias" ["none"] (by decide +kernel)
      (by decide +kernel) (by decide +kernel)).2 (by decide +kernel)

end Run

end CommandShell
