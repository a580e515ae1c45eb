import CommandShell.Proofs.Congruence.Following
import CommandShell.Proofs.Line.Leading
import CommandShell.Proofs.Line.Nesting
import CommandShell.Proofs.Storage.Contents

/-!
# What a line appends

A line changes files only where it performs `>>`, and there it puts the payload that the last
segment has given behind what the file holds.  Whatever the line leaves out, fails or stops at, what
was in a file stays in front, and no payload is appended twice.

## Main definitions

* `Session.addedBy`, `Session.addedText`: the text that steps of a line add to the file at a path.
* `Supplies`: a segment gives the payload that `>>` appends.

## Main results

* `addsTo_of_chainTrace`: the steps of a line add their texts to the files.
* `supplies_of_appended`: what is appended was given by the last segment that gave something.
* `line_appends_once`: a line that leads to no lines appends every payload once and loses nothing.
-/

namespace CommandShell

/-! ### Paths and texts of redirects -/

namespace Session

/-- The file that `>>` with a path stands for, if there are files. -/
def appendTarget? (s : Session) (path : String) : Option Path :=
  s.appendRoot?.bind fun root => (s.locations.expand (trimBlanks path) (some root)).toOption

/-- The text that a step adds to the file at a path: where `>>` is performed and succeeds, the
payload. -/
def addedBy (s : Session) (file : Path) : ChainStep → String
  | .appended path payload true =>
    if !payload.isNull && s.appendTarget? path == some file then payloadText payload else ""
  | _ => ""

/-- The text that some steps add to the file at a path, one after another. -/
def addedText (s : Session) (steps : List ChainStep) (file : Path) : String :=
  String.join (steps.map (s.addedBy file))

end Session

namespace Run

open FileTree (noText textAt)

variable {f g : String → Run Unit} {line text path : String} {payload data : Value}
  {s s' t : Session} {e : Stop} {p : Path} {c : ChainState} {parts rest : List Part}
  {st : ChainStep} {steps : List ChainStep}

/-! ### Performing `>>` -/

/-- A text is put at the end of a file once. -/
theorem addsTo_of_returns_putAtEnd (hup : ".." ∉ p) (hnull : (AccessPath.ofPath p).hasNull = false)
    (hs : s.files.WellFormed) (h : Returns (putAtEnd (.ofPath p) text) s () s') :
    s.files.AddsTo (textAt p text) s'.files := by
  obtain ⟨there, t, hask, hw⟩ := returns_bind_iff.mp h
  obtain ⟨files, hasked, rfl⟩ := returns_access_iff.mp hask
  obtain ⟨-, rfl⟩ := FileAccess.returns_ask_iff.mp hasked
  cases there with
  | true =>
    rw [if_pos rfl] at hw
    obtain ⟨files, hwrite, rfl⟩ := returns_access_iff.mp hw
    refine FileAccess.returns_write hup hs ?_ hwrite
    nofun
  | false =>
    rw [if_neg Bool.false_ne_true] at hw
    obtain ⟨files, hcreate, rfl⟩ := returns_access_iff.mp hw
    exact FileAccess.returns_create hup hs hnull hcreate

/-- A text that cannot be put at the end of a file is not there in part. -/
theorem addsTo_of_stops_putAtEnd (hup : ".." ∉ p) (hs : s.files.WellFormed)
    (h : Stops (putAtEnd (.ofPath p) text) s e s') : s.files.AddsTo noText s'.files := by
  rcases stops_bind_iff.mp h with hask | ⟨there, t, hask, hw⟩
  · obtain ⟨fault, files, hasked, -, rfl⟩ := stops_access_iff.mp hask
    rw [show files = s.files from (FileAccess.keeps_ask _).of_stops hasked]
    exact .refl hs
  · obtain ⟨files, hasked, rfl⟩ := returns_access_iff.mp hask
    obtain ⟨-, rfl⟩ := FileAccess.returns_ask_iff.mp hasked
    cases there with
    | true =>
      rw [if_pos rfl] at hw
      obtain ⟨fault, files, hwrite, -, rfl⟩ := stops_access_iff.mp hw
      exact FileAccess.stops_write hup hs hwrite
    | false =>
      rw [if_neg Bool.false_ne_true] at hw
      obtain ⟨fault, files, hcreate, -, rfl⟩ := stops_access_iff.mp hw
      exact FileAccess.stops_create hup hs hcreate

theorem addedBy_of_failed (s : Session) (path : String) (payload : Value) :
    (fun file => s.addedBy file (.appended path payload false)) = noText :=
  rfl

theorem addedBy_of_null (hnull : payload.isNull = true) (s : Session) (path : String)
    (done : Bool) : (fun file => s.addedBy file (.appended path payload done)) = noText := by
  funext file
  cases done <;> simp [Session.addedBy, hnull, noText]

theorem addedBy_of_target {root : String} (hroot : s.appendRoot? = some root)
    (hexpand : s.locations.expand (trimBlanks path) (some root) = .ok p)
    (hnull : payload.isNull = false) :
    (fun file => s.addedBy file (.appended path payload true)) =
      textAt p (payloadText payload) := by
  have htarget : s.appendTarget? path = some p := by
    rw [Session.appendTarget?, hroot, Option.bind_some, hexpand]
    rfl
  funext file
  simp only [Session.addedBy, hnull, htarget, textAt]
  by_cases hfile : file = p
  · simp [hfile]
  · simp [hfile, Ne.symm hfile]

/-- `>>` adds the payload to its file if it succeeds, and nothing if it fails. -/
theorem addsTo_of_appendPayload {done : Bool} (hs : s.files.WellFormed)
    (h : Returns (appendPayload path payload) s done s') :
    s.files.AddsTo (fun file => s.addedBy file (.appended path payload done)) s'.files := by
  -- Without a workspace, and without a payload, nothing is written.
  cases hroot : s.appendRoot? with
  | none =>
    obtain ⟨rfl, rfl⟩ := h.unique (appendPayload_of_no_root path payload hroot)
    exact .refl hs
  | some root =>
    cases hnull : payload.isNull with
    | true =>
      obtain ⟨rfl, rfl⟩ := h.unique (appendPayload_of_null path hroot hnull)
      rw [addedBy_of_null hnull]
      exact .refl hs
    | false =>
      rcases (returns_appendPayload_of_present hroot hnull).mp h with
        ⟨rfl, hr⟩ | ⟨fault, t, hstop, -, rfl, rfl⟩
      · rw [appendToFile_eq] at hr
        obtain ⟨p, t, hresolve, hput⟩ := returns_bind_iff.mp hr
        obtain ⟨hexpand, rfl⟩ := returns_resolvePath_iff.mp hresolve
        rw [addedBy_of_target hroot hexpand hnull]
        exact addsTo_of_returns_putAtEnd (Locations.up_notMem_expand hexpand)
          (Locations.expand_hasNull hexpand) hs hput
      · rw [addedBy_of_failed]
        rw [appendToFile_eq] at hstop
        -- It fails before the file is touched, or while something is put into it.
        rcases stops_bind_iff.mp hstop with hresolve | ⟨p, u, hresolve, hput⟩
        · obtain ⟨-, -, -, rfl⟩ := stops_resolvePath_iff.mp hresolve
          exact .refl hs
        · obtain ⟨hexpand, rfl⟩ := returns_resolvePath_iff.mp hresolve
          show u.files.AddsTo noText t.files
          exact addsTo_of_stops_putAtEnd (Locations.up_notMem_expand hexpand) hs hput

/-! ### Segments -/

/-- The files, where they are and how they are reached stay. -/
def KeepsFiles (s t : Session) : Prop :=
  t.files = s.files ∧ t.locations = s.locations ∧ t.services = s.services

/-- Segments leave files alone, as far as the lines do that they lead to. -/
theorem keepsFiles : SegmentCongruence fun _ x _ => Follows x KeepsFiles := by
  have hrefl : ∀ s, KeepsFiles s s := fun s => ⟨rfl, rfl, rfl⟩
  have htrans : ∀ s t u, KeepsFiles s t → KeepsFiles t u → KeepsFiles s u :=
    fun s t u h h' => ⟨h'.1.trans h.1, h'.2.1.trans h.2.1, h'.2.2.trans h.2.2⟩
  have htell : TellingCongruence fun _ x _ => Follows x KeepsFiles :=
    tellingCongruence_follows hrefl htrans fun _ _ => ⟨rfl, rfl, rfl⟩
  refine segmentCongruence_follows htrans (fun s t h => ⟨h.files, h.locations, h.services⟩) ?_ ?_ ?_
  · exact htell.register_of_change fun _ _ => ⟨rfl, rfl, rfl⟩
  · exact htell.unregister_of_change fun _ _ => ⟨rfl, rfl, rfl⟩
  · exact fun op => htell.buckets_of_change op.apply fun _ _ _ => ⟨rfl, rfl, rfl⟩

/-- A segment that leads to no line leaves files alone. -/
theorem keepsFiles_runReported (text : String) (data : Value) :
    Follows (runReported (fun _ => pure ()) text data) KeepsFiles :=
  keepsFiles.runReported (f := fun _ => pure ()) (g := fun _ => pure ())
    (fun _ _ => ⟨rfl, rfl, rfl⟩) text data

/-! ### Lines -/

/-- A step of a line in which segments lead to no lines adds its text. -/
theorem addsTo_of_chainMove (hs : s.files.WellFormed)
    (h : ChainMove (chainRunner fun _ => pure ()) c parts s st rest t) :
    s.files.AddsTo (fun file => s.addedBy file st) t.files ∧
      t.locations = s.locations ∧ t.services = s.services := by
  have hnone : s.files.AddsTo noText s.files := .refl hs
  -- Only a payload that is appended adds something; messages are told elsewhere.
  cases h with
  | operator => exact ⟨hnone, rfl, rfl⟩
  | ran _ h =>
    obtain ⟨hfiles, hlocations, hservices⟩ := (keepsFiles_runReported _ _).of_returns h
    exact ⟨hfiles ▸ hnone, hlocations, hservices⟩
  | skipped => exact ⟨hnone, rfl, rfl⟩
  | appended _ h =>
    refine ⟨addsTo_of_appendPayload hs h, ?_⟩
    obtain ⟨files, ⟨-, rfl⟩ | ⟨-, message, rfl⟩⟩ := returns_appendPayload h <;> exact ⟨rfl, rfl⟩
  | notAppended => exact ⟨hnone, rfl, rfl⟩
  | operatorForPath h =>
    obtain rfl := returns_say_iff.mp h
    exact ⟨hnone, rfl, rfl⟩
  | nothingForPath h =>
    obtain rfl := returns_say_iff.mp h
    exact ⟨hnone, rfl, rfl⟩

theorem addedText_congr (hlocations : t.locations = s.locations)
    (hservices : t.services = s.services) : t.addedText = s.addedText := by
  have htarget : t.appendTarget? = s.appendTarget? := by
    funext path
    unfold Session.appendTarget? Session.appendRoot?
    rw [hlocations, hservices]
  funext steps file
  unfold Session.addedText
  congr 2
  funext st
  unfold Session.addedBy
  rw [htarget]

/-- The steps of a line in which segments lead to no lines add their texts, one after another. -/
theorem addsTo_of_chainTrace (hs : s.files.WellFormed)
    (h : ChainTrace (chainRunner fun _ => pure ()) c parts s steps rest t) :
    s.files.AddsTo (s.addedText steps) t.files := by
  induction h with
  | nil => exact .refl hs
  | @cons c parts s st mid u steps rest t hm _ ih =>
    obtain ⟨hstep, hlocations, hservices⟩ := addsTo_of_chainMove hs hm
    have hrest := ih hstep.wellFormed
    rw [addedText_congr hlocations hservices] at hrest
    have hjoin : s.addedText (st :: steps) =
        fun file => s.addedBy file st ++ s.addedText steps file := by
      funext file
      exact String.join_cons
    rw [hjoin]
    exact hstep.trans hrest

/-- Where a line that leads to no lines stops, it leaves files as its steps have. -/
theorem files_of_chainHalt (h : ChainHalt (chainRunner fun _ => pure ()) c parts s e t) :
    t.files = s.files := by
  cases h with
  | segment _ h => exact ((keepsFiles_runReported _ _).of_stops h).1
  | append _ h =>
    obtain ⟨fault, -, -, rfl⟩ := stops_appendPayload_iff.mp h
    rfl
  | operatorForPath h => exact absurd h not_stops_say
  | nothingForPath h => exact absurd h not_stops_say

/-! ### Where payloads come from -/

end Run

/-- Whether a step leaves the payload that is pending alone. -/
def ChainStep.keepsPayload : ChainStep → Bool
  | .ran _ _ outcome _ => outcome.payload.isNone
  | .appended _ _ _ => false
  | _ => true

/-- The segment that runs in step `giver` gives the payload that is appended in step `taker`:
neither does a segment in between give another one, nor is `>>` performed there. -/
def Supplies (steps : List ChainStep) (giver taker : Nat) : Prop :=
  giver < taker ∧
  (∃ text input outcome record path done,
    steps[giver]? = some (.ran text input outcome record) ∧ record.outputCalled = true ∧
      steps[taker]? = some (.appended path record.data done)) ∧
  ∀ k st, giver < k → k < taker → steps[k]? = some st → st.keepsPayload = true

/-- A segment supplies one `>>` at most. -/
theorem Supplies.unique {steps : List ChainStep} {giver taker taker' : Nat}
    (h : Supplies steps giver taker) (h' : Supplies steps giver taker') : taker = taker' := by
  have hle : ∀ {taker taker' : Nat}, Supplies steps giver taker → Supplies steps giver taker' →
      taker' ≤ taker := by
    intro taker taker' h h'
    by_contra hlt
    -- The `>>` that comes first would stand between the segment and the other one.
    obtain ⟨_, _, _, _, path, done, -, -, happended⟩ := h.2.1
    have hkeeps := h'.2.2 taker _ h.1 (Nat.lt_of_not_le hlt) happended
    cases hkeeps
  exact Nat.le_antisymm (hle h' h) (hle h h')

namespace Run

variable {f : String → Run Unit} {line path : String} {payload : Value} {done : Bool}
  {s t : Session} {parts rest : List Part} {pre post steps : List ChainStep}

/-- The last segment of some steps that gives something has given a payload, and `>>` has not been
performed since. -/
def GivenBy (steps : List ChainStep) (payload : Value) : Prop :=
  ∃ before text input outcome record between,
    steps = before ++ .ran text input outcome record :: between ∧ record.outputCalled = true ∧
      record.data = payload ∧ ∀ st ∈ between, st.keepsPayload = true

theorem GivenBy.snoc {st : ChainStep} (h : GivenBy steps payload) (hst : st.keepsPayload = true) :
    GivenBy (steps ++ [st]) payload := by
  obtain ⟨before, text, input, outcome, record, between, rfl, hcalled, hdata, hbetween⟩ := h
  refine ⟨before, text, input, outcome, record, between ++ [st], by simp, hcalled, hdata, ?_⟩
  intro other hother
  rcases List.mem_append.mp hother with hother | hother
  · exact hbetween other hother
  · rwa [List.mem_singleton.mp hother]

theorem after_payload {c : ChainState} {st : ChainStep} (h : st.keepsPayload = true) :
    (c.after st).payload = c.payload := by
  cases st with
  | operator op => cases op <;> rfl
  | ran text input outcome record =>
    rw [ChainState.after, ChainState.afterSegment]
    simp [Option.isNone_iff_eq_none.mp h]
  | appended => cases h
  | _ => rfl

/-- What is pending after some steps was given by the last segment that gave something. -/
theorem givenBy_of_lineTrace (h : LineTrace f line s steps rest t)
    (hpayload : (ChainState.afterAll {} steps).payload.isNull = false) :
    GivenBy steps (ChainState.afterAll {} steps).payload := by
  induction steps using List.reverseRecOn generalizing rest t with
  | nil => cases hpayload
  | append_singleton steps st ih =>
    obtain ⟨mid, u, hpre, hm⟩ := ChainTrace.last_move h
    rw [ChainState.afterAll_append, ChainState.afterAll_cons, ChainState.afterAll_nil] at *
    cases hst : st.keepsPayload with
    | true =>
      rw [after_payload hst] at hpayload ⊢
      exact (ih hpre hpayload).snoc hst
    | false =>
      cases st with
      | ran text input outcome record =>
        rcases ran_cases hm with rfl | ⟨rfl, -⟩
        · -- A payload that is there was given.
          have hpending : record.payload.isNull = false := hpayload
          have hcalled : record.outputCalled = true := by
            by_contra hnot
            rw [ProcessRecord.payload, if_neg hnot] at hpending
            cases hpending
          refine ⟨steps, text, input, _, record, [], rfl, hcalled, ?_, fun _ h => by cases h⟩
          show record.data = record.payload
          rw [ProcessRecord.payload, if_pos hcalled]
        · cases hst
      | appended => cases hpayload
      | _ => cases hst

/-- What is appended was given by the last segment that gave something, and `>>` has not been
performed since. -/
theorem supplies_of_appended (h : LineTrace f line s steps rest t) {taker : Nat}
    (hst : steps[taker]? = some (.appended path payload done)) (hpayload : payload.isNull = false) :
    ∃ giver, Supplies steps giver taker := by
  obtain ⟨hlt, hget⟩ := List.getElem?_eq_some_iff.mp hst
  have hsplit : steps =
      steps.take taker ++ .appended path payload done :: steps.drop (taker + 1) := by
    rw [← hget, ← List.drop_eq_getElem_cons hlt, List.take_append_drop]
  rw [hsplit] at h
  obtain ⟨mid, u, hpre, htail⟩ := ChainTrace.split h
  obtain rfl : payload = (ChainState.afterAll {} (steps.take taker)).payload := by
    cases htail with
    | cons hm _ =>
      cases hm
      rfl
  obtain ⟨before, text, input, outcome, record, between, hbefore, hcalled, hdata, hbetween⟩ :=
    givenBy_of_lineTrace hpre hpayload
  have hlength : taker = before.length + (between.length + 1) := by
    have := congrArg List.length hbefore
    rw [List.length_take, Nat.min_eq_left (Nat.le_of_lt hlt)] at this
    simpa using this
  -- In front of `>>` the steps are those in front of the segment, the segment, and those between.
  have hfront : ∀ k, k < taker →
      steps[k]? = (before ++ .ran text input outcome record :: between)[k]? := by
    intro k hk
    rw [← hbefore, List.getElem?_take_of_lt hk]
  refine ⟨before.length, by omega, ⟨text, input, outcome, record, path, done, ?_, hcalled, ?_⟩, ?_⟩
  · rw [hfront _ (by omega)]
    simp
  · rw [hdata, hst]
  · intro k st hk hk' hget
    rw [hfront k hk', List.getElem?_append_right (by omega)] at hget
    obtain ⟨n, hn⟩ : ∃ n, k - before.length = n + 1 := ⟨k - before.length - 1, by omega⟩
    rw [hn, List.getElem?_cons_succ] at hget
    exact hbetween st (List.mem_of_getElem? hget)

/-! ### What a line appends -/

/-- A line that leads to no lines appends every payload once and loses nothing.  What its steps have
come to when it ends, or when it stops early, is what files hold: a file stays one, with what was in
it in front and the payloads of the steps in which `>>` was performed on it, and succeeded, behind,
one after another.  Every payload that `>>` takes was given by the last segment that gave something,
and no segment supplies it twice. -/
theorem line_appends_once (depth : Nat) (line : String) (s : Session) (hs : s.files.WellFormed)
    (hleads : ∀ line' s', ¬ LeadsTo (nestedWithin depth) line s line' s') :
    ∃ steps rest u, LineTrace (nestedWithin depth) line s steps rest u ∧
      (∀ ok t, Returns (runLineWithin (depth + 1) line) s ok t → rest = [] ∧ u = t) ∧
      s.files.AddsTo (s.addedText steps) (runLineWithin (depth + 1) line s).2.files ∧
      (∀ taker path payload done, steps[taker]? = some (.appended path payload done) →
        payload.isNull = false → ∃ giver, Supplies steps giver taker) ∧
      ∀ giver taker taker', Supplies steps giver taker → Supplies steps giver taker' →
        taker = taker' := by
  have hcongr : ∀ line' s', LeadsTo (nestedWithin depth) line s line' s' →
      nestedWithin depth line' s' = (pure () : Run Unit) s' :=
    fun line' s' h => absurd h (hleads line' s')
  rw [runLineWithin_succ]
  have hadds : ∀ {steps rest u}, LineTrace (nestedWithin depth) line s steps rest u →
      s.files.AddsTo (s.addedText steps) u.files :=
    fun ht => addsTo_of_chainTrace hs (lineTrace_congr (g := fun _ => pure ()) hcongr ht)
  rcases returns_or_stops (runLineWith (nestedWithin depth) line) s with
    ⟨ok, t, h⟩ | ⟨e, t, h⟩
  · obtain ⟨steps, ht, -⟩ := returns_runLineWith_iff.mp h
    refine ⟨steps, [], t, ht, fun ok' t' h' => ⟨rfl, (h.unique h').2⟩, ?_,
      fun taker path payload done => supplies_of_appended ht, fun _ _ _ => Supplies.unique⟩
    rw [show runLineWith (nestedWithin depth) line s = _ from h]
    exact hadds ht
  · obtain ⟨steps, rest, u, ht, hh⟩ := stops_runLineWith_iff.mp h
    refine ⟨steps, rest, u, ht, fun ok' t' h' => absurd h h'.not_stops, ?_,
      fun taker path payload done => supplies_of_appended ht, fun _ _ _ => Supplies.unique⟩
    rw [show runLineWith (nestedWithin depth) line s = _ from h]
    -- The line stops where it would without running further lines.
    have hhalt :
        ChainHalt (chainRunner fun _ => pure ()) (ChainState.afterAll {} steps) rest u e t :=
      chainHalt_congr (fun text rest' hrest hrun => SegmentStarts.runReported_congr
        ⟨steps, rest', hrest ▸ ht, hrun, rfl⟩ hcongr) hh
    rw [files_of_chainHalt hhalt]
    exact hadds ht

/-- A segment whose command asks for no description and performs no action that runs a line leads to
no line. -/
theorem not_segmentLeads {rerun : String → Run Unit} {start : Session} {text : String}
    {data : Value}
    (hask : (start.delivery? data maxExpansions text).all (fun d => !d.2.asksForHelp) = true)
    (hmoves : (dispatch? start text data).all (fun d =>
      (commandMoves rerun d.2.2.1 d.1 d.2.1 d.2.2.2).all (·.line?.isNone)) = true)
    (line' : String) (s' : Session) : ¬ SegmentLeads rerun start text data line' s' := by
  intro h
  cases h with
  | help hd hasks =>
    rw [hd] at hask
    simp [hasks] at hask
  | action hd hm hline =>
    rw [dispatch?_eq_some_iff.mpr hd] at hmoves
    have hnone := List.all_eq_true.mp hmoves _ hm
    rw [hline] at hnone
    cases hnone

/-- The parts of a line behind which everything is a path of `>>` hold no segment that runs. -/
theorem not_comesTo_segment {r : ChainRunner Run} {c : ChainState} {paths : List String}
    {text : String} :
    ¬ ChainTrace r c (paths.flatMap fun path => [.operator .append, .segment path]) s steps
      (.segment text :: rest) t := by
  intro h
  induction paths generalizing c s steps with
  | nil =>
    cases h with
    | cons hm => cases hm
  | cons path paths ih =>
    rw [List.flatMap_cons] at h
    cases h with
    | cons hm ht =>
      cases hm with
      | operator hop => exact hop rfl
      | appended => exact ih ht
      | notAppended => exact ih ht

/-- A line that consists of a segment and redirects behind it comes to no other segment. -/
theorem segmentStarts_of_redirects {paths : List String} {text first : String} {data : Value}
    {start : Session}
    (hsplit : splitLine line =
      .segment first :: paths.flatMap fun path => [.operator .append, .segment path])
    (h : SegmentStarts f line s text data start) : text = first ∧ data = .null ∧ start = s := by
  obtain ⟨steps, rest, ht, -, rfl⟩ := h
  unfold LineTrace at ht
  rw [hsplit] at ht
  cases ht with
  | nil => exact ⟨rfl, rfl, rfl⟩
  | cons hm ht =>
    cases hm with
    | ran => exact absurd ht not_comesTo_segment
    | skipped hrun => cases hrun

/-- A line that appends a payload to one file, and then nothing to another. -/
theorem payload_is_appended_once :
    let shell : Session := .offering [.scripted "produce" [.output (.text "payload")] []]
    let line := "produce >> notes >> rest"
    shell.files.WellFormed ∧
    (∀ line' s', ¬ LeadsTo (nestedWithin 0) line shell line' s') ∧
    ∃ steps rest u, LineTrace (nestedWithin 0) line shell steps rest u ∧
      (∀ ok t, Returns (runLineWithin 1 line) shell ok t → rest = [] ∧ u = t) ∧
      shell.files.AddsTo (shell.addedText steps) (runLineWithin 1 line shell).2.files ∧
      (∀ taker path payload done, steps[taker]? = some (.appended path payload done) →
        payload.isNull = false → ∃ giver, Supplies steps giver taker) ∧
      ∀ giver taker taker', Supplies steps giver taker → Supplies steps giver taker' →
        taker = taker' := by
  intro shell line
  have hfiles : shell.files.WellFormed := by decide +kernel
  have hsplit : splitLine line = .segment "produce" ::
      ["notes", "rest"].flatMap fun path => [.operator .append, .segment path] := by decide +kernel
  have hleads : ∀ line' s', ¬ LeadsTo (nestedWithin 0) line shell line' s' := by
    rintro line' s' ⟨text, data, start, hstarts, h⟩
    obtain ⟨rfl, rfl, rfl⟩ := segmentStarts_of_redirects hsplit hstarts
    exact not_segmentLeads (by decide +kernel) (by decide +kernel) line' s' h
  exact ⟨hfiles, hleads, line_appends_once 0 line shell hfiles hleads⟩

end Run

end CommandShell
