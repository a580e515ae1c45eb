import CommandShell.Proofs.Line.Faults
import CommandShell.Proofs.Line.Nesting
import CommandShell.Shell.Host
import Mathlib.Data.List.Induction
import Mathlib.Logic.Relation

/-!
# Requests for descriptions

A segment that asks for a description runs a further line, `help` with the segment behind it.  That
line is cut at the operators anew, so what an alias stands for may have operators that count only
now, and every segment of the line may be expanded as often as any other.  A line ends just where
such requests do not go on for ever and all other segments on the way end; the bound on expansions
does not see to the former.

## Main definitions

* `Invocation.asksForHelp`, `Session.helpRequest?`: the segments that ask for a description.
* `Ends`: a line ends if it may nest deep enough.
* `Requests`: a line leads to a further one by asking for a description.
* `OthersEnd`: the segments of a line end that do not ask for a description.

## Main results

* `runSegment_of_helpRequest`: what a segment does that asks for a description.
* `not_stops_runSegmentWithin`: aliases alone always come to an end.
* `not_ends_of_requests`: lines that do not end, because requests always lead on.
* `ends_iff`: which lines end.
* `looping_alias_never_ends`: a line that does not end.
-/

namespace CommandShell

/-- Whether a command asks for a description instead of being run. -/
def Invocation.asksForHelp (i : Invocation) : Bool :=
  !(wants i.args "v" || wants i.args "version") && !i.command.startsWith "help" &&
    (wants i.args "h" || wants i.args "help")

/-- The line that a segment runs which asks for a description. -/
def Session.helpRequest? (s : Session) (segment : String) : Option String :=
  ((s.delivery? .null maxExpansions segment).filter (·.2.asksForHelp)).map
    fun d => Run.helpLine d.2.raw

namespace Run

variable {rerun : String → Run Unit} {line text inner : String} {data : Value}
  {s s' t u v : Session} {steps : List ChainStep} {rest : List Part} {depth depth' n : Nat}
  {p : ShellProcessor} {i : Invocation} {e : Stop}

/-! ### Segments that ask for a description -/

/-- Which processor a segment reaches does not depend on the payload. -/
theorem delivery?_eq_map (s : Session) (data : Value) (n : Nat) (text : String) :
    s.delivery? data n text =
      (s.delivery? .null n text).map fun d => (d.1, { d.2 with data := data }) := by
  induction n generalizing text with
  | zero =>
    unfold Session.delivery?
    cases s.resolve? text <;> rfl
  | succ n ih =>
    unfold Session.delivery?
    cases s.resolve? text with
    | some p => rfl
    | none =>
      cases s.expand? text with
      | none => rfl
      | some expanded => exact ih expanded

theorem reach_of_asksForHelp (h : i.asksForHelp = true) :
    reach rerun p i = recover (rerun (helpLine i.raw)) reportFailure := by
  unfold Invocation.asksForHelp at h
  simp only [Bool.and_eq_true, Bool.not_eq_true'] at h
  obtain ⟨⟨hversion, hcommand⟩, hhelp⟩ := h
  unfold reach
  rw [if_neg (by simp [hversion]), if_pos (by simp [hcommand, hhelp])]
  rfl

/-- A segment that asks for a description runs a line for it, whatever is piped in. -/
theorem runSegment_of_helpRequest (h : s.helpRequest? text = some inner) (data : Value) :
    runSegment rerun text data s =
      ensuring (recover (rerun inner) reportFailure) Session.finished s.started := by
  obtain ⟨⟨p, i⟩, hd, hinner⟩ := Option.map_eq_some_iff.mp h
  obtain ⟨hd, hasks⟩ := Option.filter_eq_some_iff.mp hd
  have hdata : s.delivery? data maxExpansions text = some (p, { i with data := data }) := by
    rw [delivery?_eq_map, hd]
    rfl
  unfold runSegment
  have hasks' : Invocation.asksForHelp { i with data := data } = true := hasks
  rw [runSegmentWithin_of_delivery hdata, reach_of_asksForHelp hasks', ← hinner]

/-- A segment that asks for a description nests too deeply where the line for it does. -/
theorem stops_runSegment_of_helpRequest (h : s.helpRequest? text = some inner) :
    (∃ t, Stops (runSegment rerun text data) s .unfinished t) ↔
      ∃ t, Stops (rerun inner) s.started .unfinished t := by
  have hsegment : ∀ t, Stops (runSegment rerun text data) s .unfinished t ↔
      ∃ t', Stops (recover (rerun inner) reportFailure) s.started .unfinished t' ∧
        t = t'.finished := by
    intro t
    unfold Stops
    rw [runSegment_of_helpRequest h data]
    exact stops_ensuring_iff
  -- Any other failure of the line is reported, and does not get through.
  have hrecover : ∀ t, Stops (recover (rerun inner) reportFailure) s.started .unfinished t ↔
      Stops (rerun inner) s.started .unfinished t := by
    intro t
    rw [stops_recover_iff]
    constructor
    · rintro (⟨-, h⟩ | ⟨f, t', -, h⟩)
      · exact h
      · exact absurd h (stopsOnly_reportFailure (P := fun _ => False) _ _ _)
    · intro h
      exact Or.inl ⟨rfl, h⟩
  constructor
  · rintro ⟨t, ht⟩
    obtain ⟨t', ht', -⟩ := (hsegment t).mp ht
    exact ⟨t', (hrecover t').mp ht'⟩
  · rintro ⟨t, ht⟩
    exact ⟨t.finished, (hsegment _).mpr ⟨t, (hrecover t).mpr ht, rfl⟩⟩

/-! ### Lines that end -/

/-- A line does not nest too deeply if lines may lead to one another so many levels deep. -/
def EndsWithin (depth : Nat) (line : String) (s : Session) : Prop :=
  ∀ t, ¬ Stops (runLineWithin depth line) s .unfinished t

/-- A line ends if lines may lead to one another deep enough. -/
def Ends (line : String) (s : Session) : Prop :=
  ∃ depth, EndsWithin depth line s

/-- Whether a segment ends if lines may lead to one another deep enough. -/
def SegmentEnds (text : String) (data : Value) (s : Session) : Prop :=
  ∃ depth, ∀ t, ¬ Stops (runSegment (nestedWithin depth) text data) s .unfinished t

/-- A line comes to a segment that runs, with a payload and in a session. -/
def ComesToSegment (line : String) (s : Session) (text : String) (data : Value) (u : Session) :
    Prop :=
  ∃ depth steps rest, LineTrace (nestedWithin depth) line s steps (.segment text :: rest) u ∧
    (ChainState.afterAll {} steps).runNext = true ∧ data = (ChainState.afterAll {} steps).input

/-- A line with the session that it is run from. -/
abbrev LineAt := String × Session

/-- The second line comes to a segment that asks for a description and runs the first line for
it. -/
def Requests (x y : LineAt) : Prop :=
  ∃ text data u, ComesToSegment y.1 y.2 text data u ∧ u.helpRequest? text = some x.1 ∧
    x.2 = u.started

/-- All segments end that a line comes to and that do not ask for a description. -/
def OthersEnd (x : LineAt) : Prop :=
  ∀ text data u, ComesToSegment x.1 x.2 text data u → u.helpRequest? text = none →
    SegmentEnds text data u

/-- In a line that ends with some levels, every segment that it comes to ends with one less. -/
theorem EndsWithin.segment (h : EndsWithin (depth + 1) line s)
    (ht : LineTrace (nestedWithin depth) line s steps (.segment text :: rest) u)
    (hrun : (ChainState.afterAll {} steps).runNext = true) :
    ∀ t, ¬ Stops (runSegment (nestedWithin depth) text (ChainState.afterAll {} steps).input) u
      .unfinished t := by
  intro t hs
  exact h t (stops_runLineWith_unfinished_iff.mpr ⟨steps, text, rest, u, ht, hrun, hs⟩)

/-- A segment that ends with some levels does with these what it does with any other number. -/
theorem returns_runReported_of_not_stops {o : SegmentOutcome}
    (hends : ∀ t, ¬ Stops (runSegment (nestedWithin depth) text data) s .unfinished t)
    (hr : Returns (runReported (nestedWithin n) text data) s o t) :
    Returns (runReported (nestedWithin depth) text data) s o t := by
  have hreported : ∀ t, ¬ Stops (runReported (nestedWithin depth) text data) s .unfinished t :=
    fun t hs => hends t (stops_runReported_iff.mp hs).2
  -- Both numbers of levels are compared with a third one, which is enough for either.
  have hless := agrees.runReported (nestedWithin_agrees (Nat.le_max_left depth n)) text data s
    hreported
  have hmore := (agrees.runReported (nestedWithin_agrees (Nat.le_max_right depth n)) text
    data).returns hr
  exact hless.symm.trans hmore

/-- What a line does with any number of levels it does with as many as it needs. -/
theorem EndsWithin.trace (h : EndsWithin (depth + 1) line s)
    (ht : LineTrace (nestedWithin n) line s steps rest u) :
    LineTrace (nestedWithin depth) line s steps rest u := by
  -- The induction is from the end of the steps, so that each is taken behind the ones before.
  induction steps using List.reverseRecOn generalizing rest u with
  | nil =>
    cases ht with
    | nil => exact .nil
  | append_singleton pre st ih =>
    obtain ⟨mid, v, hpre, hm⟩ := ChainTrace.last_move ht
    have hpre' := ih hpre
    refine hpre'.snoc (chainMove_of_segment (fun text o t hmid hrun hr => ?_) hm)
    exact returns_runReported_of_not_stops (h.segment (hmid ▸ hpre') hrun) hr

theorem EndsWithin.comesTo (h : EndsWithin (depth + 1) line s)
    (hc : ComesToSegment line s text data u) :
    ∀ t, ¬ Stops (runSegment (nestedWithin depth) text data) u .unfinished t := by
  obtain ⟨n, steps, rest, ht, hrun, rfl⟩ := hc
  exact h.segment (h.trace ht) hrun

theorem stops_nestedWithin_unfinished_iff :
    Stops (nestedWithin depth line) s .unfinished t ↔
      Stops (runLineWithin depth line) s .unfinished t := by
  rw [nestedWithin_eq, stops_map_iff]

theorem EndsWithin.request {x : LineAt} (h : EndsWithin (depth + 1) line s)
    (hx : Requests x (line, s)) : EndsWithin depth x.1 x.2 := by
  obtain ⟨text, data, u, hc, hr, hsession⟩ := hx
  intro t ht
  have hsegment : ∃ t, Stops (runSegment (nestedWithin depth) text data) u .unfinished t := by
    refine (stops_runSegment_of_helpRequest hr).mpr ⟨t, ?_⟩
    rw [stops_nestedWithin_unfinished_iff, ← hsession]
    exact ht
  obtain ⟨t', ht'⟩ := hsegment
  exact h.comesTo hc t' ht'

/-- The requests of a line that ends come to an end, and so do all other segments on the way. -/
theorem EndsWithin.requests_end (h : EndsWithin depth line s) :
    Acc Requests (line, s) ∧
      ∀ x, Relation.ReflTransGen Requests x (line, s) → OthersEnd x := by
  -- Each request costs a level, so the levels that are left bound how often lines may follow.
  induction depth generalizing line s with
  | zero => exact absurd (stops_throw_iff.mpr ⟨rfl, rfl⟩) (h s)
  | succ depth ih =>
    constructor
    · exact Acc.intro _ fun x hx => (ih (h.request hx)).1
    · intro x hx
      rcases Relation.ReflTransGen.cases_tail hx with heq | ⟨y, hxy, hy⟩
      · obtain rfl := heq
        exact fun text data u hc _ => ⟨depth, h.comesTo hc⟩
      · exact (ih (h.request hy)).2 x hxy

/-- A line does not end from which requests always lead on to lines of the same kind. -/
theorem not_ends_of_requests {K : LineAt → Prop} {x : LineAt}
    (hon : ∀ x, K x → Ends x.1 x.2 → ∃ y, Requests y x ∧ K y) (hx : K x) : ¬ Ends x.1 x.2 := by
  rintro ⟨depth, h⟩
  -- Each request costs a level, and there is always another one.
  induction depth generalizing x with
  | zero => exact h x.2 (stops_throw_iff.mpr ⟨rfl, rfl⟩)
  | succ depth ih =>
    obtain ⟨y, hy, hk⟩ := hon x hx ⟨_, h⟩
    exact ih hk (h.request hy)

/-- A segment that ends returns to its line once the line has enough levels. -/
theorem SegmentEnds.exists_returns (h : SegmentEnds text data s) :
    ∃ more, ∀ depth, more ≤ depth →
      ∃ o t, Returns (runReported (nestedWithin depth) text data) s o t := by
  obtain ⟨more, hends⟩ := h
  refine ⟨more, fun depth hle => ?_⟩
  have hagrees := agrees.runSegmentWithin (nestedWithin_agrees hle) data maxExpansions text s hends
  rcases returns_or_stops (runReported (nestedWithin depth) text data) s with
    ⟨o, t, hr⟩ | ⟨e, t, hs⟩
  · exact ⟨o, t, hr⟩
  · exact absurd (hagrees.symm.trans (stops_runReported_iff.mp hs).2) (hends t)

/-- A line ends if every segment ends that it comes to. -/
theorem ends_of_segments (h : ∀ text data u, ComesToSegment line s text data u →
    SegmentEnds text data u) : Ends line s := by
  -- A trace is extended up to the end of the line, with more levels where a segment needs them.
  suffices hext : ∀ k depth steps rest u, rest.length = k →
      LineTrace (nestedWithin depth) line s steps rest u → Ends line s from
    hext _ 0 [] _ s rfl .nil
  intro k
  induction k using Nat.strongRecOn with
  | _ k ih =>
    intro depth steps rest u hlen ht
    cases rest with
    | nil =>
      have hr := returns_runLineWith_iff.mpr ⟨steps, ht, rfl⟩
      exact ⟨depth + 1, fun t hs => hr.not_stops hs⟩
    | cons part tail =>
      rcases exists_move_or_halt (r := chainRunner (nestedWithin depth))
        (ChainState.afterAll {} steps) part tail u with ⟨st, mid, v, hm⟩ | ⟨e, v, hh⟩
      · exact ih _ (hlen ▸ hm.length_lt) depth (steps ++ [st]) mid v rfl (ht.snoc hm)
      · have hstops := stops_runLineWith_iff.mpr ⟨steps, _, u, ht, hh⟩
        obtain ⟨hrun, ⟨path, rest, f, -, rfl, -⟩ | ⟨text, rest, hparts, rfl, -⟩⟩ :=
          chainHalt_iff.mp hh
        · exact ⟨depth + 1, fun t hs => by cases (hstops.unique hs).1⟩
        · obtain ⟨rfl, rfl⟩ := List.cons.inj hparts
          obtain ⟨more, hmore⟩ :=
            (h text _ u ⟨depth, steps, tail, ht, hrun, rfl⟩).exists_returns
          obtain ⟨o, v, hr⟩ := hmore (max depth more) (Nat.le_max_right depth more)
          have ht' := ht.of_le (Nat.le_max_left depth more)
          exact ih tail.length (hlen ▸ Nat.lt_succ_self _) _ _ tail v rfl (ht'.snoc (.ran hrun hr))

/-- Which lines end: those whose requests for descriptions do not go on for ever, if all other
segments end, in the line itself and in those that are requested. -/
theorem ends_iff_requests (line : String) (s : Session) :
    Ends line s ↔ Acc Requests (line, s) ∧
      ∀ x, Relation.ReflTransGen Requests x (line, s) → OthersEnd x := by
  constructor
  · rintro ⟨depth, h⟩
    exact h.requests_end
  · rintro ⟨hacc, hothers⟩
    suffices hends : ∀ x : LineAt, Acc Requests x →
        (∀ y, Relation.ReflTransGen Requests y x → OthersEnd y) → Ends x.1 x.2 from
      hends (line, s) hacc hothers
    intro x hacc
    -- What is requested ends by induction along the requests, and all else by assumption.
    induction hacc with
    | intro x _ ih =>
      intro hothers
      refine ends_of_segments fun text data u hc => ?_
      cases hr : u.helpRequest? text with
      | none => exact hothers x .refl text data u hc hr
      | some inner =>
        have hx : Requests (inner, u.started) x := ⟨text, data, u, hc, hr, rfl⟩
        obtain ⟨depth, hinner⟩ := ih _ hx fun y hy => hothers y (hy.tail hx)
        refine ⟨depth, fun t ht => ?_⟩
        obtain ⟨t', ht'⟩ := (stops_runSegment_of_helpRequest hr).mp ⟨t, ht⟩
        exact hinner t' (stops_nestedWithin_unfinished_iff.mp ht')

/-- A help line that is one segment and leads straight to a command requests nothing more. -/
theorem not_requests_of_help {segment : String} (hline : splitLine inner = [.segment segment])
    (hp : v.resolve? segment = some p)
    (hcommand : (readSegment segment).name.startsWith "help" = true) (x : LineAt) :
    ¬ Requests x (inner, v) := by
  rintro ⟨text, data, u, ⟨depth, steps, rest, ht, -, -⟩, hr, -⟩
  unfold LineTrace at ht
  rw [hline] at ht
  have hparts := ht.parts_eq
  cases steps with
  | nil =>
    cases ht with
    | nil =>
      have hd : v.delivery? .null maxExpansions segment =
          some (p, .ofSegment segment p.decl.parameters .null) := by
        unfold maxExpansions Session.delivery?
        rw [hp]
      let i : Invocation := .ofSegment segment p.decl.parameters .null
      have hasks : i.asksForHelp = false := by
        have hname : i.command.startsWith "help" = true := hcommand
        simp [Invocation.asksForHelp, hname]
      rw [Session.helpRequest?, hd, Option.filter_some, if_neg (by simp [i, hasks])] at hr
      cases hr
  | cons st steps =>
    -- A step before the segment would take a part, and the line has only one.
    have hlength := congrArg List.length hparts
    cases st <;> simp [ChainStep.parts] at hlength

/-- A segment that is no command stops only where what it stands for does. -/
theorem not_stops_runSegmentWith {expand : String → String → Run Unit}
    (hnone : s.resolve? text = none)
    (hexpand : ∀ word expanded u, s.expand? text = some expanded →
      ¬ Stops (expand word expanded) s.started e u) :
    ¬ Stops (runSegmentWith rerun data expand text) s e t := by
  intro hs
  unfold Stops at hs
  cases he : s.expand? text with
  | none =>
    rw [runSegmentWith_of_unknown hnone he] at hs
    obtain ⟨u, hu, -⟩ := stops_ensuring_iff.mp hs
    exact stopsOnly_commandNotFound (P := fun _ => False) _ _ _ hu
  | some expanded =>
    rw [runSegmentWith_of_expand hnone he] at hs
    obtain ⟨u, hu, -⟩ := stops_ensuring_iff.mp hs
    exact hexpand _ expanded u he hu

/-- A segment that leads to no command never stops: it is expanded so often, and then reported. -/
theorem not_stops_runSegmentWithin (h : s.delivery? .null n text = none) :
    ¬ Stops (runSegmentWithin rerun data n text) s e t := by
  induction n generalizing text s t with
  | zero =>
    unfold Session.delivery? at h
    refine not_stops_runSegmentWith (Option.map_eq_none_iff.mp h) fun word expanded u _ => ?_
    exact stopsOnly_expansionTooDeep (P := fun _ => False) _ _ _
  | succ n ih =>
    unfold Session.delivery? at h
    split at h
    · cases h
    · rename_i hnone
      refine not_stops_runSegmentWith hnone fun word expanded u he => ih ?_
      rw [he, Option.bind_some] at h
      rwa [Session.started_delivery?]

/-- Which lines end.  A line ends just where its requests for descriptions do not go on for ever and
all other segments on the way end; then it does the same however much deeper lines may nest.  What
aliases stand for goes on for ever only through requests: a segment that leads to no command ends
whatever the aliases are, and a help line that is one segment and leads straight to a command
requests nothing more. -/
theorem ends_iff (line : String) (s : Session) :
    (Ends line s ↔ Acc Requests (line, s) ∧
      ∀ x, Relation.ReflTransGen Requests x (line, s) → OthersEnd x) ∧
    (∀ depth depth', EndsWithin depth line s → depth ≤ depth' →
      runLineWithin depth' line s = runLineWithin depth line s) ∧
    (∀ text data u, Session.delivery? u .null maxExpansions text = none →
      SegmentEnds text data u) ∧
    (∀ inner v segment p, splitLine inner = [.segment segment] →
      Session.resolve? v segment = some p →
      (readSegment segment).name.startsWith "help" = true → ∀ x, ¬ Requests x (inner, v)) :=
  ⟨ends_iff_requests line s, fun _ _ h hle => runLineWithin_agrees hle line s h,
    fun _ _ _ hd => ⟨0, fun _ => not_stops_runSegmentWithin hd⟩,
    fun _ _ _ _ hline hp hcommand => not_requests_of_help hline hp hcommand⟩

end Run

/-! ### An endless line -/

namespace Session

/-- What decides where a segment leads. -/
def lookup (s : Session) : Registry Action × Option ShellProcessor × AliasTable :=
  (s.registry, s.pinned, s.space.aliases)

variable {s t : Session}

theorem delivery?_congr (h : s.lookup = t.lookup) (data : Value) (n : Nat) (text : String) :
    s.delivery? data n text = t.delivery? data n text := by
  obtain ⟨hregistry, h⟩ := Prod.mk.inj h
  obtain ⟨hpinned, haliases⟩ := Prod.mk.inj h
  have hresolve : ∀ text, s.resolve? text = t.resolve? text := by
    intro text
    unfold resolve? commands
    rw [hregistry, hpinned]
  have hexpand : ∀ text, s.expand? text = t.expand? text := by
    intro text
    unfold expand? expansion? aliasTable
    rw [hregistry, haliases]
  induction n generalizing text with
  | zero =>
    unfold delivery?
    rw [hresolve]
  | succ n ih =>
    unfold delivery?
    rw [hresolve, hexpand, funext ih]

theorem helpRequest?_congr (h : s.lookup = t.lookup) (text : String) :
    s.helpRequest? text = t.helpRequest? text := by
  unfold helpRequest?
  rw [delivery?_congr h]

end Session

namespace Run

variable {rerun : String → Run Unit} {s t u : Session} {p : ShellProcessor} {i : Invocation}
  {text : String} {data : Value}

/-- What is only told does not change where segments lead. -/
theorem keepsLookup : TellingCongruence fun _ x _ => Keeps x Session.lookup :=
  tellingCongruence_keeps fun _ _ => rfl

theorem keepsLookup_openScope : Keeps (openScope p) Session.lookup := by
  have hspace : ∀ (space : StateSpace) name initial,
      (space.openBucket name initial).aliases = space.aliases := by
    intro space name initial
    unfold StateSpace.openBucket
    split <;> rfl
  have hbucket : Keeps (openBucket p) Session.lookup := by
    refine keeps_get.bind fun s => Keeps.bind ?_ fun _ => keeps_pure
    intro t
    unfold modifyBuckets
    rw [buckets_apply]
    unfold Session.lookup
    rw [hspace]
  exact hbucket.bind fun _ => Keeps.bind (fun _ => rfl) fun _ => keeps_pure

theorem keepsLookup_settleFault (e : Fault) : Keeps (settleFault e) Session.lookup := by
  have habort : Keeps abort Session.lookup := keeps_abort fun _ _ _ _ => rfl
  unfold settleFault
  split
  · exact habort.bind fun _ => Keeps.ite (fun _ => rfl) (fun _ => rfl)
  · exact fun _ => rfl

/-- What a command asks to describe adds nothing to its description. -/
def PlainlyDescribed (i : Invocation) (s : Session) : Prop :=
  ∀ name chain q, (splitWords i.command).drop 1 = name :: chain →
    s.registry.find? name chain = some q → q.decl.describer = none

theorem PlainlyDescribed.congr (h : PlainlyDescribed i s) (ht : t.lookup = s.lookup) :
    PlainlyDescribed i t := by
  intro name chain q hwords hq
  rw [(Prod.mk.inj ht).1] at hq
  exact h name chain q hwords hq

/-- Where segments lead is not changed by describing a command that adds nothing to its description,
or by listing all commands. -/
theorem lookup_help {c : Scope} (h : PlainlyDescribed i s) :
    (help rerun c i s).2.lookup = s.lookup := by
  unfold help
  cases hwords : (splitWords i.command).drop 1 with
  | nil => exact keepsLookup.describeAll s
  | cons name chain =>
    dsimp only
    rw [get_bind_apply]
    cases hq : s.registry.find? name chain with
    | some q =>
      exact keepsLookup.describe (f := rerun) (g := rerun) c q
        (fun d hd => absurd hd (by simp [h name chain q hwords hq])) s
    | none => rfl

theorem lookup_dispatch_help (hhandler : p.decl.handler = .help) (hhooks : p.decl.hooks = [])
    (h : PlainlyDescribed i s) : (dispatch rerun p i s).2.lookup = s.lookup := by
  refine keepsLookup_openScope.apply_bind fun c t ht => ?_
  have hbetween : handleBetweenHooks rerun c p i t = (help rerun c i >>= fun _ => pure ()) t := by
    unfold handleBetweenHooks runHooks Processor.hookScripts
    rw [hhandler, hhooks]
    rfl
  have hhelp : (handleBetweenHooks rerun c p i t).2.lookup = t.lookup := by
    rw [hbetween, bind_apply]
    have hkept : (help rerun c i t).2.lookup = t.lookup := lookup_help (h.congr ht)
    rcases hr : help rerun c i t with ⟨e | a, u⟩ <;> rw [hr] at hkept <;> exact hkept
  rw [← ht, ← hhelp, recover_apply]
  rcases handleBetweenHooks rerun c p i t with ⟨(f | -) | a, u⟩
  · exact keepsLookup_settleFault f u
  · rfl
  · rfl

theorem lookup_reachChecked_help (hhandler : p.decl.handler = .help) (hhooks : p.decl.hooks = [])
    (h : PlainlyDescribed i s) : (reachChecked rerun p i s).2.lookup = s.lookup := by
  unfold reachChecked
  split
  · rfl
  · refine keeps_ofExcept.apply_bind fun verdict t ht => ?_
    cases verdict with
    | accepted => exact (lookup_dispatch_help hhandler hhooks (h.congr ht)).trans ht
    | rejected reason => exact ht

/-- Where segments lead is not changed by a command that describes another one, which adds nothing
to its description. -/
theorem lookup_reach_help (hcommand : i.command.startsWith "help" = true)
    (hcontext : wants i.args "context" = false) (hhandler : p.decl.handler = .help)
    (hhooks : p.decl.hooks = []) (h : PlainlyDescribed i s) :
    (reach rerun p i s).2.lookup = s.lookup := by
  unfold reach
  split
  · rfl
  · rw [if_neg (by simp [hcommand]), if_neg (by simp [hcontext])]
    refine (keepsLookup.parametersFit _ _).apply_bind fun fit t ht => ?_
    split
    · exact ht
    · refine (lookup_reachChecked_help hhandler hhooks ?_).trans ht
      exact h.congr ht

/-- A segment that describes a command leaves where segments lead as it is, also when it fails. -/
theorem lookup_runReported_help (hd : s.delivery? data maxExpansions text = some (p, i))
    (hcommand : i.command.startsWith "help" = true) (hcontext : wants i.args "context" = false)
    (hhandler : p.decl.handler = .help) (hhooks : p.decl.hooks = []) (h : PlainlyDescribed i s)
    {o : SegmentOutcome} (hr : Returns (runReported rerun text data) s o t) :
    t.lookup = s.lookup := by
  have hsegment : (runSegment rerun text data s).2.lookup = s.lookup := by
    unfold runSegment
    rw [runSegmentWithin_of_delivery hd, ensuring_apply]
    exact lookup_reach_help hcommand hcontext hhandler hhooks (s := s.started) h
  rcases returns_runReported_iff.mp hr with ⟨hr, -⟩ | ⟨f, u, hs, -, rfl⟩
  · unfold Returns at hr
    rwa [hr] at hsegment
  · unfold Stops at hs
    rw [hs] at hsegment
    exact hsegment

/-- A shell with an alias for a request in front of the alias itself. -/
def loopShell : Session :=
  (execute "alias --loop=\"echo --help | loop\"" (.offering builtinProcessors)).2

/-- The line that the alias asks for. -/
def loopRequest : String := "help echo --help | loop"

/-- In the line that the alias asks for, the first segment describes `echo`. -/
theorem loopShell_describes : ∃ p i,
    loopShell.delivery? .null maxExpansions "help echo --help" = some (p, i) ∧
      i.command.startsWith "help" = true ∧ wants i.args "context" = false ∧
      p.decl.handler = .help ∧ p.decl.hooks = [] ∧ PlainlyDescribed i loopShell := by
  -- What is delivered is computed once, with all that is asked of it.
  have hd : ((loopShell.delivery? .null maxExpansions "help echo --help").any fun d =>
      d.2.command.startsWith "help" && !wants d.2.args "context" && d.1.decl.hooks.isEmpty &&
        (match d.1.decl.handler with | .help => true | _ => false) &&
        (splitWords d.2.command).drop 1 == ["echo"]) = true := by
    decide +kernel
  have hecho : ((loopShell.registry.find? "echo" []).all (·.decl.describer.isNone)) = true := by
    decide +kernel
  cases hdelivery : loopShell.delivery? .null maxExpansions "help echo --help" with
  | none =>
    rw [hdelivery] at hd
    cases hd
  | some d =>
    obtain ⟨p, i⟩ := d
    rw [hdelivery] at hd
    simp only [Option.any_some, Bool.and_eq_true, Bool.not_eq_true', List.isEmpty_iff,
      beq_iff_eq] at hd
    obtain ⟨⟨⟨⟨hcommand, hcontext⟩, hhooks⟩, hhandler⟩, hwords⟩ := hd
    refine ⟨p, i, rfl, hcommand, hcontext, ?_, hhooks, ?_⟩
    · split at hhandler
      · assumption
      · cases hhandler
    · intro name chain q hname hq
      rw [hwords] at hname
      cases hname
      rw [hq] at hecho
      exact Option.isNone_iff_eq_none.mp hecho

theorem loopShell_helpRequest? : loopShell.helpRequest? "loop" = some loopRequest := by
  decide +kernel

/-- Whatever line comes to the alias, where it means what it does in that shell, requests the line
that the alias asks for. -/
theorem requests_of_comesToLoop {line : String} (hc : ComesToSegment line s "loop" data u)
    (hu : u.lookup = loopShell.lookup) : Requests (loopRequest, u.started) (line, s) := by
  refine ⟨"loop", data, u, hc, ?_, rfl⟩
  rw [Session.helpRequest?_congr hu]
  exact loopShell_helpRequest?

theorem comesToLoop (s : Session) : ComesToSegment "loop" s "loop" .null s := by
  have hline : splitLine "loop" = [.segment "loop"] := by decide +kernel
  refine ⟨0, [], [], ?_, rfl, rfl⟩
  unfold LineTrace
  rw [hline]
  exact .nil

/-- The line that the alias asks for comes to the alias again, if it ends, and there the alias means
the same. -/
theorem exists_comesToLoop (hs : s.lookup = loopShell.lookup) (hends : Ends loopRequest s) :
    ∃ data t, ComesToSegment loopRequest s "loop" data t ∧ t.lookup = loopShell.lookup := by
  have hline : splitLine loopRequest =
      [.segment "help echo --help", .operator .pipe, .segment "loop"] := by decide +kernel
  obtain ⟨depth | depth, h⟩ := hends
  · exact absurd (stops_throw_iff.mpr ⟨rfl, rfl⟩) (h s)
  have hstart : LineTrace (nestedWithin depth) loopRequest s []
      (.segment "help echo --help" :: [.operator .pipe, .segment "loop"]) s := by
    unfold LineTrace
    rw [hline]
    exact .nil
  -- In front of the alias `help` describes a command, which changes nothing that is looked up.
  rcases returns_or_stops (runReported (nestedWithin depth) "help echo --help" .null) s with
    ⟨o, t, hr⟩ | ⟨e, t, hstops⟩
  · obtain ⟨p, i, hd, hcommand, hcontext, hhandler, hhooks, hplain⟩ := loopShell_describes
    rw [← Session.delivery?_congr hs] at hd
    have ht := lookup_runReported_help hd hcommand hcontext hhandler hhooks (hplain.congr hs) hr
    exact ⟨_, t, ⟨depth, _, [], (hstart.snoc (.ran rfl hr)).snoc (.operator (by decide)), rfl, rfl⟩,
      ht.trans hs⟩
  · exact absurd (stops_runReported_iff.mp hstops).2 (h.segment hstart rfl t)

/-- The alias, and the line that it asks for, where the alias means what it does in that shell. -/
def LoopsOn (x : LineAt) : Prop :=
  (x.1 = "loop" ∨ x.1 = loopRequest) ∧ x.2.lookup = loopShell.lookup

theorem loopsOn_loopRequest (hs : s.lookup = loopShell.lookup) :
    LoopsOn (loopRequest, s.started) :=
  ⟨Or.inr rfl, hs⟩

theorem exists_requests_of_loopsOn (x : LineAt) (hx : LoopsOn x) (hends : Ends x.1 x.2) :
    ∃ y, Requests y x ∧ LoopsOn y := by
  obtain ⟨line, s⟩ := x
  obtain ⟨hline | hline, hs⟩ := hx
  · obtain rfl : line = "loop" := hline
    exact ⟨_, requests_of_comesToLoop (comesToLoop s) hs, loopsOn_loopRequest hs⟩
  · obtain rfl : line = loopRequest := hline
    obtain ⟨data, t, hc, ht⟩ := exists_comesToLoop hs hends
    exact ⟨_, requests_of_comesToLoop hc ht, loopsOn_loopRequest ht⟩

theorem not_ends_of_lookup (hs : s.lookup = loopShell.lookup) : ¬ Ends "loop" s := by
  have hloops : LoopsOn ("loop", s) := ⟨Or.inl rfl, hs⟩
  exact not_ends_of_requests exists_requests_of_loopsOn hloops

/-- A line that never ends. -/
theorem looping_alias_never_ends : ¬ Ends "loop" loopShell :=
  not_ends_of_lookup rfl

end Run

end CommandShell
