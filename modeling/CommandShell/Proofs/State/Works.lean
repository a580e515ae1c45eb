import CommandShell.Proofs.Congruence.Following
import CommandShell.Proofs.Line.Aborts
import CommandShell.Proofs.State.Operations
import CommandShell.Shell.SetUp

/-!
# What a shell does to its buckets

Whatever a shell does, for its buckets it comes to some operations, one after another.  Commands and
lines only do what scripts do; buckets are loaded, and aliases followed, only when the processors
are set up, or when somebody does so from outside.

## Main definitions

* `Session.Works`: what a shell does, with the operations on its buckets that this comes to.
* `SpaceOperation.Loaded`, `SpaceOperation.Followed`: a bucket was loaded, or the aliases were taken
  from it, after it had been opened.

## Main results

* `Session.Works.space_eq`: the buckets are what the operations make of them.
* `Run.chainCongruence_acts`: commands and lines come to what scripts do.
* `Run.works_initializeProcessors`: to set up the processors loads the buckets of the roots, and has
  the aliases followed.
-/

namespace CommandShell

open Run

/-- For the buckets, what happens between two states of a shell comes to things that scripts do. -/
def Session.Acts (s t : Session) : Prop :=
  ∃ acts : List BucketOperation, t.space = s.space.after (acts.map .act)

/-- From `s` a shell comes to `t`, and what it does comes to `ops` for its buckets: it runs what
commands and lines are made of, somebody does something to its buckets or its processors from
outside, or something happens that concerns neither. -/
inductive Session.Works (s : Session) : List SpaceOperation → Session → Prop
  | start : Works s [] s
  | advances {ops : List SpaceOperation} {t u : Session} {acts : List BucketOperation} :
    Works s ops t → t.Advances u → u.space = t.space.after (acts.map .act) →
      Works s (ops ++ acts.map .act) u
  | operates {ops : List SpaceOperation} {t : Session} (op : SpaceOperation) :
    Works s ops t → Works s (ops ++ [op]) (buckets op.apply t).2
  | registers {ops : List SpaceOperation} {t : Session} (p : ShellProcessor) :
    Works s ops t → Works s ops (register p t).2
  | unregisters {ops : List SpaceOperation} {t : Session} (name : String) :
    Works s ops t → Works s ops (unregister name t).2
  | idles {ops : List SpaceOperation} {t u : Session} :
    Works s ops t → t.Undisturbed u → Works s ops u

/-- The bucket with a name was opened, and after that an operation was done. -/
def SpaceOperation.AfterOpening (name : String) (op : SpaceOperation)
    (ops : List SpaceOperation) : Prop :=
  ∃ initial, [.act (.opening name initial), op].Sublist ops

/-- The bucket with a name was loaded after it had been opened. -/
def SpaceOperation.Loaded (name : String) (ops : List SpaceOperation) : Prop :=
  AfterOpening name (.load name) ops

/-- The aliases were taken from the bucket with a name after it had been opened. -/
def SpaceOperation.Followed (name : String) (ops : List SpaceOperation) : Prop :=
  AfterOpening name (.follow name) ops

namespace Session

variable {s t u : Session} {ops more : List SpaceOperation}

/-! ### Operations of commands and lines -/

theorem Acts.refl (s : Session) : s.Acts s :=
  ⟨[], rfl⟩

theorem Acts.trans (h : s.Acts t) (h' : t.Acts u) : s.Acts u := by
  obtain ⟨acts, hacts⟩ := h
  obtain ⟨acts', hacts'⟩ := h'
  exact ⟨acts ++ acts', by rw [List.map_append, StateSpace.after_append, ← hacts, hacts']⟩

theorem acts_of_space_eq (h : t.space = s.space) : s.Acts t :=
  ⟨[], h⟩

theorem tellingCongruence_acts : TellingCongruence fun _ x _ => Follows x Acts :=
  tellingCongruence_follows Acts.refl (fun _ _ _ => Acts.trans) fun _ _ => acts_of_space_eq rfl

end Session

namespace Run

variable {s t : Session} {α : Type}

theorem space_buckets (op : SpaceOperation) (s : Session) :
    (buckets op.apply s).2.space = s.space.after [op] := by
  rw [buckets_apply]
  rfl

theorem keeps_register_space (p : ShellProcessor) (s : Session) :
    (register p s).2.space = s.space := by
  have hC : TellingCongruence fun _ x _ => Keeps x Session.space :=
    tellingCongruence_keeps fun _ _ => rfl
  exact hC.register_of_change (fun _ _ => rfl) p s

theorem keeps_unregister_space (name : String) (s : Session) :
    (unregister name s).2.space = s.space := by
  have hC : TellingCongruence fun _ x _ => Keeps x Session.space :=
    tellingCongruence_keeps fun _ _ => rfl
  exact hC.unregister_of_change (fun _ _ => rfl) name s

/-- All that lines are made of comes to things that scripts do to buckets. -/
theorem chainCongruence_acts : ChainCongruence fun _ x _ => Follows x Session.Acts where
  toSegmentCongruence := by
    refine segmentCongruence_follows (fun _ _ _ => Session.Acts.trans)
      (fun s t h => Session.acts_of_space_eq h.space) ?_ ?_ ?_
    · exact fun p s => Session.acts_of_space_eq (keeps_register_space p s)
    · exact fun name s => Session.acts_of_space_eq (keeps_unregister_space name s)
    · exact fun op s => ⟨[op], space_buckets (.act op) s⟩
  appendPayload := by
    refine Session.tellingCongruence_acts.appendPayload_of_access (fun x s => ?_) ?_
    · rw [access_apply]
      exact Session.acts_of_space_eq rfl
    · exact Follows.recover fun _ _ _ => Session.Acts.trans

end Run

namespace Session

variable {s t u : Session} {ops more : List SpaceOperation}

/-! ### Operations of a shell -/

/-- The buckets of a shell are what the operations make of them. -/
theorem Works.space_eq (h : s.Works ops t) : t.space = s.space.after ops := by
  induction h with
  | start => rfl
  | advances _ _ hacts ih => rw [StateSpace.after_append, ← ih, hacts]
  | operates op _ ih => rw [StateSpace.after_append, ← ih, space_buckets]
  | registers p _ ih => rw [keeps_register_space, ih]
  | unregisters name _ ih => rw [keeps_unregister_space, ih]
  | idles _ hidle ih => rw [hidle.space, ih]

theorem Works.trans (h : s.Works ops t) (h' : t.Works more u) : s.Works (ops ++ more) u := by
  induction h' with
  | start => rwa [List.append_nil]
  | advances _ hadvances hacts ih =>
    rw [← List.append_assoc]
    exact ih.advances hadvances hacts
  | operates op _ ih =>
    rw [← List.append_assoc]
    exact ih.operates op
  | registers p _ ih => exact ih.registers p
  | unregisters name _ ih => exact ih.unregisters name
  | idles _ hidle ih => exact ih.idles hidle

/-- Faults may be handled as long as this concerns neither processors nor buckets. -/
theorem Works.recover {α : Type} {x : Run α} {handle : Fault → Run α} (h : s.Works ops (x s).2)
    (hhandle : ∀ f (t : Session), t.Undisturbed (handle f t).2) :
    s.Works ops (Run.recover x handle s).2 := by
  rw [recover_apply]
  generalize x s = ending at h ⊢
  rcases ending with ⟨(f | ⟨⟩) | a, t⟩
  · exact h.idles (hhandle f t)
  · exact h
  · exact h

theorem exists_works_of_reaches (h : s.Reaches t) :
    ∃ acts : List BucketOperation, s.Works (acts.map .act) t := by
  induction h with
  | refl => exact ⟨[], .start⟩
  | tail _ hstep ih =>
    obtain ⟨acts, hworks⟩ := ih
    obtain ⟨acts', hacts'⟩ := follows_of_advances chainCongruence_acts hstep
    refine ⟨acts ++ acts', ?_⟩
    rw [List.map_append]
    exact hworks.advances hstep hacts'

end Session

namespace SpaceOperation

variable {name : String} {ops more : List SpaceOperation} {op last : SpaceOperation}

theorem AfterOpening.append_right (h : AfterOpening name op ops) :
    AfterOpening name op (ops ++ more) := by
  obtain ⟨initial, h⟩ := h
  exact ⟨initial, h.trans (List.sublist_append_left _ _)⟩

theorem AfterOpening.append_left (h : AfterOpening name op more) :
    AfterOpening name op (ops ++ more) := by
  obtain ⟨initial, h⟩ := h
  exact ⟨initial, h.trans (List.sublist_append_right _ _)⟩

theorem AfterOpening.exists_opening (h : AfterOpening name op ops) :
    ∃ initial, .act (.opening name initial) ∈ ops := by
  obtain ⟨initial, h⟩ := h
  exact ⟨initial, h.subset List.mem_cons_self⟩

/-- An operation was done last, or before. -/
theorem afterOpening_append_singleton_iff :
    AfterOpening name op (ops ++ [last]) ↔
      AfterOpening name op ops ∨ last = op ∧ ∃ initial, .act (.opening name initial) ∈ ops := by
  constructor
  · rintro ⟨initial, h⟩
    obtain ⟨front, back, heq, hfront, hback⟩ := List.sublist_append_iff.mp h
    rcases List.sublist_singleton.mp hback with rfl | rfl
    · rw [List.append_nil] at heq
      exact Or.inl ⟨initial, heq ▸ hfront⟩
    · obtain ⟨hopening, hload⟩ := List.append_inj' (show [_] ++ [_] = front ++ [last] from heq) rfl
      refine Or.inr ⟨(List.singleton_inj.mp hload).symm, initial, ?_⟩
      rw [← List.singleton_sublist, hopening]
      exact hfront
  · rintro (h | ⟨rfl, initial, h⟩)
    · exact h.append_right
    · exact ⟨initial, List.Sublist.append (List.singleton_sublist.mpr h) (List.Sublist.refl [_])⟩

end SpaceOperation

namespace Run

variable {s t u : Session} {p : ShellProcessor} {c : Scope}

/-! ### Setting up -/

/-- The bucket of a processor is opened, and nothing else is done. -/
theorem openBucket_apply (p : ShellProcessor) (s : Session) :
    openBucket p s = (.ok (s.registry.bucketOf p).1,
      (buckets (SpaceOperation.apply (.act (.opening (s.registry.bucketOf p).1
        (s.registry.bucketOf p).2))) s).2) := by
  unfold openBucket modifyBuckets
  rw [get_bind_apply]
  dsimp only
  rw [bind_apply]
  rw [buckets_apply, buckets_apply]
  rfl

/-- A scope opens the bucket of its processor, and concerns no other. -/
theorem openScope_apply (p : ShellProcessor) (s : Session) :
    ∃ c u, openScope p s = (.ok c, u) ∧ c.bucket = (s.registry.bucketOf p).1 ∧
      u.space = s.space.after
        [.act (.opening (s.registry.bucketOf p).1 (s.registry.bucketOf p).2)] ∧
      u.registry = s.registry ∧ u.pinned = s.pinned := by
  unfold openScope
  rw [bind_apply, openBucket_apply, buckets_apply]
  exact ⟨_, _, rfl, rfl, rfl, rfl, rfl⟩

/-- To load the bucket of a root opens it, and loads it unless one of its name was loaded before. -/
theorem returns_loadBucket_iff {loaded loaded' : List String} {name : String} {initial : Value}
    (hbucket : s.registry.bucketOf p = (name, initial)) :
    Returns (loadBucket loaded p) s loaded' t ↔
      let u := (buckets (SpaceOperation.apply (.act (.opening name initial))) s).2
      (name ∈ loaded ∧ loaded' = loaded ∧ t = u) ∨
        (name ∉ loaded ∧ loaded' = name :: loaded ∧
          Returns (buckets (SpaceOperation.apply (.load name))) u () t) := by
  have hopen : Returns (openBucket p) s name
      (buckets (SpaceOperation.apply (.act (.opening name initial))) s).2 := by
    rw [Returns, openBucket_apply, hbucket]
  unfold loadBucket
  constructor
  · intro h
    obtain ⟨name', u, hopen', h⟩ := returns_bind_iff.mp h
    obtain ⟨rfl, rfl⟩ := Returns.unique hopen hopen'
    split at h
    · rename_i hloaded
      obtain ⟨rfl, rfl⟩ := returns_pure_iff.mp h
      exact Or.inl ⟨List.contains_iff_mem.mp hloaded, rfl, rfl⟩
    · rename_i hnew
      obtain ⟨⟨⟩, v, hload, h⟩ := returns_bind_iff.mp h
      obtain ⟨rfl, rfl⟩ := returns_pure_iff.mp h
      exact Or.inr ⟨fun hmem => hnew (List.contains_iff_mem.mpr hmem), rfl, hload⟩
  · rintro (⟨hloaded, rfl, rfl⟩ | ⟨hnew, rfl, hload⟩)
    · refine returns_bind_iff.mpr ⟨name, _, hopen, ?_⟩
      rw [if_pos (List.contains_iff_mem.mpr hloaded)]
      exact returns_pure_iff.mpr ⟨rfl, rfl⟩
    · refine returns_bind_iff.mpr ⟨name, _, hopen, ?_⟩
      rw [if_neg fun hmem => hnew (List.contains_iff_mem.mp hmem)]
      exact returns_bind_iff.mpr ⟨(), t, hload, returns_pure_iff.mpr ⟨rfl, rfl⟩⟩

theorem works_loadBucket {loaded loaded' : List String}
    (h : Returns (loadBucket loaded p) s loaded' t) :
    ∃ ops, s.Works ops t ∧ t.registry = s.registry ∧
      (∀ op ∈ ops, op = .act (.opening (s.registry.bucketOf p).1 (s.registry.bucketOf p).2) ∨
        op = .load (s.registry.bucketOf p).1) ∧
      (s.registry.bucketOf p).1 ∈ loaded' ∧
      ∀ n ∈ loaded', n ∈ loaded ∨ SpaceOperation.Loaded n ops := by
  generalize hbucket : s.registry.bucketOf p = bucket
  obtain ⟨name, initial⟩ := bucket
  have hworks : s.Works [.act (.opening name initial)]
      (buckets (SpaceOperation.apply (.act (.opening name initial))) s).2 :=
    Session.Works.start.operates _
  have hregistry : ∀ (op : SpaceOperation) (v : Session),
      (buckets op.apply v).2.registry = v.registry := by
    intro op v
    rw [buckets_apply]
  -- A bucket that several roots have is loaded for the first of them.
  rcases (returns_loadBucket_iff hbucket).mp h with ⟨hloaded, rfl, rfl⟩ | ⟨-, rfl, hload⟩
  · refine ⟨_, hworks, hregistry _ _, ?_, hloaded, fun n hn => Or.inl hn⟩
    exact fun op hop => Or.inl (List.mem_singleton.mp hop)
  · have hstep := hworks.operates (.load name)
    have hkept := (hregistry (.load name) _).trans (hregistry (.act (.opening name initial)) s)
    rw [show buckets (SpaceOperation.apply (.load name)) _ = _ from hload] at hstep hkept
    refine ⟨_, hstep, hkept, fun op hop => List.mem_pair.mp hop, List.mem_cons_self, ?_⟩
    intro n hn
    rcases List.mem_cons.mp hn with rfl | hn
    · exact Or.inr ⟨initial, List.Sublist.refl _⟩
    · exact Or.inl hn

/-- Round by round the buckets of some processors are opened, and loaded unless they were before. -/
theorem works_foldlM_loadBucket {ps : List ShellProcessor} {loaded loaded' : List String}
    (h : Returns (ps.foldlM loadBucket loaded) s loaded' t) :
    ∃ ops, s.Works ops t ∧ t.registry = s.registry ∧
      (∀ op ∈ ops, ∃ p ∈ ps,
        op = .act (.opening (s.registry.bucketOf p).1 (s.registry.bucketOf p).2) ∨
          op = .load (s.registry.bucketOf p).1) ∧
      ∀ p ∈ ps, (s.registry.bucketOf p).1 ∈ loaded ∨
        SpaceOperation.Loaded (s.registry.bucketOf p).1 ops := by
  induction ps generalizing loaded s with
  | nil =>
    obtain ⟨-, rfl⟩ := returns_pure_iff.mp h
    exact ⟨[], .start, rfl, fun op hop => (by cases hop), fun p hp => (by cases hp)⟩
  | cons p ps ih =>
    rw [List.foldlM_cons] at h
    obtain ⟨loaded₁, u, hfirst, h⟩ := returns_bind_iff.mp h
    obtain ⟨ops₁, hworks₁, hregistry₁, hloads₁, hmem, hloaded₁⟩ := works_loadBucket hfirst
    obtain ⟨ops₂, hworks₂, hregistry₂, hloads₂, hloaded₂⟩ := ih h
    rw [hregistry₁] at hregistry₂ hloads₂ hloaded₂
    refine ⟨ops₁ ++ ops₂, hworks₁.trans hworks₂, hregistry₂, ?_, ?_⟩
    · intro op hop
      rcases List.mem_append.mp hop with hop | hop
      · exact ⟨p, List.mem_cons_self, hloads₁ op hop⟩
      · obtain ⟨q, hq, heq⟩ := hloads₂ op hop
        exact ⟨q, List.mem_cons_of_mem _ hq, heq⟩
    · -- What was loaded before the others was loaded before all of them, or as the first one.
      have hbefore : ∀ n ∈ loaded₁, n ∈ loaded ∨ SpaceOperation.Loaded n (ops₁ ++ ops₂) :=
        fun n hn => (hloaded₁ n hn).imp_right .append_right
      intro q hq
      rcases List.mem_cons.mp hq with rfl | hq
      · exact hbefore _ hmem
      · rcases hloaded₂ q hq with hold | hnew
        · exact hbefore _ hold
        · exact Or.inr hnew.append_left

theorem works_loadBuckets (h : Returns loadBuckets s () t) :
    ∃ ops, s.Works ops t ∧ t.registry = s.registry ∧
      (∀ op ∈ ops, ∃ p ∈ s.registry.processors,
        op = .act (.opening (s.registry.bucketOf p).1 (s.registry.bucketOf p).2) ∨
          op = .load (s.registry.bucketOf p).1) ∧
      ∀ p ∈ s.registry.processors, SpaceOperation.Loaded (s.registry.bucketOf p).1 ops := by
  have hdiscard : Returns (do let _ ← s.registry.processors.foldlM loadBucket []) s () t := h
  obtain ⟨loaded, v, hfold, h⟩ :=
    (returns_bind_iff (x := s.registry.processors.foldlM loadBucket [])).mp hdiscard
  obtain ⟨-, rfl⟩ := returns_pure_iff.mp h
  obtain ⟨ops, hworks, hregistry, hloads, hloaded⟩ := works_foldlM_loadBucket hfold
  refine ⟨ops, hworks, hregistry, hloads, fun p hp => (hloaded p hp).resolve_left fun hn => ?_⟩
  cases hn

/-- A line comes to what scripts do. -/
theorem works_line (depth : Nat) (line : String) (s : Session) :
    ∃ acts : List BucketOperation, s.Works (acts.map .act) (nestedWithin depth line s).2 := by
  have hstep : s.Reaches (perform (nestedWithin depth) ⟨"", "", 0, none⟩ (.run line) s).2 :=
    .single (.acts depth _ _ s)
  rw [perform] at hstep
  exact Session.exists_works_of_reaches hstep

/-- A processor takes the aliases from its bucket when it is set up. -/
def follows (p : ShellProcessor) : Bool :=
  match p.decl.setUp with
  | some .followAliases => true
  | _ => false

/-- To set up a processor comes to what its script does, or to following the aliases of its
bucket. -/
theorem works_setUp (p : ShellProcessor) (s : Session) :
    ∃ ops, s.Works ops (setUp p s).2 ∧
      ((∀ op ∈ ops, ∃ act, op = .act act) ∧ follows p = false ∨
        follows p = true ∧ ∃ initial, ops = [.act (.opening (s.registry.bucketOf p).1 initial),
          .follow (s.registry.bucketOf p).1]) := by
  obtain ⟨c, u, hopen, hbucket, hspace, -⟩ := openScope_apply p s
  have hscope : s.Works
      [.act (.opening (s.registry.bucketOf p).1 (s.registry.bucketOf p).2)] u := by
    have hstep := Session.Advances.opens p s
    rw [hopen] at hstep
    exact @Session.Works.advances s [] s u [.opening _ _] .start hstep hspace
  unfold setUp
  cases hsetUp : p.decl.setUp with
  | none => exact ⟨[], .start, Or.inl ⟨fun op hop => (by cases hop), by rw [follows, hsetUp]⟩⟩
  | some how =>
    -- Either way the scope opens first, and the rest works on from there.
    have hrest : ∀ ops, u.Works ops (setUpBy c how u).2 →
        s.Works (.act (.opening (s.registry.bucketOf p).1 (s.registry.bucketOf p).2) :: ops)
          ((do setUpBy (← openScope p) how : Run Unit) s).2 := by
      intro ops h
      rw [bind_apply, hopen]
      exact hscope.trans h
    cases how with
    | script actions =>
      obtain ⟨acts, hacts⟩ := Session.exists_works_of_reaches
        (reaches_performAll maxLineNesting c actions u)
      refine ⟨_, (hrest _ hacts).recover fun _ _ => ⟨rfl, rfl, rfl, rfl, rfl⟩,
        Or.inl ⟨fun op hop => ?_, by rw [follows, hsetUp]⟩⟩
      rcases List.mem_cons.mp hop with hop | hop
      · exact ⟨_, hop⟩
      · obtain ⟨act, -, hact⟩ := List.mem_map.mp hop
        exact ⟨act, hact.symm⟩
    | followAliases =>
      have hfollow :
          u.Works [.follow (s.registry.bucketOf p).1] (setUpBy c .followAliases u).2 := by
        rw [← hbucket]
        exact Session.Works.start.operates (.follow c.bucket)
      exact ⟨_, (hrest _ hfollow).recover fun _ _ => ⟨rfl, rfl, rfl, rfl, rfl⟩,
        Or.inr ⟨by rw [follows, hsetUp], _, rfl⟩⟩

/-- To set up some processors has the aliases followed once for every one that is to follow them. -/
theorem works_setUpAll {ps : List ShellProcessor} (h : Returns (ps.forM setUp) s () t) :
    ∃ (ops : List SpaceOperation) (followed : List String), s.Works ops t ∧
      followed.length = ps.countP follows ∧
      (∀ op ∈ ops, (∃ act, op = .act act) ∨ ∃ n ∈ followed, op = .follow n) ∧
      ∀ n ∈ followed, SpaceOperation.Followed n ops := by
  induction ps generalizing s with
  | nil =>
    obtain ⟨-, rfl⟩ := returns_pure_iff.mp h
    exact ⟨[], [], .start, rfl, fun op hop => (by cases hop), fun n hn => (by cases hn)⟩
  | cons p ps ih =>
    obtain ⟨⟨⟩, u, hfirst, h⟩ := returns_bind_iff.mp h
    obtain ⟨ops₁, hworks₁, hops₁⟩ := works_setUp p s
    rw [show setUp p s = _ from hfirst] at hworks₁
    obtain ⟨ops₂, followed, hworks₂, hlength, hops₂, hfollowed⟩ := ih h
    have hlater : ∀ n ∈ followed, SpaceOperation.Followed n (ops₁ ++ ops₂) :=
      fun n hn => (hfollowed n hn).append_left
    -- The first processor runs a script, or has its aliases followed.
    rcases hops₁ with ⟨hacts, hnot⟩ | ⟨hfollows, initial, hfollow⟩
    · refine ⟨ops₁ ++ ops₂, followed, hworks₁.trans hworks₂, ?_, fun op hop => ?_, hlater⟩
      · rw [List.countP_cons_of_neg (by rw [hnot]; decide), hlength]
      · exact (List.mem_append.mp hop).elim (fun hop => Or.inl (hacts op hop)) (hops₂ op)
    · refine ⟨ops₁ ++ ops₂, (s.registry.bucketOf p).1 :: followed, hworks₁.trans hworks₂, ?_,
        fun op hop => ?_, fun n hn => ?_⟩
      · rw [List.countP_cons_of_pos hfollows, List.length_cons, hlength]
      · rcases List.mem_append.mp hop with hop | hop
        · rw [hfollow] at hop
          exact (List.mem_pair.mp hop).imp (fun hop => ⟨_, hop⟩)
            fun hop => ⟨_, List.mem_cons_self, hop⟩
        · exact (hops₂ op hop).imp_right fun ⟨n, hn, heq⟩ => ⟨n, List.mem_cons_of_mem _ hn, heq⟩
      · rcases List.mem_cons.mp hn with rfl | hn
        · refine SpaceOperation.AfterOpening.append_right ⟨initial, ?_⟩
          rw [hfollow]
        · exact hlater n hn

/-- To set up the processors loads the buckets of all roots, of no others, and has the aliases
followed once for every processor that is to follow them. -/
theorem works_initializeProcessors (h : Returns initializeProcessors s () t) :
    ∃ (ops : List SpaceOperation) (followed : List String), s.Works ops t ∧
      (∀ p ∈ s.registry.processors, SpaceOperation.Loaded (s.registry.bucketOf p).1 ops) ∧
      followed.length = (Processor.preorderAll s.registry.processors).countP follows ∧
      (∀ n ∈ followed, SpaceOperation.Followed n ops) ∧
      ∀ op ∈ ops, (∃ act, op = .act act) ∨
        (∃ p ∈ s.registry.processors, op = .load (s.registry.bucketOf p).1) ∨
        ∃ n ∈ followed, op = .follow n := by
  obtain ⟨⟨⟩, u, hload, h⟩ := returns_bind_iff.mp h
  obtain ⟨ops₁, hworks₁, hregistry, hloads₁, hloaded₁⟩ := works_loadBuckets hload
  obtain ⟨r, v, hget, h⟩ := returns_bind_iff.mp h
  obtain ⟨rfl, rfl⟩ := returns_get_iff.mp hget
  obtain ⟨ops₂, followed, hworks₂, hlength, hops₂, hfollowed⟩ := works_setUpAll h
  rw [hregistry] at hlength
  refine ⟨ops₁ ++ ops₂, followed, hworks₁.trans hworks₂, fun p hp => (hloaded₁ p hp).append_right,
    hlength, fun n hn => (hfollowed n hn).append_left, fun op hop => ?_⟩
  rcases List.mem_append.mp hop with hop | hop
  · obtain ⟨p, hp, hopens | hloads⟩ := hloads₁ op hop
    · exact Or.inl ⟨_, hopens⟩
    · exact Or.inr (Or.inl ⟨p, hp, hloads⟩)
  · exact (hops₂ op hop).imp_right Or.inr

end Run

end CommandShell
