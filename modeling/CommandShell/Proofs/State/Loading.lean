import CommandShell.Proofs.Registry.Roots
import CommandShell.Proofs.State.Starting

/-!
# Loading the buckets of the roots

Before a shell sets up its processors it opens the buckets of all roots, and loads those that came
up for the first time.

## Main definitions

* `Session.operated`: a session after some operations on its buckets.
* `SpaceOperation.hydration`: what is done to some buckets.
* `LoadsBuckets`: some operations load the buckets that some roots declare, each once.

## Main results

* `loadsBuckets_hydration`: each bucket is loaded once, however many roots declare it.
* `Run.returns_loadBuckets_hydration`: that is what a shell does while nobody watches.
-/

namespace CommandShell

open Run

/-- The names of the buckets that some operations load. -/
def SpaceOperation.loadedNames : List SpaceOperation → List String
  | [] => []
  | .load name :: ops => name :: loadedNames ops
  | _ :: ops => loadedNames ops

@[simp] theorem SpaceOperation.loadedNames_load_cons (name : String) (ops : List SpaceOperation) :
    loadedNames (.load name :: ops) = name :: loadedNames ops :=
  rfl

@[simp] theorem SpaceOperation.loadedNames_act_cons (op : BucketOperation)
    (ops : List SpaceOperation) : loadedNames (.act op :: ops) = loadedNames ops :=
  rfl

/-- What is done to some buckets, given by their names and first states, where `loaded` were loaded
before: each is opened, and loaded if none of its name was. -/
def SpaceOperation.hydration (loaded : List String) : List (String × Value) → List SpaceOperation
  | [] => []
  | b :: bs =>
    .act (.opening b.1 b.2) ::
      if b.1 ∈ loaded then hydration loaded bs else .load b.1 :: hydration (b.1 :: loaded) bs

/-- The session after some operations on its buckets. -/
def Session.operated (s : Session) (ops : List SpaceOperation) : Session :=
  ops.foldl (fun s op => (buckets op.apply s).2) s

/-- Some operations open the buckets that some roots declare, and load each of them once. -/
structure LoadsBuckets (roots : List ShellProcessor) (ops : List SpaceOperation) : Prop where
  /-- Nothing else is done. -/
  touches : ∀ op ∈ ops, ∃ p ∈ roots,
    op = .act (.opening p.declaredBucket.1 p.declaredBucket.2) ∨ op = .load p.declaredBucket.1
  /-- No bucket is loaded twice. -/
  once : (SpaceOperation.loadedNames ops).Nodup
  /-- Every bucket is opened and then loaded. -/
  loads : ∀ p ∈ roots, SpaceOperation.Loaded p.declaredBucket.1 ops

namespace SpaceOperation

variable {loaded : List String} {b : String × Value} {bs : List (String × Value)}
  {op : SpaceOperation} {name : String}

theorem mem_hydration (h : op ∈ hydration loaded bs) :
    ∃ b ∈ bs, op = .act (.opening b.1 b.2) ∨ op = .load b.1 := by
  induction bs generalizing loaded with
  | nil => cases h
  | cons b bs ih =>
    have hrest : ∀ loaded, op ∈ hydration loaded bs →
        ∃ b' ∈ b :: bs, op = .act (.opening b'.1 b'.2) ∨ op = .load b'.1 := by
      intro loaded h
      obtain ⟨b', hb', heq⟩ := ih h
      exact ⟨b', List.mem_cons_of_mem b hb', heq⟩
    rw [hydration, List.mem_cons] at h
    rcases h with rfl | h
    · exact ⟨b, List.mem_cons_self, Or.inl rfl⟩
    · split_ifs at h
      · exact hrest _ h
      · rcases List.mem_cons.mp h with rfl | h
        · exact ⟨b, List.mem_cons_self, Or.inr rfl⟩
        · exact hrest _ h

/-- A bucket that was loaded before is not loaded. -/
theorem not_mem_of_mem_loadedNames (h : name ∈ loadedNames (hydration loaded bs)) :
    name ∉ loaded := by
  induction bs generalizing loaded with
  | nil => cases h
  | cons b bs ih =>
    rw [hydration, loadedNames_act_cons] at h
    split_ifs at h with hb
    · exact ih h
    · rw [loadedNames_load_cons, List.mem_cons] at h
      rcases h with rfl | h
      · exact hb
      · exact fun hname => ih h (List.mem_cons_of_mem _ hname)

/-- No bucket is loaded twice. -/
theorem nodup_loadedNames_hydration (loaded : List String) (bs : List (String × Value)) :
    (loadedNames (hydration loaded bs)).Nodup := by
  induction bs generalizing loaded with
  | nil => exact List.nodup_nil
  | cons b bs ih =>
    rw [hydration, loadedNames_act_cons]
    split_ifs
    · exact ih loaded
    · rw [loadedNames_load_cons, List.nodup_cons]
      refine ⟨fun h => ?_, ih _⟩
      exact not_mem_of_mem_loadedNames h List.mem_cons_self

/-- Every bucket that was not loaded before is loaded. -/
theorem loaded_hydration (hb : b ∈ bs) (hnew : b.1 ∉ loaded) :
    Loaded b.1 (hydration loaded bs) := by
  induction bs generalizing loaded with
  | nil => cases hb
  | cons c bs ih =>
    rw [hydration]
    by_cases hname : c.1 = b.1
    · -- The first bucket of this name is loaded as soon as it is open.
      rw [hname, if_neg hnew]
      exact ⟨c.2, (List.nil_sublist _).cons_cons _ |>.cons_cons _⟩
    · have hb : b ∈ bs := (List.mem_cons.mp hb).resolve_left fun h => hname (h ▸ rfl)
      rw [← List.singleton_append]
      refine AfterOpening.append_left ?_
      split_ifs
      · exact ih hb hnew
      · rw [← List.singleton_append]
        have hnew : b.1 ∉ c.1 :: loaded := by
          rw [List.mem_cons, not_or]
          exact ⟨fun h => hname h.symm, hnew⟩
        exact (ih hb hnew).append_left

end SpaceOperation

/-- The buckets of all roots are loaded, each once. -/
theorem loadsBuckets_hydration {roots : List ShellProcessor} :
    LoadsBuckets roots (SpaceOperation.hydration [] (roots.map (·.declaredBucket))) where
  touches op hop := by
    obtain ⟨b, hb, heq⟩ := SpaceOperation.mem_hydration hop
    obtain ⟨p, hp, rfl⟩ := List.mem_map.mp hb
    exact ⟨p, hp, heq⟩
  once := SpaceOperation.nodup_loadedNames_hydration [] _
  loads p hp := SpaceOperation.loaded_hydration (List.mem_map_of_mem hp) List.not_mem_nil

namespace Session

variable {s : Session} {op : SpaceOperation} {ops : List SpaceOperation}

@[simp] theorem operated_nil (s : Session) : s.operated [] = s := rfl

theorem operated_cons (s : Session) (op : SpaceOperation) (ops : List SpaceOperation) :
    s.operated (op :: ops) = ((buckets op.apply s).2).operated ops :=
  rfl

@[simp] theorem operated_registry : (s.operated ops).registry = s.registry := by
  induction ops generalizing s with
  | nil => rfl
  | cons op ops ih =>
    rw [operated_cons, ih, buckets_apply]

end Session

namespace Run

variable {s t : Session} {p : ShellProcessor} {loaded loaded' : List String}

/-- To load the bucket of a root opens it, and loads it if none of its name was. -/
theorem eq_of_returns_loadBucket (h : Returns (loadBucket loaded p) s loaded' t) :
    (loaded', t) = if (s.registry.bucketOf p).1 ∈ loaded
      then (loaded,
        s.operated [.act (.opening (s.registry.bucketOf p).1 (s.registry.bucketOf p).2)])
      else ((s.registry.bucketOf p).1 :: loaded,
        s.operated [.act (.opening (s.registry.bucketOf p).1 (s.registry.bucketOf p).2),
          .load (s.registry.bucketOf p).1]) := by
  generalize hbucket : s.registry.bucketOf p = bucket
  rcases (returns_loadBucket_iff hbucket).mp h with ⟨hloaded, rfl, rfl⟩ | ⟨hnew, rfl, hload⟩
  · rw [if_pos hloaded]
    rfl
  · rw [if_neg hnew, Session.operated_cons, Session.operated_cons, Session.operated_nil]
    exact congrArg (Prod.mk _) (congrArg Prod.snd hload).symm

/-- To load the buckets of some roots comes to the operations that open each and load it once. -/
theorem eq_of_returns_loadBuckets {ps : List ShellProcessor}
    (h : Returns (ps.foldlM loadBucket loaded) s loaded' t) :
    t = s.operated (SpaceOperation.hydration loaded (ps.map s.registry.bucketOf)) := by
  induction ps generalizing loaded s with
  | nil =>
    obtain ⟨-, rfl⟩ := returns_pure_iff.mp h
    rfl
  | cons p ps ih =>
    rw [List.foldlM_cons] at h
    obtain ⟨loaded₁, u, hfirst, h⟩ := returns_bind_iff.mp h
    have hstep := eq_of_returns_loadBucket hfirst
    have hrest := ih h
    rw [List.map_cons, SpaceOperation.hydration]
    split_ifs at hstep ⊢
    · obtain ⟨rfl, rfl⟩ := Prod.mk.inj hstep
      rw [Session.operated_registry] at hrest
      exact hrest
    · obtain ⟨rfl, rfl⟩ := Prod.mk.inj hstep
      rw [Session.operated_registry] at hrest
      exact hrest

/-- While nobody watches, the buckets of all roots are loaded. -/
theorem returns_loadBuckets_hydration (h : s.space.Unwatched) :
    Returns loadBuckets s () (s.operated
      (SpaceOperation.hydration [] (s.registry.processors.map s.registry.bucketOf))) := by
  obtain ⟨t, ht, -⟩ := returns_loadBuckets h
  have hdiscard : Returns (do let _ ← s.registry.processors.foldlM loadBucket []) s () t := ht
  obtain ⟨loaded, v, hfold, hv⟩ :=
    (returns_bind_iff (x := s.registry.processors.foldlM loadBucket [])).mp hdiscard
  obtain ⟨-, rfl⟩ := returns_pure_iff.mp hv
  rw [← eq_of_returns_loadBuckets hfold]
  exact ht

end Run

end CommandShell
