import CommandShell.Proofs.Entries
import CommandShell.Proofs.Line.Admission
import Mathlib.Data.List.Pairwise
import Mathlib.Logic.Relation

/-!
# Flags as arguments

The flags of a segment are taken one after another, and each changes the arguments under all names
of the parameter that it belongs to.  In the end the arguments sum up the flags, parameter by
parameter, if no two parameters have a name in common: what stands under the names of one depends on
its own flags only, and not on where other flags stand between them.

## Main definitions

* `Parameter.valuesIn`: the values that some flags give a parameter.
* `Parameter.summary?`: what these values come to.
* `Summarizes`: the arguments sum up some flags.
* `SwapsApart`: two flags that belong to different parameters change places.

## Main results

* `Summarizes.bindFlag`: arguments that sum up some flags do so with one more.
* `Summarizes.mem_keys_iff`: the names that arguments stand under.
* `bindFlags_summarizes`: the arguments that flags make.
-/

namespace CommandShell

variable {p q : Parameter} {parameters : List Parameter} {flags moved : List Flag} {f : Flag}
  {args : Entries Value} {values : List Value} {v : Value} {name : String}

/-! ### What is said of a parameter -/

namespace Parameter

/-- All names of a parameter. -/
def allNames (p : Parameter) : List String :=
  p.name :: p.otherNames

/-- Two parameters have no name in common. -/
def Apart (p q : Parameter) : Prop :=
  ∀ name ∈ p.allNames, name ∉ q.allNames

instance : DecidableRel Apart :=
  fun p q => inferInstanceAs (Decidable (∀ name ∈ p.allNames, name ∉ q.allNames))

/-- The values that some flags give a parameter under any of its names, in order. -/
def valuesIn (p : Parameter) (flags : List Flag) : List Value :=
  (flags.filter fun f => p.answersTo f.name).map (·.value)

/-- What the values that are given for a parameter come to, if there are any: all of them for an
array, for a truth value whether the last one counts as true, and the last one otherwise. -/
def summary? (p : Parameter) (values : List Value) : Option Value :=
  values.getLast?.map fun last =>
    if p.type = "array" then .list values
    else if p.type = "boolean" then .bool (last.oneOf trueValues)
    else last

theorem answersTo_iff : p.answersTo name = true ↔ name ∈ p.allNames := by
  unfold answersTo allNames
  rw [Bool.or_eq_true, beq_iff_eq, List.contains_iff_mem, List.mem_cons, eq_comm]

theorem answersTo_name (p : Parameter) : p.answersTo p.name = true :=
  answersTo_iff.mpr List.mem_cons_self

/-- Of parameters without a common name only one answers to a name. -/
theorem eq_of_answersTo (hapart : parameters.Pairwise Apart) (hp : p ∈ parameters)
    (hq : q ∈ parameters) (hpname : p.answersTo name = true) (hqname : q.answersTo name = true) :
    p = q := by
  have : Std.Symm Apart := ⟨fun p q h name hq hp => h name hp hq⟩
  by_contra hne
  exact hapart.forall hp hq hne name (answersTo_iff.mp hpname) (answersTo_iff.mp hqname)

theorem valuesIn_concat (p : Parameter) (flags : List Flag) (f : Flag) :
    p.valuesIn (flags ++ [f]) =
      p.valuesIn flags ++ if p.answersTo f.name then [f.value] else [] := by
  unfold valuesIn
  rw [List.filter_append, List.map_append, List.filter_singleton]
  cases p.answersTo f.name <;> rfl

theorem valuesIn_eq_nil_iff :
    p.valuesIn flags = [] ↔ ∀ f ∈ flags, p.answersTo f.name = false := by
  unfold valuesIn
  rw [List.map_eq_nil_iff, List.filter_eq_nil_iff]
  simp only [Bool.not_eq_true]

theorem summary?_eq_none_iff : p.summary? values = none ↔ values = [] := by
  unfold summary?
  rw [Option.map_eq_none_iff, List.getLast?_eq_none_iff]

/-- Values that are present come to one that is. -/
theorem isNull_of_summary? (hvalues : ∀ w ∈ values, w.isNull = false)
    (h : p.summary? values = some v) : v.isNull = false := by
  obtain ⟨last, hlast, rfl⟩ := Option.map_eq_some_iff.mp h
  split_ifs
  · rfl
  · rfl
  · exact hvalues last (List.mem_of_getLast? hlast)

end Parameter

/-! ### Entries under several names -/

theorem Entries.get?_foldl_insert (names : List String) (m : Entries Value) (v : Value)
    (key : String) :
    (names.foldl (fun m name => m.insert name v) m).get? key =
      if key ∈ names then some v else m.get? key := by
  induction names generalizing m with
  | nil => simp
  | cons name names ih =>
    rw [List.foldl_cons, ih, Entries.get?_insert]
    by_cases hkey : key ∈ names
    · simp [hkey]
    · simp [hkey, eq_comm]

theorem Entries.nodup_keys_foldl_insert (names : List String) {m : Entries Value} (v : Value)
    (h : m.keys.Nodup) : (names.foldl (fun m name => m.insert name v) m).keys.Nodup := by
  induction names generalizing m with
  | nil => exact h
  | cons name names ih => exact ih (nodup_keys_insert h)

/-- One more value of a parameter stands under all its names, and is added to what stood there. -/
theorem Parameter.get?_record (h : args.get? p.name = p.summary? values) (v : Value)
    (name : String) :
    (p.record args v).get? name =
      if p.answersTo name then p.summary? (values ++ [v]) else args.get? name := by
  obtain ⟨value, hvalue, hrecord⟩ : ∃ value, p.summary? (values ++ [v]) = some value ∧
      p.record args v = p.otherNames.foldl (fun args name => args.insert name value)
        (args.insert p.name value) := by
    refine ⟨_, ?_, rfl⟩
    have hlast : (values ++ [v]).getLast? = some v := List.getLast?_concat
    unfold summary?
    rw [hlast, Option.map_some]
    by_cases harray : p.type = "array"
    · -- What stood there is the list of all values before.
      rw [if_pos harray, if_pos harray, h]
      rcases List.eq_nil_or_concat values with rfl | ⟨front, last, rfl⟩
      · rfl
      · unfold summary?
        rw [List.concat_eq_append, List.getLast?_concat, Option.map_some, if_pos harray]
    · rw [if_neg harray, if_neg harray]
  have hnames : p.answersTo name = true ↔ name = p.name ∨ name ∈ p.otherNames :=
    answersTo_iff.trans List.mem_cons
  rw [hrecord, Entries.get?_foldl_insert, Entries.get?_insert, hvalue]
  by_cases hother : name ∈ p.otherNames
  · exact (if_pos hother).trans (if_pos (hnames.mpr (Or.inr hother))).symm
  · by_cases hname : p.name = name
    · rw [if_neg hother, if_pos hname]
      exact (if_pos (hnames.mpr (Or.inl hname.symm))).symm
    · rw [if_neg hother, if_neg hname, if_neg]
      rw [hnames, not_or]
      exact ⟨Ne.symm hname, hother⟩

/-! ### Arguments that sum up flags -/

/-- The arguments sum up some flags: under every name of a parameter stands what the values given
for it come to, and under every other name the value that was last given under it. -/
structure Summarizes (parameters : List Parameter) (flags : List Flag) (args : Entries Value) :
    Prop where
  declared : ∀ p ∈ parameters, ∀ name, p.answersTo name = true →
    args.get? name = p.summary? (p.valuesIn flags)
  undeclared : ∀ name, (∀ p ∈ parameters, p.answersTo name = false) →
    args.get? name = ((flags.filter fun f => f.name = name).getLast?).map (·.value)

namespace Summarizes

theorem nil (parameters : List Parameter) : Summarizes parameters [] [] :=
  ⟨fun _ _ _ _ => rfl, fun _ _ => rfl⟩

/-- Arguments that sum up some flags do so with one more. -/
theorem bindFlag (h : Summarizes parameters flags args)
    (hapart : parameters.Pairwise Parameter.Apart) (f : Flag) :
    Summarizes parameters (flags ++ [f]) (bindFlag parameters args f) := by
  unfold CommandShell.bindFlag
  -- The flag is recorded under all names of the parameter that answers to it, or under its own.
  cases hfound : parameters.find? (·.answersTo f.name) with
  | some q =>
    have hq : q ∈ parameters := List.mem_of_find?_eq_some hfound
    have hqf : q.answersTo f.name = true := by simpa using List.find?_some hfound
    have hrecord := Parameter.get?_record (h.declared q hq q.name q.answersTo_name) f.value
    refine ⟨fun p hp name hname => ?_, fun name hnone => ?_⟩
    · dsimp only
      rw [hrecord, Parameter.valuesIn_concat]
      -- Parameters are apart, so a name of this one is a name of no other.
      by_cases hqname : q.answersTo name = true
      · obtain rfl := Parameter.eq_of_answersTo hapart hp hq hname hqname
        rw [if_pos hname, if_pos hqf]
      · have hpf : ¬ p.answersTo f.name = true := fun hpf => hqname
          (Parameter.eq_of_answersTo hapart hp hq hpf hqf ▸ hname)
        rw [if_neg hqname, if_neg hpf, List.append_nil, h.declared p hp name hname]
    · have hne : ¬ f.name = name := by
        rintro rfl
        rw [hnone q hq] at hqf
        cases hqf
      dsimp only
      rw [hrecord, hnone q hq, List.filter_append, List.filter_singleton]
      simp [hne, h.undeclared name hnone]
  | none =>
    have hnot : ∀ p ∈ parameters, p.answersTo f.name = false := by
      simpa using List.find?_eq_none.mp hfound
    refine ⟨fun p hp name hname => ?_, fun name hnone => ?_⟩
    · have hne : ¬ f.name = name := by
        rintro rfl
        rw [hnot p hp] at hname
        cases hname
      dsimp only
      rw [Entries.get?_insert, if_neg hne, Parameter.valuesIn_concat, hnot p hp]
      simpa using h.declared p hp name hname
    · dsimp only
      rw [Entries.get?_insert, List.filter_append, List.filter_singleton]
      by_cases hname : f.name = name
      · simp [hname]
      · simp [hname, h.undeclared name hnone]

/-- A name has an argument if a flag was given under it, or under a name of the parameter that it
belongs to. -/
theorem mem_keys_iff (h : Summarizes parameters flags args)
    (hapart : parameters.Pairwise Parameter.Apart) :
    name ∈ args.keys ↔ ∃ f ∈ flags, f.name = name ∨
      ∃ p ∈ parameters, p.answersTo f.name = true ∧ p.answersTo name = true := by
  rw [← not_iff_not, ← Entries.get?_eq_none_iff]
  -- A declared name shares its values with the other names of its parameter.
  by_cases hdeclared : ∃ p ∈ parameters, p.answersTo name = true
  · obtain ⟨p, hp, hname⟩ := hdeclared
    rw [h.declared p hp name hname, Parameter.summary?_eq_none_iff, Parameter.valuesIn_eq_nil_iff]
    constructor
    · rintro hnone ⟨f, hf, hsame | ⟨q, hq, hqf, hqname⟩⟩
      · rw [← hsame, hnone f hf] at hname
        cases hname
      · obtain rfl := Parameter.eq_of_answersTo hapart hp hq hname hqname
        rw [hnone f hf] at hqf
        cases hqf
    · intro hnone f hf
      by_contra hpf
      exact hnone ⟨f, hf, Or.inr ⟨p, hp, by simpa using hpf, hname⟩⟩
  · have hnone : ∀ p ∈ parameters, p.answersTo name = false := by simpa using hdeclared
    rw [h.undeclared name hnone, Option.map_eq_none_iff, List.getLast?_eq_none_iff,
      List.filter_eq_nil_iff]
    constructor
    · rintro hfree ⟨f, hf, hsame | ⟨q, hq, -, hqname⟩⟩
      · exact hfree f hf (decide_eq_true hsame)
      · exact hdeclared ⟨q, hq, hqname⟩
    · intro hnot f hf hsame
      exact hnot ⟨f, hf, Or.inl (of_decide_eq_true hsame)⟩

/-- The value given for a parameter is what its values come to, if none is absent. -/
theorem given?_eq (h : Summarizes parameters flags args) (hp : p ∈ parameters)
    (hpresent : ∀ f ∈ flags, f.value.isNull = false) :
    p.given? args = p.summary? (p.valuesIn flags) := by
  have hvalues : ∀ v ∈ p.valuesIn flags, v.isNull = false := by
    intro v hv
    obtain ⟨f, hf, rfl⟩ := List.mem_map.mp hv
    exact hpresent f (List.mem_of_mem_filter hf)
  have hnames : ∀ name ∈ p.allNames,
      ((args.get? name).filter fun v => !v.isNull) = p.summary? (p.valuesIn flags) := by
    intro name hname
    rw [h.declared p hp name (Parameter.answersTo_iff.mpr hname)]
    cases hsummary : p.summary? (p.valuesIn flags) with
    | none => rfl
    | some v => simp [Option.filter, Parameter.isNull_of_summary? hvalues hsummary]
  -- All names have the same value, so the first one decides.
  unfold Parameter.given?
  rw [List.findSome?_cons, hnames p.name List.mem_cons_self]
  cases hsummary : p.summary? (p.valuesIn flags) with
  | some v => rfl
  | none =>
    rw [hsummary] at hnames
    exact List.findSome?_eq_none_iff.mpr fun name hname =>
      hnames name (List.mem_cons_of_mem _ hname)

end Summarizes

theorem bindFlags_concat (parameters : List Parameter) (flags : List Flag) (f : Flag) :
    bindFlags parameters (flags ++ [f]) = bindFlag parameters (bindFlags parameters flags) f := by
  unfold bindFlags
  rw [List.foldl_append, List.foldl_cons, List.foldl_nil]

theorem summarizes_bindFlags (hapart : parameters.Pairwise Parameter.Apart) (flags : List Flag) :
    Summarizes parameters flags (bindFlags parameters flags) := by
  induction flags using List.reverseRecOn with
  | nil => exact .nil parameters
  | append_singleton flags f ih =>
    rw [bindFlags_concat]
    exact ih.bindFlag hapart f

/-- Without parameters the arguments are the flags as a map. -/
theorem bindFlags_nil (segment : Segment) : bindFlags [] segment.flags = segment.flagMap := by
  unfold bindFlags Segment.flagMap Entries.ofPairs Entries.overlay
  rw [List.foldl_map]
  rfl

theorem nodup_keys_bindFlags (parameters : List Parameter) (flags : List Flag) :
    (bindFlags parameters flags).keys.Nodup := by
  induction flags using List.reverseRecOn with
  | nil => exact List.nodup_nil
  | append_singleton flags f ih =>
    rw [bindFlags_concat]
    unfold bindFlag
    cases parameters.find? (·.answersTo f.name) with
    | some q => exact Entries.nodup_keys_foldl_insert _ _ (Entries.nodup_keys_insert ih)
    | none => exact Entries.nodup_keys_insert ih

/-! ### Flags that change places -/

/-- Two flags that stand next to each other change places; they have different names, and no
parameter answers to both. -/
inductive SwapsApart (parameters : List Parameter) : List Flag → List Flag → Prop
  | swap {f g : Flag} (front back : List Flag) (hname : f.name ≠ g.name)
    (happart : ∀ p ∈ parameters, ¬ (p.answersTo f.name = true ∧ p.answersTo g.name = true)) :
    SwapsApart parameters (front ++ f :: g :: back) (front ++ g :: f :: back)

/-- What is left of some flags does not change if one of two neighbours is not among it. -/
theorem filter_swap {α : Type} {P : α → Bool} {a b : α} (front back : List α)
    (h : ¬ (P a = true ∧ P b = true)) :
    (front ++ a :: b :: back).filter P = (front ++ b :: a :: back).filter P := by
  rw [List.filter_append, List.filter_append, List.filter_cons, List.filter_cons, List.filter_cons,
    List.filter_cons]
  cases ha : P a with
  | false => cases P b <;> rfl
  | true =>
    have hb : P b = false := by simpa [ha] using h
    rw [hb]
    rfl

/-- Flags that change places are summed up the same way. -/
theorem Summarizes.of_swaps (h : Summarizes parameters flags args)
    (hswaps : Relation.ReflTransGen (SwapsApart parameters) flags moved) :
    Summarizes parameters moved args := by
  induction hswaps with
  | refl => exact h
  | tail _ hswap ih =>
    cases hswap with
    | swap front back hname happart =>
      refine ⟨fun p hp name hpname => ?_, fun name hnone => ?_⟩
      · rw [ih.declared p hp name hpname]
        unfold Parameter.valuesIn
        rw [filter_swap front back (happart p hp)]
      · rw [ih.undeclared name hnone, filter_swap front back]
        rintro ⟨hf, hg⟩
        exact hname ((of_decide_eq_true hf).trans (of_decide_eq_true hg).symm)

/-- Arguments that sum up the same flags have the same values. -/
theorem Summarizes.get?_eq {other : Entries Value} (h : Summarizes parameters flags args)
    (h' : Summarizes parameters flags other) (name : String) :
    args.get? name = other.get? name := by
  by_cases hdeclared : ∃ p ∈ parameters, p.answersTo name = true
  · obtain ⟨p, hp, hname⟩ := hdeclared
    rw [h.declared p hp name hname, h'.declared p hp name hname]
  · have hnone : ∀ p ∈ parameters, p.answersTo name = false := by simpa using hdeclared
    rw [h.undeclared name hnone, h'.undeclared name hnone]

/-! ### Flags that are read -/

theorem Chars.isNull_of_unsignedNumber? {negative : Bool} {cs : List Char}
    (h : unsignedNumber? negative cs = some v) : v.isNull = false := by
  have hfloating : ∀ {floating : Int → Float} {e : Option Int},
      e.map (fun e => Value.float (floating e)) = some v → v.isNull = false := by
    intro floating e h
    obtain ⟨e, -, rfl⟩ := Option.map_eq_some_iff.mp h
    rfl
  unfold unsignedNumber? at h
  dsimp only at h
  split at h
  · split at h
    · cases h
    · exact hfloating h
  · split at h
    · cases h
    · split at h <;> obtain rfl := Option.some.inj h <;> rfl
  · split at h
    · cases h
    · exact hfloating h

/-- A flag that is read has a value. -/
theorem isNull_of_mem_flags {segment : String} (h : f ∈ (readSegment segment).flags) :
    f.value.isNull = false := by
  have hcoerce : ∀ s, (coerce s).isNull = false := by
    intro s
    unfold coerce
    split
    · exact Chars.isNull_of_unsignedNumber? ‹_›
    · split_ifs <;> rfl
  obtain ⟨token, -, htoken⟩ := List.mem_filterMap.mp h
  cases token with
  | word text => cases htoken
  | flag name raw =>
    cases raw with
    | none => obtain rfl := Option.some.inj htoken; rfl
    | some raw => obtain rfl := Option.some.inj htoken; exact hcoerce _

/-! ### Arguments that flags make -/

/-- The arguments that flags make under parameters that have no name in common.  They sum up the
flags; they stand under the names that were given and all other names of the parameters that these
belong to, each once; they are the same, in some order, if flags of different parameters change
places; and nothing is given for a parameter just where no flag belongs to it, if all flags have a
value, as those that are read do. -/
theorem bindFlags_summarizes (hapart : parameters.Pairwise Parameter.Apart) (flags : List Flag) :
    Summarizes parameters flags (bindFlags parameters flags) ∧
      (bindFlags parameters flags).keys.Nodup ∧
      (∀ name, name ∈ (bindFlags parameters flags).keys ↔ ∃ f ∈ flags, f.name = name ∨
        ∃ p ∈ parameters, p.answersTo f.name = true ∧ p.answersTo name = true) ∧
      (∀ moved, Relation.ReflTransGen (SwapsApart parameters) flags moved →
        (bindFlags parameters moved).Perm (bindFlags parameters flags)) ∧
      (∀ p ∈ parameters, (∀ f ∈ flags, f.value.isNull = false) →
        (p.given? (bindFlags parameters flags) = none ↔
          ∀ f ∈ flags, p.answersTo f.name = false)) ∧
      ∀ segment, ∀ f ∈ (readSegment segment).flags, f.value.isNull = false := by
  have hsums := summarizes_bindFlags hapart flags
  refine ⟨hsums, nodup_keys_bindFlags parameters flags, fun name => hsums.mem_keys_iff hapart,
    fun moved hmoved => ?_, fun p hp hpresent => ?_, fun segment f hf => isNull_of_mem_flags hf⟩
  · refine Entries.perm_of_get? (nodup_keys_bindFlags _ _) (nodup_keys_bindFlags _ _) fun name => ?_
    exact (summarizes_bindFlags hapart moved).get?_eq (hsums.of_swaps hmoved) name
  · rw [hsums.given?_eq hp hpresent, Parameter.summary?_eq_none_iff, Parameter.valuesIn_eq_nil_iff]

/-- A flag that stands between two flags of a list may as well stand behind them. -/
theorem bindFlags_around_flag :
    let level : Parameter := { name := "level", type := "array", aliases := some ["l"] }
    let quiet : Parameter := { name := "quiet", type := "boolean", aliases := some ["q"] }
    let between : List Flag := [⟨"l", .int 1⟩, ⟨"quiet", .text "no"⟩, ⟨"level", .int 2⟩]
    let behind : List Flag := [⟨"l", .int 1⟩, ⟨"level", .int 2⟩, ⟨"quiet", .text "no"⟩]
    [level, quiet].Pairwise Parameter.Apart ∧
      (bindFlags [level, quiet] behind).Perm (bindFlags [level, quiet] between) ∧
      (bindFlags [level, quiet] between).get? "l" = some (.list [.int 1, .int 2]) ∧
      (bindFlags [level, quiet] between).get? "q" = some (.bool false) := by
  intro level quiet between behind
  have hapart : [level, quiet].Pairwise Parameter.Apart := by decide +kernel
  obtain ⟨hsums, -, -, hmoved, -⟩ := bindFlags_summarizes hapart between
  refine ⟨hapart, hmoved behind (.single (.swap [⟨"l", .int 1⟩] [] ?_ ?_)), ?_, ?_⟩
  · decide +kernel
  · decide +kernel
  · exact hsums.declared level List.mem_cons_self "l" (by decide +kernel)
  · exact hsums.declared quiet (List.mem_cons_of_mem _ List.mem_cons_self) "q" (by decide +kernel)

end CommandShell
