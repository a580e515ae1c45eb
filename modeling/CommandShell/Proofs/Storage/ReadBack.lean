import CommandShell.Proofs.Storage.Placing
import CommandShell.Proofs.Value.LineEnds

/-!
# Texts that are read back

A text that is written into a file takes the place of what the file held, or comes behind it.  So
after some calls the file holds what the last call that did not append wrote, and behind it what was
appended since.

A file is read with every line end as a line feed.  What comes back is what was written just where
there is no carriage return in it.

## Main definitions

* `FileCall`: the calls that write to a file.
* `FileTree.HeldText`: the text that a file holds; a file that is not there holds none.
* `FileCall.sinceRewritten`: the calls from the last one on that does not append.
* `FileCall.joined`: the texts of some calls, one after another.

## Main results

* `FileCall.locate_of_returns`: what one call makes of the file.
* `FileCall.locate_of_appends`: what a run of calls that append makes of it.
* `FileCall.read_after_calls_iff`: what is read after any run of calls.
-/

namespace CommandShell

/-- The calls that write to a file. -/
inductive FileCall
  /-- Makes the file, with a text in it. -/
  | create (text : String)
  /-- Writes a text to the file, behind what it holds or in place of that. -/
  | write (text : String) (append : Bool)

namespace FileCall

/-- The text that a call writes. -/
def text : FileCall → String
  | create text => text
  | write text _ => text

/-- Whether a call leaves what the file holds, and writes behind it. -/
def appends : FileCall → Bool
  | create _ => false
  | write _ append => append

/-- What a call does to the file at a path. -/
def access (p : AccessPath) : FileCall → FileAccess Unit
  | create text => FileAccess.create p text
  | write text append => FileAccess.write p text append

end FileCall

namespace FileTree

variable {t u : FileTree} {p : AccessPath} {q : Path}

/-- The file at a path holds a text, or there is no file and the text is empty. -/
def HeldText (t : FileTree) (q : Path) (s : String) : Prop :=
  t.file? q = some (.file s.toUTF8) ∨ t.file? q = none ∧ s = ""

theorem content_eq_of_file? {bytes : ByteArray} (h : t.file? q = some (.file bytes)) :
    t.content q = bytes := by
  rw [content, (file?_eq_some_iff.mp h).1]

theorem content_of_heldText {s : String} (h : t.HeldText q s) : t.content q = s.toUTF8 := by
  rcases h with h | ⟨h, rfl⟩
  · exact content_eq_of_file? h
  · unfold content
    split
    · rename_i hnode
      rw [file?_eq_some_iff.mpr ⟨hnode, rfl⟩] at h
      cases h
    · rfl

theorem GainsDirectories.content_eq (h : t.GainsDirectories u) (q : Path) :
    u.content q = t.content q := by
  unfold content
  cases hn : t.node? q with
  | some n => rw [h.keeps q n hn]
  | none =>
    cases hm : u.node? q with
    | none => rfl
    | some m =>
      obtain rfl : m = .directory := (h.adds q m hm).resolve_left (by rw [hn]; nofun)
      rfl

/-- A file that holds a text is read as this text, with line feeds as its line ends. -/
theorem read_of_locate {s : String} (hnull : p.hasNull = false)
    (hl : t.locate p = .ok (q, .file s.toUTF8)) : t.read p = .ok (unifyLineEnds s) := by
  have hdirectory : t.isDirectory? p = .ok false := by
    unfold isDirectory? test stat
    rw [if_neg (by simp [hnull]), hl]
    rfl
  unfold read
  rw [hdirectory]
  exact readText_of_locate hnull hl

end FileTree

namespace FileAccess

variable {t u : FileTree} {p : AccessPath} {text : String} {append : Bool}

/-- Where a text is put into a file, the path leads to the text behind what it keeps of the file. -/
theorem locate_of_put (h : Returns (put p text append) t () u) :
    p.hasNull = false ∧ ∃ q,
      u.locate p = .ok (q, .file ((if append then t.content q else .empty) ++ text.toUTF8)) ∧
      ∀ r n, t.locate p = .ok (r, n) → r = q := by
  rcases put_cases p text append t with ⟨hnull, q, bytes, hreceives, hput⟩ | ⟨-, f, hput⟩
  · obtain rfl : u = _ := congrArg Prod.snd (h.symm.trans hput)
    refine ⟨hnull, q, ?_, fun r n hl => (hreceives.eq_of_locate hl).symm⟩
    rw [hreceives.content_eq]
    exact hreceives.locate_put _
  · cases h.symm.trans hput

/-- Where a text is written to a file, the path leads to the text behind what it keeps of the
file. -/
theorem locate_of_write (h : Returns (write p text append) t () u) :
    p.hasNull = false ∧ ∃ q,
      u.locate p = .ok (q, .file ((if append then t.content q else .empty) ++ text.toUTF8)) ∧
      ∀ r n, t.locate p = .ok (r, n) → r = q := by
  obtain ⟨there, v, hask, h⟩ := returns_bind_iff.mp h
  obtain rfl : v = t := (keeps_ask _).of_returns hask
  cases there with
  | true => cases h
  | false =>
    obtain ⟨⟨⟩, made, hmade, hput⟩ := returns_bind_iff.mp h
    have hgains := (gainsDirectories_makeDirectories p.parent).of_returns hmade
    obtain ⟨hnull, q, hl, hsame⟩ := locate_of_put hput
    rw [hgains.content_eq q] at hl
    exact ⟨hnull, q, hl, fun r n hr => hsame r n (hgains.locate hr)⟩

end FileAccess

namespace FileCall

open FileAccess (returns_ask_iff)

variable {t u : FileTree} {p : AccessPath} {q : Path} {c last : FileCall}
  {before after : List FileCall}

/-- After a call, the path leads to a file that holds the text of the call, behind what it held
before if the call appends. -/
theorem locate_of_returns (h : Returns (c.access p) t () u) :
    p.hasNull = false ∧ ∃ q,
      u.locate p = .ok (q, .file ((if c.appends then t.content q else .empty) ++ c.text.toUTF8)) ∧
      ∀ r n, t.locate p = .ok (r, n) → r = q := by
  cases c with
  | write text append => exact FileAccess.locate_of_write h
  | create text =>
    obtain ⟨there, v, hask, h⟩ := returns_bind_iff.mp h
    obtain ⟨-, rfl⟩ := returns_ask_iff.mp hask
    cases there with
    | true => cases h
    | false => exact FileAccess.locate_of_write h

/-- The texts of some calls, one after another. -/
def joined (calls : List FileCall) : String :=
  String.join (calls.map text)

theorem joined_cons (c : FileCall) (calls : List FileCall) :
    joined (c :: calls) = c.text ++ joined calls := by
  simp [joined]

theorem append_toUTF8 (bytes : ByteArray) (s s' : String) :
    bytes ++ s.toUTF8 ++ s'.toUTF8 = bytes ++ (s ++ s').toUTF8 := by
  rw [ByteArray.append_assoc]
  simp [String.toUTF8]

/-- Calls that append put their texts behind what the file holds. -/
theorem locate_of_appends {bytes : ByteArray} (hl : t.locate p = .ok (q, .file bytes))
    (hafter : ∀ c ∈ after, c.appends = true) (h : Returns (after.forM (access p)) t () u) :
    u.locate p = .ok (q, .file (bytes ++ (joined after).toUTF8)) := by
  induction after generalizing t bytes with
  | nil =>
    obtain ⟨-, rfl⟩ := returns_pure_iff.mp h
    rw [hl]
    simp [joined]
  | cons c after ih =>
    obtain ⟨⟨⟩, v, hc, h⟩ := returns_bind_iff.mp h
    obtain ⟨-, r, hv, hsame⟩ := locate_of_returns hc
    obtain rfl := hsame q _ hl
    have hcontent : t.content q = bytes := by
      rw [FileTree.content, (FileTree.stands_of_locate hl).node]
    rw [if_pos (hafter c (List.mem_cons_self ..)), hcontent] at hv
    rw [ih hv (fun d hd => hafter d (List.mem_cons_of_mem c hd)) h, joined_cons, append_toUTF8]

/-- The calls from the last one on that does not append; all of them if all do. -/
def sinceRewritten : List FileCall → List FileCall
  | [] => []
  | c :: calls => if calls.all appends then c :: calls else sinceRewritten calls

theorem exists_sinceRewritten {calls : List FileCall} (h : calls ≠ []) :
    ∃ before last after, calls = before ++ last :: after ∧
      sinceRewritten calls = last :: after ∧ (∀ c ∈ after, c.appends = true) ∧
      (before = [] ∨ last.appends = false) := by
  induction calls with
  | nil => exact absurd rfl h
  | cons c calls ih =>
    unfold sinceRewritten
    split
    · rename_i hall
      exact ⟨[], c, calls, rfl, rfl, List.all_eq_true.mp hall, Or.inl rfl⟩
    · rename_i hall
      obtain ⟨before, last, after, rfl, hsince, hafter, hlast⟩ := ih (by rintro rfl; exact hall rfl)
      refine ⟨c :: before, last, after, rfl, hsince, hafter, Or.inr ?_⟩
      rcases hlast with rfl | hlast
      · cases hc : last.appends with
        | false => rfl
        | true => exact absurd (List.all_eq_true.mpr (List.forall_mem_cons.mpr ⟨hc, hafter⟩)) hall
      · exact hlast

/-- After some calls the file holds what the last call that did not append wrote, or what it held at
first, and behind it what was appended since. -/
theorem locate_of_calls (h : Returns ((before ++ last :: after).forM (access p)) t () u)
    (hafter : ∀ c ∈ after, c.appends = true) :
    p.hasNull = false ∧ ∃ q bytes,
      u.locate p = .ok (q, .file (bytes ++ (joined (last :: after)).toUTF8)) ∧
      (last.appends = false → bytes = .empty) ∧
      (before = [] → last.appends = true → bytes = t.content q) := by
  rw [List.forM_eq_forM, List.forM_append] at h
  obtain ⟨⟨⟩, v, hbefore, h⟩ := returns_bind_iff.mp h
  obtain ⟨⟨⟩, w, hlast, hrest⟩ := returns_bind_iff.mp h
  obtain ⟨hnull, q, hw, -⟩ := locate_of_returns hlast
  refine ⟨hnull, q, if last.appends then v.content q else .empty, ?_, fun hfalse => ?_,
    fun hnil htrue => ?_⟩
  · rw [locate_of_appends hw hafter hrest, append_toUTF8, joined_cons]
  · exact if_neg (by simp [hfalse])
  · subst hnil
    obtain ⟨-, rfl⟩ := returns_pure_iff.mp hbefore
    exact if_pos htrue

/-- What is read from a file after any run of calls, all of which return: the texts since the last
call that did not append, behind what the file held at first if all calls append.  They are read
with line feeds as their line ends, so just where there is no carriage return, character for
character. -/
theorem read_after_calls_iff {calls : List FileCall} (hne : calls ≠ [])
    (h : Returns (calls.forM (access p)) t () u) :
    ∃ q n, u.locate p = .ok (q, n) ∧ ∀ held,
      (if calls.all appends then t.HeldText q held else held = "") →
        u.read p = .ok (unifyLineEnds (held ++ joined (sinceRewritten calls))) ∧
        (u.read p = .ok (held ++ joined (sinceRewritten calls)) ↔
          '\r' ∉ (held ++ joined (sinceRewritten calls)).toList) := by
  obtain ⟨before, last, after, rfl, hsince, hafter, hlast⟩ := exists_sinceRewritten hne
  obtain ⟨hnull, q, bytes, hl, hanew, hbehind⟩ := locate_of_calls h hafter
  rw [hsince]
  refine ⟨q, _, hl, fun held hheld => ?_⟩
  have hbytes : bytes = held.toUTF8 := by
    cases hc : last.appends with
    | false =>
      rw [if_neg (by simp [hc])] at hheld
      rw [hanew hc, hheld]
      rfl
    | true =>
      have hnil : before = [] := hlast.resolve_right (by simp [hc])
      rw [if_pos (by simpa [hnil, hc] using hafter)] at hheld
      rw [hbehind hnil hc, FileTree.content_of_heldText hheld]
  have hread : u.read p = .ok (unifyLineEnds (held ++ joined (last :: after))) := by
    refine FileTree.read_of_locate (q := q) hnull ?_
    rw [hl, hbytes]
    simp [String.toUTF8]
  refine ⟨hread, ?_⟩
  rw [hread, Except.ok.injEq, unifyLineEnds_eq_self_iff]

/-- A file that is made and appended to gives both texts. -/
theorem made_file_is_read :
    ∃ u, Returns ([create "one", .write "two" true].forM (access (.ofPath ["f"]))) {} () u ∧
      u.read (.ofPath ["f"]) = .ok "onetwo" := by
  have h : Returns ([create "one", .write "two" true].forM (access (.ofPath ["f"]))) {} ()
      ([create "one", .write "two" true].forM (access (.ofPath ["f"])) {}).2 := rfl
  obtain ⟨q, n, -, hread⟩ := read_after_calls_iff (by simp) h
  exact ⟨_, h, (hread "" rfl).2.mpr (by decide)⟩

/-- A carriage return that is written is read as a line feed. -/
theorem carriage_return_is_not_read_back :
    ∃ u, Returns ([create "a\rb"].forM (access (.ofPath ["f"]))) {} () u ∧
      u.read (.ofPath ["f"]) = .ok "a\nb" := by
  refine ⟨_, rfl, ?_⟩
  rw [FileTree.read_of_locate (q := ["f"]) (s := "a\rb") rfl rfl]
  exact congrArg Except.ok (by decide +kernel)

end FileCall

end CommandShell
