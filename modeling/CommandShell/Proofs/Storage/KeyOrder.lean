import CommandShell.Proofs.Entries
import CommandShell.Storage.Stores
import Mathlib.Data.List.Lex
import Mathlib.Data.String.Basic
import Mathlib.Tactic.SplitIfs

/-!
# The order of keys

A database compares keys by their bytes in UTF-8, and texts are compared by their characters.  Both
orders are the same: where two characters differ, their bytes differ, and the first byte in which
they do is greater for the greater character.  So the keys of a table in the order of the database
are what sorting the keys gives.

## Main results

* `keyBytes_lt_iff`: texts compare as their bytes do.
* `eq_mergeSort_of_keyBytes`: keys in the order of their bytes are the sorted keys.
-/

namespace CommandShell

theorem keyBytes_eq (key : String) : keyBytes key = key.toList.flatMap String.utf8EncodeChar := by
  unfold keyBytes String.toUTF8
  rw [← String.utf8Encode_toList]
  unfold List.utf8Encode
  simp

/-- A smaller character has smaller bytes, whatever follows. -/
theorem utf8EncodeChar_append_lt {c d : Char} (h : c < d) (s t : List UInt8) :
    String.utf8EncodeChar c ++ s < String.utf8EncodeChar d ++ t := by
  have hlt : c.val.toNat < d.val.toNat := h
  have hd : d.val.toNat < 0x110000 := by
    rcases d.valid with h | h <;> omega
  unfold String.utf8EncodeChar
  generalize c.val.toNat = m at *
  generalize d.val.toNat = n at *
  dsimp only
  by_cases hlong : 0xFFFF < m
  · -- Four bytes each: the first in which the characters differ decides.
    have hlead : ∀ k < 0x110000, (k / 262144 % 8 + 240) % 256 = k / 262144 + 240 := by omega
    have hbyte : ∀ k, (k % 64 + 128) % 256 = k % 64 + 128 := by omega
    rw [if_neg (by omega), if_neg (by omega), if_neg (by omega), if_neg (by omega),
      if_neg (by omega), if_neg (by omega)]
    simp only [List.cons_append, List.cons_lt_cons_iff, UInt8.lt_iff_toNat_lt, ← UInt8.toNat_inj,
      UInt8.toNat_ofNat', Nat.reducePow, hbyte, hlead m (by omega), hlead n hd]
    by_cases hfirst : m / 262144 = n / 262144
    · by_cases hsecond : m / 4096 = n / 4096
      · by_cases hthird : m / 64 = n / 64 <;> omega
      · omega
    · omega
  · split_ifs <;> simp [List.cons_lt_cons_iff, UInt8.lt_iff_toNat_lt, ← UInt8.toNat_inj] <;> omega

theorem flatMap_utf8EncodeChar_lt {cs ds : List Char} (h : cs < ds) :
    cs.flatMap String.utf8EncodeChar < ds.flatMap String.utf8EncodeChar := by
  induction cs generalizing ds with
  | nil =>
    cases ds with
    | nil => exact absurd h (List.not_lt_nil [])
    | cons d ds =>
      obtain ⟨b, bs, hb⟩ := List.exists_cons_of_ne_nil (String.utf8EncodeChar_ne_nil (c := d))
      rw [List.flatMap_cons, hb]
      exact List.nil_lt_cons b _
  | cons c cs ih =>
    cases ds with
    | nil => exact absurd h (List.not_lt_nil _)
    | cons d ds =>
      rw [List.flatMap_cons, List.flatMap_cons]
      rcases List.cons_lt_cons_iff.mp h with hfirst | ⟨rfl, hrest⟩
      · exact utf8EncodeChar_append_lt hfirst _ _
      · exact List.append_left_lt (ih hrest)

/-- Texts compare as their bytes do. -/
theorem keyBytes_lt_iff {a b : String} : keyBytes a < keyBytes b ↔ a < b := by
  have hlt : ∀ {a b : String}, a < b → keyBytes a < keyBytes b := by
    intro a b h
    rw [keyBytes_eq, keyBytes_eq]
    exact flatMap_utf8EncodeChar_lt (String.lt_iff_toList_lt.mp h)
  refine ⟨fun h => ?_, hlt⟩
  rcases lt_trichotomy a b with hab | rfl | hba
  · exact hab
  · exact absurd h (List.lt_irrefl _)
  · exact absurd (hlt hba) (List.lt_asymm h)

theorem keyBytes_injective : Function.Injective keyBytes := by
  intro a b h
  rcases lt_trichotomy a b with hab | rfl | hba
  · have hlt := keyBytes_lt_iff.mpr hab
    rw [h] at hlt
    exact absurd hlt (List.lt_irrefl _)
  · rfl
  · have hlt := keyBytes_lt_iff.mpr hba
    rw [h] at hlt
    exact absurd hlt (List.lt_irrefl _)

/-- Keys in the order of their bytes, each of them once, are the sorted keys. -/
theorem eq_mergeSort_of_keyBytes {ks l : List String}
    (hks : ks.Pairwise fun a b => keyBytes a < keyBytes b) (hl : l.Nodup)
    (hmem : ∀ key, key ∈ ks ↔ key ∈ l) : ks = l.mergeSort fun a b => a ≤ b := by
  have hsorted : ks.Pairwise (· < ·) := hks.imp keyBytes_lt_iff.mp
  have hperm : ks.Perm (l.mergeSort fun a b => a ≤ b) :=
    ((List.perm_ext_iff_of_nodup (hsorted.imp ne_of_lt) hl).mpr hmem).trans
      (List.mergeSort_perm l _).symm
  have hmerge : (l.mergeSort fun a b => a ≤ b).Pairwise (· ≤ ·) :=
    pairwise_sortedBy le_trans le_total id l
  exact hperm.eq_of_pairwise (fun a b _ _ hab hba => le_antisymm hab hba)
    (hsorted.imp le_of_lt) hmerge

end CommandShell
