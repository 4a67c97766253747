import Mathlib.Data.BitVec
import Mathlib.Data.List.GetD
import Mathlib.Data.List.Range

/-!
# Bitmaps

A set of small numbers as the bits of 64-bit words. A bit that is set is the only one
that changes (`test_set`).
-/

namespace VcsClient.Lib

structure Bitmap where
  words : List (BitVec 64)

namespace Bitmap

/-- No bit of `n` is set. -/
def new (n : ℕ) : Bitmap := ⟨List.replicate ((n + 63) / 64) 0⟩

def word (m : Bitmap) (i : ℕ) : BitVec 64 := m.words.getD (i / 64) 0

def mask (i : ℕ) : BitVec 64 := 1#64 <<< (i % 64)

def test (m : Bitmap) (i : ℕ) : Bool := m.word i &&& mask i != 0

def set (m : Bitmap) (i : ℕ) : Bitmap := ⟨m.words.set (i / 64) (m.word i ||| mask i)⟩

variable {m : Bitmap} {n i j : ℕ}

theorem test_eq_getLsbD : m.test i = (m.word i).getLsbD (i % 64) := by
  have hmask : mask i = BitVec.twoPow 64 (i % 64) := rfl
  rw [test, hmask, BitVec.and_twoPow]
  have hlt : i % 64 < 64 := Nat.mod_lt _ (by decide)
  split
  · next h =>
    rw [h, bne_iff_ne, Ne, ← BitVec.toNat_inj, BitVec.toNat_twoPow,
      Nat.mod_eq_of_lt (Nat.pow_lt_pow_right (by decide) hlt)]
    exact (Nat.two_pow_pos _).ne'
  · next h =>
    rw [Bool.eq_false_of_not_eq_true h]
    rfl

@[simp] theorem test_new : (new n).test i = false := by
  rw [test_eq_getLsbD, word, new]
  simp [List.getD_eq_getElem?_getD, List.getElem?_replicate]
  split <;> simp

theorem length_set : (m.set i).words.length = m.words.length := List.length_set

/-- **Setting a bit** sets that bit. -/
theorem test_set (h : i / 64 < m.words.length) : (m.set i).test j = (decide (j = i) || m.test j) := by
  have hlt : i % 64 < 64 := Nat.mod_lt _ (by decide)
  have hmask : mask i = BitVec.twoPow 64 (i % 64) := rfl
  rw [test_eq_getLsbD, test_eq_getLsbD]
  by_cases hw : i / 64 = j / 64
  · have hword : (m.set i).word j = m.word i ||| mask i := by
      simp [word, set, List.getD_eq_getElem?_getD, hw, hw ▸ h]
    have hsame : m.word i = m.word j := by simp [word, hw]
    rw [hword, BitVec.getLsbD_or, hmask, BitVec.getLsbD_twoPow, hsame]
    have hbit : i % 64 = j % 64 ↔ j = i := by omega
    simp [hlt, hbit, Bool.or_comm]
  · have hword : (m.set i).word j = m.word j := by
      simp [word, set, List.getD_eq_getElem?_getD, hw]
    have hne : j ≠ i := fun he => hw (by rw [he])
    simp [hword, hne]

theorem countP_insert {l : List ℕ} {q : ℕ → Bool} (hn : l.Nodup) (hi : i ∈ l)
    (hq : q i = false) : l.countP (fun j => decide (j = i) || q j) = l.countP (q ·) + 1 := by
  induction l with
  | nil => cases hi
  | cons j l ih =>
    obtain ⟨hj, hn⟩ := List.nodup_cons.1 hn
    by_cases he : j = i
    · subst he
      have hrest : l.countP (fun k => decide (k = j) || q k) = l.countP (q ·) := by
        refine List.countP_congr fun k hk => ?_
        have hne : k ≠ j := by
          rintro rfl
          exact hj hk
        simp [hne]
      simp [hrest, hq]
    · have hi : i ∈ l := (List.mem_cons.1 hi).resolve_left (Ne.symm he)
      rw [List.countP_cons, List.countP_cons, ih hn hi]
      simp only [he, decide_false, Bool.false_or]
      omega

theorem countP_set (h : i / 64 < m.words.length) (hi : i < n) (hnew : m.test i = false) :
    (List.range n).countP ((m.set i).test ·) = (List.range n).countP (m.test ·) + 1 := by
  rw [← countP_insert (List.nodup_range) (List.mem_range.2 hi) hnew]
  exact List.countP_congr fun j _ => by rw [test_set h]

end Bitmap

end VcsClient.Lib
