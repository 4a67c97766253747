import Mathlib.Data.List.Basic
import Mathlib.Tactic.Common

/-!
# Reading a byte string

Slices that must lie within the string, and the little-endian numbers at the front of what
was sliced. A read that would leave the string has no result; one that stays within it is a
number of the bytes at its place.
-/

namespace VcsClient.Lib

/-- The bytes from `lo` up to `hi`, if the string has them. -/
def slice (s : List UInt8) (lo hi : ℕ) : Option (List UInt8) :=
  if lo ≤ hi ∧ hi ≤ s.length then some ((s.drop lo).take (hi - lo)) else none

def leUint16 : List UInt8 → Option ℕ
  | a :: b :: _ => some (a.toNat + 256 * b.toNat)
  | _ => none

def leUint32 : List UInt8 → Option ℕ
  | a :: b :: c :: d :: _ =>
    some (a.toNat + 256 * (b.toNat + 256 * (c.toNat + 256 * d.toNat)))
  | _ => none

/-- The byte at a place, where there is none 0. -/
def byteAt (s : List UInt8) (k : ℕ) : ℕ := (s.getD k 0).toNat

def uint16At (s : List UInt8) (k : ℕ) : ℕ := byteAt s k + 256 * byteAt s (k + 1)

def uint32At (s : List UInt8) (k : ℕ) : ℕ :=
  byteAt s k + 256 * (byteAt s (k + 1) + 256 * (byteAt s (k + 2) + 256 * byteAt s (k + 3)))

variable {s : List UInt8} {lo hi k n : ℕ}

theorem slice_eq_some (hlo : lo ≤ hi) (hhi : hi ≤ s.length) :
    slice s lo hi = some ((s.drop lo).take (hi - lo)) := if_pos ⟨hlo, hhi⟩

theorem byteAt_take_drop (h : k < n) : byteAt ((s.drop lo).take n) k = byteAt s (lo + k) := by
  unfold byteAt
  simp only [List.getD_eq_getElem?_getD, List.getElem?_take, if_pos h, List.getElem?_drop]

theorem uint16At_take_drop (h : k + 1 < n) :
    uint16At ((s.drop lo).take n) k = uint16At s (lo + k) := by
  unfold uint16At
  rw [byteAt_take_drop (by omega), byteAt_take_drop h, Nat.add_assoc]

theorem uint32At_take_drop (h : k + 3 < n) :
    uint32At ((s.drop lo).take n) k = uint32At s (lo + k) := by
  unfold uint32At
  rw [byteAt_take_drop (by omega), byteAt_take_drop (by omega), byteAt_take_drop (by omega),
    byteAt_take_drop h]
  rfl

/-- The string from a place within it starts with the byte there. -/
theorem drop_eq_byte_cons (h : k < s.length) :
    ∃ a, s.drop k = a :: s.drop (k + 1) ∧ a.toNat = byteAt s k := by
  refine ⟨s[k], List.drop_eq_getElem_cons h, ?_⟩
  rw [byteAt, List.getD_eq_getElem?_getD, List.getElem?_eq_getElem h, Option.getD_some]

theorem leUint16_take_drop (hn : 2 ≤ n) (h : k + 2 ≤ s.length) :
    leUint16 ((s.drop k).take n) = some (uint16At s k) := by
  obtain ⟨m, rfl⟩ := Nat.exists_eq_add_of_le' hn
  obtain ⟨a, ha, hka⟩ := drop_eq_byte_cons (s := s) (k := k) (by omega)
  obtain ⟨b, hb, hkb⟩ := drop_eq_byte_cons (s := s) (k := k + 1) (by omega)
  rw [ha, hb]
  simp only [List.take_succ_cons, leUint16, uint16At, hka, hkb]

theorem leUint32_take_drop (hn : 4 ≤ n) (h : k + 4 ≤ s.length) :
    leUint32 ((s.drop k).take n) = some (uint32At s k) := by
  obtain ⟨m, rfl⟩ := Nat.exists_eq_add_of_le' hn
  obtain ⟨a, ha, hka⟩ := drop_eq_byte_cons (s := s) (k := k) (by omega)
  obtain ⟨b, hb, hkb⟩ := drop_eq_byte_cons (s := s) (k := k + 1) (by omega)
  obtain ⟨c, hc, hkc⟩ := drop_eq_byte_cons (s := s) (k := k + 1 + 1) (by omega)
  obtain ⟨d, hd, hkd⟩ := drop_eq_byte_cons (s := s) (k := k + 1 + 1 + 1) (by omega)
  rw [ha, hb, hc, hd]
  simp only [List.take_succ_cons, leUint32, uint32At, hka, hkb, hkc, hkd]

/-- **A number within the string** is read. -/
theorem slice_leUint16 (h : k + 2 ≤ s.length) :
    (slice s k (k + 2)).bind leUint16 = some (uint16At s k) := by
  rw [slice_eq_some (Nat.le_add_right k 2) h, Option.bind_some,
    leUint16_take_drop (by omega) h]

theorem slice_leUint32 (h : k + 4 ≤ s.length) :
    (slice s k (k + 4)).bind leUint32 = some (uint32At s k) := by
  rw [slice_eq_some (Nat.le_add_right k 4) h, Option.bind_some,
    leUint32_take_drop (by omega) h]

end VcsClient.Lib
