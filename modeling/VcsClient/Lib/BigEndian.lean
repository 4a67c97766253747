import Mathlib.Data.Nat.ModEq
import Mathlib.Tactic.Ring
import Mathlib.Tactic.Positivity

/-!
# Big-endian byte strings

`beBytes n k` is the low `n` bytes of `k`, most significant first, and
`beNat` reads such a string back. The two are inverse up to truncation:
`beNat_beBytes` truncates the number to its low `n` bytes and
`beBytes_beNat` gives every string back byte for byte.
-/

namespace VcsClient.Lib

/-- The low `n` bytes of `k`, most significant first. -/
def beBytes : ℕ → ℕ → List UInt8
  | 0, _ => []
  | n + 1, k => UInt8.ofNat (k / 256 ^ n) :: beBytes n k

/-- The number a big-endian byte string spells. -/
def beNat : List UInt8 → ℕ
  | [] => 0
  | b :: bs => b.toNat * 256 ^ bs.length + beNat bs

@[simp] theorem length_beBytes (n k : ℕ) : (beBytes n k).length = n := by
  induction n with
  | zero => rfl
  | succ n ih => simp [beBytes, ih]

theorem beNat_lt (l : List UInt8) : beNat l < 256 ^ l.length := by
  induction l with
  | nil => simp [beNat]
  | cons b bs ih =>
    have hb := b.toNat_lt
    have : (b.toNat + 1) * 256 ^ bs.length ≤ 256 * 256 ^ bs.length :=
      Nat.mul_le_mul_right _ (by omega)
    simp only [beNat, List.length_cons, Nat.pow_succ']
    rw [Nat.add_mul] at this
    omega

/-- The leading byte sits above the rest: shifting it up and or-ing is adding. -/
theorem beNat_cons_or (b : UInt8) (bs : List UInt8) :
    beNat (b :: bs) = (b.toNat <<< (8 * bs.length)) ||| beNat bs := by
  have hlt : beNat bs < 2 ^ (8 * bs.length) := by
    rw [Nat.pow_mul]; exact beNat_lt bs
  rw [beNat, Nat.shiftLeft_eq, Nat.mul_comm b.toNat (2 ^ _), ← Nat.two_pow_add_eq_or_of_lt hlt,
    Nat.pow_mul, Nat.mul_comm]

/-- **Writing then reading truncates.** -/
theorem beNat_beBytes (n k : ℕ) : beNat (beBytes n k) = k % 256 ^ n := by
  induction n with
  | zero => simp [beNat, beBytes, Nat.mod_one]
  | succ n ih =>
    have hbyte : (UInt8.ofNat (k / 256 ^ n)).toNat = k / 256 ^ n % 256 := UInt8.toNat_ofNat'
    rw [beBytes, beNat, length_beBytes, ih, hbyte, Nat.mod_pow_succ]
    ring

theorem beBytes_add_mul (n k c : ℕ) : beBytes n (c * 256 ^ n + k) = beBytes n k := by
  induction n generalizing c with
  | zero => rfl
  | succ n ih =>
    have hsplit : c * 256 ^ (n + 1) + k = (c * 256) * 256 ^ n + k := by ring
    have hpos : 0 < 256 ^ n := by positivity
    rw [beBytes, beBytes, hsplit, ih, Nat.mul_comm _ (256 ^ n), Nat.mul_add_div hpos]
    congr 1
    apply UInt8.toNat_inj.1
    simp

/-- **Reading then writing gives the string back.** -/
theorem beBytes_beNat (l : List UInt8) : beBytes l.length (beNat l) = l := by
  induction l with
  | nil => rfl
  | cons b bs ih =>
    have hlt := beNat_lt bs
    have hpos : 0 < 256 ^ bs.length := by positivity
    rw [List.length_cons, beBytes, beNat, beBytes_add_mul, ih]
    congr 1
    rw [Nat.mul_comm, Nat.mul_add_div hpos, Nat.div_eq_of_lt hlt, Nat.add_zero, UInt8.ofNat_toNat]

end VcsClient.Lib
