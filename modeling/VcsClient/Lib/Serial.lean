import Mathlib.Algebra.Order.Group.Int
import Mathlib.Data.Int.ModEq
import Mathlib.Data.Nat.ModEq
import Mathlib.Data.UInt
import Mathlib.Tactic.Linarith
import Mathlib.Tactic.Ring

/-!
# Numbers that wrap

Sequence numbers that wrap live on a circle of `M` numbers. `ahead M b s` is
how far `s` lies ahead of `b` going round (`0 ≤ ahead M b s < M`), `sdiff M a b`
the signed distance from `b` to `a` the short way round. The signed distance
orders the circle only locally: inside a window shorter than half of it,
`sdiff` is the difference of the offsets (`sdiff_eq_sub`), and nowhere else
does it have to be an order at all.

A counter that only grows is kept in 64 bits (`Counts`). Sums and differences of
such words are those of the counters, and the low bits of a word are the counter
modulo a power of two, so a mask picks the same slot before and after the wrap.
-/

namespace VcsClient.Lib

section Circle

/-- How far `s` is ahead of `b` on the circle of `M` numbers. -/
def ahead (M : ℕ) (b s : ℤ) : ℤ := (s - b) % M

/-- The signed distance from `b` to `a`, the short way round. -/
def sdiff (M : ℕ) (a b : ℤ) : ℤ := (a - b).bmod M

variable {M : ℕ} {a b c s : ℤ}

theorem ahead_nonneg (hM : 0 < M) : 0 ≤ ahead M b s := Int.emod_nonneg _ (by omega)

theorem ahead_lt (hM : 0 < M) : ahead M b s < M := Int.emod_lt_of_pos _ (by omega)

@[simp] theorem ahead_self : ahead M b b = 0 := by simp [ahead]

@[simp] theorem ahead_emod_left : ahead M (b % M) s = ahead M b s := by
  simp [ahead, Int.sub_emod]

/-- `s` is `ahead M b s` steps from `b`, up to turns of the circle. -/
theorem exists_turns (M : ℕ) (b s : ℤ) : ∃ k : ℤ, s = b + ahead M b s + M * k :=
  ⟨(s - b) / M, by have := Int.emod_add_mul_ediv (s - b) M; unfold ahead; omega⟩

theorem ahead_eq_of_turns {x k : ℤ} (h : s = b + x + M * k) (h0 : 0 ≤ x) (hM : x < M) :
    ahead M b s = x := by
  have : s - b = x + M * k := by omega
  rw [ahead, this, Int.add_mul_emod_self_left, Int.emod_eq_of_lt h0 hM]

theorem ahead_sub (hM : 0 < M) (h : ahead M c b ≤ ahead M c s) :
    ahead M b s = ahead M c s - ahead M c b := by
  obtain ⟨k, hk⟩ := exists_turns M c b
  obtain ⟨l, hl⟩ := exists_turns M c s
  have h0 := ahead_nonneg (b := c) (s := b) hM
  have h1 := ahead_lt (b := c) (s := s) hM
  exact ahead_eq_of_turns (k := l - k) (by linarith [mul_sub (M : ℤ) l k]) (by omega) (by omega)

/-- One step of the base takes one off every other offset. -/
theorem ahead_succ (hM : 0 < M) (h : 0 < ahead M b s) :
    ahead M (b + 1) s = ahead M b s - 1 := by
  obtain ⟨k, hk⟩ := exists_turns M b s
  have h1 := ahead_lt (b := b) (s := s) hM
  exact ahead_eq_of_turns (k := k) (by omega) (by omega) (by omega)

theorem ahead_eq_zero_iff (hb : 0 ≤ b) (hb' : b < M) (hs : 0 ≤ s) (hs' : s < M) :
    ahead M b s = 0 ↔ s = b := by
  constructor
  · intro h
    obtain ⟨k, hk⟩ := exists_turns M b s
    rw [h, add_zero] at hk
    have hk0 : k = 0 := by
      rcases lt_trichotomy k 0 with hlt | h0 | hgt
      · nlinarith
      · exact h0
      · nlinarith
    rw [hk, hk0]; simp
  · rintro rfl; exact ahead_self

/-- **Where the signed distance is an order.** In a window shorter than half the
circle it is the difference of the offsets. -/
theorem sdiff_eq_sub (ha : 2 * ahead M c a < M) (hb : 2 * ahead M c b < M) :
    sdiff M a b = ahead M c a - ahead M c b := by
  rcases Nat.eq_zero_or_pos M with rfl | hM
  · simp [sdiff, ahead]
  obtain ⟨k, hk⟩ := exists_turns M c a
  obtain ⟨l, hl⟩ := exists_turns M c b
  have ha0 := ahead_nonneg (b := c) (s := a) hM
  have hb0 := ahead_nonneg (b := c) (s := b) hM
  have h : a - b = ahead M c a - ahead M c b + M * (k - l) := by
    linarith [mul_sub (M : ℤ) k l]
  rw [sdiff, h, Int.add_mul_bmod_self_left]
  exact Int.bmod_eq_of_le_mul_two (by omega) (by omega)

theorem sdiff_eq_ahead (h : 2 * ahead M b s < M) : sdiff M s b = ahead M b s := by
  rw [sdiff, ahead] at *
  exact Int.bmod_eq_emod_of_lt (by omega)

theorem sdiff_eq_ahead_sub (h : M ≤ 2 * ahead M b s) : sdiff M s b = ahead M b s - M := by
  rw [sdiff, ahead] at *
  exact Int.bmod_neg _ _ (by omega)

theorem sdiff_nonneg_iff (hM : 0 < M) : 0 ≤ sdiff M s b ↔ 2 * ahead M b s < M := by
  have hlt := ahead_lt (b := b) (s := s) hM
  have h0 := ahead_nonneg (b := b) (s := s) hM
  rcases lt_or_ge (2 * ahead M b s) M with h | h
  · simp only [sdiff_eq_ahead h, h, h0]
  · rw [sdiff_eq_ahead_sub h]; omega

end Circle

/-! ## Counters in 64 bits -/

section Words

/-- `x` is what 64 bits hold of the counter `n`. -/
def Counts (x : UInt64) (n : ℕ) : Prop := x.toNat = n % 2 ^ 64

namespace Counts

variable {x y mask : UInt64} {m n k : ℕ}

theorem zero : Counts 0 0 := rfl

theorem ofNat (n : ℕ) : Counts (UInt64.ofNat n) n := by
  unfold Counts
  rw [UInt64.toNat_ofNat']

theorem self (x : UInt64) : Counts x x.toNat :=
  (Nat.mod_eq_of_lt x.toNat_lt).symm

theorem toNat_eq (h : Counts x n) (hn : n < 2 ^ 64) : x.toNat = n := by
  unfold Counts at h
  rw [h, Nat.mod_eq_of_lt hn]

theorem add (hx : Counts x m) (hy : Counts y n) : Counts (x + y) (m + n) := by
  unfold Counts at *
  rw [UInt64.toNat_add, hx, hy, ← Nat.add_mod]

theorem sub (hx : Counts x m) (hy : Counts y n) (hle : n ≤ m) : Counts (x - y) (m - n) := by
  unfold Counts at *
  rw [UInt64.toNat_sub, hx, hy]
  omega

theorem toNat_sub (hx : Counts x m) (hy : Counts y n) (hle : n ≤ m) (hlt : m - n < 2 ^ 64) :
    (x - y).toNat = m - n :=
  (hx.sub hy hle).toNat_eq hlt

/-- The mask of a power of two picks the counter modulo that power. -/
theorem slot (hx : Counts x n) (hk : k ≤ 64) (hmask : mask.toNat = 2 ^ k - 1) :
    (x &&& mask).toNat = n % 2 ^ k := by
  unfold Counts at hx
  rw [UInt64.toNat_and, hmask, Nat.and_two_pow_sub_one_eq_mod, hx,
    Nat.mod_mod_of_dvd n (Nat.pow_dvd_pow 2 hk)]

end Counts

theorem mod_ne_of_lt {i j size : ℕ} (hij : i < j) (hlt : j < i + size) : i % size ≠ j % size := by
  intro he
  have hdvd : size ∣ j - i := Nat.dvd_of_mod_eq_zero (Nat.sub_mod_eq_zero_of_mod_eq he.symm)
  have hle : size ≤ j - i := Nat.le_of_dvd (by omega) hdvd
  omega

end Words

end VcsClient.Lib
