import Mathlib.Data.Int.Log
import Mathlib.Data.Rat.Floor
import Mathlib.Tactic.Linarith

/-!
# Rounding to binary64

What the nearest double of a non-negative rational is: a multiple of the place that its
53rd significant bit has, or of the smallest place there is, half-way cases to the even
one. That there is a largest double is left out. Rounding is monotone.
-/

namespace VcsClient.Lib

/-- The nearest integer, of two the even one. -/
def roundEven (x : ℚ) : ℤ :=
  if x - ⌊x⌋ < 1 / 2 then ⌊x⌋
  else if 1 / 2 < x - ⌊x⌋ then ⌊x⌋ + 1
  else if ⌊x⌋ % 2 = 0 then ⌊x⌋
  else ⌊x⌋ + 1

/-- The exponent of the last place of a double near `x`. -/
def lastPlace (x : ℚ) : ℤ := max (Int.log 2 x - 52) (-1074)

def round64 (x : ℚ) : ℚ := roundEven (x / 2 ^ lastPlace x) * 2 ^ lastPlace x

theorem floor_le_roundEven (x : ℚ) : ⌊x⌋ ≤ roundEven x := by
  unfold roundEven
  split_ifs <;> omega

theorem roundEven_le_floor_succ (x : ℚ) : roundEven x ≤ ⌊x⌋ + 1 := by
  unfold roundEven
  split_ifs <;> omega

theorem roundEven_intCast (n : ℤ) : roundEven n = n := by
  unfold roundEven
  rw [Int.floor_intCast, sub_self, if_pos (by norm_num)]

theorem roundEven_mono {x y : ℚ} (h : x ≤ y) : roundEven x ≤ roundEven y := by
  have hfloor : ⌊x⌋ ≤ ⌊y⌋ := Int.floor_le_floor h
  obtain hlt | heq := hfloor.lt_or_eq
  · exact (roundEven_le_floor_succ x).trans ((Int.add_one_le_of_lt hlt).trans
      (floor_le_roundEven y))
  · -- on one stretch between integers the cases come in order
    unfold roundEven
    rw [heq]
    split_ifs <;> first | omega | (exfalso; linarith)

theorem place_pos (x : ℚ) : (0 : ℚ) < 2 ^ lastPlace x := zpow_pos (by norm_num) _

theorem lastPlace_mono {x y : ℚ} (hx : 0 < x) (h : x ≤ y) : lastPlace x ≤ lastPlace y :=
  max_le_max (sub_le_sub_right (Int.log_mono_right hx h) _) le_rfl

theorem round64_zero : round64 0 = 0 := by
  unfold round64
  rw [zero_div, show ((0 : ℚ)) = ((0 : ℤ) : ℚ) from rfl, roundEven_intCast]
  simp

theorem round64_nonneg {x : ℚ} (hx : 0 ≤ x) : 0 ≤ round64 x := by
  have hpos := place_pos x
  have : (0 : ℤ) ≤ roundEven (x / 2 ^ lastPlace x) := by
    rw [← roundEven_intCast 0]
    exact roundEven_mono (by push_cast; exact div_nonneg hx hpos.le)
  exact mul_nonneg (by exact_mod_cast this) hpos.le

/-- A double is at most the power of two above `x`. -/
theorem round64_le_zpow {x : ℚ} : round64 x ≤ 2 ^ (lastPlace x + 53) := by
  have hpos := place_pos x
  have hlog : Int.log 2 x + 1 ≤ lastPlace x + 53 := by
    unfold lastPlace
    omega
  have hx : x ≤ 2 ^ (lastPlace x + 53) :=
    (Int.lt_zpow_succ_log_self (by norm_num) x).le.trans
      (zpow_le_zpow_right₀ (by norm_num) hlog)
  have hq : x / 2 ^ lastPlace x ≤ ((2 ^ 53 : ℤ) : ℚ) := by
    rw [div_le_iff₀ hpos]
    refine hx.trans_eq ?_
    rw [zpow_add₀ (by norm_num), mul_comm]
    norm_num
  have hround := roundEven_mono hq
  rw [roundEven_intCast] at hround
  unfold round64
  calc (roundEven (x / 2 ^ lastPlace x) : ℚ) * 2 ^ lastPlace x
      ≤ ((2 ^ 53 : ℤ) : ℚ) * 2 ^ lastPlace x :=
        mul_le_mul_of_nonneg_right (by exact_mod_cast hround) hpos.le
    _ = 2 ^ (lastPlace x + 53) := by
        rw [zpow_add₀ (by norm_num), mul_comm]
        norm_num

/-- And at least the power of two below `x`, if `x` has 53 significant bits. -/
theorem zpow_le_round64 {x : ℚ} (hx : 0 < x) (hplace : lastPlace x = Int.log 2 x - 52) :
    2 ^ (lastPlace x + 52) ≤ round64 x := by
  have hpos := place_pos x
  have hle : (2 : ℚ) ^ (lastPlace x + 52) ≤ x := by
    rw [hplace, sub_add_cancel]
    exact Int.zpow_log_le_self (by norm_num) hx
  have hq : ((2 ^ 52 : ℤ) : ℚ) ≤ x / 2 ^ lastPlace x := by
    rw [le_div_iff₀ hpos]
    refine le_of_eq_of_le ?_ hle
    rw [zpow_add₀ (by norm_num), mul_comm]
    norm_num
  have hround := roundEven_mono hq
  rw [roundEven_intCast] at hround
  unfold round64
  calc (2 : ℚ) ^ (lastPlace x + 52) = ((2 ^ 52 : ℤ) : ℚ) * 2 ^ lastPlace x := by
        rw [zpow_add₀ (by norm_num), mul_comm]
        norm_num
    _ ≤ (roundEven (x / 2 ^ lastPlace x) : ℚ) * 2 ^ lastPlace x :=
        mul_le_mul_of_nonneg_right (by exact_mod_cast hround) hpos.le

theorem round64_mono {x y : ℚ} (hx : 0 ≤ x) (h : x ≤ y) : round64 x ≤ round64 y := by
  obtain rfl | hpos := hx.eq_or_lt
  · rw [round64_zero]
    exact round64_nonneg h
  obtain heq | hlt := (lastPlace_mono hpos h).eq_or_lt
  · unfold round64
    rw [heq]
    have hplace := place_pos y
    refine mul_le_mul_of_nonneg_right ?_ hplace.le
    exact_mod_cast roundEven_mono (div_le_div_of_nonneg_right h hplace.le)
  · -- a power of two lies between the two
    have hplace : lastPlace y = Int.log 2 y - 52 := by
      unfold lastPlace at hlt ⊢
      omega
    calc round64 x ≤ 2 ^ (lastPlace x + 53) := round64_le_zpow
      _ ≤ 2 ^ (lastPlace y + 52) := zpow_le_zpow_right₀ (by norm_num) (by omega)
      _ ≤ round64 y := zpow_le_round64 (hpos.trans_le h) hplace

end VcsClient.Lib
