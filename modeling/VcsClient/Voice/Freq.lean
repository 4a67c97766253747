import Mathlib.Algebra.Order.Round
import VcsClient.Lib.Rounding
import VcsClient.Voice.Packet

/-!
# Frequencies

`internal/voice/freq.go`: the canonical form is a whole number of kHz, and the form the server
sends and compares is a binary32 number of MHz. A finite float is the rational it stands for.

Up to 16.384 GHz the floats lie closer than 1 kHz and every frequency is read back as it was.
Above it they do not, and what is read back is off by at most 1 kHz.
-/

namespace VcsClient.Voice

open VcsClient.Lib

inductive Single where
  | nan
  | inf (negative : Bool)
  | finite (x : ℚ)
  deriving DecidableEq

def maxKHz : ℕ := 2 ^ 24 - 1

/-- Neither NaN nor an infinity passes both checks. -/
def khzFromMHz32 : Single → KHz
  | .nan | .inf _ => 0
  | .finite f =>
    if f ≤ 0 then 0
    else
      -- `math.Round` of a positive number
      let rounded := round (round64 (f * 1000))
      if (maxKHz : ℤ) < rounded then 0 else UInt32.ofNat rounded.toNat

def mhz32 (k : KHz) : ℚ := round32 (round32 k.toNat / 1000)

theorem mhz32_eq {k : KHz} (hk : k.toNat ≤ maxKHz) : mhz32 k = round32 (k.toNat / 1000) := by
  have hlog : Nat.log 2 k.toNat < 24 := by
    obtain h0 | hpos := Nat.eq_zero_or_pos k.toNat
    · simp [h0]
    · exact (Nat.log_lt_iff_lt_pow (by norm_num) hpos.ne').2 (by unfold maxKHz at hk; omega)
  have hplace : placeAt 23 (-149) (k.toNat : ℚ) ≤ 0 := by
    unfold placeAt
    rw [Int.log_natCast]
    omega
  have hself : round32 k.toNat = k.toNat := roundAt_of_coarser hplace (n := k.toNat) (by simp)
  rw [mhz32, hself]

theorem khzFromMHz32_valid (f : Single) : (khzFromMHz32 f).toNat ≤ maxKHz := by
  unfold khzFromMHz32
  split
  · simp
  · simp
  · dsimp only
    split_ifs with hf hmax
    · simp
    · simp
    · have hle := not_lt.1 hmax
      rw [UInt32.toNat_ofNat_of_lt' (by unfold maxKHz at hle; simp [UInt32.size]; omega)]
      omega

/-- What is read of a float that lies near a whole number of kHz. -/
theorem khzFromMHz32_near {f c : ℚ} {n : ℕ} (hpos : 0 < f) (hn : n < 2 ^ 24) (hc : c < 1)
    (h : |f * 1000 - n| ≤ c - 1 / 2 ^ 28) :
    |round64 (f * 1000) - n| < c := by
  have hlt := (abs_le.1 h).2
  have hn' : (n : ℚ) + 1 ≤ 16777216 := by exact_mod_cast hn
  have herr : |roundAt 52 (-1074) (f * 1000) - f * 1000| ≤ 2 ^ ((24 : ℤ) - 52) / 2 :=
    abs_roundAt_sub_le_of_lt (by positivity) (by norm_num; linarith) (by norm_num)
  rw [← round64_eq_roundAt] at herr
  have htri := abs_sub_le (round64 (f * 1000)) (f * 1000) n
  norm_num at herr h
  linarith

theorem round_of_abs_lt {x : ℚ} {n : ℤ} (h : |x - n| < 1 / 2) : round x = n := by
  rw [round_eq, Int.floor_eq_iff]
  constructor <;> linarith [abs_lt.1 h]

theorem round_mem_of_abs_lt {x : ℚ} {n : ℤ} (h : |x - n| < 1) :
    n - 1 ≤ round x ∧ round x ≤ n + 1 := by
  have hx := abs_lt.1 h
  rw [round_eq, Int.le_floor, ← Int.lt_add_one_iff, Int.floor_lt]
  push_cast
  constructor <;> linarith

variable {k : KHz}

theorem mhz32_pos (hk : k.toNat ≤ maxKHz) (hpos : 0 < k.toNat) : 0 < mhz32 k := by
  have hk' : (k.toNat : ℚ) < 2 ^ 24 := by exact_mod_cast Nat.lt_of_le_sub_one (by norm_num) hk
  have h1 : (1 : ℚ) ≤ k.toNat := by exact_mod_cast hpos
  have herr : |roundAt 23 (-149) ((k.toNat : ℚ) / 1000) - k.toNat / 1000| ≤
      2 ^ ((14 : ℤ) - 23) / 2 :=
    abs_roundAt_sub_le_of_lt (by positivity) (by norm_num; linarith) (by norm_num)
  rw [← round32, ← mhz32_eq hk] at herr
  norm_num at herr
  linarith [(abs_le.1 herr).1]

theorem abs_mhz32_sub_lt (hk : k.toNat ≤ maxKHz) (hpos : 0 < k.toNat) :
    |round64 (mhz32 k * 1000) - k.toNat| < 1 := by
  have hk' : (k.toNat : ℚ) < 2 ^ 24 := by exact_mod_cast Nat.lt_of_le_sub_one (by norm_num) hk
  have hx : (0 : ℚ) < k.toNat / 1000 := by positivity
  have herr : |roundAt 23 (-149) ((k.toNat : ℚ) / 1000) - k.toNat / 1000| ≤
      2 ^ ((14 : ℤ) - 23) / 2 :=
    abs_roundAt_sub_le_of_lt hx (by norm_num; linarith) (by norm_num)
  rw [← round32, ← mhz32_eq hk] at herr
  refine (khzFromMHz32_near (c := 999 / 1000) (mhz32_pos hk hpos)
    (Nat.lt_of_le_sub_one (by norm_num) hk) (by norm_num) ?_).trans (by norm_num)
  norm_num at herr ⊢
  rw [abs_le] at *
  constructor <;> linarith

theorem abs_mhz32_sub_lt_half (hk : k.toNat ≤ 16384000) (hpos : 0 < k.toNat) :
    |round64 (mhz32 k * 1000) - k.toNat| < 1 / 2 := by
  have hmax : k.toNat ≤ maxKHz := hk.trans (by norm_num [maxKHz])
  have hx : (0 : ℚ) < k.toNat / 1000 := by positivity
  have herr : |round32 ((k.toNat : ℚ) / 1000) - k.toNat / 1000| ≤ 2 ^ ((13 : ℤ) - 23) / 2 := by
    obtain heq | hlt := hk.eq_or_lt
    · -- a power of two is a float
      rw [heq, round32, roundAt_of_coarser (n := 16384) (e := 0)
        (placeAt_le (e := 14) (by norm_num) (by norm_num) (by norm_num) |>.trans (by norm_num))
        (by norm_num), sub_self, abs_zero]
      norm_num
    · have hlt' : (k.toNat : ℚ) < 16384000 := by exact_mod_cast hlt
      exact abs_roundAt_sub_le_of_lt hx (by norm_num; linarith) (by norm_num)
  rw [← mhz32_eq hmax] at herr
  refine khzFromMHz32_near (mhz32_pos hmax hpos) (by omega) (by norm_num) ?_
  norm_num at herr ⊢
  rw [abs_le] at *
  constructor <;> linarith

/-- **Frequencies survive the wire.** A valid frequency is read back as a valid one within
1 kHz of it, and as itself up to 16.384 GHz. -/
theorem khz_round_trip (k : KHz) (hk : k.toNat ≤ maxKHz) :
    (khzFromMHz32 (.finite (mhz32 k))).toNat ≤ maxKHz ∧
      (khzFromMHz32 (.finite (mhz32 k))).toNat ≤ k.toNat + 1 ∧
      k.toNat ≤ (khzFromMHz32 (.finite (mhz32 k))).toNat + 1 ∧
      (k.toNat ≤ 16384000 → khzFromMHz32 (.finite (mhz32 k)) = k) := by
  refine ⟨khzFromMHz32_valid _, ?_⟩
  obtain hzero | hpos := Nat.eq_zero_or_pos k.toNat
  · obtain rfl : k = 0 := UInt32.toNat_inj.1 hzero
    decide +kernel
  -- the largest one could have been read as too large
  obtain rfl | hne := eq_or_ne k 16777215
  · decide +kernel
  have hlt : k.toNat < maxKHz := lt_of_le_of_ne hk fun h => hne (UInt32.toNat_inj.1 h)
  have hnear := round_mem_of_abs_lt (n := k.toNat) (abs_mhz32_sub_lt hk hpos)
  have hread : khzFromMHz32 (.finite (mhz32 k)) =
      UInt32.ofNat (round (round64 (mhz32 k * 1000))).toNat := by
    dsimp only [khzFromMHz32]
    rw [if_neg (mhz32_pos hk hpos).not_ge, if_neg (by omega)]
  have hsize : (round (round64 (mhz32 k * 1000))).toNat < 2 ^ 32 := by
    unfold maxKHz at hlt
    omega
  rw [hread, UInt32.toNat_ofNat_of_lt' hsize]
  refine ⟨by omega, by omega, fun hexact => ?_⟩
  rw [round_of_abs_lt (n := k.toNat) (abs_mhz32_sub_lt_half hexact hpos), Int.toNat_natCast,
    UInt32.ofNat_toNat]

theorem khz_round_trip_fleet :
    khzFromMHz32 (.finite (mhz32 118025)) = 118025 :=
  (khz_round_trip 118025 (by decide)).2.2.2 (by decide)

/-- Just above it the nearest float is that of another frequency. -/
example : khzFromMHz32 (.finite (mhz32 16384001)) = 16384002 := by decide +kernel

end VcsClient.Voice
