import VcsClient.Lib.Binary64

/-!
# Rounding to a number of bits

`roundAt d m` keeps `d + 1` significant bits, down to the place `m`; `round64` is one such
rounding and binary32 another. A value that is rounded to the finer of two formats and then to
the coarser one is what it is rounded to at once, if it does not come near a half-way case
without being one (`roundAt_roundAt`).
-/

namespace VcsClient.Lib

/-- The exponent of the last place kept of `x`. -/
def placeAt (d m : ℤ) (x : ℚ) : ℤ := max (Int.log 2 x - d) m

def roundAt (d m : ℤ) (x : ℚ) : ℚ := roundEven (x / 2 ^ placeAt d m x) * 2 ^ placeAt d m x

def round32 (x : ℚ) : ℚ := roundAt 23 (-149) x

theorem round64_eq_roundAt (x : ℚ) : round64 x = roundAt 52 (-1074) x := rfl

theorem abs_roundEven_sub_le (x : ℚ) : |(roundEven x : ℚ) - x| ≤ 1 / 2 := by
  have hbelow : (⌊x⌋ : ℚ) ≤ x := Int.floor_le x
  have habove : x < ⌊x⌋ + 1 := Int.lt_floor_add_one x
  refine abs_le.2 ?_
  simp only [roundEven]
  split_ifs <;> push_cast <;> exact ⟨by linarith, by linarith⟩

variable {d m d' m' : ℤ} {x y : ℚ}

theorem abs_roundAt_sub_le (d m : ℤ) (x : ℚ) : |roundAt d m x - x| ≤ 2 ^ placeAt d m x / 2 := by
  have hpos : (0 : ℚ) < 2 ^ placeAt d m x := zpow_pos (by norm_num) _
  calc |roundAt d m x - x|
      = |(roundEven (x / 2 ^ placeAt d m x) : ℚ) - x / 2 ^ placeAt d m x| * 2 ^ placeAt d m x := by
        rw [← abs_of_pos hpos, ← abs_mul, abs_of_pos hpos, sub_mul, div_mul_cancel₀ _ hpos.ne',
          roundAt]
    _ ≤ 1 / 2 * 2 ^ placeAt d m x :=
        mul_le_mul_of_nonneg_right (abs_roundEven_sub_le _) hpos.le
    _ = 2 ^ placeAt d m x / 2 := by ring

theorem placeAt_le {e : ℤ} (hx : 0 < x) (hlt : x < 2 ^ (e + 1)) (hm : m ≤ e - d) :
    placeAt d m x ≤ e - d := by
  have hlog := (Int.lt_zpow_iff_log_lt (b := 2) (x := e + 1) (by norm_num) hx).1
    (by exact_mod_cast hlt)
  unfold placeAt
  omega

/-- What a rounding to `d + 1` bits changes of a number below a power of two. -/
theorem abs_roundAt_sub_le_of_lt {e : ℤ} (hx : 0 < x) (hlt : x < 2 ^ (e + 1))
    (hm : m ≤ e - d) : |roundAt d m x - x| ≤ 2 ^ (e - d) / 2 :=
  (abs_roundAt_sub_le d m x).trans (div_le_div_of_nonneg_right
    (zpow_le_zpow_right₀ (by norm_num) (placeAt_le hx hlt hm)) (by norm_num))

theorem roundAt_of_multiple {n : ℤ} (h : x = n * 2 ^ placeAt d m x) : roundAt d m x = x := by
  have hpos : (0 : ℚ) < 2 ^ placeAt d m x := zpow_pos (by norm_num) _
  have hdiv : x / 2 ^ placeAt d m x = n := by rw [div_eq_iff hpos.ne']; exact h
  rw [roundAt, hdiv, roundEven_intCast, ← h]

theorem roundAt_of_coarser {n e : ℤ} (he : placeAt d m x ≤ e) (h : x = n * 2 ^ e) :
    roundAt d m x = x := by
  obtain ⟨i, hi⟩ := Int.eq_ofNat_of_zero_le (sub_nonneg.2 he)
  refine roundAt_of_multiple (n := n * 2 ^ i) ?_
  rw [show e = i + placeAt d m x by omega, zpow_add₀ (by norm_num), zpow_natCast] at h
  push_cast
  rw [mul_assoc]
  exact h

/-- Half of a value is rounded by where the value lies among the integers. -/
theorem roundEven_half_congr (h : ∀ n : ℤ, ((n : ℚ) ≤ x ↔ (n : ℚ) ≤ y) ∧ (x ≤ n ↔ y ≤ n)) :
    roundEven (x / 2) = roundEven (y / 2) := by
  have hfloor : ⌊x / 2⌋ = ⌊y / 2⌋ := by
    refine eq_of_forall_le_iff fun z => ?_
    have hz := (h (2 * z)).1
    push_cast at hz
    rw [Int.le_floor, Int.le_floor, le_div_iff₀ (by norm_num), le_div_iff₀ (by norm_num),
      mul_comm, hz]
  have hbelow : x / 2 - ⌊x / 2⌋ < 1 / 2 ↔ y / 2 - ⌊x / 2⌋ < 1 / 2 := by
    have hn := (h (2 * ⌊x / 2⌋ + 1)).1
    push_cast at hn
    constructor <;> intro hlt <;> by_contra hge
    · linarith [hn.2 (by linarith)]
    · linarith [hn.1 (by linarith)]
  have habove : 1 / 2 < x / 2 - ⌊x / 2⌋ ↔ 1 / 2 < y / 2 - ⌊x / 2⌋ := by
    have hn := (h (2 * ⌊x / 2⌋ + 1)).2
    push_cast at hn
    constructor <;> intro hlt <;> by_contra hge
    · linarith [hn.2 (by linarith)]
    · linarith [hn.1 (by linarith)]
  simp only [roundEven, ← hfloor, hbelow, habove]

theorem log_eq_of_zpow_le {e : ℤ} (hle : (2 : ℚ) ^ e ≤ x) (hlt : x < 2 ^ (e + 1)) :
    Int.log 2 x = e := by
  have hpos : 0 < x := (zpow_pos (by norm_num) e).trans_le hle
  have hge := (Int.zpow_le_iff_le_log (b := 2) (by norm_num) hpos).1 (by exact_mod_cast hle)
  have hlt' := (Int.lt_zpow_iff_log_lt (b := 2) (by norm_num) hpos).1 (by exact_mod_cast hlt)
  omega

/-- **Rounding twice.** `n * 2 ^ (placeAt d m x - 1)` are the values the coarser rounding
decides at: its half-way cases, its values and its powers of two. -/
theorem roundAt_roundAt (hx : 0 < x) (hd : 0 ≤ d) (hm : m ≤ Int.log 2 x - d)
    (hfine : placeAt d' m' x < placeAt d m x)
    (hgap : ∀ n : ℤ, x ≠ n * 2 ^ (placeAt d m x - 1) →
      (2 : ℚ) ^ placeAt d' m' x / 2 < |x - n * 2 ^ (placeAt d m x - 1)|) :
    roundAt d m (roundAt d' m' x) = roundAt d m x := by
  set y := roundAt d' m' x with hy
  set u : ℚ := 2 ^ (placeAt d m x - 1) with hu
  have hupos : 0 < u := zpow_pos (by norm_num) _
  have herr := abs_le.1 (abs_roundAt_sub_le d' m' x)
  have hside : ∀ n : ℤ, (n * u ≤ x ↔ n * u ≤ y) ∧ (x ≤ n * u ↔ y ≤ n * u) := by
    intro n
    by_cases heq : x = n * u
    · rw [hy, roundAt_of_coarser (by omega) heq]
      exact ⟨Iff.rfl, Iff.rfl⟩
    · have hfar := hgap n heq
      obtain habs | habs := abs_cases (x - n * u) <;>
        exact ⟨⟨fun _ => by linarith, fun _ => by linarith⟩,
          ⟨fun _ => by linarith, fun _ => by linarith⟩⟩
  have hplace : placeAt d m x = Int.log 2 x - d := max_eq_left hm
  -- the powers of two around `x` are among the values `hside` speaks of
  have hpower : ∀ e : ℤ, Int.log 2 x ≤ e → ∃ n : ℤ, (n : ℚ) * u = 2 ^ e := by
    intro e he
    obtain ⟨i, hi⟩ := Int.eq_ofNat_of_zero_le (a := e - (placeAt d m x - 1)) (by omega)
    refine ⟨2 ^ i, ?_⟩
    rw [show e = i + (placeAt d m x - 1) by omega, zpow_add₀ (by norm_num), zpow_natCast]
    push_cast
    rfl
  have hlog : Int.log 2 y = Int.log 2 x := by
    obtain ⟨n, hn⟩ := hpower (Int.log 2 x) le_rfl
    obtain ⟨n', hn'⟩ := hpower (Int.log 2 x + 1) (by omega)
    refine log_eq_of_zpow_le ?_ ?_
    · rw [← hn, ← (hside n).1, hn]
      exact_mod_cast Int.zpow_log_le_self (b := 2) (by norm_num) hx
    · rw [← hn', ← not_le, ← (hside n').1, hn', not_le]
      exact_mod_cast Int.lt_zpow_succ_log_self (b := 2) (by norm_num) x
  have hplace' : placeAt d m y = placeAt d m x := by rw [placeAt, placeAt, hlog]
  have htwo : (2 : ℚ) ^ placeAt d m x = u * 2 := by
    rw [hu, ← zpow_add_one₀ (by norm_num), sub_add_cancel]
  have hround : roundEven (y / u / 2) = roundEven (x / u / 2) := by
    refine (roundEven_half_congr fun n => ?_).symm
    rw [le_div_iff₀ hupos, le_div_iff₀ hupos, div_le_iff₀ hupos, div_le_iff₀ hupos]
    exact hside n
  rw [roundAt, roundAt, hplace', htwo, ← div_div, ← div_div, hround]

end VcsClient.Lib
