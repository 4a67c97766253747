import Mathlib.Algebra.Order.Field.Rat
import Mathlib.Data.Nat.Digits.Defs
import VcsClient.Lib.Rounding

/-!
# Decimals

A number of thousandths, tenths and so on as the text of a decimal fraction, read back digit by
digit, and a float rounded to so many places.
-/

namespace VcsClient.Lib

/-- `s` filled up with `c` to a length of `n`. -/
def padStart (n : ℕ) (c : Char) (s : List Char) : List Char :=
  List.replicate (n - s.length) c ++ s

theorem ofDigitChars_padStart (n m : ℕ) :
    Nat.ofDigitChars 10 (padStart n '0' (Nat.toDigits 10 m)) 0 = m := by
  rw [padStart, Nat.ofDigitChars_append, Nat.ofDigitChars_replicate_zero, Nat.mul_zero,
    Nat.ofDigitChars_ten_toDigits]

theorem length_padStart {n e : ℕ} {s : List Char} (hs : s.length ≤ e) (hn : n ≤ e) :
    n ≤ (padStart n '0' s).length ∧ (padStart n '0' s).length ≤ e := by
  simp only [padStart, List.length_append, List.length_replicate]
  omega

theorem length_toDigits_le {m e : ℕ} (he : 0 < e) (h : m < 10 ^ e) :
    (Nat.toDigits 10 m).length ≤ e := Nat.toDigits_length 10 m e he h

theorem length_padStart_toDigits {n m : ℕ} (h : m < 10 ^ n) (hn : 0 < n) :
    (padStart n '0' (Nat.toDigits 10 m)).length = n :=
  have hle := length_padStart (length_toDigits_le hn h) le_rfl
  le_antisymm hle.2 hle.1

/-- `n / 10 ^ p` with `p` places. -/
def decimal (p n : ℕ) : List Char :=
  Nat.toDigits 10 (n / 10 ^ p) ++ '.' :: padStart p '0' (Nat.toDigits 10 (n % 10 ^ p))

/-- The digits of a decimal fraction as one number. -/
def ofDecimal (s : List Char) : ℕ := Nat.ofDigitChars 10 (s.filter (· ≠ '.')) 0

theorem filter_ne_point {s : List Char} (h : ∀ c ∈ s, c.isDigit = true) :
    s.filter (· ≠ '.') = s :=
  List.filter_eq_self.2 fun c hc => decide_eq_true fun heq => by
    have hdigit := h c hc
    rw [heq] at hdigit
    cases hdigit

theorem isDigit_of_mem_padStart {n m : ℕ} {c : Char}
    (h : c ∈ padStart n '0' (Nat.toDigits 10 m)) : c.isDigit = true := by
  obtain h | h := List.mem_append.1 h
  · rw [List.eq_of_mem_replicate h]
    rfl
  · exact Nat.isDigit_of_mem_toDigits (by norm_num) (by norm_num) h

theorem ofDecimal_decimal {p : ℕ} (hp : 0 < p) (n : ℕ) : ofDecimal (decimal p n) = n := by
  have hlen := length_padStart_toDigits (Nat.mod_lt n (Nat.pow_pos (n := p) (by norm_num : 0 < 10)))
    hp
  rw [ofDecimal, decimal, List.filter_append, List.filter_cons_of_neg (by simp),
    filter_ne_point fun c hc => Nat.isDigit_of_mem_toDigits (by norm_num) (by norm_num) hc,
    filter_ne_point fun c hc => isDigit_of_mem_padStart hc, Nat.ofDigitChars_append,
    Nat.ofDigitChars_eq_ofDigitChars_zero, ofDigitChars_padStart, Nat.ofDigitChars_ten_toDigits,
    hlen]
  exact Nat.div_add_mod n (10 ^ p)

/-- `FormatFloat` with a precision, of a float that is not negative. -/
def fixed (p : ℕ) (x : ℚ) : List Char := decimal p (roundEven (x * 10 ^ p)).toNat

/-- A whole number of up to 53 bits is a double. -/
theorem round64_natCast {n : ℕ} (h : n < 2 ^ 53) : round64 n = n := by
  have hlog : Nat.log 2 n < 53 := by
    obtain rfl | hpos := Nat.eq_zero_or_pos n
    · simp
    · exact (Nat.log_lt_iff_lt_pow (by norm_num) hpos.ne').2 h
  have hplace : placeAt 52 (-1074) (n : ℚ) ≤ 0 := by
    unfold placeAt
    rw [Int.log_natCast]
    omega
  exact roundAt_of_coarser hplace (n := n) (by simp)

/-- What a double that is a thousandth of a whole number is off by. -/
theorem abs_round64_div_sub_le {n : ℕ} {e : ℤ} (hn : 0 < n) (h : (n : ℚ) / 1000 < 2 ^ (e + 1))
    (he : -1022 ≤ e) : |round64 (n / 1000) - n / 1000| ≤ 2 ^ (e - 52) / 2 :=
  abs_roundAt_sub_le_of_lt (by positivity) h (by omega)

end VcsClient.Lib
