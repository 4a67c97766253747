import VcsClient.History.Log
import VcsClient.Lib.Csv
import VcsClient.Lib.Decimal

/-!
# The exported log

`CSV` of `internal/history/store.go`: a header and a record for each entry. Names are written as
they are, whatever they hold; a frequency is written in MHz and a duration in seconds, each through
a double. How an instant is written is left open.

A reader gets the records back, with every name and frequency in them (`csv_read_back`).
-/

namespace VcsClient.History

open VcsClient.Lib

def csvHeader : List (List Char) :=
  ["time".toList, "sender".toList, "channel".toList, "frequency_mhz".toList, "duration_s".toList,
    "own".toList]

/-- `FormatFloat` of a number of thousandths, with `p` places. -/
def formatThousandths (p : ℕ) (n : ℤ) : List Char :=
  (if n < 0 then ['-'] else []) ++ fixed p (round64 (round64 n.natAbs / 1000))

/-- `rfc3339` is `At.Format` with the zone the entry was made in. -/
def csvRow (rfc3339 : ℤ → String) (e : Entry) : List (List Char) :=
  [(rfc3339 e.atTime).toList, e.sender.toList, e.radio.toList, formatThousandths 3 e.freqKHz,
    formatThousandths 1 e.durationMS, (if e.own then "true" else "false").toList]

def csv (rfc3339 : ℤ → String) (entries : List Entry) : List Char :=
  Csv.write (csvHeader :: entries.map (csvRow rfc3339))

/-- What is written of a number of thousandths is off by what the last place is rounded by, and
by what the double is. -/
theorem abs_formatted_sub_le {n p : ℕ} {e : ℤ} (hn : n < 2 ^ 53)
    (hlt : (n : ℚ) / 1000 < 2 ^ (e + 1)) (he : -1022 ≤ e) :
    |(roundEven (round64 (round64 n / 1000) * 10 ^ p) : ℚ) - n / 1000 * 10 ^ p| ≤
      1 / 2 + 2 ^ (e - 52) / 2 * 10 ^ p := by
  have hpow : (0 : ℚ) < 10 ^ p := by positivity
  have hdouble : |round64 ((n : ℚ) / 1000) - n / 1000| ≤ 2 ^ (e - 52) / 2 := by
    obtain rfl | hpos := Nat.eq_zero_or_pos n
    · simp only [Nat.cast_zero, zero_div, round64_zero, sub_zero, abs_zero]
      exact div_nonneg (zpow_nonneg (by norm_num) _) (by norm_num)
    · exact abs_round64_div_sub_le hpos hlt he
  rw [round64_natCast hn]
  calc |(roundEven (round64 (n / 1000) * 10 ^ p) : ℚ) - n / 1000 * 10 ^ p|
      = |((roundEven (round64 (n / 1000) * 10 ^ p) : ℚ) - round64 (n / 1000) * 10 ^ p) +
          (round64 (n / 1000) - n / 1000) * 10 ^ p| := by ring_nf
    _ ≤ |(roundEven (round64 (n / 1000) * 10 ^ p) : ℚ) - round64 (n / 1000) * 10 ^ p| +
          |(round64 (n / 1000) - n / 1000) * 10 ^ p| := abs_add_le _ _
    _ ≤ 1 / 2 + 2 ^ (e - 52) / 2 * 10 ^ p := by
        rw [abs_mul, abs_of_pos hpow]
        exact add_le_add (abs_roundEven_sub_le _) (mul_le_mul_of_nonneg_right hdouble hpow.le)

theorem formatThousandths_freq {khz : ℕ} (h : khz < 2 ^ 32) :
    formatThousandths 3 khz = decimal 3 khz := by
  have hlt : (khz : ℚ) < 2 ^ 32 := by exact_mod_cast h
  have hnear := abs_formatted_sub_le (n := khz) (p := 3) (e := 22) (by omega)
    (by norm_num; linarith) (by norm_num)
  have hround : roundEven (round64 (round64 khz / 1000) * 10 ^ 3) = khz := by
    have hless : |(roundEven (round64 (round64 khz / 1000) * 10 ^ 3) : ℚ) - khz| < 1 := by
      have hthousand : (khz : ℚ) / 1000 * 10 ^ 3 = khz := by norm_num
      rw [hthousand] at hnear
      exact hnear.trans_lt (by norm_num)
    have hint : |roundEven (round64 (round64 khz / 1000) * 10 ^ 3) - (khz : ℤ)| < 1 := by
      exact_mod_cast hless
    rw [abs_lt] at hint
    omega
  have hneg : ¬(khz : ℤ) < 0 := by omega
  rw [formatThousandths, if_neg hneg, List.nil_append, Int.natAbs_natCast, fixed, hround,
    Int.toNat_natCast]

/-- A duration is written to the nearest tenth of a second. -/
theorem formatThousandths_duration {ms : ℤ} (h : ms.natAbs < 2 ^ 49) :
    ∃ tenths : ℕ, formatThousandths 1 ms = (if ms < 0 then ['-'] else []) ++ decimal 1 tenths ∧
      |100 * (tenths : ℤ) - ms.natAbs| ≤ 50 := by
  set n := ms.natAbs with hn
  have hlt : (n : ℚ) < 2 ^ 49 := by exact_mod_cast h
  have hnear := abs_formatted_sub_le (n := n) (p := 1) (e := 39) (by omega)
    (by norm_num; linarith) (by norm_num)
  set tenths := roundEven (round64 (round64 n / 1000) * 10 ^ 1) with htenths
  have hnonneg : 0 ≤ tenths := by
    have hround := round64_nonneg (div_nonneg (round64_nonneg n.cast_nonneg)
      (by norm_num : (0 : ℚ) ≤ 1000))
    exact (Int.floor_nonneg.2 (mul_nonneg hround (by norm_num))).trans (floor_le_roundEven _)
  obtain ⟨m, hm⟩ := Int.eq_ofNat_of_zero_le hnonneg
  refine ⟨m, ?_, ?_⟩
  · rw [formatThousandths, fixed, ← hn, ← htenths, hm, Int.toNat_natCast]
  · rw [hm] at hnear
    have hless : |100 * (m : ℚ) - n| < 51 := by
      calc |100 * (m : ℚ) - n|
          = |(((m : ℤ) : ℚ) - n / 1000 * 10 ^ 1) * 100| := by push_cast; ring_nf
        _ = |((m : ℤ) : ℚ) - n / 1000 * 10 ^ 1| * 100 := by
            rw [abs_mul, abs_of_pos (by norm_num : (0 : ℚ) < 100)]
        _ ≤ (1 / 2 + 2 ^ ((39 : ℤ) - 52) / 2 * 10 ^ 1) * 100 :=
            mul_le_mul_of_nonneg_right hnear (by norm_num)
        _ < 51 := by norm_num
    have hint : |100 * (m : ℤ) - n| < 51 := by exact_mod_cast hless
    omega

def Shows (rfc3339 : ℤ → String) (e : Entry) (record : List (List Char)) : Prop :=
  ∃ freq duration, record = [(rfc3339 e.atTime).toList, e.sender.toList, e.radio.toList, freq,
      duration, (if e.own then "true" else "false").toList] ∧
    freq = decimal 3 e.freqKHz ∧ ofDecimal freq = e.freqKHz ∧
    (e.durationMS.natAbs < 2 ^ 49 → ∃ tenths, duration =
      (if e.durationMS < 0 then ['-'] else []) ++ decimal 1 tenths ∧ ofDecimal (decimal 1 tenths) =
        tenths ∧ |100 * (tenths : ℤ) - e.durationMS.natAbs| ≤ 50)

theorem shows_csvRow (rfc3339 : ℤ → String) {e : Entry} (h : e.freqKHz < 2 ^ 32) :
    Shows rfc3339 e (csvRow rfc3339 e) := by
  refine ⟨_, _, rfl, formatThousandths_freq h, ?_, fun hms => ?_⟩
  · rw [formatThousandths_freq h, ofDecimal_decimal (by norm_num)]
  · obtain ⟨tenths, heq, hnear⟩ := formatThousandths_duration hms
    exact ⟨tenths, heq, ofDecimal_decimal (by norm_num) _, hnear⟩

/-- **The exported log is read back.** Whatever the names hold, commas, quotes and line ends too, a
reader of the text finds the header and one record for each entry, with the sender and the channel
as they were, the frequency to its last kHz and the duration to the nearest tenth of a second. -/
theorem csv_read_back (rfc3339 : ℤ → String) (entries : List Entry)
    (h : ∀ e ∈ entries, e.freqKHz < 2 ^ 32) :
    ∃ records, Csv.read (csv rfc3339 entries) = some (csvHeader :: records) ∧
      List.Forall₂ (Shows rfc3339) entries records := by
  refine ⟨entries.map (csvRow rfc3339), Csv.read_write fun r hr => ?_, ?_⟩
  · obtain rfl | hr := List.mem_cons.1 hr
    · simp [csvHeader]
    · obtain ⟨e, -, rfl⟩ := List.mem_map.1 hr
      simp [csvRow]
  · refine List.forall₂_map_right_iff.2 (List.forall₂_same.2 fun e he => ?_)
    exact shows_csvRow rfc3339 (h e he)

/-- A sender whose name holds a comma, quotes and a line end. -/
def awkward : List Entry := [⟨0, "Al, \"Ace\"\nBo", "", 251500, "Fleet", 4249, false⟩]

theorem csv_read_back_awkward :
    (∀ e ∈ awkward, Csv.fieldNeedsQuotes e.sender.toList = true) ∧
      ∃ records, Csv.read (csv (fun _ => "2026-01-02T03:04:05Z") awkward) =
        some (csvHeader :: records) ∧
          List.Forall₂ (Shows fun _ => "2026-01-02T03:04:05Z") awkward records :=
  ⟨by decide, csv_read_back _ awkward (by decide)⟩

end VcsClient.History
