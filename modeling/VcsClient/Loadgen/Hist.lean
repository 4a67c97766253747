import Mathlib.Algebra.Order.Floor.Semiring
import Mathlib.Data.Int.ConditionallyCompleteOrder
import Mathlib.Data.List.OfFn
import VcsClient.Lib.Binary64

/-!
# The latency histogram

`internal/loadgen/hist.go`: 90 buckets for each decade from 1 µs to 10 s, with one for
what is below and one for what is above. A duration is in nanoseconds. A quantile asks
for a rank, which is a product of doubles rounded up. That a counter wraps, and that the
atomics of a counter interleave, is left out.
-/

namespace VcsClient.Loadgen

open VcsClient.Lib

def histDecades : ℕ := 7

def histPerDecade : ℕ := 90

def histBuckets : ℕ := histDecades * histPerDecade + 2

def histOverflow : ℕ := histBuckets - 1

/-- The loop of `histIndex`; an `int64` has fewer decades than turns. -/
def decade (ns : ℤ) : ℕ → ℤ → ℕ → ℤ × ℕ
  | 0, base, k => (base, k)
  | turns + 1, base, k =>
    if base * 10 ≤ ns then decade ns turns (base * 10) (k + 1) else (base, k)

def histIndex (d : ℤ) : ℕ :=
  if d < 1000 then 0
  else if 10000000000 ≤ d then histOverflow
  else
    let (base, k) := decade d 19 1000 0
    let m := d / (base / 10)
    1 + k * histPerDecade + (m - 10).toNat

def histUpper (i : ℕ) : ℤ :=
  if i ≤ 0 then 1000
  else if histOverflow ≤ i then 10000000000
  else
    let k := (i - 1) / histPerDecade
    let m : ℤ := ((i - 1) % histPerDecade : ℕ) + 10
    let step : ℤ := (· * 10)^[k] 100
    (m + 1) * step

structure Hist where
  b : Fin histBuckets → ℕ

namespace Hist

def zero : Hist := ⟨fun _ => 0⟩

def count (h : Hist) : ℕ := (List.ofFn h.b).sum

/-- The rank that `Quantile` looks for among `total` observations. -/
def rank (q : ℚ) (total : ℕ) : ℕ :=
  let q := if q ≤ 0 then 0 else q
  let r := ⌈round64 (q * round64 total)⌉₊
  let r := if r < 1 then 1 else r
  if total < r then total else r

/-- The loop of `Quantile`, from bucket `i` on. -/
def scan (rank : ℕ) : ℕ → ℕ → List ℕ → ℤ
  | _, _, [] => 10000000000
  | i, cum, c :: b => if rank ≤ cum + c then histUpper i else scan rank (i + 1) (cum + c) b

def quantile (h : Hist) (q : ℚ) : ℤ :=
  let total := h.count
  if total = 0 then 0 else scan (rank q total) 0 0 (List.ofFn h.b)

def merge (h o : Hist) : Hist := ⟨fun i => if o.b i ≠ 0 then h.b i + o.b i else h.b i⟩

end Hist

/-! ## The bounds -/

theorem iterate_ten (k : ℕ) : (· * 10)^[k] (100 : ℤ) = 100 * 10 ^ k := by
  induction k with
  | zero => rfl
  | succ k ih => rw [Function.iterate_succ_apply', ih, pow_succ, mul_assoc]

/-- The loop finds the power of ten at or below `ns`. -/
theorem decade_spec {ns : ℤ} : ∀ (turns k : ℕ), 1000 * 10 ^ k ≤ ns →
    ns < 1000 * 10 ^ (k + turns) * 10 → ∃ j, decade ns turns (1000 * 10 ^ k) k =
      (1000 * 10 ^ j, j) ∧ 1000 * 10 ^ j ≤ ns ∧ ns < 1000 * 10 ^ j * 10
  | 0, k, hlo, hhi => ⟨k, rfl, hlo, hhi⟩
  | turns + 1, k, hlo, hhi => by
    unfold decade
    split
    · next h =>
      have hpow : (1000 : ℤ) * 10 ^ k * 10 = 1000 * 10 ^ (k + 1) := by rw [pow_succ, mul_assoc]
      rw [hpow] at h ⊢
      refine decade_spec turns (k + 1) h ?_
      rwa [show k + 1 + turns = k + (turns + 1) by omega]
    · next h => exact ⟨k, rfl, hlo, not_le.1 h⟩

/-- A duration between the first bound and the last falls on the bucket of its leading
two digits. -/
theorem histIndex_digits {d : ℤ} (hlo : 1000 ≤ d) (hhi : d < 10000000000) :
    ∃ k r : ℕ, k < histDecades ∧ r < histPerDecade ∧ histIndex d = histPerDecade * k + r + 1 ∧
      (r + 10) * (100 * 10 ^ k) ≤ d ∧ d < (r + 11) * (100 * 10 ^ k) := by
  have hlo' : (1000 : ℤ) * 10 ^ 0 ≤ d := by simpa using hlo
  obtain ⟨k, hdecade, hbase, htop⟩ := decade_spec 19 0 hlo' (hhi.trans (by norm_num))
  have hk : k < histDecades := by
    have hpow : (10 : ℤ) ^ k < 10 ^ 7 := by linarith
    exact (pow_lt_pow_iff_right₀ (by norm_num)).1 hpow
  have hp : (0 : ℤ) < 100 * 10 ^ k := by positivity
  have hstep : 1000 * (10 : ℤ) ^ k / 10 = 100 * 10 ^ k := by omega
  have hm : 10 ≤ d / (100 * 10 ^ k) := (Int.le_ediv_iff_mul_le hp).2 (by linarith)
  have hm' : d / (100 * 10 ^ k) < 100 := (Int.ediv_lt_iff_lt_mul hp).2 (by linarith)
  have hdigits : ((d / (100 * 10 ^ k) - 10).toNat : ℤ) = d / (100 * 10 ^ k) - 10 :=
    Int.toNat_of_nonneg (by omega)
  refine ⟨k, (d / (100 * 10 ^ k) - 10).toNat, hk, ?_, ?_, ?_, ?_⟩
  · unfold histPerDecade
    omega
  · unfold histIndex
    rw [if_neg (by omega), if_neg (by omega), ← mul_one (1000 : ℤ), ← pow_zero (10 : ℤ), hdecade]
    dsimp only
    rw [hstep]
    ring
  · rw [hdigits]
    have := Int.ediv_mul_le d hp.ne'
    linarith
  · rw [hdigits]
    have := Int.lt_ediv_add_one_mul_self d hp
    linarith

theorem histUpper_digits {k r : ℕ} (hk : k < histDecades) (hr : r < histPerDecade) :
    histUpper (histPerDecade * k + r + 1) = (r + 11) * (100 * 10 ^ k) := by
  have hpos : ¬ histPerDecade * k + r + 1 ≤ 0 := by omega
  have hover : ¬ histOverflow ≤ histPerDecade * k + r + 1 := by
    unfold histDecades at hk
    unfold histPerDecade at hr ⊢
    show ¬ 631 ≤ _
    omega
  have hdiv : (histPerDecade * k + r + 1 - 1) / histPerDecade = k := by
    rw [Nat.add_sub_cancel, Nat.mul_add_div (by decide), Nat.div_eq_of_lt hr, Nat.add_zero]
  have hmod : (histPerDecade * k + r + 1 - 1) % histPerDecade = r := by
    rw [Nat.add_sub_cancel, Nat.mul_add_mod, Nat.mod_eq_of_lt hr]
  unfold histUpper
  rw [if_neg hpos, if_neg hover]
  dsimp only
  rw [hdiv, hmod, iterate_ten]
  ring

/-- The bound below a bucket is the one above the bucket before it. -/
theorem histUpper_before {k r : ℕ} (hk : k < histDecades) (hr : r < histPerDecade) :
    histUpper (histPerDecade * k + r) = (r + 10) * (100 * 10 ^ k) := by
  obtain _ | r := r
  · obtain _ | k := k
    · rfl
    · rw [show histPerDecade * (k + 1) + 0 = histPerDecade * k + 89 + 1 by
        unfold histPerDecade; omega, histUpper_digits (Nat.lt_of_succ_lt hk) (by decide), pow_succ]
      push_cast
      ring
  · rw [← Nat.add_assoc, histUpper_digits hk (Nat.lt_of_succ_lt hr)]
    push_cast
    ring

/-- Every bucket between the first and the last is one of these. -/
theorem exists_digits {i : ℕ} (h0 : 0 < i) (hi : i < histOverflow) :
    ∃ k r : ℕ, k < histDecades ∧ r < histPerDecade ∧ i = histPerDecade * k + r + 1 := by
  have hi' : i < 631 := hi
  refine ⟨(i - 1) / 90, (i - 1) % 90, ?_, Nat.mod_lt _ (by decide), ?_⟩
  · unfold histDecades
    omega
  · unfold histPerDecade
    omega

theorem histUpper_succ {i : ℕ} (hi : i + 1 < histOverflow) : histUpper i < histUpper (i + 1) := by
  obtain ⟨k, r, hk, hr, he⟩ := exists_digits (Nat.succ_pos i) hi
  obtain rfl : i = histPerDecade * k + r := Nat.succ.inj he
  rw [histUpper_before hk hr, histUpper_digits hk hr]
  have : (0 : ℤ) < 100 * 10 ^ k := by positivity
  linarith

theorem histUpper_last : histUpper (histOverflow - 1) = 10000000000 := by
  rw [show histOverflow - 1 = histPerDecade * 6 + 89 + 1 by rfl,
    histUpper_digits (by decide) (by decide)]
  norm_num

theorem histUpper_overflow {i : ℕ} (h : histOverflow ≤ i) : histUpper i = 10000000000 := by
  have hpos : ¬ i ≤ 0 := fun h0 => absurd (h.trans h0) (by decide)
  unfold histUpper
  rw [if_neg hpos, if_pos h]

theorem histUpper_le_succ (i : ℕ) : histUpper i ≤ histUpper (i + 1) := by
  obtain hlt | hge := Nat.lt_or_ge (i + 1) histOverflow
  · exact (histUpper_succ hlt).le
  · rw [histUpper_overflow hge]
    obtain hge' | hlt := Nat.lt_or_ge i histOverflow
    · obtain rfl : i = histOverflow - 1 := by omega
      rw [histUpper_last]
    · rw [histUpper_overflow hlt]

theorem histUpper_mono : Monotone histUpper := monotone_nat_of_le_succ histUpper_le_succ

theorem histUpper_le (i : ℕ) : histUpper i ≤ 10000000000 := by
  obtain h | h := Nat.le_total i histOverflow
  · exact (histUpper_mono h).trans_eq (histUpper_overflow le_rfl)
  · exact (histUpper_overflow h).le

theorem histIndex_lt (d : ℤ) : histIndex d < histBuckets := by
  by_cases hlo : d < 1000
  · rw [histIndex, if_pos hlo]
    decide
  by_cases hhi : 10000000000 ≤ d
  · rw [histIndex, if_neg hlo, if_pos hhi]
    decide
  obtain ⟨k, r, hk, hr, hi, -⟩ := histIndex_digits (not_lt.1 hlo) (not_le.1 hhi)
  rw [hi]
  unfold histDecades at hk
  unfold histPerDecade at hr ⊢
  show _ < 632
  omega

theorem histIndex_bounds (d : ℤ) : (0 < histIndex d → histUpper (histIndex d - 1) ≤ d) ∧
    (histIndex d < histOverflow → d < histUpper (histIndex d)) := by
  by_cases hlo : d < 1000
  · rw [histIndex, if_pos hlo]
    exact ⟨fun h => absurd h (lt_irrefl _), fun _ => hlo⟩
  by_cases hhi : 10000000000 ≤ d
  · rw [histIndex, if_neg hlo, if_pos hhi]
    exact ⟨fun _ => histUpper_last.trans_le hhi, fun h => absurd h (lt_irrefl _)⟩
  obtain ⟨k, r, hk, hr, hi, hle, hlt⟩ := histIndex_digits (not_lt.1 hlo) (not_le.1 hhi)
  rw [hi, Nat.add_sub_cancel, histUpper_before hk hr, histUpper_digits hk hr]
  exact ⟨fun _ => hle, fun _ => hlt⟩

theorem histIndex_mono : Monotone histIndex := by
  intro d d' h
  by_contra hlt
  have hover : histIndex d' < histOverflow :=
    (not_le.1 hlt).trans_le (Nat.le_of_lt_succ (histIndex_lt d))
  have habove := (histIndex_bounds d').2 hover
  have hbelow := (histIndex_bounds d).1 (Nat.zero_lt_of_lt (not_le.1 hlt))
  have hbetween := histUpper_mono (Nat.le_sub_one_of_lt (not_le.1 hlt))
  omega

namespace Hist

/-- `Record`; the index is in range. -/
def record (h : Hist) (d : ℤ) : Hist :=
  ⟨fun i => if i.val = histIndex d then h.b i + 1 else h.b i⟩

def recorded (ds : List ℤ) : Hist := ds.foldl record zero

/-! ## What is recorded -/

theorem foldl_record_b (ds : List ℤ) (h : Hist) (i : Fin histBuckets) :
    (ds.foldl record h).b i = h.b i + ds.countP fun d => histIndex d = i.val := by
  induction ds generalizing h with
  | nil => rfl
  | cons d ds ih =>
    rw [List.foldl_cons, ih, List.countP_cons]
    show (if i.val = histIndex d then h.b i + 1 else h.b i) + _ = _
    by_cases hi : histIndex d = i.val
    · rw [if_pos hi.symm, if_pos (decide_eq_true hi)]
      omega
    · rw [if_neg (Ne.symm hi), if_neg fun h => hi (of_decide_eq_true h)]
      rfl

theorem recorded_b (ds : List ℤ) (i : Fin histBuckets) :
    (recorded ds).b i = ds.countP fun d => histIndex d = i.val := by
  rw [recorded, foldl_record_b]
  exact Nat.zero_add _

/-- The first `j` buckets hold the durations with an index below `j`. -/
theorem sum_take_buckets (ds : List ℤ) : ∀ j ≤ histBuckets,
    ((List.ofFn (recorded ds).b).take j).sum = ds.countP fun d => histIndex d < j
  | 0, _ => by
    rw [List.take_zero, List.countP_eq_zero.2 fun d _ h => by simp at h]
    rfl
  | j + 1, hj => by
    have hlen : j < (List.ofFn (recorded ds).b).length := by
      rw [List.length_ofFn]
      exact hj
    have hsplit : (ds.countP fun d => histIndex d < j + 1) =
        (ds.countP fun d => histIndex d < j) + ds.countP fun d => histIndex d = j := by
      clear hlen
      induction ds with
      | nil => rfl
      | cons d ds ih =>
        simp only [List.countP_cons, ih, decide_eq_true_eq]
        split_ifs <;> omega
    rw [List.take_add_one, List.getElem?_eq_getElem hlen, List.sum_append,
      sum_take_buckets ds j (Nat.le_of_succ_le hj), hsplit, List.getElem_ofFn, recorded_b]
    simp

theorem count_recorded (ds : List ℤ) : (recorded ds).count = ds.length := by
  have := sum_take_buckets ds histBuckets le_rfl
  rw [List.take_of_length_le (by simp)] at this
  rw [count, this, List.countP_eq_length.2 fun d _ => decide_eq_true (histIndex_lt d)]

/-! ## The quantile -/

/-- The scan stops at the first bucket that reaches the rank. -/
theorem scan_eq {r : ℕ} : ∀ {b : List ℕ} {j i cum : ℕ}, j < b.length →
    cum + (b.take j).sum < r → r ≤ cum + (b.take (j + 1)).sum → scan r i cum b = histUpper (i + j)
  | [], _, _, _, hj, _, _ => absurd hj (Nat.not_lt_zero _)
  | c :: b, 0, i, cum, _, _, hhi => by
    rw [scan, if_pos (by simpa using hhi)]
    rfl
  | c :: b, j + 1, i, cum, hj, hlo, hhi => by
    rw [List.take_succ_cons, List.sum_cons] at hlo hhi
    rw [scan, if_neg (by omega), scan_eq (Nat.lt_of_succ_lt_succ hj) (by omega) (by omega)]
    congr 1
    omega

theorem le_scan {r : ℕ} : ∀ {b : List ℕ} {i j cum : ℕ}, j ≤ i → histUpper j ≤ scan r i cum b
  | [], _, j, _, _ => histUpper_le j
  | c :: b, i, j, cum, h => by
    rw [scan]
    split
    · exact histUpper_mono h
    · exact le_scan (h.trans (Nat.le_succ i))

theorem scan_mono {r r' : ℕ} (h : r ≤ r') : ∀ {b : List ℕ} {i cum : ℕ},
    scan r i cum b ≤ scan r' i cum b
  | [], _, _ => le_rfl
  | c :: b, i, cum => by
    rw [scan, scan]
    split
    · split
      · exact le_rfl
      · exact le_scan (Nat.le_succ i)
    · rw [if_neg (by omega)]
      exact scan_mono h

theorem rank_eq {q : ℚ} (hq : 0 ≤ q) (total : ℕ) :
    rank q total = min total (max 1 ⌈round64 (q * round64 total)⌉₊) := by
  have hq' : (if q ≤ 0 then 0 else q) = q := by
    split
    · next h => exact le_antisymm hq h
    · rfl
  unfold rank
  rw [hq']
  dsimp only
  split_ifs <;> omega

theorem rank_mono {q q' : ℚ} (hq : 0 ≤ q) (h : q ≤ q') (total : ℕ) :
    rank q total ≤ rank q' total := by
  have htotal : (0 : ℚ) ≤ round64 total := round64_nonneg (Nat.cast_nonneg total)
  rw [rank_eq hq, rank_eq (hq.trans h)]
  refine min_le_min_left _ (max_le_max_left _ (Nat.ceil_mono ?_))
  exact round64_mono (mul_nonneg hq htotal) (mul_le_mul_of_nonneg_right h htotal)

theorem quantile_mono (h : Hist) {q q' : ℚ} (hq : 0 ≤ q) (hle : q ≤ q') :
    h.quantile q ≤ h.quantile q' := by
  unfold quantile
  dsimp only
  split
  · exact le_rfl
  · exact scan_mono (rank_mono hq hle _)

/-- The bucket that reaches a rank is that of the duration of this rank. -/
theorem scan_sorted {ds sorted : List ℤ} (hperm : sorted.Perm ds)
    (hsorted : sorted.Pairwise (· ≤ ·)) {r : ℕ} (h0 : 0 < r) {x : ℤ}
    (hx : sorted[r - 1]? = some x) :
    scan r 0 0 (List.ofFn (recorded ds).b) = histUpper (histIndex x) := by
  obtain ⟨hr, rfl⟩ := List.getElem?_eq_some_iff.1 hx
  have hsplit : sorted = sorted.take (r - 1) ++ sorted[r - 1] :: sorted.drop r := by
    have := List.drop_eq_getElem_cons hr
    rw [Nat.sub_add_cancel h0] at this
    rw [← this, List.take_append_drop]
  generalize sorted[r - 1] = x at hsplit
  have hpw := hsorted
  rw [hsplit, List.pairwise_append] at hpw
  obtain ⟨-, hright, hcross⟩ := hpw
  have hlen : (sorted.take (r - 1)).length = r - 1 := List.length_take_of_le hr.le
  have hlt := histIndex_lt x
  have hj : histIndex x < (List.ofFn (recorded ds).b).length := by
    rw [List.length_ofFn]
    exact hlt
  rw [scan_eq hj, Nat.zero_add]
  · -- what has a lower index stands before `x`
    rw [Nat.zero_add, sum_take_buckets ds _ hlt.le, ← hperm.countP_eq, hsplit, List.countP_append,
      (List.countP_eq_zero (l := x :: _)).2 fun d hd h => ?_]
    · have := List.countP_le_length (p := fun d => decide (histIndex d < histIndex x))
        (l := sorted.take (r - 1))
      omega
    · have hxd : x ≤ d := by
        obtain rfl | hd := List.mem_cons.1 hd
        · exact le_rfl
        · exact (List.pairwise_cons.1 hright).1 d hd
      exact absurd (of_decide_eq_true h) (not_lt.2 (histIndex_mono hxd))
  · -- and all that stands before it, and itself, has no higher one
    rw [Nat.zero_add, sum_take_buckets ds _ hlt, ← hperm.countP_eq, hsplit, List.countP_append,
      List.countP_cons, if_pos (decide_eq_true (Nat.lt_succ_self _)),
      List.countP_eq_length.2 fun d hd => ?_]
    · omega
    · exact decide_eq_true (Nat.lt_succ_of_le (histIndex_mono
        (hcross d hd x List.mem_cons_self)))

theorem quantile_recorded {ds sorted : List ℤ} (hperm : sorted.Perm ds)
    (hsorted : sorted.Pairwise (· ≤ ·)) (hne : ds ≠ []) {q : ℚ} (hq : 0 ≤ q) :
    ∃ x, sorted[min ds.length (max 1 ⌈round64 (q * round64 ds.length)⌉₊) - 1]? = some x ∧
      (recorded ds).quantile q = histUpper (histIndex x) := by
  have hpos : 0 < ds.length := List.length_pos_iff.2 hne
  have hr : min ds.length (max 1 ⌈round64 (q * round64 ds.length)⌉₊) - 1 < sorted.length := by
    rw [hperm.length_eq]
    omega
  have hx := List.getElem?_eq_getElem hr
  refine ⟨_, hx, ?_⟩
  unfold quantile
  dsimp only
  rw [count_recorded, if_neg hpos.ne', rank_eq hq]
  exact scan_sorted hperm hsorted (by omega) hx

/-! ## Merging -/

theorem merge_b (h o : Hist) (i : Fin histBuckets) : (h.merge o).b i = h.b i + o.b i := by
  show (if o.b i ≠ 0 then h.b i + o.b i else h.b i) = _
  split
  · rfl
  · next h0 => rw [not_not.1 h0, Nat.add_zero]

theorem merge_recorded {xs ys ds : List ℤ} (hperm : ds.Perm (xs ++ ys)) :
    (recorded xs).merge (recorded ys) = recorded ds := by
  have hb : ((recorded xs).merge (recorded ys)).b = (recorded ds).b := by
    funext i
    rw [merge_b, recorded_b, recorded_b, recorded_b, hperm.countP_eq, List.countP_append]
  cases h : (recorded xs).merge (recorded ys)
  cases h' : recorded ds
  rw [h, h'] at hb
  exact congrArg Hist.mk hb

end Hist

/-- **The histogram.** Every index is in range, below 1 µs it is that of the first bucket, and
from there to the last bound the bounds of the bucket are around the duration and apart by a
tenth at most. A quantile is the bound above the duration whose rank is the product of
doubles, rounded up, from the first to the last; it grows with `q`. What is recorded apart
and merged is what is recorded in one. -/
theorem hist_faithful :
    (∀ d, histIndex d < histBuckets) ∧
    (∀ d, 0 ≤ d → d < 1000 → histIndex d = 0 ∧ d < histUpper 0) ∧
    (∀ d, 1000 ≤ d → d ≤ 10000000000 →
      histUpper (histIndex d - 1) ≤ d ∧ d ≤ histUpper (histIndex d) ∧
      10 * (histUpper (histIndex d) - histUpper (histIndex d - 1)) ≤
        histUpper (histIndex d - 1)) ∧
    (∀ (ds sorted : List ℤ) (q : ℚ), sorted.Perm ds → sorted.Pairwise (· ≤ ·) → ds ≠ [] →
      0 ≤ q → q ≤ 1 →
      ∃ x, sorted[min ds.length (max 1 ⌈round64 (q * round64 ds.length)⌉₊) - 1]? = some x ∧
        (Hist.recorded ds).quantile q = histUpper (histIndex x)) ∧
    (∀ (h : Hist) (q q' : ℚ), 0 ≤ q → q ≤ q' → q' ≤ 1 → h.quantile q ≤ h.quantile q') ∧
    ∀ xs ys ds : List ℤ, ds.Perm (xs ++ ys) →
      (Hist.recorded xs).merge (Hist.recorded ys) = Hist.recorded ds := by
  refine ⟨histIndex_lt, fun d _ hd => ?_, fun d hlo hhi => ?_,
    fun ds sorted q hperm hsorted hne hq _ => Hist.quantile_recorded hperm hsorted hne hq,
    fun h q q' hq hle _ => h.quantile_mono hq hle,
    fun xs ys ds hperm => Hist.merge_recorded hperm⟩
  · exact ⟨by rw [histIndex, if_pos hd], hd⟩
  · obtain hhi | rfl := hhi.lt_or_eq
    · obtain ⟨k, r, hk, hr, hi, hle, hlt⟩ := histIndex_digits hlo hhi
      rw [hi, Nat.add_sub_cancel, histUpper_before hk hr, histUpper_digits hk hr]
      refine ⟨hle, hlt.le, ?_⟩
      have hp : (0 : ℤ) < 100 * 10 ^ k := by positivity
      have hr0 : (0 : ℤ) ≤ r * (100 * 10 ^ k) := by positivity
      linarith
    · rw [show histIndex 10000000000 = histOverflow from rfl, histUpper_last,
        histUpper_overflow le_rfl]
      norm_num

/-- Four durations. -/
theorem hist_faithful_four :
    (histUpper (histIndex 12345 - 1) ≤ 12345 ∧ 12345 ≤ histUpper (histIndex 12345) ∧
      10 * (histUpper (histIndex 12345) - histUpper (histIndex 12345 - 1)) ≤
        histUpper (histIndex 12345 - 1)) ∧
    ∃ x, [(5 : ℤ), 12345, 12400, 20000000000][min 4 (max 1 ⌈round64 (1 / 2 * round64 4)⌉₊) - 1]? =
        some x ∧
      (Hist.recorded [12400, 5, 20000000000, 12345]).quantile (1 / 2) = histUpper (histIndex x) :=
  ⟨hist_faithful.2.2.1 12345 (by norm_num) (by norm_num),
    hist_faithful.2.2.2.1 [12400, 5, 20000000000, 12345] [5, 12345, 12400, 20000000000] (1 / 2)
      (by decide) (by decide) (by decide) (by norm_num) (by norm_num)⟩

/-- The bound above a nanosecond is a thousand times as long, and of ten durations the double
next to a tenth selects the first, though the exact product is greater than one. -/
theorem hist_underflow :
    ¬ (∀ d : ℤ, 0 ≤ d → d ≤ 10000000000 → 10 * (histUpper (histIndex d) - d) ≤ d) ∧
    ¬ ∀ (q : ℚ) (total : ℕ), 0 ≤ q → q ≤ 1 → 0 < total →
      Hist.rank q total = max 1 ⌈q * total⌉₊ := by
  constructor
  · intro h
    exact absurd (h 1 (by decide) (by decide)) (by decide)
  · intro h
    exact absurd (h (3602879701896397 / 36028797018963968) 10 (by norm_num) (by norm_num)
      (by norm_num)) (by decide +kernel)

end VcsClient.Loadgen
