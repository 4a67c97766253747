import Mathlib.Algebra.BigOperators.Group.List.Basic
import Mathlib.Algebra.GroupWithZero.Nat
import Mathlib.Data.List.Range

/-!
# Runs of a line

The lengths of the longest runs of a line of Booleans, as a scan finds them. A run is
an interval of the line; `IsRuns` says which intervals are its runs, and `runs_spec`
that the scan finds them, in order.
-/

namespace VcsClient.Lib

/-- The length of the run the scan is in, and the runs it has left. -/
structure Scan where
  run : ℕ
  out : List ℕ

namespace Scan

def start : Scan := ⟨0, []⟩

/-- The scan sees whether the next place is on the line. -/
def next (s : Scan) (on : Bool) : Scan :=
  if on then { s with run := s.run + 1 }
  else if 0 < s.run then ⟨0, s.out ++ [s.run]⟩
  else s

/-- The runs when the line ends. -/
def finish (s : Scan) : List ℕ := if 0 < s.run then s.out ++ [s.run] else s.out

/-- The scan of the first `n` places of a line. -/
def scan (p : ℕ → Bool) (n : ℕ) : Scan := (List.range n).foldl (fun s i => s.next (p i)) start

theorem scan_succ (p : ℕ → Bool) (n : ℕ) : scan p (n + 1) = (scan p n).next (p n) := by
  simp [scan, List.range_succ, List.foldl_append]

end Scan

/-- The runs of the first `n` places of a line. -/
def runs (p : ℕ → Bool) (n : ℕ) : List ℕ := (Scan.scan p n).finish

theorem runs_congr {p q : ℕ → Bool} {n : ℕ} (h : ∀ i < n, p i = q i) : runs p n = runs q n := by
  have hscan : ∀ k ≤ n, Scan.scan p k = Scan.scan q k := by
    intro k hk
    induction k with
    | zero => rfl
    | succ k ih => rw [Scan.scan_succ, Scan.scan_succ, ih (by omega), h k hk]
  rw [runs, runs, hscan n le_rfl]

/-- The intervals, each a start and a length, are the runs of the first `n` places:
they are not empty, all on the line, with a gap in between, and cover it. -/
structure IsRuns (p : ℕ → Bool) (n : ℕ) (l : List (ℕ × ℕ)) : Prop where
  pos : ∀ r ∈ l, 0 < r.2
  le : ∀ r ∈ l, r.1 + r.2 ≤ n
  on : ∀ r ∈ l, ∀ i, r.1 ≤ i → i < r.1 + r.2 → p i = true
  gap : l.Pairwise fun r r' => r.1 + r.2 < r'.1
  cover : ∀ i < n, p i = true → ∃ r ∈ l, r.1 ≤ i ∧ i < r.1 + r.2

/-- The run a scan is in, as an interval. -/
def openRun (n run : ℕ) : List (ℕ × ℕ) := if 0 < run then [(n - run, run)] else []

/-- Where a scan stands after `n` places. -/
structure Scanned (p : ℕ → Bool) (n : ℕ) (s : Scan) (l : List (ℕ × ℕ)) : Prop where
  out : l.map Prod.snd = s.out
  run_le : s.run ≤ n
  closed : ∀ r ∈ l, r.1 + r.2 < n
  isRuns : IsRuns p n (l ++ openRun n s.run)

variable {p : ℕ → Bool} {n run : ℕ} {s : Scan} {l : List (ℕ × ℕ)}

theorem openRun_pos (h : 0 < run) : openRun n run = [(n - run, run)] := if_pos h

theorem openRun_zero : openRun n 0 = [] := rfl

/-- A place that is not on the line changes no run. -/
theorem IsRuns.off (h : IsRuns p n l) (hp : p n = false) : IsRuns p (n + 1) l where
  pos := h.pos
  le r hr := Nat.le_succ_of_le (h.le r hr)
  on := h.on
  gap := h.gap
  cover i hi hpi := by
    have hne : i ≠ n := by
      rintro rfl
      rw [hp] at hpi
      cases hpi
    exact h.cover i (by omega) hpi

theorem IsRuns.grow (h : IsRuns p n (l ++ openRun n run)) (hle : run ≤ n)
    (hclosed : ∀ r ∈ l, r.1 + r.2 < n) (hp : p n = true) :
    IsRuns p (n + 1) (l ++ openRun (n + 1) (run + 1)) := by
  have hstart : n + 1 - (run + 1) = n - run := by omega
  have hopen : ∀ i, n - run ≤ i → i < n → p i = true := by
    intro i hlo hhi
    have hpos : 0 < run := by omega
    refine h.on (n - run, run) ?_ i hlo (by simp only; omega)
    simp [openRun_pos hpos]
  rw [openRun_pos (Nat.succ_pos _), hstart]
  refine ⟨fun r hr => ?_, fun r hr => ?_, fun r hr i hlo hhi => ?_, ?_, fun i hi hpi => ?_⟩
  · rcases List.mem_append.1 hr with hr | hr
    · exact h.pos r (List.mem_append_left _ hr)
    · cases List.mem_singleton.1 hr
      exact Nat.succ_pos _
  · rcases List.mem_append.1 hr with hr | hr
    · have := hclosed r hr
      omega
    · cases List.mem_singleton.1 hr
      simp only
      omega
  · rcases List.mem_append.1 hr with hr | hr
    · exact h.on r (List.mem_append_left _ hr) i hlo hhi
    · cases List.mem_singleton.1 hr
      simp only at hlo hhi
      by_cases he : i = n
      · rw [he]
        exact hp
      · exact hopen i hlo (by omega)
  · refine List.pairwise_append.2 ⟨(List.pairwise_append.1 h.gap).1, List.pairwise_singleton _ _,
      fun r hr r' hr' => ?_⟩
    cases List.mem_singleton.1 hr'
    by_cases hpos : 0 < run
    · exact (List.pairwise_append.1 h.gap).2.2 r hr (n - run, run) (by simp [openRun_pos hpos])
    · have := hclosed r hr
      simp only
      omega
  · by_cases hlast : n - run ≤ i
    · exact ⟨(n - run, run + 1), by simp, hlast, by simp only; omega⟩
    · obtain ⟨r, hr, hlo, hhi⟩ := h.cover i (by omega) hpi
      rcases List.mem_append.1 hr with hr | hr
      · exact ⟨r, List.mem_append_left _ hr, hlo, hhi⟩
      · unfold openRun at hr
        split at hr
        · cases List.mem_singleton.1 hr
          exact absurd hlo hlast
        · cases hr

theorem scanned_next (h : Scanned p n s l) :
    ∃ l', Scanned p (n + 1) (s.next (p n)) l' := by
  obtain ⟨hout, hle, hclosed, hruns⟩ := h
  unfold Scan.next
  cases hp : p n with
  | true =>
    rw [if_pos rfl]
    exact ⟨l, hout, Nat.succ_le_succ hle, fun r hr => Nat.lt_succ_of_lt (hclosed r hr),
      hruns.grow hle hclosed hp⟩
  | false =>
    rw [if_neg Bool.false_ne_true]
    split
    · next hpos =>
      rw [openRun_pos hpos] at hruns
      refine ⟨l ++ [(n - s.run, s.run)], by simp [hout], Nat.zero_le _, fun r hr => ?_, ?_⟩
      · have := hruns.le r hr
        omega
      · rw [openRun_zero, List.append_nil]
        exact hruns.off hp
    · next hpos =>
      have hzero : s.run = 0 := by omega
      rw [hzero, openRun_zero, List.append_nil] at hruns
      refine ⟨l, hout, by omega, fun r hr => Nat.lt_succ_of_lt (hclosed r hr), ?_⟩
      rw [hzero, openRun_zero, List.append_nil]
      exact hruns.off hp

theorem scanned_scan (p : ℕ → Bool) (n : ℕ) : ∃ l, Scanned p n (Scan.scan p n) l := by
  induction n with
  | zero => exact ⟨[], rfl, le_rfl, nofun, nofun, nofun, nofun, .nil, nofun⟩
  | succ n ih =>
    obtain ⟨l, hl⟩ := ih
    rw [Scan.scan_succ]
    exact scanned_next hl

/-- **The scan finds the runs.** -/
theorem runs_spec (p : ℕ → Bool) (n : ℕ) : ∃ l, l.map Prod.snd = runs p n ∧ IsRuns p n l := by
  obtain ⟨l, hout, -, -, hruns⟩ := scanned_scan p n
  refine ⟨_, ?_, hruns⟩
  unfold runs Scan.finish openRun
  split
  · rw [List.map_append, hout]
    rfl
  · rw [List.map_append, hout, List.map_nil, List.append_nil]

theorem sum_scan (p : ℕ → Bool) (n : ℕ) :
    (Scan.scan p n).out.sum + (Scan.scan p n).run = (List.range n).countP (p ·) := by
  induction n with
  | zero => rfl
  | succ n ih =>
    rw [List.range_succ, List.countP_append, ← ih, Scan.scan_succ]
    unfold Scan.next
    cases hp : p n with
    | true =>
      rw [if_pos rfl]
      simp [hp, Nat.add_assoc]
    | false =>
      rw [if_neg Bool.false_ne_true]
      split
      · simp [hp]
      · simp [hp]

/-- **The lengths of the runs** add up to what is on the line. -/
theorem sum_runs (p : ℕ → Bool) (n : ℕ) : (runs p n).sum = (List.range n).countP (p ·) := by
  rw [← sum_scan, runs]
  unfold Scan.finish
  split
  · simp
  · omega

end VcsClient.Lib
