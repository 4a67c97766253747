import Mathlib.Algebra.BigOperators.Group.List.Basic
import Mathlib.Data.List.Sort
import VcsClient.Loadgen.Hist
import VcsClient.Loadgen.RateLimiter

/-!
# The tally of a ramp

`joinTally` of `internal/loadgen/joins.go`, and the `joins` and `progress` lines made of it. A
tally whose joins were begun and recorded, and nothing else, is `Consistent`; so are its lines.
-/

namespace VcsClient.Loadgen

open VcsClient.Lib

inductive JoinStage where
  | control
  | radio
  | voiceDial
  | hello
  /-- Any other text. -/
  | unknown
  deriving DecidableEq

structure JoinFailure where
  bot : ℕ
  guid : String
  stage : JoinStage
  tries : ℕ
  error : String
  deriving DecidableEq

structure StageCounts where
  control : ℕ
  radio : ℕ
  voiceDial : ℕ
  hello : ℕ
  deriving DecidableEq

inductive JoinMode where
  | ramp
  | burst
  deriving DecidableEq

inductive RampTalker where
  | silent
  | live
  deriving DecidableEq

/-- The length of `DefaultHelloLadder`. -/
def helloRungs : ℕ := 5

def maxFailedListed : ℕ := 32

structure JoinTally where
  requested : ℕ
  had : ℕ
  inFlight : ℕ
  joined : ℕ
  retried : ℕ
  triesMax : ℕ
  hist : List ℕ
  byStage : StageCounts
  failures : List JoinFailure
  mode : JoinMode
  talker : RampTalker
  inFlightCap : ℕ
  limiter : Option RateLimiter
  peak : ℕ
  dur : Hist

structure JoinReport where
  requested : ℕ
  had : ℕ
  n : ℕ
  joined : ℕ
  joinFailures : ℕ
  failuresByStage : StageCounts
  helloTriesHist : List ℕ
  helloTriesMax : ℕ
  failed : List JoinFailure
  failedTruncated : Bool
  mode : JoinMode
  talker : RampTalker
  joinP99Us : ℤ
  helloRetried : ℕ
  inFlightMax : ℕ
  /-- `max_per_s` and `scale`. -/
  rateLimit : Option (ℚ × ℚ)

structure ProgressLine where
  phase : JoinMode
  requested : ℕ
  had : ℕ
  done : ℕ
  joined : ℕ
  joinFailures : ℕ
  inFlight : ℕ
  helloRetried : ℕ
  ratePerS : ℚ
  talker : RampTalker

def StageCounts.add (c : StageCounts) : JoinStage → StageCounts
  | .control => { c with control := c.control + 1 }
  | .radio => { c with radio := c.radio + 1 }
  | .voiceDial => { c with voiceDial := c.voiceDial + 1 }
  -- an unknown stage is surfaced under hello
  | .hello | .unknown => { c with hello := c.hello + 1 }

def StageCounts.total (c : StageCounts) : ℕ := c.control + c.radio + c.voiceDial + c.hello

namespace JoinTally

/-- `newJoinTally` and `configure` -/
def new (requested had : ℕ) (mode : JoinMode) (talker : RampTalker) (inFlightCap : ℕ)
    (limiter : Option RateLimiter) : JoinTally :=
  ⟨requested, had, 0, 0, 0, 0, List.replicate (helloRungs + 1) 0, ⟨0, 0, 0, 0⟩, [], mode, talker,
    inFlightCap, limiter, 0, .zero⟩

def begin (t : JoinTally) : JoinTally :=
  { t with inFlight := t.inFlight + 1, peak := max t.peak (t.inFlight + 1) }

def ok (t : JoinTally) (tries : ℕ) (d : ℤ) : JoinTally :=
  { t with
    inFlight := t.inFlight - 1
    joined := t.joined + 1
    dur := t.dur.record d
    retried := if 2 ≤ tries then t.retried + 1 else t.retried
    triesMax := max t.triesMax tries
    hist := t.hist.modify (min (max tries 1) (t.hist.length - 1)) (· + 1) }

def fail (t : JoinTally) (f : JoinFailure) : JoinTally :=
  { t with
    inFlight := t.inFlight - 1
    byStage := t.byStage.add f.stage
    triesMax := max t.triesMax f.tries
    failures := t.failures ++ [f] }

def progress (t : JoinTally) : ProgressLine where
  phase := t.mode
  requested := t.requested
  had := t.had
  done := t.joined + t.failures.length
  joined := t.joined
  joinFailures := t.failures.length
  inFlight := t.inFlight
  helloRetried := t.retried
  ratePerS := t.limiter.elim 0 fun l => l.rate (t.had + t.joined : ℕ)
  talker := t.talker

def report (t : JoinTally) (requested had : ℕ) : JoinReport where
  requested := requested
  had := had
  n := had + t.joined
  joined := t.joined
  joinFailures := t.failures.length
  failuresByStage := t.byStage
  helloTriesHist := t.hist
  helloTriesMax := t.triesMax
  failed := (t.failures.mergeSort (·.bot ≤ ·.bot)).take maxFailedListed
  failedTruncated := maxFailedListed < t.failures.length
  mode := t.mode
  talker := t.talker
  joinP99Us := if 0 < t.joined then (t.dur.quantile (round64 (99 / 100))).tdiv 1000 else 0
  helloRetried := t.retried
  inFlightMax := t.inFlightCap
  rateLimit := match t.limiter with
    | some l => if t.mode = .ramp ∧ (0 < l.max_ ∨ 0 < l.scale) then some (l.max_, l.scale) else none
    | none => none

/-! ## Consistent tallies -/

/-- Each outcome is in all the counts it belongs to. -/
structure Consistent (t : JoinTally) : Prop where
  rungs : t.hist.length = helloRungs + 1
  never : t.hist[0]? = some 0
  joined : t.hist.sum = t.joined
  once : ∃ n, t.hist[1]? = some n ∧ n + t.retried = t.joined
  stages : t.byStage.total = t.failures.length
  tries : ∀ f ∈ t.failures, f.tries ≤ t.triesMax

variable {t : JoinTally}

theorem consistent_new (requested had : ℕ) (mode : JoinMode) (talker : RampTalker)
    (inFlightCap : ℕ) (limiter : Option RateLimiter) :
    (new requested had mode talker inFlightCap limiter).Consistent where
  rungs := List.length_replicate
  never := rfl
  joined := rfl
  once := ⟨0, rfl, rfl⟩
  stages := rfl
  tries _ h := by cases h

theorem Consistent.begin (h : t.Consistent) : t.begin.Consistent := { h with }

theorem total_add (c : StageCounts) (s : JoinStage) : (c.add s).total = c.total + 1 := by
  cases s <;> simp only [StageCounts.add, StageCounts.total] <;> omega

theorem sum_modify_succ {l : List ℕ} {k : ℕ} (hk : k < l.length) :
    (l.modify k (· + 1)).sum = l.sum + 1 := by
  induction l generalizing k with
  | nil => simp at hk
  | cons n l ih =>
    cases k with
    | zero => simp [List.modify_zero_cons]; omega
    | succ k =>
      rw [List.modify_succ_cons, List.sum_cons, List.sum_cons, ih (by simpa using hk)]
      omega

theorem Consistent.ok (h : t.Consistent) (tries : ℕ) (d : ℤ) : (t.ok tries d).Consistent := by
  have hlen := h.rungs
  obtain ⟨n, hn, hsum⟩ := h.once
  refine ⟨?_, ?_, ?_, ?_, h.stages, fun f hf => (h.tries f hf).trans (le_max_left _ _)⟩
  · rw [JoinTally.ok, List.length_modify, hlen]
  · simp only [JoinTally.ok]
    rw [List.getElem?_modify, h.never, hlen, helloRungs]
    simp
  · simp only [JoinTally.ok]
    rw [sum_modify_succ (by rw [hlen, helloRungs]; omega), h.joined]
  · simp only [JoinTally.ok]
    rw [List.getElem?_modify, hn, hlen, helloRungs]
    by_cases htries : 2 ≤ tries
    · refine ⟨n, by simp; omega, ?_⟩
      rw [if_pos htries]
      omega
    · refine ⟨n + 1, by simp; omega, ?_⟩
      rw [if_neg htries]
      omega

theorem Consistent.fail (h : t.Consistent) (f : JoinFailure) : (t.fail f).Consistent where
  rungs := h.rungs
  never := h.never
  joined := h.joined
  once := h.once
  stages := by
    simp only [JoinTally.fail]
    rw [total_add, h.stages, List.length_append, List.length_singleton]
  tries g hg := by
    obtain hg | hg := List.mem_append.1 hg
    · exact (h.tries g hg).trans (le_max_left _ _)
    · rw [List.mem_singleton.1 hg]
      exact le_max_right _ _

end JoinTally

end VcsClient.Loadgen
