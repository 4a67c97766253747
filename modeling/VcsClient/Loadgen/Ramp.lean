import Mathlib.Data.List.Nodup
import VcsClient.Lib.Machine
import VcsClient.Loadgen.Joins

/-!
# Ramps and bursts

`setN`, `burst` and `rampJoin` of `internal/loadgen/runner.go`. A ramp starts a goroutine for each
join, at most `cap` at a time; each takes a place in a semaphore, joins, records its outcome and
gives the place back. The context can end at any moment: a join it interrupts is not recorded.

No more than `cap` joins are ever in flight, also across a cancellation, and a ramp that ends
accounts for every bot it was asked for (`ramps_accounted`).
-/

namespace VcsClient.Loadgen

open VcsClient.Lib

structure RunnerBot where
  idx : ℕ
  tries : ℕ
  deriving DecidableEq

/-- Where the loop of `rampJoin` is. -/
inductive RampAt where
  | loop
  /-- It has a rate token. -/
  | admitted
  /-- It has a place in the semaphore. -/
  | acquired
  /-- The context had not ended. -/
  | checked
  /-- At `wg.Wait`. -/
  | waiting
  deriving DecidableEq

def RampAt.holds : RampAt → ℕ
  | .acquired | .checked => 1
  | .loop | .admitted | .waiting => 0

structure Ramp where
  want : ℕ
  first : ℕ
  cap : ℕ
  at_ : RampAt
  k : ℕ
  sem : ℕ
  joining : List ℕ
  /-- Joins that failed before the context ended, and are not recorded yet. -/
  failing : List (ℕ × JoinFailure)
  /-- Joins that have still to give their place back. -/
  leaving : List ℕ
  slots : List (Option RunnerBot)
  tally : JoinTally
  /-- How many joins the context interrupted. -/
  lost : ℕ

inductive RampOp where
  | token (ok : Bool)
  | acquire
  | check
  | begin
  | ok (k tries : ℕ) (d : ℤ)
  /-- `joinOne` fails. -/
  | err (k : ℕ) (f : JoinFailure)
  | fail (k : ℕ) (f : JoinFailure)
  | release (k : ℕ)

namespace Ramp

def new (want first cap : ℕ) (tally : JoinTally) : Ramp :=
  ⟨want, first, cap, .loop, 0, 0, [], [], [], List.replicate want none, tally, 0⟩

/-- A step of a ramp; `cancelled` is whether the context has ended. -/
def step (cancelled : Bool) (m : Ramp) : RampOp → Option Ramp
  | .token ok =>
    if m.at_ ≠ .loop then none
    else if m.k = m.want then some { m with at_ := .waiting }
    else if ok then some { m with at_ := .admitted }
    -- the only error of `Wait` is the context's
    else if cancelled ∧ m.tally.limiter.isSome then some { m with at_ := .waiting }
    else none
  | .acquire =>
    if m.at_ = .admitted ∧ m.sem < m.cap then some { m with at_ := .acquired, sem := m.sem + 1 }
    else none
  | .check =>
    if m.at_ ≠ .acquired then none
    else if cancelled then some { m with at_ := .waiting, sem := m.sem - 1 }
    else some { m with at_ := .checked }
  | .begin =>
    if m.at_ = .checked then some { m with
      at_ := .loop
      k := m.k + 1
      tally := m.tally.begin
      joining := m.k :: m.joining }
    else none
  | .ok k tries d =>
    if k ∈ m.joining then some { m with
      joining := m.joining.erase k
      leaving := k :: m.leaving
      slots := m.slots.set k (some ⟨m.first + k, tries⟩)
      tally := m.tally.ok tries d }
    else none
  | .err k f =>
    if k ∈ m.joining ∧ f.bot = m.first + k then
      if cancelled then some { m with
        joining := m.joining.erase k
        leaving := k :: m.leaving
        lost := m.lost + 1 }
      else some { m with
        joining := m.joining.erase k
        failing := (k, f) :: m.failing }
    else none
  | .fail k f =>
    if (k, f) ∈ m.failing then some { m with
      failing := m.failing.erase (k, f)
      leaving := k :: m.leaving
      tally := m.tally.fail f }
    else none
  | .release k =>
    if k ∈ m.leaving then some { m with
      leaving := m.leaving.erase k
      sem := m.sem - 1 }
    else none

def done (m : Ramp) : Prop := m.at_ = .waiting ∧ m.joining = [] ∧ m.failing = [] ∧ m.leaving = []

instance (m : Ramp) : Decidable m.done := inferInstanceAs (Decidable (_ ∧ _))

def bots (m : Ramp) : List RunnerBot := m.slots.filterMap id

/-- A ramp on top of `had` bots. -/
structure Kept (cancelled : Bool) (had : ℕ) (m : Ramp) : Prop where
  asked : m.tally.requested = had + m.want
  consistent : m.tally.Consistent
  sem : m.sem = m.joining.length + m.failing.length + m.leaving.length + m.at_.holds
  places : m.sem ≤ m.cap
  inFlight : m.tally.inFlight = m.joining.length + m.failing.length + m.lost
  lost : cancelled = false → m.lost = 0
  room : m.tally.inFlight ≤ m.cap ∧ (m.at_ = .checked → m.tally.inFlight < m.cap)
  peak : m.tally.peak ≤ m.cap
  k : m.k ≤ m.want ∧ (m.at_ = .admitted ∨ m.at_.holds = 1 → m.k < m.want)
  ended : m.at_ = .waiting → m.k = m.want ∨ cancelled = true
  begun : m.tally.had + m.tally.joined + m.tally.failures.length + m.tally.inFlight = had + m.k
  length : m.slots.length = m.want
  once : m.joining.Nodup
  below : ∀ j ∈ m.joining, j < m.k
  empty : ∀ j, j ∈ m.joining ∨ m.k ≤ j ∧ j < m.want → m.slots[j]? = some none
  index : ∀ j b, m.slots[j]? = some (some b) → b.idx = m.first + j
  joined : m.tally.had + m.tally.joined = had + m.slots.countP Option.isSome

variable {cancelled : Bool} {had : ℕ} {m m' : Ramp}

theorem Kept.cancel (h : m.Kept cancelled had) : m.Kept true had :=
  { h with lost := by simp, ended := fun _ => .inr rfl }

/-- The loop goes on, and takes a place or gives it back. -/
theorem Kept.loop (h : m.Kept cancelled had) {at_ : RampAt} {sem : ℕ}
    (hsem : sem = m.joining.length + m.failing.length + m.leaving.length + at_.holds)
    (hplaces : sem ≤ m.cap) (hroom : at_ = .checked → m.tally.inFlight < m.cap)
    (hk : at_ = .admitted ∨ at_.holds = 1 → m.k < m.want)
    (hended : at_ = .waiting → m.k = m.want ∨ cancelled = true) :
    ({ m with at_ := at_, sem := sem } : Ramp).Kept cancelled had :=
  { h with
    sem := hsem
    places := hplaces
    room := ⟨h.room.1, hroom⟩
    k := ⟨h.k.1, hk⟩
    ended := hended }

theorem Kept.begin (h : m.Kept cancelled had) (hc : m.at_ = .checked) :
    ({ m with
      at_ := .loop
      k := m.k + 1
      tally := m.tally.begin
      joining := m.k :: m.joining } : Ramp).Kept cancelled had := by
  have hsem := h.sem
  have hin := h.inFlight
  have hroom := h.room.2 hc
  have hk := h.k.2 (.inr (by rw [hc]; rfl))
  have hbegun := h.begun
  rw [hc] at hsem
  simp only [RampAt.holds] at hsem
  exact { h with
    consistent := h.consistent.begin
    sem := by simp only [hsem, RampAt.holds, List.length_cons]; omega
    inFlight := by simp only [JoinTally.begin, hin, List.length_cons]; omega
    room := ⟨by simp only [JoinTally.begin]; omega, by simp⟩
    peak := max_le h.peak hroom
    k := ⟨hk, by simp [RampAt.holds]⟩
    ended := by simp
    begun := by simp only [JoinTally.begin]; omega
    once := List.nodup_cons.2 ⟨fun hmem => (h.below _ hmem).false, h.once⟩
    below := fun j hj => by
      obtain rfl | hj := List.mem_cons.1 hj
      · exact Nat.lt_succ_self _
      · exact (h.below j hj).trans (Nat.lt_succ_self _)
    empty := fun j hj => by
      obtain hj | hj := hj
      · obtain rfl | hj := List.mem_cons.1 hj
        · exact h.empty _ (.inr ⟨le_rfl, hk⟩)
        · exact h.empty j (.inl hj)
      · exact h.empty j (.inr ⟨(Nat.le_succ _).trans hj.1, hj.2⟩) }

/-- A join that succeeds puts its bot into its own slot. -/
theorem Kept.ok (h : m.Kept cancelled had) {k : ℕ} (hk : k ∈ m.joining) (tries : ℕ) (d : ℤ) :
    ({ m with
      joining := m.joining.erase k
      leaving := k :: m.leaving
      slots := m.slots.set k (some ⟨m.first + k, tries⟩)
      tally := m.tally.ok tries d } : Ramp).Kept cancelled had := by
  have hlen := List.length_erase_of_mem hk
  have hpos := List.length_pos_of_mem hk
  have hsem := h.sem
  have hin := h.inFlight
  have hbegun := h.begun
  have hroom := h.room
  have hslot := h.empty k (.inl hk)
  have hlt : k < m.slots.length := (List.getElem?_eq_some_iff.1 hslot).1
  exact { h with
    consistent := h.consistent.ok tries d
    sem := by simp only [hlen, List.length_cons]; omega
    inFlight := by simp only [JoinTally.ok, hlen]; omega
    room := ⟨by simp only [JoinTally.ok]; omega, fun hc => by
      have := hroom.2 hc
      simp only [JoinTally.ok]; omega⟩
    begun := by simp only [JoinTally.ok]; omega
    length := by simp only [List.length_set, h.length]
    once := h.once.erase k
    below := fun j hj => h.below j (List.mem_of_mem_erase hj)
    empty := fun j hj => by
      have hne : k ≠ j := by
        rintro rfl
        obtain hj | hj := hj
        · exact h.once.not_mem_erase hj
        · exact absurd (h.below k hk) (not_lt.2 hj.1)
      rw [List.getElem?_set_ne hne]
      exact h.empty j (hj.imp List.mem_of_mem_erase id)
    index := fun j b hb => by
      obtain rfl | hne := eq_or_ne k j
      · rw [List.getElem?_set_self hlt] at hb
        cases hb
        rfl
      · rw [List.getElem?_set_ne hne] at hb
        exact h.index j b hb
    joined := by
      have hjoined := h.joined
      have hnone : m.slots[k] = none := (List.getElem?_eq_some_iff.1 hslot).2
      simp only [JoinTally.ok]
      rw [List.countP_set hlt]
      simp only [hnone, Option.isSome_none, Option.isSome_some, if_true, Bool.false_eq_true,
        if_false]
      omega }

/-- A join that fails is lost to the context, or is still to be recorded. -/
theorem Kept.err (h : m.Kept cancelled had) {k lost : ℕ} (hk : k ∈ m.joining)
    {failing : List (ℕ × JoinFailure)} {leaving : List ℕ}
    (hplaces : failing.length + leaving.length = m.failing.length + m.leaving.length + 1)
    (hlost : failing.length + lost = m.failing.length + m.lost + 1)
    (hnone : cancelled = false → lost = 0) :
    ({ m with
      joining := m.joining.erase k
      failing := failing
      leaving := leaving
      lost := lost } : Ramp).Kept cancelled had := by
  have hlen := List.length_erase_of_mem hk
  have hpos := List.length_pos_of_mem hk
  have hsem := h.sem
  have hin := h.inFlight
  exact { h with
    sem := by simp only [hlen]; omega
    inFlight := by simp only [hlen]; omega
    lost := hnone
    once := h.once.erase k
    below := fun j hj => h.below j (List.mem_of_mem_erase hj)
    empty := fun j hj => h.empty j (hj.imp List.mem_of_mem_erase id) }

theorem Kept.fail (h : m.Kept cancelled had) {k : ℕ} {f : JoinFailure}
    (hk : (k, f) ∈ m.failing) :
    ({ m with
      failing := m.failing.erase (k, f)
      leaving := k :: m.leaving
      tally := m.tally.fail f } : Ramp).Kept cancelled had := by
  have hlen := List.length_erase_of_mem hk
  have hpos := List.length_pos_of_mem hk
  have hsem := h.sem
  have hin := h.inFlight
  have hbegun := h.begun
  have hroom := h.room
  exact { h with
    consistent := h.consistent.fail f
    sem := by simp only [hlen, List.length_cons]; omega
    inFlight := by simp only [JoinTally.fail, hlen]; omega
    room := ⟨by simp only [JoinTally.fail]; omega, fun hc => by
      have := hroom.2 hc
      simp only [JoinTally.fail]; omega⟩
    begun := by simp only [JoinTally.fail, List.length_append, List.length_singleton]; omega }

theorem Kept.release (h : m.Kept cancelled had) {k : ℕ} (hk : k ∈ m.leaving) :
    ({ m with leaving := m.leaving.erase k, sem := m.sem - 1 } : Ramp).Kept cancelled had := by
  have hlen := List.length_erase_of_mem hk
  have hpos := List.length_pos_of_mem hk
  have hsem := h.sem
  have hplaces := h.places
  exact { h with
    sem := by simp only [hlen]; omega
    places := by simp only; omega }

theorem Kept.step (h : m.Kept cancelled had) {op : RampOp} (hs : m.step cancelled op = some m') :
    m'.Kept cancelled had := by
  have hsem := h.sem
  have hplaces := h.places
  cases op with
  | token ok =>
    simp only [Ramp.step] at hs
    split at hs
    · cases hs
    rw [not_not.1 ‹¬m.at_ ≠ .loop›] at hsem
    split at hs
    · cases hs
      exact h.loop hsem hplaces (by simp) (by simp [RampAt.holds]) fun _ => .inl ‹_›
    split at hs
    · cases hs
      exact h.loop hsem hplaces (by simp) (fun _ => lt_of_le_of_ne h.k.1 ‹_›) (by simp)
    split at hs
    · rename_i hc
      cases hs
      exact h.loop hsem hplaces (by simp) (by simp [RampAt.holds]) fun _ => .inr hc.1
    · cases hs
  | acquire =>
    simp only [Ramp.step] at hs
    split at hs
    · rename_i hc
      cases hs
      rw [hc.1] at hsem
      exact h.loop (by simp only [hsem, RampAt.holds]) hc.2 (by simp)
        (fun _ => h.k.2 (.inl hc.1)) (by simp)
    · cases hs
  | check =>
    simp only [Ramp.step] at hs
    split at hs
    · cases hs
    have hacq := not_not.1 ‹¬m.at_ ≠ .acquired›
    rw [hacq] at hsem
    simp only [RampAt.holds] at hsem
    split at hs
    · cases hs
      exact h.loop (by simp only [hsem, RampAt.holds]; omega) (by omega) (by simp)
        (by simp [RampAt.holds]) fun _ => .inr ‹_›
    · cases hs
      have hlost := h.lost (by simpa using ‹¬cancelled = true›)
      have hin := h.inFlight
      -- nothing is lost yet, and the loop has a place of its own
      exact h.loop hsem hplaces (fun _ => by omega)
        (fun _ => h.k.2 (.inr (by rw [hacq]; rfl))) (by simp)
  | begin =>
    simp only [Ramp.step] at hs
    split at hs
    · cases hs
      exact h.begin ‹_›
    · cases hs
  | ok k tries d =>
    simp only [Ramp.step] at hs
    split at hs
    · cases hs
      exact h.ok ‹_› tries d
    · cases hs
  | err k f =>
    simp only [Ramp.step] at hs
    split at hs
    · rename_i hk
      split at hs
      · rename_i hc
        cases hs
        exact h.err hk.1 (by simp only [List.length_cons]; omega) (by omega) (by simp [hc])
      · cases hs
        exact h.err hk.1 (by simp only [List.length_cons]; omega)
          (by simp only [List.length_cons]; omega) h.lost
    · cases hs
  | fail k f =>
    simp only [Ramp.step] at hs
    split at hs
    · cases hs
      exact h.fail ‹_›
    · cases hs
  | release k =>
    simp only [Ramp.step] at hs
    split at hs
    · cases hs
      exact h.release ‹_›
    · cases hs

theorem kept_new {want first cap : ℕ} {tally : JoinTally} (hcap : 1 ≤ cap) (hc : tally.Consistent)
    (hasked : tally.requested = had + want) (hhad : tally.had + tally.joined = had)
    (hfail : tally.failures = []) (hidle : tally.inFlight = 0) (hpeak : tally.peak ≤ 1) :
    (new want first cap tally).Kept cancelled had where
  asked := hasked
  consistent := hc
  sem := rfl
  places := Nat.zero_le _
  inFlight := hidle
  lost _ := rfl
  room := ⟨hidle.trans_le (Nat.zero_le _), by simp [new]⟩
  peak := hpeak.trans hcap
  k := ⟨Nat.zero_le _, by simp [new, RampAt.holds]⟩
  ended := by simp [new]
  begun := by simp [new, hfail, hidle, hhad]
  length := List.length_replicate
  once := .nil
  below _ h := by cases h
  empty j hj := by
    obtain hj | hj := hj
    · cases hj
    · exact List.getElem?_replicate_of_lt hj.2
  index j b hb := by simp [new, List.getElem?_replicate] at hb
  joined := by simp [new, hhad]

theorem step_first {op : RampOp} (hs : m.step cancelled op = some m') : m'.first = m.first := by
  cases op <;> simp only [Ramp.step] at hs <;> repeat' split at hs
  all_goals
    cases hs
    try rfl

theorem length_bots (m : Ramp) : m.bots.length = m.slots.countP Option.isSome := by
  rw [bots, List.length_filterMap_eq_countP]
  rfl

/-- The bots that joined stand in the order of their indices. -/
theorem Kept.sorted (h : m.Kept cancelled had) : (m.bots.map (·.idx)).Pairwise (· < ·) ∧
    ∀ b ∈ m.bots, m.first ≤ b.idx ∧ b.idx < m.first + m.want := by
  constructor
  · refine List.pairwise_map.2 (List.pairwise_filterMap.2 (List.pairwise_iff_getElem.2 ?_))
    intro i j hi hj hij b hb b' hb'
    have hbi := h.index i b (List.getElem?_eq_some_iff.2 ⟨hi, hb⟩)
    have hbj := h.index j b' (List.getElem?_eq_some_iff.2 ⟨hj, hb'⟩)
    omega
  · intro b hb
    obtain ⟨o, ho, rfl⟩ := List.mem_filterMap.1 hb
    obtain ⟨j, hj, heq⟩ := List.getElem_of_mem ho
    have hidx := h.index j b (List.getElem?_eq_some_iff.2 ⟨hj, heq⟩)
    have hlen := h.length
    omega

end Ramp

/-! ## The runner -/

/-- What `Serve` is at. -/
inductive RampCmd where
  | wait
  /-- Bot 0 joins alone. -/
  | first (n : ℕ) (tally : JoinTally)
  | ramp (m : Ramp)
  /-- A command failed, or the context ended. -/
  | stopped

/-- A `joins` line, with the number of bots when it was written. -/
structure JoinsLine where
  report : JoinReport
  bots : ℕ

structure RampRunner where
  maxInFlight : ℕ
  rampTalker : RampTalker
  limiter : RateLimiter
  bots : List RunnerBot
  nextIdx : ℕ
  cancelled : Bool
  cmd : RampCmd
  lines : List JoinsLine

inductive RunnerOp where
  | setN (n : ℕ)
  | burst (add inFlight : ℕ) (talker : RampTalker)
  /-- Bot 0 joins, or not. -/
  | first (joined : Option (ℕ × ℤ))
  | ramp (op : RampOp)
  /-- `wg.Wait` returns. -/
  | finish
  | cancel

namespace RampRunner

def new (maxInFlight : ℕ) (rampTalker : RampTalker) (limiter : RateLimiter) : RampRunner :=
  ⟨if maxInFlight = 0 then 16 else maxInFlight, rampTalker, limiter, [], 0, false, .wait, []⟩

def tally (r : RampRunner) (n : ℕ) : JoinTally :=
  .new n r.bots.length .ramp r.rampTalker r.maxInFlight (some r.limiter)

def write (r : RampRunner) (t : JoinTally) : RampRunner :=
  { r with lines := ⟨t.report t.requested t.had, r.bots.length⟩ :: r.lines }

/-- After `wg.Wait`: what joined is kept, also when the context has ended. -/
def finish (r : RampRunner) (m : Ramp) : RampRunner :=
  let r' := { r with bots := r.bots ++ m.bots, nextIdx := m.first + m.want }
  if r.cancelled then { r' with cmd := .stopped } else { r'.write m.tally with cmd := .wait }

def step (r : RampRunner) : RunnerOp → Option RampRunner
  | .setN n =>
    match r.cmd with
    | .wait =>
      if n < 1 then none
      else if n < r.bots.length then some { r with cmd := .stopped }
      else if n = r.bots.length then some (r.write (r.tally n))
      else if r.bots.length = 0 then some { r with cmd := .first n (r.tally n) }
      else some { r with
        cmd := .ramp (.new (n - r.bots.length) r.nextIdx r.maxInFlight (r.tally n)) }
    | _ => none
  | .burst add inFlight talker =>
    match r.cmd with
    | .wait =>
      if add < 1 ∨ inFlight < 1 then none
      else if r.bots.length = 0 then some { r with cmd := .stopped }
      else some { r with
        cmd := .ramp (.new add r.nextIdx inFlight
          (.new (r.bots.length + add) r.bots.length .burst talker inFlight none)) }
    | _ => none
  | .first joined =>
    match r.cmd with
    | .first n t =>
      match joined with
      | none => some { r with cmd := .stopped }
      | some (tries, d) => some { r with
          bots := [⟨0, tries⟩]
          nextIdx := 1
          cmd := .ramp (.new (n - 1) 1 r.maxInFlight (t.begin.ok tries d)) }
    | _ => none
  | .ramp op =>
    match r.cmd with
    | .ramp m => (m.step r.cancelled op).map fun m' => { r with cmd := .ramp m' }
    | _ => none
  | .finish =>
    match r.cmd with
    | .ramp m => if m.done then some (r.finish m) else none
    | _ => none
  | .cancel => some { r with cancelled := true }

/-- What a `joins` line says, when there are `bots` bots. -/
structure Accounts (rep : JoinReport) (bots : ℕ) : Prop where
  n : rep.n = bots
  asked : rep.n + rep.joinFailures = rep.requested
  joined : rep.had + rep.joined = rep.n
  tries : rep.helloTriesHist.length = helloRungs + 1 ∧ rep.helloTriesHist[0]? = some 0 ∧
    rep.helloTriesHist.sum = rep.joined
  retried : ∃ once, rep.helloTriesHist[1]? = some once ∧ once + rep.helloRetried = rep.joined
  stages : rep.failuresByStage.total = rep.joinFailures
  listed : rep.failed.length = min maxFailedListed rep.joinFailures ∧
    (rep.failedTruncated = true ↔ rep.failed.length < rep.joinFailures)
  sorted : rep.failed.Pairwise fun f f' => f.bot ≤ f'.bot

variable {r r' : RampRunner}

theorem accounts_report {t : JoinTally} {bots : ℕ} (hc : t.Consistent)
    (hn : t.had + t.joined = bots) (hasked : bots + t.failures.length = t.requested) :
    Accounts (t.report t.requested t.had) bots where
  n := hn
  asked := by simp only [JoinTally.report, hn, hasked]
  joined := rfl
  tries := ⟨hc.rungs, hc.never, hc.joined⟩
  retried := hc.once
  stages := hc.stages
  listed := by
    simp only [JoinTally.report, List.length_take, List.length_mergeSort, true_and,
      decide_eq_true_eq]
    omega
  sorted := by
    refine List.Pairwise.sublist (List.take_sublist _ _) ?_
    refine (List.pairwise_mergeSort (fun a b c => ?_) (fun a b => ?_) t.failures).imp fun h => ?_
    · simp only [decide_eq_true_eq]
      exact le_trans
    · simp only [Bool.or_eq_true, decide_eq_true_eq]
      exact le_total _ _
    · simpa using h

structure Kept (r : RampRunner) : Prop where
  cap : 1 ≤ r.maxInFlight
  sorted : (r.bots.map (·.idx)).Pairwise (· < ·)
  below : ∀ b ∈ r.bots, b.idx < r.nextIdx
  first : ∀ n t, r.cmd = .first n t → r.bots = [] ∧ 1 ≤ n ∧ t = r.tally n
  ramp : ∀ m, r.cmd = .ramp m → m.Kept r.cancelled r.bots.length ∧ m.first = r.nextIdx
  lines : ∀ l ∈ r.lines, Accounts l.report l.bots

theorem kept_init (maxInFlight : ℕ) (rampTalker : RampTalker) (limiter : RateLimiter) :
    (new maxInFlight rampTalker limiter).Kept where
  cap := by simp only [new]; split <;> omega
  sorted := .nil
  below _ h := by cases h
  first _ _ h := by cases h
  ramp _ h := by cases h
  lines _ h := by cases h

theorem Kept.goto (h : r.Kept) {cmd : RampCmd}
    (hfirst : ∀ n t, cmd = .first n t → r.bots = [] ∧ 1 ≤ n ∧ t = r.tally n)
    (hramp : ∀ m, cmd = .ramp m → m.Kept r.cancelled r.bots.length ∧ m.first = r.nextIdx) :
    ({ r with cmd := cmd }).Kept :=
  { h with first := hfirst, ramp := hramp }

theorem Kept.write (h : r.Kept) {t : JoinTally} (hc : t.Consistent)
    (hn : t.had + t.joined = r.bots.length)
    (hasked : r.bots.length + t.failures.length = t.requested) : (r.write t).Kept :=
  { h with
    lines := fun l hl => by
      obtain rfl | hl := List.mem_cons.1 hl
      · exact accounts_report hc hn hasked
      · exact h.lines l hl }

theorem Kept.finish {m : Ramp} (h : r.Kept) (hcmd : r.cmd = .ramp m) (hdone : m.done) :
    (r.finish m).Kept := by
  obtain ⟨hm, hfirst⟩ := h.ramp m hcmd
  obtain ⟨hsorted, hin⟩ := hm.sorted
  obtain ⟨hwaiting, hjoining, hfailing, -⟩ := hdone
  have hkept : ({ r with
      bots := r.bots ++ m.bots
      nextIdx := m.first + m.want
      cmd := .wait }).Kept :=
    { h with
      sorted := by
        rw [List.map_append]
        refine List.pairwise_append.2 ⟨h.sorted, hsorted, fun i hi j hj => ?_⟩
        obtain ⟨b, hb, rfl⟩ := List.mem_map.1 hi
        obtain ⟨b', hb', rfl⟩ := List.mem_map.1 hj
        exact (h.below b hb).trans_le (hfirst ▸ (hin b' hb').1)
      below := fun b hb => by
        obtain hb | hb := List.mem_append.1 hb
        · have := h.below b hb
          simp only [hfirst]
          omega
        · exact (hin b hb).2
      first := by simp
      ramp := by simp }
  unfold RampRunner.finish
  split
  · exact hkept.goto (by simp) (by simp)
  · rename_i hc
    -- nothing was lost, and every join was begun
    have hlost := hm.lost (by simpa using hc)
    have hk := (hm.ended hwaiting).resolve_right hc
    have hinFlight := hm.inFlight
    have hbegun := hm.begun
    have hjoined := hm.joined
    have hasked := hm.asked
    simp only [hlost, hjoining, hfailing, List.length_nil] at hinFlight
    have hlen : (r.bots ++ m.bots).length = r.bots.length + m.slots.countP Option.isSome := by
      rw [List.length_append, m.length_bots]
    refine (hkept.write hm.consistent ?_ ?_).goto (by simp) (by simp)
    · simp only [hlen, hjoined]
    · simp only [hlen]
      omega

theorem Kept.step (h : r.Kept) {op : RunnerOp} (hs : r.step op = some r') : r'.Kept := by
  cases op with
  | setN n =>
    simp only [RampRunner.step] at hs
    split at hs
    · have hnew := JoinTally.consistent_new n r.bots.length .ramp r.rampTalker r.maxInFlight
        (some r.limiter)
      split at hs
      · cases hs
      split at hs
      · cases hs
        exact h.goto (by simp) (by simp)
      split at hs
      · cases hs
        exact h.write hnew rfl ‹n = r.bots.length›.symm
      split at hs
      · cases hs
        refine h.goto (fun n' t heq => ?_) (by simp)
        cases heq
        exact ⟨List.length_eq_zero_iff.1 ‹_›, by omega, rfl⟩
      · cases hs
        refine h.goto (by simp) fun m heq => ?_
        cases heq
        exact ⟨Ramp.kept_new h.cap hnew (by simp only [RampRunner.tally, JoinTally.new]; omega) rfl
          rfl rfl (Nat.zero_le _), rfl⟩
    · cases hs
  | burst add inFlight talker =>
    simp only [RampRunner.step] at hs
    split at hs
    · split at hs
      · cases hs
      split at hs
      · cases hs
        exact h.goto (by simp) (by simp)
      · cases hs
        refine h.goto (by simp) fun m heq => ?_
        cases heq
        exact ⟨Ramp.kept_new (by omega) (JoinTally.consistent_new ..) rfl rfl rfl rfl
          (Nat.zero_le _), rfl⟩
    · cases hs
  | first joined =>
    simp only [RampRunner.step] at hs
    split at hs
    · rename_i n t hcmd
      obtain ⟨hnil, hn, rfl⟩ := h.first n t hcmd
      split at hs
      · cases hs
        exact h.goto (by simp) (by simp)
      · rename_i tries d
        cases hs
        refine ⟨h.cap, by simp, by simp, by simp, fun m heq => ?_, h.lines⟩
        cases heq
        have hnew := JoinTally.consistent_new n r.bots.length .ramp r.rampTalker r.maxInFlight
          (some r.limiter)
        refine ⟨Ramp.kept_new h.cap (hnew.begin.ok tries d) ?_ ?_ rfl rfl le_rfl, rfl⟩
        · simp only [RampRunner.tally, JoinTally.new, JoinTally.begin, JoinTally.ok,
            List.length_singleton]
          omega
        · simp [RampRunner.tally, JoinTally.new, JoinTally.begin, JoinTally.ok, hnil]
    · cases hs
  | ramp op =>
    simp only [RampRunner.step] at hs
    split at hs
    · rename_i m hcmd
      obtain ⟨m', hm', rfl⟩ := Option.map_eq_some_iff.1 hs
      obtain ⟨hkept, hfirst⟩ := h.ramp m hcmd
      refine h.goto (by simp) fun m'' heq => ?_
      cases heq
      exact ⟨hkept.step hm', (Ramp.step_first hm').trans hfirst⟩
    · cases hs
  | finish =>
    simp only [RampRunner.step] at hs
    split at hs
    · split at hs
      · cases hs
        exact h.finish ‹_› ‹_›
      · cases hs
    · cases hs
  | cancel =>
    cases hs
    exact { h with ramp := fun m hm => ⟨(h.ramp m hm).1.cancel, (h.ramp m hm).2⟩ }

/-- **Ramps account for their bots.** In every state of every run the bots stand in the order of
their indices and no index is used twice; a ramp under way has at most `cap` joins in flight, has
never had more, and its progress lines count no more bots than were asked for. Every `joins` line
gives the bots that are there, and those and its failures are what was asked for. -/
theorem ramps_accounted (maxInFlight : ℕ) (rampTalker : RampTalker) (limiter : RateLimiter)
    (ops : List RunnerOp) (r : RampRunner)
    (hrun : exec step (new maxInFlight rampTalker limiter) ops = some r) :
    (r.bots.map (·.idx)).Pairwise (· < ·) ∧ (∀ b ∈ r.bots, b.idx < r.nextIdx) ∧
      (∀ m, r.cmd = .ramp m → m.joining.length + m.failing.length + m.leaving.length ≤ m.cap ∧
        m.tally.inFlight ≤ m.cap ∧ m.tally.peak ≤ m.cap ∧
        m.tally.progress.had + m.tally.progress.done + m.tally.progress.inFlight ≤
          m.tally.progress.requested) ∧
      ∀ l ∈ r.lines, Accounts l.report l.bots := by
  have h : r.Kept := exec_invariant (I := Kept) (fun _ _ _ h _ hs => h.step hs)
    (kept_init maxInFlight rampTalker limiter) (Meets.trivial _ _ _) hrun
  refine ⟨h.sorted, h.below, fun m hm => ?_, h.lines⟩
  have hm := (h.ramp m hm).1
  have hsem := hm.sem
  have hplaces := hm.places
  have hbegun := hm.begun
  have hasked := hm.asked
  have hk := hm.k.1
  refine ⟨by omega, hm.room.1, hm.peak, ?_⟩
  simp only [JoinTally.progress]
  omega

/-- Three bots are asked for, with two in flight; one fails, and then one more is added. -/
def threeAndOne : List RunnerOp :=
  [.setN 3, .first (some (1, 5000)),
    .ramp (.token true), .ramp .acquire, .ramp .check, .ramp .begin,
    .ramp (.token true), .ramp .acquire, .ramp .check, .ramp .begin,
    .ramp (.ok 1 2 7000), .ramp (.err 0 ⟨1, "", .hello, 5, "no ack"⟩), .ramp (.release 1),
    .ramp (.fail 0 ⟨1, "", .hello, 5, "no ack"⟩), .ramp (.token true), .ramp (.release 0), .finish,
    .burst 1 1 .live, .ramp (.token true), .ramp .acquire, .ramp .check, .ramp .begin,
    .ramp (.ok 0 1 6000), .ramp (.token true), .ramp (.release 0), .finish]

theorem ramps_accounted_threeAndOne : ∃ r, exec step (new 2 .silent (.new 50 0 0)) threeAndOne =
    some r ∧ (r.bots.map (·.idx)).Pairwise (· < ·) ∧ r.bots.map (·.idx) = [0, 2, 3] ∧
      r.lines.map (fun l => (l.report.requested, l.report.n, l.report.joinFailures)) =
        [(3, 3, 0), (3, 2, 1)] :=
  ⟨_, rfl, (ramps_accounted 2 .silent (.new 50 0 0) threeAndOne _ rfl).1, by decide, by decide⟩

end RampRunner

end VcsClient.Loadgen
