import Mathlib.Algebra.GroupWithZero.Nat
import Mathlib.Data.Int.Notation
import Mathlib.Data.List.Nodup
import Mathlib.Data.List.Perm.Basic
import Mathlib.Tactic.Common
import VcsClient.Lib.Machine

/-!
# The load runner's deaths

`onDead` and the step report of `internal/loadgen/runner.go`, with `fireDead` and
`Close` of `join.go`. A bot is a number. Its control plane is dead from the swap of the
flag in `fireDead` on; the phase is then read twice, for the stamp and for the counter
of the hold.

Each death is counted once, and in one step (`Counted`). A step counts the bots that are
alive by taking all deaths from the bots that are kept, so a bot that dies and is not
kept is missing; and a death counts for the hold of the second reading
(`deaths_reported`).
-/

namespace VcsClient.Loadgen

open VcsClient.Lib

inductive Phase where
  | ramp
  | settle
  | hold
  | idle
  | burst
  deriving DecidableEq

/-- `maxDeathLines`. -/
def maxDeathLines : ℕ := 64

/-- `maxDeathFirst`. -/
def maxDeathFirst : ℕ := 8

/-- Where a call of `fireDead` is. -/
inductive Place where
  /-- The bot was not closing. -/
  | checked
  /-- The flag is swapped. -/
  | swapped
  /-- The record is stamped. -/
  | stamped (p : Phase)
  deriving DecidableEq

/-- What `Serve` is at. -/
inductive Cmd where
  | wait
  /-- `setN` and `burst`. -/
  | ramp
  /-- A hold that has zeroed its counter. -/
  | zeroed
  | holding
  /-- A hold that has made its report. -/
  | reported
  deriving DecidableEq

/-- `ControlLostReport`. -/
structure ControlLost where
  deadTotal : ℕ
  deadInHold : ℕ
  deadSinceLastStep : ℕ
  alive : ℤ
  first : List (ℕ × Phase)
  deriving DecidableEq

/-- A report, with the bots that are alive and the deaths stamped with the hold since
the last one. -/
structure Shown where
  report : ControlLost
  alive : ℕ
  held : ℕ
  deriving DecidableEq

structure Runner where
  bots : List ℕ
  /-- Joins whose control plane is up. -/
  joining : List ℕ
  /-- Joins that are done, of a ramp that is not. -/
  slots : List ℕ
  nextIdx : ℕ
  /-- Bots that were closed. -/
  closing : List ℕ
  /-- Bots whose flag is swapped. -/
  dead : List ℕ
  calls : List (ℕ × Place)
  phase : Phase
  cmd : Cmd
  deadTotal : ℕ
  deadSinceStep : ℕ
  deadInHold : ℕ
  deadFirst : List (ℕ × Phase)
  deathLines : ℕ
  /-- The deaths recorded, newest first. -/
  deaths : List (ℕ × Phase)
  /-- Those recorded since the last report. -/
  unreported : List (ℕ × Phase)
  reports : List Shown

inductive Op where
  | ramp (burst : Bool)
  /-- A bot's control plane is up. -/
  | join
  | joined (b : ℕ)
  /-- A later stage of the join fails, and the bot is closed. -/
  | joinFailed (b : ℕ)
  /-- The joins that are done are kept. -/
  | enroll
  | hold
  | flip
  | report
  | settle
  /-- A call of `fireDead`, on the receive or the ping goroutine. -/
  | fire (b : ℕ)
  | swap (b : ℕ)
  | stamp (b : ℕ)
  | record (b : ℕ) (p : Phase)

namespace Runner

/-- `NewRunner`. -/
def new : Runner where
  bots := []
  joining := []
  slots := []
  nextIdx := 0
  closing := []
  dead := []
  calls := []
  phase := .idle
  cmd := .wait
  deadTotal := 0
  deadSinceStep := 0
  deadInHold := 0
  deadFirst := []
  deathLines := 0
  deaths := []
  unreported := []
  reports := []

/-- The bots whose control plane is alive. -/
def alive (r : Runner) : List ℕ := r.bots.filter (· ∉ r.dead)

/-- The deaths stamped with the hold since the last report. -/
def held (r : Runner) : List (ℕ × Phase) := r.unreported.filter (·.2 = .hold)

/-- The `control_lost` block of a step. -/
def controlLost (r : Runner) : ControlLost where
  deadTotal := r.deadTotal
  deadInHold := r.deadInHold
  deadSinceLastStep := r.deadSinceStep
  alive := (r.bots.length : ℤ) - r.deadTotal
  first := r.deadFirst

/-- `onDead`, of a record that is stamped. -/
def onDead (r : Runner) (b : ℕ) (p : Phase) : Runner :=
  { r with
    deadTotal := r.deadTotal + 1
    deadSinceStep := r.deadSinceStep + 1
    -- the second reading of the phase
    deadInHold := if r.phase = .hold then r.deadInHold + 1 else r.deadInHold
    deadFirst := if r.deadFirst.length < maxDeathFirst then r.deadFirst ++ [(b, p)]
      else r.deadFirst
    deathLines := if r.deathLines < maxDeathLines then r.deathLines + 1 else r.deathLines
    deaths := (b, p) :: r.deaths
    unreported := (b, p) :: r.unreported }

def step (r : Runner) : Op → Option Runner
  | .ramp burst =>
    if r.cmd = .wait then some { r with
      cmd := .ramp
      phase := if burst then .burst else .ramp }
    else none
  | .join =>
    if r.cmd = .ramp then some { r with
      joining := r.nextIdx :: r.joining
      nextIdx := r.nextIdx + 1 }
    else none
  | .joined b =>
    if b ∈ r.joining then some { r with
      joining := r.joining.erase b
      slots := b :: r.slots }
    else none
  | .joinFailed b =>
    if b ∈ r.joining then some { r with
      joining := r.joining.erase b
      closing := b :: r.closing }
    else none
  | .enroll =>
    if r.cmd = .ramp ∧ r.joining = [] then some { r with
      bots := r.bots ++ r.slots
      slots := [] }
    else none
  | .hold =>
    if r.cmd = .wait ∧ 2 ≤ r.bots.length then some { r with
      cmd := .zeroed
      deadInHold := 0 }
    else none
  | .flip =>
    if r.cmd = .zeroed then some { r with
      cmd := .holding
      phase := .hold }
    else none
  | .report =>
    if r.cmd = .holding then some { r with
      cmd := .reported
      deadSinceStep := 0
      deadFirst := []
      unreported := []
      reports := ⟨r.controlLost, r.alive.length, r.held.length⟩ :: r.reports }
    else none
  | .settle =>
    if (r.cmd = .ramp ∧ r.joining = [] ∧ r.slots = []) ∨ r.cmd = .reported then some { r with
      cmd := .wait
      phase := .settle }
    else none
  | .fire b =>
    if b < r.nextIdx then
      if b ∈ r.closing then some r else some { r with calls := (b, .checked) :: r.calls }
    else none
  | .swap b =>
    if (b, .checked) ∈ r.calls then
      -- one call of a bot swaps its flag
      if b ∈ r.dead then some { r with calls := r.calls.erase (b, .checked) }
      else some { r with
        calls := (b, .swapped) :: r.calls.erase (b, .checked)
        dead := b :: r.dead }
    else none
  | .stamp b =>
    if (b, .swapped) ∈ r.calls then some { r with
      calls := (b, .stamped r.phase) :: r.calls.erase (b, .swapped) }
    else none
  | .record b p =>
    if (b, .stamped p) ∈ r.calls then
      some { r.onDead b p with calls := r.calls.erase (b, .stamped p) }
    else none

/-- The deaths that are not recorded yet. -/
def flying (calls : List (ℕ × Place)) : List ℕ :=
  calls.filterMap fun c => if c.2 = .checked then none else some c.1

/-- A bot is closed while it is alive and stays so, a report is made when every death is
recorded, and a death is recorded during the hold, before its report, exactly when it is
stamped with the hold. -/
def Accounted (r : Runner) : Op → Prop
  | .joinFailed b => b ∉ r.dead
  | .swap b => b ∉ r.closing
  | .report => flying r.calls = []
  | .record _ p => p = .hold ↔ r.cmd = .holding
  | _ => True

instance (r : Runner) : ∀ op, Decidable (r.Accounted op)
  | .joinFailed _ | .swap _ => inferInstanceAs (Decidable (_ ∉ _))
  | .report => inferInstanceAs (Decidable (_ = _))
  | .record _ _ => inferInstanceAs (Decidable (_ ↔ _))
  | .ramp _ | .join | .joined _ | .enroll | .hold | .flip | .settle | .fire _ | .stamp _ =>
    inferInstanceAs (Decidable True)

/-! ## What a step does -/

variable {r r' : Runner}

inductive Moves (r : Runner) : Op → Runner → Prop
  | ramp (burst : Bool) (hcmd : r.cmd = .wait) : Moves r (.ramp burst) { r with
      cmd := .ramp
      phase := if burst then .burst else .ramp }
  | join (hcmd : r.cmd = .ramp) : Moves r .join { r with
      joining := r.nextIdx :: r.joining
      nextIdx := r.nextIdx + 1 }
  | joined (b : ℕ) (hb : b ∈ r.joining) : Moves r (.joined b) { r with
      joining := r.joining.erase b
      slots := b :: r.slots }
  | joinFailed (b : ℕ) (hb : b ∈ r.joining) : Moves r (.joinFailed b) { r with
      joining := r.joining.erase b
      closing := b :: r.closing }
  | enroll (hcmd : r.cmd = .ramp) (hjoining : r.joining = []) : Moves r .enroll { r with
      bots := r.bots ++ r.slots
      slots := [] }
  | hold (hcmd : r.cmd = .wait) : Moves r .hold { r with
      cmd := .zeroed
      deadInHold := 0 }
  | flip (hcmd : r.cmd = .zeroed) : Moves r .flip { r with
      cmd := .holding
      phase := .hold }
  | report (hcmd : r.cmd = .holding) : Moves r .report { r with
      cmd := .reported
      deadSinceStep := 0
      deadFirst := []
      unreported := []
      reports := ⟨r.controlLost, r.alive.length, r.held.length⟩ :: r.reports }
  | settle (hcmd : (r.cmd = .ramp ∧ r.joining = [] ∧ r.slots = []) ∨ r.cmd = .reported) :
      Moves r .settle { r with
      cmd := .wait
      phase := .settle }
  /-- A bot that is closing does not die. -/
  | closed (b : ℕ) (hb : b ∈ r.closing) : Moves r (.fire b) r
  | fire (b : ℕ) (hb : b < r.nextIdx) : Moves r (.fire b) { r with
      calls := (b, .checked) :: r.calls }
  /-- The bot is dead already. -/
  | again (b : ℕ) (hcall : (b, .checked) ∈ r.calls) (hdead : b ∈ r.dead) :
      Moves r (.swap b) { r with
      calls := r.calls.erase (b, .checked) }
  | swap (b : ℕ) (hcall : (b, .checked) ∈ r.calls) (hdead : b ∉ r.dead) :
      Moves r (.swap b) { r with
      calls := (b, .swapped) :: r.calls.erase (b, .checked)
      dead := b :: r.dead }
  | stamp (b : ℕ) (hcall : (b, .swapped) ∈ r.calls) : Moves r (.stamp b) { r with
      calls := (b, .stamped r.phase) :: r.calls.erase (b, .swapped) }
  | record (b : ℕ) (p : Phase) (hcall : (b, .stamped p) ∈ r.calls) : Moves r (.record b p)
      { r.onDead b p with calls := r.calls.erase (b, .stamped p) }

theorem moves_of_step {op : Op} (h : step r op = some r') : Moves r op r' := by
  cases op with
  | ramp burst =>
    simp only [step] at h
    split at h
    · next hcmd => cases h; exact .ramp burst hcmd
    · cases h
  | join =>
    simp only [step] at h
    split at h
    · next hcmd => cases h; exact .join hcmd
    · cases h
  | joined b =>
    simp only [step] at h
    split at h
    · next hb => cases h; exact .joined b hb
    · cases h
  | joinFailed b =>
    simp only [step] at h
    split at h
    · next hb => cases h; exact .joinFailed b hb
    · cases h
  | enroll =>
    simp only [step] at h
    split at h
    · next hcmd => cases h; exact .enroll hcmd.1 hcmd.2
    · cases h
  | hold =>
    simp only [step] at h
    split at h
    · next hcmd => cases h; exact .hold hcmd.1
    · cases h
  | flip =>
    simp only [step] at h
    split at h
    · next hcmd => cases h; exact .flip hcmd
    · cases h
  | report =>
    simp only [step] at h
    split at h
    · next hcmd => cases h; exact .report hcmd
    · cases h
  | settle =>
    simp only [step] at h
    split at h
    · next hcmd => cases h; exact .settle hcmd
    · cases h
  | fire b =>
    simp only [step] at h
    split at h
    · next hb =>
      split at h
      · next hclosing => cases h; exact .closed b hclosing
      · cases h; exact .fire b hb
    · cases h
  | swap b =>
    simp only [step] at h
    split at h
    · next hcall =>
      split at h
      · next hdead => cases h; exact .again b hcall hdead
      · next hdead => cases h; exact .swap b hcall hdead
    · cases h
  | stamp b =>
    simp only [step] at h
    split at h
    · next hcall => cases h; exact .stamp b hcall
    · cases h
  | record b p =>
    simp only [step] at h
    split at h
    · next hcall => cases h; exact .record b p hcall
    · cases h

/-! ## Each death counts once -/

theorem flying_cons (b : ℕ) (p : Place) (calls : List (ℕ × Place)) :
    flying ((b, p) :: calls) = if p = .checked then flying calls else b :: flying calls := by
  unfold flying
  rw [List.filterMap_cons]
  by_cases hp : p = .checked
  · rw [if_pos hp]
    simp [hp]
  · rw [if_neg hp]
    simp [hp]

theorem flying_perm {b : ℕ} {p : Place} {calls : List (ℕ × Place)} (h : (b, p) ∈ calls) :
    (flying calls).Perm (if p = .checked then flying (calls.erase (b, p))
      else b :: flying (calls.erase (b, p))) := by
  rw [← flying_cons]
  exact (List.perm_cons_erase h).filterMap _

/-- The deaths are recorded or on their way, each once, and what the steps have counted
with what the next one will is all of them. -/
structure Counted (r : Runner) : Prop where
  dead : r.dead.Perm (flying r.calls ++ r.deaths.map Prod.fst)
  nodup : r.dead.Nodup
  total : r.deadTotal = r.deaths.length
  since : r.deadSinceStep = r.unreported.length
  sum : (r.reports.map fun s => s.report.deadSinceLastStep).sum + r.deadSinceStep = r.deadTotal

theorem counted_new : Counted new := ⟨.refl _, List.nodup_nil, rfl, rfl, rfl⟩

/-- **A step keeps the deaths counted.** -/
theorem counted_moves {op : Op} (h : Counted r) (hm : Moves r op r') : Counted r' := by
  cases hm with
  | ramp burst hcmd => exact { h with }
  | join hcmd => exact { h with }
  | joined b hb => exact { h with }
  | joinFailed b hb => exact { h with }
  | enroll hcmd hjoining => exact { h with }
  | hold hcmd => exact { h with }
  | flip hcmd => exact { h with }
  | report hcmd =>
    refine ⟨h.dead, h.nodup, h.total, rfl, ?_⟩
    show r.deadSinceStep + (r.reports.map fun s => s.report.deadSinceLastStep).sum + 0 = r.deadTotal
    have := h.sum
    omega
  | settle hcmd => exact { h with }
  | closed b hb => exact h
  | fire b hb =>
    refine ⟨?_, h.nodup, h.total, h.since, h.sum⟩
    show r.dead.Perm (flying ((b, .checked) :: r.calls) ++ _)
    rw [flying_cons, if_pos rfl]
    exact h.dead
  | again b hcall hdead =>
    refine ⟨h.dead.trans (.append_right _ ?_), h.nodup, h.total, h.since, h.sum⟩
    have hperm := flying_perm hcall
    rwa [if_pos rfl] at hperm
  | swap b hcall hdead =>
    refine ⟨?_, List.nodup_cons.2 ⟨hdead, h.nodup⟩, h.total, h.since, h.sum⟩
    show (b :: r.dead).Perm (flying ((b, .swapped) :: _) ++ _)
    have hperm := flying_perm hcall
    rw [if_pos rfl] at hperm
    rw [flying_cons, if_neg (by decide), List.cons_append]
    exact (h.dead.trans (hperm.append_right _)).cons b
  | stamp b hcall =>
    refine ⟨h.dead.trans (.append_right _ ?_), h.nodup, h.total, h.since, h.sum⟩
    have hperm := flying_perm hcall
    rw [if_neg (by decide)] at hperm
    show (flying r.calls).Perm (flying ((b, .stamped r.phase) :: _))
    rw [flying_cons, if_neg (by simp)]
    exact hperm
  | record b p hcall =>
    refine ⟨?_, h.nodup, congrArg (· + 1) h.total, congrArg (· + 1) h.since, ?_⟩
    · have hperm := flying_perm hcall
      rw [if_neg (by simp)] at hperm
      exact (h.dead.trans (hperm.append_right _)).trans List.perm_middle.symm
    · show (r.reports.map fun s => s.report.deadSinceLastStep).sum + (r.deadSinceStep + 1) =
        r.deadTotal + 1
      have := h.sum
      omega

/-! ## The bots that are kept -/

/-- The bots that are kept, or will be unless their join fails. -/
def roster (r : Runner) : List ℕ := r.bots ++ (r.slots ++ r.joining)

/-- A bot that was not closed is on the roster, and so is every bot that died. -/
structure Placed (r : Runner) : Prop where
  nodup : r.roster.Nodup
  lt : ∀ b ∈ r.roster, b < r.nextIdx
  placed : ∀ b < r.nextIdx, b ∈ r.closing ∨ b ∈ r.roster
  called : ∀ c ∈ r.calls, c.1 < r.nextIdx
  dead : ∀ b ∈ r.dead, b ∈ r.roster

theorem Placed.of_perm (h : Placed r) (hroster : r'.roster.Perm r.roster)
    (hnext : r'.nextIdx = r.nextIdx) (hclosing : r'.closing = r.closing)
    (hcalls : ∀ c ∈ r'.calls, c.1 < r.nextIdx) (hdead : r'.dead = r.dead) : Placed r' where
  nodup := hroster.nodup_iff.2 h.nodup
  lt b hb := hnext ▸ h.lt b (hroster.mem_iff.1 hb)
  placed b hb := by
    rw [hclosing, hroster.mem_iff]
    exact h.placed b (hnext ▸ hb)
  called c hc := hnext ▸ hcalls c hc
  dead b hb := hroster.mem_iff.2 (h.dead b (hdead ▸ hb))

/-- A call that goes on is a call of the same bot. -/
theorem Placed.called_cons {b : ℕ} {p p' : Place} (h : Placed r) (hcall : (b, p) ∈ r.calls) :
    ∀ c ∈ (b, p') :: r.calls.erase (b, p), c.1 < r.nextIdx := by
  intro c hc
  rcases List.mem_cons.1 hc with rfl | hc
  · exact h.called (b, p) hcall
  · exact h.called c (List.mem_of_mem_erase hc)

theorem roster_erase {b : ℕ} (hb : b ∈ r.joining) :
    r.roster.Perm (b :: (r.bots ++ (r.slots ++ r.joining.erase b))) := by
  unfold roster
  have hjoining := List.perm_cons_erase hb
  have hslots : (r.slots ++ r.joining).Perm (b :: (r.slots ++ r.joining.erase b)) :=
    (hjoining.append_left r.slots).trans List.perm_middle
  exact (hslots.append_left r.bots).trans List.perm_middle

theorem placed_new : Placed new where
  nodup := List.nodup_nil
  lt b hb := by cases hb
  placed b hb := by cases hb
  called c hc := by cases hc
  dead b hb := by cases hb

theorem placed_moves {op : Op} (h : Placed r) (hok : r.Accounted op) (hm : Moves r op r') :
    Placed r' := by
  cases hm with
  | ramp burst hcmd => exact { h with }
  | join hcmd =>
    have hroster : (r.bots ++ (r.slots ++ r.nextIdx :: r.joining)).Perm (r.nextIdx :: r.roster) :=
      (List.perm_middle.append_left r.bots).trans List.perm_middle
    have hnew : r.nextIdx ∉ r.roster := fun hmem => absurd (h.lt _ hmem) (Nat.lt_irrefl _)
    refine ⟨hroster.nodup_iff.2 (List.nodup_cons.2 ⟨hnew, h.nodup⟩), fun b hb => ?_,
      fun b hb => ?_, fun c hc => Nat.lt_succ_of_lt (h.called c hc),
      fun b hb => hroster.mem_iff.2 (List.mem_cons_of_mem _ (h.dead b hb))⟩
    · rcases List.mem_cons.1 (hroster.mem_iff.1 hb) with rfl | hb
      · exact Nat.lt_succ_self _
      · exact Nat.lt_succ_of_lt (h.lt b hb)
    · rcases Nat.lt_succ_iff_lt_or_eq.1 hb with hb | rfl
      · exact (h.placed b hb).imp_right fun hmem => hroster.mem_iff.2 (List.mem_cons_of_mem _ hmem)
      · exact .inr (hroster.mem_iff.2 List.mem_cons_self)
  | joined b hb =>
    refine h.of_perm ?_ rfl rfl h.called rfl
    exact (@List.perm_middle _ _ r.bots _).trans (roster_erase hb).symm
  | joinFailed b hb =>
    have hroster := roster_erase hb
    have hnodup := List.nodup_cons.1 (hroster.nodup_iff.1 h.nodup)
    refine ⟨hnodup.2, fun b' hb' => h.lt b' (hroster.mem_iff.2 (List.mem_cons_of_mem _ hb')),
      fun b' hb' => ?_, h.called, fun b' hb' => ?_⟩
    · rcases h.placed b' hb' with hmem | hmem
      · exact .inl (List.mem_cons_of_mem _ hmem)
      · rcases List.mem_cons.1 (hroster.mem_iff.1 hmem) with rfl | hmem
        · exact .inl List.mem_cons_self
        · exact .inr hmem
    · -- the bot that is closed is not a dead one
      rcases List.mem_cons.1 (hroster.mem_iff.1 (h.dead b' hb')) with rfl | hmem
      · exact absurd hb' hok
      · exact hmem
  | enroll hcmd hjoining =>
    refine h.of_perm ?_ rfl rfl h.called rfl
    show ((r.bots ++ r.slots) ++ ([] ++ r.joining)).Perm r.roster
    rw [List.nil_append, List.append_assoc]
    rfl
  | hold hcmd => exact { h with }
  | flip hcmd => exact { h with }
  | report hcmd => exact { h with }
  | settle hcmd => exact { h with }
  | closed b hb => exact h
  | fire b hb =>
    refine h.of_perm (.refl _) rfl rfl (fun c hc => ?_) rfl
    rcases List.mem_cons.1 hc with rfl | hc
    · exact hb
    · exact h.called c hc
  | again b hcall hdead =>
    exact h.of_perm (.refl _) rfl rfl (fun c hc => h.called c (List.mem_of_mem_erase hc)) rfl
  | swap b hcall hdead =>
    refine ⟨h.nodup, h.lt, h.placed, h.called_cons hcall, fun b' hb' => ?_⟩
    rcases List.mem_cons.1 hb' with rfl | hb'
    · exact (h.placed b' (h.called _ hcall)).resolve_left hok
    · exact h.dead b' hb'
  | stamp b hcall => exact h.of_perm (.refl _) rfl rfl (h.called_cons hcall) rfl
  | record b p hcall =>
    exact h.of_perm (.refl _) rfl rfl (fun c hc => h.called c (List.mem_of_mem_erase hc)) rfl

/-! ## What a step reports -/

/-- Of the bots of a list, those outside a part of it. -/
theorem length_filter_not_mem {l d : List ℕ} (hl : l.Nodup) (hd : d.Nodup)
    (hsub : ∀ b ∈ d, b ∈ l) : (l.filter (· ∉ d)).length + d.length = l.length := by
  have hperm : (l.filter (· ∈ d)).Perm d := by
    refine (List.perm_ext_iff_of_nodup (hl.filter _) hd).2 fun b => ?_
    rw [List.mem_filter, decide_eq_true_eq]
    exact ⟨fun h => h.2, fun h => ⟨hsub b h, h⟩⟩
  have hsplit := List.length_eq_length_filter_add (l := l) fun b => decide (b ∈ d)
  rw [hperm.length_eq] at hsplit
  have hrest : (l.filter fun b => !decide (b ∈ d)) = l.filter (· ∉ d) :=
    List.filter_congr fun b _ => (decide_not (p := b ∈ d)).symm
  rw [hrest] at hsplit
  omega

/-- **The deaths subtracted are those of the bots that are kept**, when every death is
recorded and no join is in progress. -/
theorem alive_eq (h : Placed r) (hcount : Counted r) (hflying : flying r.calls = [])
    (hjoining : r.joining = []) (hslots : r.slots = []) :
    r.controlLost.alive = r.alive.length := by
  have hroster : r.roster = r.bots := by
    rw [roster, hslots, hjoining]
    simp
  have hlen : r.deadTotal = r.dead.length := by
    have hperm := hcount.dead.length_eq
    rw [hflying, List.nil_append, List.length_map] at hperm
    rw [hcount.total, hperm]
  have hnodup := h.nodup
  have hdead := h.dead
  rw [hroster] at hnodup hdead
  have halive := length_filter_not_mem hnodup hcount.nodup hdead
  show (r.bots.length : ℤ) - r.deadTotal = r.alive.length
  unfold alive
  omega

/-- What a hold has counted, at each of its places. -/
structure Held (r : Runner) : Prop where
  idle : r.cmd ≠ .ramp → r.joining = [] ∧ r.slots = []
  phase : r.cmd = .holding → r.phase = .hold
  steady : r.phase = .hold → r.cmd = .holding ∨ r.cmd = .reported
  zeroed : r.cmd = .zeroed → r.deadInHold = 0
  counted : r.cmd = .holding → r.deadInHold = r.held.length
  none : r.cmd ≠ .holding → r.held = []

theorem held_new : Held new where
  idle _ := ⟨rfl, rfl⟩
  phase h := by cases h
  steady h := by cases h
  zeroed h := by cases h
  counted h := by cases h
  none _ := rfl

theorem held_moves {op : Op} (h : Held r) (hok : r.Accounted op) (hm : Moves r op r') :
    Held r' := by
  cases hm with
  | ramp burst hcmd =>
    refine ⟨fun hne => absurd rfl hne, ?_, fun hp => ?_, ?_, ?_, fun _ => ?_⟩
    · nofun
    · dsimp only at hp
      split at hp <;> cases hp
    · nofun
    · nofun
    · exact h.none (by rw [hcmd]; decide)
  | join hcmd =>
    exact ⟨fun hne => absurd hcmd hne, h.phase, h.steady, h.zeroed, h.counted, h.none⟩
  | joined b hb =>
    refine ⟨fun hne => ?_, h.phase, h.steady, h.zeroed, h.counted, h.none⟩
    rw [(h.idle hne).1] at hb
    cases hb
  | joinFailed b hb =>
    refine ⟨fun hne => ?_, h.phase, h.steady, h.zeroed, h.counted, h.none⟩
    rw [(h.idle hne).1] at hb
    cases hb
  | enroll hcmd hjoining =>
    exact ⟨fun hne => absurd hcmd hne, h.phase, h.steady, h.zeroed, h.counted, h.none⟩
  | hold hcmd =>
    refine ⟨fun _ => h.idle ?_, ?_, fun hp => ?_, fun _ => rfl, ?_, fun _ => h.none ?_⟩
    · rw [hcmd]
      decide
    · nofun
    · rcases h.steady hp with hp | hp
      · rw [hcmd] at hp
        cases hp
      · rw [hcmd] at hp
        cases hp
    · nofun
    · rw [hcmd]
      decide
  | flip hcmd =>
    have hnone : r.held = [] := h.none (by rw [hcmd]; decide)
    refine ⟨fun _ => h.idle ?_, fun _ => rfl, fun _ => .inl rfl, ?_, fun _ => ?_,
      fun hne => absurd rfl hne⟩
    · rw [hcmd]
      decide
    · nofun
    · show r.deadInHold = r.held.length
      rw [h.zeroed hcmd, hnone]
      rfl
  | report hcmd =>
    refine ⟨fun _ => h.idle ?_, ?_, fun _ => .inr rfl, ?_, ?_, fun _ => rfl⟩
    · rw [hcmd]
      decide
    · nofun
    · nofun
    · nofun
  | settle hcmd =>
    refine ⟨fun _ => ?_, ?_, ?_, ?_, ?_, fun _ => h.none ?_⟩
    · rcases hcmd with hcmd | hcmd
      · exact hcmd.2
      · exact h.idle (by rw [hcmd]; decide)
    · nofun
    · nofun
    · nofun
    · nofun
    · rcases hcmd with hcmd | hcmd
      · rw [hcmd.1]
        decide
      · rw [hcmd]
        decide
  | closed b hb => exact h
  | fire b hb => exact { h with }
  | again b hcall hdead => exact { h with }
  | swap b hcall hdead => exact { h with }
  | stamp b hcall => exact { h with }
  | record b p hcall =>
    have hheld : ((b, p) :: r.unreported).filter (·.2 = Phase.hold) =
        if p = .hold then (b, p) :: r.held else r.held := by
      rw [List.filter_cons]
      simp only [decide_eq_true_eq]
      rfl
    refine ⟨h.idle, h.phase, h.steady, fun hcmd => ?_, fun hcmd => ?_, fun hne => ?_⟩
    · -- the phase of a hold that is not flipped is another one
      have hphase : r.phase ≠ .hold := by
        intro hp
        have hcmd : r.cmd = .zeroed := hcmd
        rcases h.steady hp with hp | hp
        · rw [hcmd] at hp
          cases hp
        · rw [hcmd] at hp
          cases hp
      show (if r.phase = .hold then r.deadInHold + 1 else r.deadInHold) = 0
      rw [if_neg hphase]
      exact h.zeroed hcmd
    · show (if r.phase = .hold then r.deadInHold + 1 else r.deadInHold) =
        (((b, p) :: r.unreported).filter (·.2 = Phase.hold)).length
      rw [hheld, if_pos (h.phase hcmd), if_pos (hok.2 hcmd), h.counted hcmd]
      rfl
    · show ((b, p) :: r.unreported).filter (·.2 = Phase.hold) = []
      rw [hheld, if_neg fun hp => hne (hok.1 hp)]
      exact h.none hne

/-- What was reported is what there was. -/
structure Reported (r : Runner) : Prop where
  counted : Counted r
  placed : Placed r
  held : Held r
  reports : ∀ s ∈ r.reports, s.report.alive = s.alive ∧ s.report.deadInHold = s.held

theorem reported_moves {op : Op} (h : Reported r) (hok : r.Accounted op) (hm : Moves r op r') :
    Reported r' := by
  refine ⟨counted_moves h.counted hm, placed_moves h.placed hok hm, held_moves h.held hok hm, ?_⟩
  cases hm with
  | report hcmd =>
    intro s hs
    rcases List.mem_cons.1 hs with rfl | hs
    · obtain ⟨hjoining, hslots⟩ := h.held.idle (by rw [hcmd]; decide)
      exact ⟨alive_eq h.placed h.counted hok hjoining hslots, h.held.counted hcmd⟩
    · exact h.reports s hs
  | ramp burst hcmd => exact h.reports
  | join hcmd => exact h.reports
  | joined b hb => exact h.reports
  | joinFailed b hb => exact h.reports
  | enroll hcmd hjoining => exact h.reports
  | hold hcmd => exact h.reports
  | flip hcmd => exact h.reports
  | settle hcmd => exact h.reports
  | closed b hb => exact h.reports
  | fire b hb => exact h.reports
  | again b hcall hdead => exact h.reports
  | swap b hcall hdead => exact h.reports
  | stamp b hcall => exact h.reports
  | record b p hcall => exact h.reports

theorem reported_new : Reported new := ⟨counted_new, placed_new, held_new, fun s hs => by cases hs⟩

theorem reported_run {s t : Runner} {ops : List Op} (h : Reported s)
    (hok : Meets step Accounted s ops) (hr : exec step s ops = some t) : Reported t :=
  exec_invariant (fun _ _ _ hi ho hs => reported_moves hi ho (moves_of_step hs)) h hok hr

def twoBots : List Op := [.ramp false, .join, .joined 0, .join, .joined 1, .enroll, .settle]

/-- A death of the hold, and one after it. -/
def twoDeaths : List Op :=
  twoBots ++ [.hold, .flip, .fire 1, .swap 1, .stamp 1, .record 1 .hold, .report, .settle,
    .fire 0, .swap 0, .stamp 0, .record 0 .settle, .hold, .flip, .report]

/-- The third bot dies before its join has failed. -/
def deadJoin : List Op :=
  [.ramp false, .join, .joined 0, .join, .joined 1, .join, .fire 2, .swap 2, .stamp 2,
    .record 2 .ramp, .joinFailed 2, .enroll, .settle, .hold, .flip, .report]

/-- A death is stamped before the phase is that of the hold, and counted after. -/
def stampedBefore : List Op :=
  twoBots ++ [.fire 1, .swap 1, .stamp 1, .hold, .flip, .record 1 .settle, .report]

end Runner

end VcsClient.Loadgen
