import Mathlib.Data.Int.Notation
import Mathlib.Tactic.Common
import VcsClient.Lib.Log
import VcsClient.Lib.Machine

/-!
# Throttled commits

`useThrottledCommit.ts`, which a settings slider commits through: the first value of a drag is
sent at once, later ones at most once an interval, and the last one is never lost. That
`Date.now()` does not go back is assumed.

`given` and `sent` record a run, newest first.
-/

namespace VcsClient.Shared

open VcsClient.Lib

structure Sent (α : Type*) where
  at_ : ℤ
  val : α
  /-- By `flush` or on unmount. -/
  forced : Bool
  deriving DecidableEq

structure Throttle (α : Type*) where
  intervalMs : ℤ
  /-- `Date.now()` -/
  now : ℤ
  /-- `none` is negative infinity. -/
  last : Option ℤ
  pending : Option α
  /-- When the timer is due. -/
  timer : Option ℤ
  given : List (ℤ × α)
  sent : List (Sent α)

inductive ThrottleOp (α : Type*) where
  | tick (ms : ℕ)
  | push (v : α)
  | flush (v : α)
  /-- The timer's callback, which can run late. -/
  | fire
  | unmount

namespace Throttle

variable {α : Type*}

def init (intervalMs now : ℤ) : Throttle α := ⟨intervalMs, now, none, none, none, [], []⟩

def give (s : Throttle α) (v : α) : Throttle α := { s with given := (s.now, v) :: s.given }

def emit (s : Throttle α) (forced : Bool) (v : α) : Throttle α :=
  { s with last := some s.now, sent := ⟨s.now, v, forced⟩ :: s.sent }

def cancel (s : Throttle α) : Throttle α := { s with timer := none, pending := none }

/-- What is left of the interval. -/
def delay (s : Throttle α) : ℤ :=
  match s.last with
  | none => 0
  | some t => max 0 (s.intervalMs - (s.now - t))

def push (s : Throttle α) (v : α) : Throttle α :=
  if s.timer = none ∧ ∀ t ∈ s.last, s.intervalMs ≤ s.now - t then s.emit false v
  else { s with pending := some v, timer := some (s.timer.getD (s.now + s.delay)) }

/-- A value that is pending is sent now. -/
def sendPending (s : Throttle α) (forced : Bool) : Throttle α :=
  match s.pending with
  | none => s.cancel
  | some v => s.cancel.emit forced v

def step (s : Throttle α) : ThrottleOp α → Option (Throttle α)
  | .tick ms => some { s with now := s.now + ms }
  | .push v => some ((s.give v).push v)
  | .flush v => some ((s.give v).cancel.emit true v)
  | .fire =>
    match s.timer with
    | none => none
    | some d => if d ≤ s.now then some (s.sendPending false) else none
  | .unmount => some (s.sendPending true)

/-- A send that nothing forced comes an interval after the one before it. -/
def Spaced (intervalMs : ℤ) (earlier : List (Sent α)) (e : Sent α) : Prop :=
  e.forced = false → ∀ p ∈ earlier.head?, p.at_ + intervalMs ≤ e.at_

structure Kept (s : Throttle α) : Prop where
  interval : 0 ≤ s.intervalMs
  armed : s.timer.isSome = s.pending.isSome
  /-- What was sent or is pending was given, in this order and up to the newest. -/
  inOrder : (s.pending.toList ++ s.sent.map (·.val)).Sublist (s.given.map (·.2))
  newest : (s.pending.toList ++ s.sent.map (·.val)).head? = (s.given.map (·.2)).head?
  last : s.last = s.sent.head?.map (·.at_)
  past : ∀ t ∈ s.last, t ≤ s.now
  due : ∀ d ∈ s.timer, (∀ t ∈ s.last, t + s.intervalMs ≤ d) ∧
    ∀ g ∈ s.given.head?, d ≤ g.1 + s.intervalMs
  fresh : ∀ g ∈ s.given.head?, g.1 ≤ s.now
  spaced : Each (Spaced s.intervalMs) s.sent

theorem kept_init {intervalMs : ℤ} (h : 0 ≤ intervalMs) (now : ℤ) :
    (init intervalMs now : Throttle α).Kept where
  interval := h
  armed := rfl
  inOrder := List.Sublist.refl _
  newest := rfl
  last := rfl
  past _ ht := by cases ht
  due _ hd := by cases hd
  fresh _ hg := by cases hg
  spaced := each_nil

variable {s s' : Throttle α} {v : α}

theorem Kept.emit (h : s.Kept) {forced : Bool} {g : List (ℤ × α)}
    (hg : (s.sent.map (·.val)).Sublist (g.tail.map (·.2))) (hv : g.head?.map (·.2) = some v)
    (hnow : ∀ e ∈ g.head?, e.1 ≤ s.now)
    (hspaced : forced = false → ∀ t ∈ s.last, t + s.intervalMs ≤ s.now) :
    ({ s with given := g }.cancel.emit forced v).Kept := by
  obtain ⟨e, g, rfl⟩ : ∃ e g', g = e :: g' := by
    cases g with
    | nil => cases hv
    | cons e g => exact ⟨e, g, rfl⟩
  obtain rfl : e.2 = v := by simpa using hv
  exact
    { interval := h.interval
      armed := rfl
      inOrder := hg.cons_cons e.2
      newest := rfl
      last := rfl
      past := fun t ht => by cases ht; exact Int.le_refl _
      due := fun _ hd => by cases hd
      fresh := hnow
      spaced := by
        refine each_cons.2 ⟨fun hf p hp => hspaced hf p.at_ ?_, h.spaced⟩
        rw [h.last]
        exact Option.mem_map_of_mem _ hp }

theorem Kept.sendPending (h : s.Kept) {forced : Bool}
    (hdue : forced = false → ∃ d ∈ s.timer, d ≤ s.now) : (s.sendPending forced).Kept := by
  unfold Throttle.sendPending
  have horder := h.inOrder
  have hnewest := h.newest
  cases hp : s.pending with
  | none =>
    rw [hp] at horder hnewest
    exact { h with
      armed := rfl, inOrder := horder, newest := hnewest, due := fun _ hd => by cases hd }
  | some v =>
    rw [hp] at horder hnewest
    obtain ⟨e, g, hg⟩ : ∃ e g, s.given = e :: g := by
      cases hgiven : s.given with
      | nil => rw [hgiven] at hnewest; cases hnewest
      | cons e g => exact ⟨e, g, rfl⟩
    rw [hg] at horder hnewest
    obtain rfl : v = e.2 := by simpa using hnewest
    refine h.emit (g := s.given) ?_ (by rw [hg]; rfl) h.fresh ?_
    · rw [hg]
      exact List.cons_sublist_cons.1 horder
    · intro hf t ht
      obtain ⟨d, hd, hle⟩ := hdue hf
      exact Int.le_trans ((h.due d hd).1 t ht) hle

theorem Kept.push (h : s.Kept) (v : α) : ((s.give v).push v).Kept := by
  have hsent : (s.sent.map (·.val)).Sublist (s.given.map (·.2)) :=
    (List.sublist_append_right _ _).trans h.inOrder
  unfold Throttle.push
  split
  · rename_i hc
    have hpending : s.pending = none := by
      have harmed := h.armed
      rw [show s.timer = none from hc.1] at harmed
      exact Option.isNone_iff_eq_none.1 (by rw [← Option.not_isSome, ← harmed]; rfl)
    have hself : s.give v = { s with given := (s.now, v) :: s.given }.cancel := by
      rw [Throttle.cancel, Throttle.give, ← show s.timer = none from hc.1, ← hpending]
    rw [hself]
    refine h.emit hsent rfl (fun e he => by cases he; exact Int.le_refl _) fun _ t ht => ?_
    have := hc.2 t ht
    dsimp only [give] at this
    omega
  · rename_i hc
    exact
      { interval := h.interval
        armed := rfl
        inOrder := hsent.cons_cons v
        newest := rfl
        last := h.last
        past := h.past
        due := by
          intro d hd
          cases hd
          dsimp only [give]
          cases htimer : s.timer with
          | some d =>
            -- the timer of an older value
            obtain ⟨hl, hg⟩ := h.due d htimer
            refine ⟨hl, fun g hg' => ?_⟩
            cases hg'
            cases hgiven : s.given.head? with
            | none =>
              have hp := h.armed
              have hn := h.newest
              rw [htimer] at hp
              obtain ⟨w, hw⟩ := Option.isSome_iff_exists.1 hp.symm
              rw [hw, List.head?_map, hgiven] at hn
              cases hn
            | some g =>
              have := hg g hgiven
              have := h.fresh g hgiven
              dsimp only [Option.getD_some]
              omega
          | none =>
            have hlast : ∃ t, s.last = some t ∧ s.now - t < s.intervalMs := by
              by_contra hno
              exact hc ⟨htimer, fun t ht => Int.not_lt.1 fun hlt => hno ⟨t, ht, hlt⟩⟩
            obtain ⟨t, ht, hlt⟩ := hlast
            have := h.past t ht
            have := h.interval
            simp only [Throttle.delay, ht, Option.getD_none, Option.mem_def, Option.some.injEq]
            refine ⟨fun t' ht' => by omega, fun g hg => ?_⟩
            cases hg
            dsimp only
            omega
        fresh := fun g hg => by cases hg; exact Int.le_refl _
        spaced := h.spaced }

theorem Kept.step {op : ThrottleOp α} (h : s.Kept) (hs : s.step op = some s') : s'.Kept := by
  cases op with
  | tick ms =>
    cases hs
    have hle : s.now ≤ s.now + ms := by omega
    exact
      { h with
        past := fun t ht => Int.le_trans (h.past t ht) hle
        fresh := fun g hg => Int.le_trans (h.fresh g hg) hle }
  | push v =>
    cases hs
    exact h.push v
  | flush v =>
    cases hs
    exact h.emit ((List.sublist_append_right _ _).trans h.inOrder) rfl
      (fun e he => by cases he; exact Int.le_refl _) (fun hf => by cases hf)
  | fire =>
    simp only [Throttle.step] at hs
    split at hs
    · cases hs
    · rename_i d hd
      split at hs
      · rename_i hle
        cases hs
        exact h.sendPending fun _ => ⟨d, hd, hle⟩
      · cases hs
  | unmount =>
    cases hs
    exact h.sendPending fun hf => by cases hf

end Throttle

/-- **A drag is committed.** In every run the values sent are given ones in their order, sends
that nothing forced lie an interval apart, while the timer runs the newest value is pending and
due an interval after it was given, and while it does not the newest value is the last one
sent. -/
theorem drag_committed {α : Type*} (intervalMs now : ℤ) (h : 0 ≤ intervalMs)
    (ops : List (ThrottleOp α)) (s : Throttle α)
    (hrun : exec Throttle.step (.init intervalMs now) ops = some s) :
    (s.sent.map (·.val)).Sublist (s.given.map (·.2)) ∧
      Each (Throttle.Spaced s.intervalMs) s.sent ∧
      (∀ d, s.timer = some d → ∃ t v, s.given.head? = some (t, v) ∧ s.pending = some v ∧
        d ≤ t + s.intervalMs) ∧
      (s.timer = none → (s.sent.map (·.val)).head? = (s.given.map (·.2)).head?) := by
  have hk : s.Kept := exec_invariant (I := Throttle.Kept)
    (fun _ _ _ hk _ hs => hk.step hs) (Throttle.kept_init h now) (Meets.trivial _ _ _) hrun
  refine ⟨(List.sublist_append_right _ _).trans hk.inOrder, hk.spaced, fun d hd => ?_, fun hn => ?_⟩
  · have harmed := hk.armed
    have hnewest := hk.newest
    rw [hd] at harmed
    obtain ⟨v, hv⟩ := Option.isSome_iff_exists.1 harmed.symm
    rw [hv] at hnewest
    cases hg : s.given with
    | nil => rw [hg] at hnewest; cases hnewest
    | cons g gs =>
      rw [hg] at hnewest
      obtain rfl : v = g.2 := by simpa using hnewest
      exact ⟨g.1, g.2, rfl, hv, (hk.due d hd).2 g (by rw [hg]; rfl)⟩
  · have harmed := hk.armed
    have hnewest := hk.newest
    rw [hn] at harmed
    rw [Option.isSome_eq_false_iff.1 harmed.symm |> Option.isNone_iff_eq_none.1] at hnewest
    exact hnewest

/-- Two values in one interval, of which the second is sent when it is over. -/
theorem drag_committed_trailing : ∃ s : Throttle ℕ,
    exec Throttle.step (.init 150 0)
      [.push 1, .tick 20, .push 2, .tick 20, .push 3, .tick 110, .fire] = some s ∧
      (s.sent.map (·.val)).Sublist (s.given.map (·.2)) ∧ s.sent.map (·.val) = [3, 1] :=
  ⟨_, rfl, (drag_committed 150 0 (by decide) [.push 1, .tick 20, .push 2, .tick 20, .push 3,
    .tick 110, .fire] _ rfl).1, by decide⟩

end VcsClient.Shared
