import Mathlib.Logic.Function.Basic
import Mathlib.Order.Lattice

/-!
# Announcing a value from outside its lock

Parties change a value in sections of a lock and announce it after the lock is
released. Each change stamps its announcement with its place among the changes.
As long as no announcement is made after that of a later change, the value
announced last is the value in place once nobody has anything left to say
(`Board.Sound.settled`).
-/

namespace VcsClient.Lib

/-- What a party has left to say. -/
inductive Duty (β : Type*) where
  | none
  /-- Whatever comes of its work, it will say so. -/
  | working
  /-- The announcement of `v`, with the stamp of its change. -/
  | owes (stamp : ℕ) (v : β)

/-- The value in place and the value announced last, the number of changes and
the newest stamp announced. -/
structure Board (ι β : Type*) where
  duty : ι → Duty β
  value : β
  told : β
  clock : ℕ
  newest : ℕ

namespace Board

variable {ι β : Type*}

/-- Somebody is still to speak, or the board is right. -/
structure Sound (b : Board ι β) : Prop where
  newest : b.newest ≤ b.clock
  owes : ∀ i stamp v, b.duty i = .owes stamp v → stamp ≤ b.clock ∧ (stamp = b.clock → v = b.value)
  told : (∃ i, b.duty i = .working) ∨ (∃ i v, b.duty i = .owes b.clock v) ∨
    b.newest = b.clock ∧ b.told = b.value

variable {b : Board ι β}

/-- **The board settles.** -/
theorem Sound.settled (h : b.Sound) (hq : ∀ i, b.duty i = .none) : b.told = b.value := by
  rcases h.told with ⟨i, hi⟩ | ⟨i, v, hi⟩ | ⟨-, ht⟩
  · rw [hq] at hi
    cases hi
  · rw [hq] at hi
    cases hi
  · exact ht

/-- A stamp given out is not that of the next change. -/
theorem stamp_before_next {stamp clock : ℕ} {P : Prop} (h : stamp ≤ clock) :
    stamp ≤ clock + 1 ∧ (stamp = clock + 1 → P) :=
  ⟨by omega, fun he => by omega⟩

variable [DecidableEq ι] {i : ι}

theorem update_ne {d : ι → Duty β} {x y : Duty β} {j : ι} (h : Function.update d i x j = y)
    (hne : x ≠ y) : j ≠ i ∧ d j = y := by
  by_cases hj : j = i
  · subst hj
    rw [Function.update_self] at h
    exact absurd h hne
  · rw [Function.update_of_ne hj] at h
    exact ⟨hj, h⟩

theorem Sound.work (h : b.Sound) (told : β) :
    Sound { b with duty := Function.update b.duty i .working, told := told } where
  newest := h.newest
  owes j stamp v hj := h.owes j stamp v (update_ne hj nofun).2
  told := .inl ⟨i, Function.update_self ..⟩

theorem Sound.change (h : b.Sound) (v : β) :
    Sound { b with duty := Function.update b.duty i (.owes (b.clock + 1) v), value := v,
                   clock := b.clock + 1 } where
  newest := Nat.le_succ_of_le h.newest
  owes j stamp w hj := by
    change Function.update b.duty i _ j = _ at hj
    by_cases hji : j = i
    · subst hji
      rw [Function.update_self] at hj
      cases hj
      exact ⟨le_rfl, fun _ => rfl⟩
    · rw [Function.update_of_ne hji] at hj
      exact stamp_before_next (h.owes j stamp w hj).1
  told := .inr (.inl ⟨i, v, Function.update_self ..⟩)

/-- The value changes in the hands of a party that is at work. -/
theorem Sound.retract (h : b.Sound) (v : β) :
    Sound { b with duty := Function.update b.duty i .working, value := v,
                   clock := b.clock + 1 } where
  newest := Nat.le_succ_of_le h.newest
  owes j stamp w hj := stamp_before_next (h.owes j stamp w (update_ne hj nofun).2).1
  told := .inl ⟨i, Function.update_self ..⟩

theorem Sound.promise (h : b.Sound) :
    Sound { b with duty := Function.update b.duty i (.owes b.clock b.value) } where
  newest := h.newest
  owes j stamp v hj := by
    change Function.update b.duty i _ j = _ at hj
    by_cases hji : j = i
    · subst hji
      rw [Function.update_self] at hj
      cases hj
      exact ⟨le_rfl, fun _ => rfl⟩
    · rw [Function.update_of_ne hji] at hj
      exact h.owes j stamp v hj
  told := .inr (.inl ⟨i, b.value, Function.update_self ..⟩)

theorem Sound.announce (h : b.Sound) {stamp : ℕ} {v : β} (hi : b.duty i = .owes stamp v)
    (hn : b.newest ≤ stamp) :
    Sound { b with duty := Function.update b.duty i .none, told := v,
                   newest := max b.newest stamp } := by
  obtain ⟨hle, heq⟩ := h.owes i stamp v hi
  refine ⟨by simpa [hn] using hle, fun j n w hj => h.owes j n w (update_ne hj nofun).2, ?_⟩
  by_cases hc : stamp = b.clock
  · exact .inr (.inr ⟨by simpa [hn] using hc, heq hc⟩)
  · -- an older announcement: the newest change has still to be announced by another
    rcases h.told with ⟨j, hj⟩ | ⟨j, w, hj⟩ | ⟨hnew, -⟩
    · refine .inl ⟨j, ?_⟩
      show Function.update b.duty i .none j = .working
      rw [Function.update_of_ne, hj]
      rintro rfl
      rw [hi] at hj
      cases hj
    · refine .inr (.inl ⟨j, w, ?_⟩)
      show Function.update b.duty i .none j = .owes b.clock w
      rw [Function.update_of_ne, hj]
      rintro rfl
      rw [hi, Duty.owes.injEq] at hj
      exact hc hj.1
    · omega

/-- A party that worked in vain says what is in place. -/
theorem Sound.report (h : b.Sound) :
    Sound { b with duty := Function.update b.duty i .none, told := b.value, newest := b.clock } where
  newest := le_rfl
  owes j stamp v hj := h.owes j stamp v (update_ne hj nofun).2
  told := .inr (.inr ⟨rfl, rfl⟩)

end Board

end VcsClient.Lib
