import Mathlib.Data.List.Nodup
import VcsClient.Lib.Listing

/-!
# Histories of concurrent calls

Calls are numbered as they start; a history lists their starts and returns and,
in `order`, the calls as they took effect. `Linear` is what a run keeps of it,
when each call takes effect at most once between its start and its return, and
returns whether it did: the order respects real time (`Linear.realTime`) and, at
rest, holds the calls that succeeded and no others (`Linear.mem_order`).
-/

namespace VcsClient.Lib

inductive CallEvent where
  | started (c : ℕ)
  | returned (c : ℕ) (ok : Bool)
  deriving DecidableEq

structure History where
  calls : ℕ
  events : List CallEvent
  order : List ℕ

namespace History

def empty : History := ⟨0, [], []⟩

def start (h : History) : History :=
  { h with calls := h.calls + 1, events := h.events ++ [.started h.calls] }

def place (h : History) (c : ℕ) : History := { h with order := h.order ++ [c] }

def finish (h : History) (c : ℕ) (ok : Bool) : History :=
  { h with events := h.events ++ [.returned c ok] }

/-- `active` gives the calls under way, and which of them took effect. -/
structure Linear (h : History) (active : ℕ → Option Bool) : Prop where
  active_lt : ∀ c b, active c = some b → c < h.calls
  placed : ∀ c b, active c = some b → (c ∈ h.order ↔ b = true)
  order_lt : ∀ c ∈ h.order, c < h.calls
  nodup : h.order.Nodup
  returned : ∀ c ok, .returned c ok ∈ h.events →
    c < h.calls ∧ active c = none ∧ (c ∈ h.order ↔ ok = true)
  ended : ∀ c < h.calls, active c = none → ∃ ok, .returned c ok ∈ h.events
  /-- A call that returned before another started took effect before it. -/
  realTime : ∀ c ok d, [.returned c ok, .started d].Sublist h.events → c ∈ h.order →
    d ∈ h.order → [c, d].Sublist h.order

theorem linear_empty : empty.Linear fun _ => none where
  active_lt c b h := by cases h
  placed c b h := by cases h
  order_lt c h := by cases h
  nodup := List.nodup_nil
  returned c ok h := by cases h
  ended c h := absurd h (Nat.not_lt_zero c)
  realTime c ok d h := by cases h

variable {h : History} {active active' : ℕ → Option Bool} {c : ℕ} {b : Bool}

theorem Linear.start (hl : h.Linear active) :
    h.start.Linear (Function.update active h.calls (some false)) where
  active_lt c b hc := by
    change c < h.calls + 1
    by_cases hne : c = h.calls
    · omega
    · rw [Function.update_of_ne hne] at hc
      exact (hl.active_lt c b hc).trans (Nat.lt_succ_self _)
  placed c b hc := by
    change c ∈ h.order ↔ _
    by_cases hne : c = h.calls
    · subst hne
      rw [Function.update_self] at hc
      cases hc
      exact ⟨fun hin => absurd (hl.order_lt _ hin) (lt_irrefl _), nofun⟩
    · rw [Function.update_of_ne hne] at hc
      exact hl.placed c b hc
  order_lt c hc := (hl.order_lt c hc).trans (Nat.lt_succ_self _)
  nodup := hl.nodup
  returned c ok hr := by
    obtain ⟨hlt, hact, hord⟩ := hl.returned c ok (by simpa [History.start] using hr)
    refine ⟨hlt.trans (Nat.lt_succ_self _), ?_, hord⟩
    rw [Function.update_of_ne (Nat.ne_of_lt hlt)]
    exact hact
  ended c hc hact := by
    have hne : c ≠ h.calls := by
      rintro rfl
      rw [Function.update_self] at hact
      cases hact
    rw [Function.update_of_ne hne] at hact
    change c < h.calls + 1 at hc
    obtain ⟨ok, hr⟩ := hl.ended c (by omega) hact
    exact ⟨ok, List.mem_append_left _ hr⟩
  realTime c ok d hcd hc hd := by
    rcases pair_sublist_concat.1 hcd with hcd | ⟨-, he⟩
    · exact hl.realTime c ok d hcd hc hd
    · cases he
      exact absurd (hl.order_lt _ hd) (lt_irrefl _)

theorem Linear.place (hl : h.Linear active) (hc : active c = some false) :
    (h.place c).Linear (Function.update active c (some true)) := by
  have hnot : c ∉ h.order := fun hin => by
    have := (hl.placed c false hc).1 hin
    cases this
  refine ⟨fun d b hd => ?_, fun d b hd => ?_, fun d hd => ?_, ?_, fun d ok hr => ?_,
    fun d hd hact => ?_, fun d ok e hde hd he => ?_⟩
  · by_cases hne : d = c
    · exact hne ▸ hl.active_lt c false hc
    · rw [Function.update_of_ne hne] at hd
      exact hl.active_lt d b hd
  · by_cases hne : d = c
    · subst hne
      rw [Function.update_self] at hd
      cases hd
      simp [History.place]
    · rw [Function.update_of_ne hne] at hd
      simpa [History.place, hne] using hl.placed d b hd
  · rcases List.mem_append.1 hd with hd | hd
    · exact hl.order_lt d hd
    · exact List.mem_singleton.1 hd ▸ hl.active_lt c false hc
  · refine List.nodup_append.2 ⟨hl.nodup, List.nodup_singleton c, fun d hd e he hde => hnot ?_⟩
    rwa [← List.mem_singleton.1 he, ← hde]
  · obtain ⟨hlt, hact, hord⟩ := hl.returned d ok hr
    have hne : d ≠ c := by
      rintro rfl
      rw [hact] at hc
      cases hc
    refine ⟨hlt, by rw [Function.update_of_ne hne]; exact hact, ?_⟩
    simpa [History.place, hne] using hord
  · have hne : d ≠ c := by
      rintro rfl
      rw [Function.update_self] at hact
      cases hact
    rw [Function.update_of_ne hne] at hact
    exact hl.ended d hd hact
  · rcases List.mem_append.1 he with he | he
    · rcases List.mem_append.1 hd with hd | hd
      · exact (hl.realTime d ok e hde hd he).trans (List.sublist_append_left _ _)
      · -- the call has not returned
        cases List.mem_singleton.1 hd
        have hr := (hl.returned c ok (hde.subset List.mem_cons_self)).2.1
        rw [hr] at hc
        cases hc
    · cases List.mem_singleton.1 he
      rcases List.mem_append.1 hd with hd | hd
      · exact pair_sublist_concat.2 (.inr ⟨hd, rfl⟩)
      · cases List.mem_singleton.1 hd
        have hr := (hl.returned c ok (hde.subset List.mem_cons_self)).2.1
        rw [hr] at hc
        cases hc

theorem Linear.finish (hl : h.Linear active) (hc : active c = some b) :
    (h.finish c b).Linear (Function.update active c none) := by
  refine ⟨fun d b hd => ?_, fun d b hd => ?_, hl.order_lt, hl.nodup, fun d ok hr => ?_,
    fun d hd hact => ?_, fun d ok e hde hd he => ?_⟩
  · by_cases hne : d = c
    · subst hne
      rw [Function.update_self] at hd
      cases hd
    · rw [Function.update_of_ne hne] at hd
      exact hl.active_lt d b hd
  · by_cases hne : d = c
    · subst hne
      rw [Function.update_self] at hd
      cases hd
    · rw [Function.update_of_ne hne] at hd
      exact hl.placed d b hd
  · rcases List.mem_append.1 hr with hr | hr
    · obtain ⟨hlt, hact, hord⟩ := hl.returned d ok hr
      refine ⟨hlt, ?_, hord⟩
      by_cases hne : d = c
      · rw [hne, Function.update_self]
      · rw [Function.update_of_ne hne]
        exact hact
    · cases List.mem_singleton.1 hr
      exact ⟨hl.active_lt c b hc, Function.update_self .., hl.placed c b hc⟩
  · by_cases hne : d = c
    · exact ⟨b, hne ▸ List.mem_append_right _ (List.mem_singleton_self _)⟩
    · rw [Function.update_of_ne hne] at hact
      obtain ⟨ok, hr⟩ := hl.ended d hd hact
      exact ⟨ok, List.mem_append_left _ hr⟩
  · rcases pair_sublist_concat.1 hde with hde | ⟨-, hx⟩
    · exact hl.realTime d ok e hde hd he
    · cases hx

theorem Linear.mem_order (hl : h.Linear active) (hrest : ∀ c, active c = none) :
    c ∈ h.order ↔ .returned c true ∈ h.events := by
  constructor
  · intro hin
    obtain ⟨ok, hr⟩ := hl.ended c (hl.order_lt c hin) (hrest c)
    rwa [← (hl.returned c ok hr).2.2.1 hin]
  · exact fun hr => (hl.returned c true hr).2.2.2 rfl

end History

end VcsClient.Lib
