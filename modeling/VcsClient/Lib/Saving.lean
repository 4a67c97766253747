import Mathlib.Logic.Function.Basic

/-!
# Storing a value outside its lock

Parties change a value in sections of one lock and store it afterwards, one party at a time
under a second lock: whoever holds that one copies the value and writes the copy out. A copy
can be old by the time it is written, but then somebody is still to write. Once all are done
the value stored is the value in place, unless the last write failed (`Desk.Sound.settled`).
-/

namespace VcsClient.Lib

/-- Where a party is with storing the value. -/
inductive Stage (β : Type*) where
  | idle
  | owes
  /-- It holds the lock of the store. -/
  | copying
  | writing (copy : β)
  | unlocking

def Stage.holds {β : Type*} : Stage β → Bool
  | .idle | .owes => false
  | .copying | .writing _ | .unlocking => true

/-- `held` is the lock of the store, `failed` the fate of the last write. -/
structure Desk (ι β : Type*) where
  stage : ι → Stage β
  value : β
  stored : β
  failed : Bool
  held : Bool

namespace Desk

variable {ι β : Type*}

structure Sound (d : Desk ι β) : Prop where
  free : d.held = false → ∀ i, (d.stage i).holds = false
  alone : ∀ i j, (d.stage i).holds = true → (d.stage j).holds = true → i = j
  /-- An old copy is not the last one. -/
  fresh : ∀ i copy, d.stage i = .writing copy → copy = d.value ∨ ∃ j, d.stage j = .owes
  stored : d.failed = true ∨ (∃ i, d.stage i = .owes) ∨ (∃ i, d.stage i = .copying) ∨
    (∃ i, d.stage i = .writing d.value) ∨ d.stored = d.value

variable {d : Desk ι β}

/-- **The store catches up.** -/
theorem Sound.settled (h : d.Sound) (hq : ∀ i, d.stage i = .idle) (hf : d.failed = false) :
    d.stored = d.value := by
  obtain hfail | ⟨i, hi⟩ | ⟨i, hi⟩ | ⟨i, hi⟩ | heq := h.stored
  · rw [hf] at hfail
    cases hfail
  · rw [hq] at hi
    cases hi
  · rw [hq] at hi
    cases hi
  · rw [hq] at hi
    cases hi
  · exact heq

variable {i : ι}

theorem Sound.others (h : d.Sound) (hi : (d.stage i).holds = true) {j : ι} (hj : j ≠ i) :
    (d.stage j).holds = false := by
  by_contra hh
  exact hj (h.alone j i (by simpa using hh) hi)

theorem Sound.locked (h : d.Sound) (hi : (d.stage i).holds = true) : d.held ≠ false := by
  intro hm
  rw [h.free hm i] at hi
  cases hi

theorem Sound.only_writer (h : d.Sound) (hi : (d.stage i).holds = true) {j : ι} {copy : β}
    (hj : j ≠ i) : d.stage j ≠ .writing copy := by
  intro hw
  have := h.others hi hj
  rw [hw] at this
  cases this

variable [DecidableEq ι]

/-- A value changes, and the party that changed it is to store it. -/
theorem Sound.change (h : d.Sound) (hi : (d.stage i).holds = false) (v : β) :
    Sound { d with stage := Function.update d.stage i .owes, value := v } where
  free hm j := by
    by_cases hj : j = i
    · subst hj; simp [Stage.holds]
    · simpa [hj] using h.free hm j
  alone j k hj hk := by
    by_cases hji : j = i
    · subst hji; simp [Stage.holds] at hj
    by_cases hki : k = i
    · subst hki; simp [Stage.holds] at hk
    exact h.alone j k (by simpa [hji] using hj) (by simpa [hki] using hk)
  fresh j copy _ := .inr ⟨i, Function.update_self ..⟩
  stored := .inr (.inl ⟨i, Function.update_self ..⟩)

theorem Sound.lock (h : d.Sound) (hm : d.held = false) :
    Sound { d with stage := Function.update d.stage i .copying, held := true } where
  free hm' := by cases hm'
  alone j k hj hk := by
    have hnone : ∀ n, n ≠ i → (Function.update d.stage i .copying n).holds ≠ true := by
      intro n hn
      rw [Function.update_of_ne hn, h.free hm n]
      simp
    have hji : j = i := by
      by_contra hne
      exact hnone j hne hj
    have hki : k = i := by
      by_contra hne
      exact hnone k hne hk
    rw [hji, hki]
  fresh j copy hj := by
    by_cases hji : j = i
    · subst hji; simp at hj
    · change Function.update d.stage i _ j = _ at hj
      rw [Function.update_of_ne hji] at hj
      have := h.free hm j
      rw [hj] at this
      cases this
  stored := .inr (.inr (.inl ⟨i, Function.update_self ..⟩))

theorem Sound.alone_update (h : d.Sound) (hi : (d.stage i).holds = true) (st : Stage β) (j k : ι)
    (hj : (Function.update d.stage i st j).holds = true)
    (hk : (Function.update d.stage i st k).holds = true) : j = k := by
  have hself : ∀ n, (Function.update d.stage i st n).holds = true → n = i := by
    intro n hn
    by_contra hne
    rw [Function.update_of_ne hne, h.others hi hne] at hn
    cases hn
  rw [hself j hj, hself k hk]

theorem Sound.copy (h : d.Sound) (hi : d.stage i = .copying) :
    Sound { d with stage := Function.update d.stage i (.writing d.value) } where
  free hm := by
    have hlocked := h.locked (i := i) (by rw [hi]; rfl)
    exact absurd hm hlocked
  alone := h.alone_update (by rw [hi]; rfl) _
  fresh j copy hj := by
    by_cases hji : j = i
    · subst hji
      simp only [Function.update_self, Stage.writing.injEq] at hj
      exact .inl hj.symm
    · change Function.update d.stage i _ j = _ at hj
      rw [Function.update_of_ne hji] at hj
      exact absurd hj (h.only_writer (by rw [hi]; rfl) hji)
  stored := .inr (.inr (.inr (.inl ⟨i, Function.update_self ..⟩)))

theorem Sound.write (h : d.Sound) {copy : β} (hi : d.stage i = .writing copy) (ok : Bool) :
    Sound { d with stage := Function.update d.stage i .unlocking,
                   stored := if ok then copy else d.stored, failed := !ok } where
  free hm := by
    have hlocked := h.locked (i := i) (by rw [hi]; rfl)
    exact absurd hm hlocked
  alone := h.alone_update (by rw [hi]; rfl) _
  fresh j copy' hj := by
    by_cases hji : j = i
    · subst hji; simp at hj
    · change Function.update d.stage i _ j = _ at hj
      rw [Function.update_of_ne hji] at hj
      exact absurd hj (h.only_writer (by rw [hi]; rfl) hji)
  stored := by
    cases ok with
    | false => exact .inl rfl
    | true =>
      obtain heq | ⟨j, hj⟩ := h.fresh i copy hi
      · exact .inr (.inr (.inr (.inr heq)))
      · refine .inr (.inl ⟨j, ?_⟩)
        rw [← hj]
        refine Function.update_of_ne ?_ _ _
        rintro rfl
        rw [hi] at hj
        cases hj

theorem Sound.unlock (h : d.Sound) (hi : d.stage i = .unlocking) :
    Sound { d with stage := Function.update d.stage i .idle, held := false } where
  free _ j := by
    by_cases hj : j = i
    · subst hj; simp [Stage.holds]
    · simpa [hj] using h.others (i := i) (by rw [hi]; rfl) hj
  alone := h.alone_update (by rw [hi]; rfl) _
  fresh j copy hj := by
    by_cases hji : j = i
    · subst hji; simp at hj
    · change Function.update d.stage i _ j = _ at hj
      rw [Function.update_of_ne hji] at hj
      exact absurd hj (h.only_writer (by rw [hi]; rfl) hji)
  stored := by
    have hother : ∀ j st, d.stage j = st → st ≠ .unlocking →
        Function.update d.stage i .idle j = st := by
      intro j st hj hne
      rw [Function.update_of_ne, hj]
      rintro rfl
      exact hne (hj.symm.trans hi)
    obtain hf | ⟨j, hj⟩ | ⟨j, hj⟩ | ⟨j, hj⟩ | heq := h.stored
    · exact .inl hf
    · exact .inr (.inl ⟨j, hother j _ hj (by simp)⟩)
    · exact .inr (.inr (.inl ⟨j, hother j _ hj (by simp)⟩))
    · exact .inr (.inr (.inr (.inl ⟨j, hother j _ hj (by simp)⟩)))
    · exact .inr (.inr (.inr (.inr heq)))

end Desk

end VcsClient.Lib
