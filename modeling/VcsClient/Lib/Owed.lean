import Mathlib.Data.List.Induction
import Mathlib.Logic.Basic
import Mathlib.Tactic.Common

/-!
# Work owed after a lock is dropped

A goroutine that commits under a lock and acts after unlocking owes its
actions. The list of everything owed, oldest commit first, records who owes
what. `takeFirst g` is goroutine `g` performing its next piece: program order
within `g`, no order between goroutines. `InTurn key g` says that no older
piece with the same key is still owed by someone else, and
`takeFirst_filter` is what this buys: per key, performing the piece moves the
head of the queue of owed work. For pieces of which only the newest matters,
`Repeats g` says that the older ones are the same as the one performed, and
`takeFirst_newest` that the newest stays what it was.
-/

namespace VcsClient.Lib

variable {γ τ κ : Type*} [DecidableEq γ]

/-- `g` performs the first piece of work it owes. -/
def takeFirst (g : γ) : List (γ × τ) → Option (τ × List (γ × τ))
  | [] => none
  | (g', t) :: rest =>
    if g' = g then some (t, rest)
    else (takeFirst g rest).map fun p => (p.1, (g', t) :: p.2)

/-- `g` owes nothing. -/
def Idle (g : γ) (owed : List (γ × τ)) : Prop := ∀ p ∈ owed, p.1 ≠ g

instance (g : γ) (owed : List (γ × τ)) : Decidable (Idle g owed) :=
  inferInstanceAs (Decidable (∀ p ∈ owed, p.1 ≠ g))

/-- The piece of work `g` would perform next is the oldest one owed with its
key. -/
def InTurn (key : τ → κ) (g : γ) : List (γ × τ) → Prop
  | [] => True
  | (g', t) :: rest =>
    g' = g ∨ ((∀ p ∈ takeFirst g rest, key t ≠ key p.1) ∧ InTurn key g rest)

instance InTurn.instDecidable [DecidableEq κ] (key : τ → κ) (g : γ) :
    ∀ owed : List (γ × τ), Decidable (InTurn key g owed)
  | [] => .isTrue trivial
  | (_, _) :: rest =>
    have := InTurn.instDecidable key g rest
    inferInstanceAs (Decidable (_ ∨ _ ∧ _))

/-- Every older piece still owed is the same as the one `g` would perform next. -/
def Repeats (g : γ) (owed : List (γ × τ)) : Prop :=
  ∀ r ∈ takeFirst g owed, ∀ p ∈ owed.takeWhile (·.1 ≠ g), p.2 = r.1

instance [DecidableEq τ] (g : γ) (owed : List (γ × τ)) : Decidable (Repeats g owed) :=
  inferInstanceAs (Decidable (∀ r ∈ takeFirst g owed, ∀ p ∈ owed.takeWhile (·.1 ≠ g), p.2 = r.1))

/-- **In turn, the owed work of each key is a queue.** -/
theorem takeFirst_filter [DecidableEq κ] {key : τ → κ} {g : γ} {owed rest : List (γ × τ)} {t : τ}
    (h : takeFirst g owed = some (t, rest)) (hturn : InTurn key g owed) (k : κ) :
    (owed.map (·.2)).filter (key · = k) = (t :: rest.map (·.2)).filter (key · = k) := by
  induction owed generalizing rest with
  | nil => simp [takeFirst] at h
  | cons p owed ih =>
    obtain ⟨g', t'⟩ := p
    simp only [takeFirst] at h
    split at h
    · cases h; rfl
    · next hne =>
      obtain ⟨⟨t₁, r₁⟩, h₁, h₂⟩ := Option.map_eq_some_iff.mp h
      cases h₂
      rcases hturn with he | ⟨hkey, hrest⟩
      · exact absurd he hne
      · have hk : key t' ≠ key t₁ := hkey _ h₁
        have := ih h₁ hrest
        simp only [List.map_cons, List.filter_cons] at this ⊢
        rw [this]
        by_cases ht : key t₁ = k
        · have ht' : key t' ≠ k := fun e => hk (e.trans ht.symm)
          simp [ht, ht']
        · simp [ht]

/-- The newest piece of work, or `b` when nothing is owed. -/
def newest (b : τ) : List (γ × τ) → τ
  | [] => b
  | (_, t) :: rest => newest t rest

omit [DecidableEq γ] in
@[simp] theorem newest_append (b t : τ) (owed : List (γ × τ)) (g : γ) :
    newest b (owed ++ [(g, t)]) = t := by
  induction owed generalizing b with
  | nil => rfl
  | cons p owed ih => exact ih p.2

/-- **Repeating an older piece leaves the newest one** where it was. -/
theorem takeFirst_newest {g : γ} {owed rest : List (γ × τ)} {t b : τ}
    (h : takeFirst g owed = some (t, rest)) (hrep : ∀ p ∈ owed.takeWhile (·.1 ≠ g), p.2 = t) :
    newest t rest = newest b owed := by
  induction owed generalizing rest b with
  | nil => simp [takeFirst] at h
  | cons p owed ih =>
    obtain ⟨g', t'⟩ := p
    simp only [takeFirst] at h
    split at h
    · cases h
      rfl
    · next hne =>
      obtain ⟨⟨t₁, r₁⟩, h₁, h₂⟩ := Option.map_eq_some_iff.mp h
      cases h₂
      have hcons : List.takeWhile (fun q : γ × τ => decide (q.1 ≠ g)) ((g', t') :: owed) =
          (g', t') :: owed.takeWhile (·.1 ≠ g) := by simp [hne]
      rw [hcons] at hrep
      have ht' : t' = t₁ := hrep _ List.mem_cons_self
      have := ih (b := t') h₁ fun q hq => hrep q (List.mem_cons_of_mem _ hq)
      simp only [newest, ht'] at this ⊢
      exact this

end VcsClient.Lib
