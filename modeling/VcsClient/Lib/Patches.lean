import Mathlib.Data.List.Induction
import Mathlib.Logic.Basic

/-!
# Overwriting cells, and patches of a record

A store of cells is a function from cells to values, and an update writes some
of the cells, each with a value that does not depend on the store. A run of
such updates is again one update, whose value at a cell is the last one written
there (`replay_eq`), so a run may be replayed over a store that has part of it
already: `replay_overlap`.

A record is a function of its fields, a patch lists the fields a change sets, and
`patched` applies numbered patches one after another. A field of the result holds what the
last patch that set it gave it, and its first value when none did.
-/

namespace VcsClient.Lib

/-! ## Cells -/

section Cells

variable {κ : Type*} {α : κ → Type*}

/-- Write the cells that `w` has a value for. -/
def overwrite (w : ∀ k, Option (α k)) (s : ∀ k, α k) : ∀ k, α k := fun k => (w k).getD (s k)

/-- The updates one after the other. -/
def replay (ws : List (∀ k, Option (α k))) (s : ∀ k, α k) : ∀ k, α k :=
  ws.foldl (fun s w => overwrite w s) s

/-- What a run of updates leaves in each cell it writes. -/
def lastWrite (ws : List (∀ k, Option (α k))) : ∀ k, Option (α k) :=
  ws.foldl (fun v w k => (w k).or (v k)) fun _ => none

@[simp] theorem replay_nil (s : ∀ k, α k) : replay [] s = s := rfl

@[simp] theorem replay_cons (w : ∀ k, Option (α k)) (ws : List (∀ k, Option (α k)))
    (s : ∀ k, α k) : replay (w :: ws) s = replay ws (overwrite w s) := rfl

@[simp] theorem replay_append (ws ws' : List (∀ k, Option (α k))) (s : ∀ k, α k) :
    replay (ws ++ ws') s = replay ws' (replay ws s) := List.foldl_append

theorem overwrite_or (v w : ∀ k, Option (α k)) (s : ∀ k, α k) :
    overwrite (fun k => (w k).or (v k)) s = overwrite w (overwrite v s) := by
  funext k
  cases h : w k <;> simp [overwrite, h]

theorem overwrite_overwrite (w : ∀ k, Option (α k)) (s : ∀ k, α k) :
    overwrite w (overwrite w s) = overwrite w s := by
  funext k
  cases h : w k <;> simp [overwrite, h]

theorem replay_eq (ws : List (∀ k, Option (α k))) (s : ∀ k, α k) :
    replay ws s = overwrite (lastWrite ws) s := by
  suffices h : ∀ v, replay ws (overwrite v s) =
      overwrite (ws.foldl (fun v w k => (w k).or (v k)) v) s by
    exact h fun _ => none
  induction ws with
  | nil => exact fun v => rfl
  | cons w ws ih =>
    intro v
    rw [replay_cons, ← overwrite_or, ih]
    rfl

/-- Replaying a run that is in the store already changes nothing. -/
theorem replay_replay (ws : List (∀ k, Option (α k))) (s : ∀ k, α k) :
    replay ws (replay ws s) = replay ws s := by
  simp only [replay_eq, overwrite_overwrite]

/-- **Overlap.** A store that holds `pre` and `mid` is brought up to date by
replaying `mid` and `post`, although it has `mid` already. -/
theorem replay_overlap (pre mid post : List (∀ k, Option (α k))) (s : ∀ k, α k) :
    replay (mid ++ post) (replay (pre ++ mid) s) = replay (pre ++ mid ++ post) s := by
  simp only [replay_append, replay_replay]

end Cells

/-! ## Records -/

section Records

variable {φ ν : Type} [DecidableEq φ]

/-- The fields a change sets; the first entry of a field counts. -/
abbrev Patch (φ ν : Type) := List (φ × ν)

def Patch.apply (p : Patch φ ν) : (φ → ν) → φ → ν := overwrite fun f => p.lookup f

structure NumberedPatch (φ ν : Type) where
  number : ℕ
  patch : Patch φ ν
  deriving DecidableEq

/-- The patches one after the other. -/
def patched (r : φ → ν) (ps : List (NumberedPatch φ ν)) : φ → ν :=
  replay (ps.map fun p f => p.patch.lookup f) r

@[simp] theorem patched_nil (r : φ → ν) : patched r [] = r := rfl

@[simp] theorem patched_concat (r : φ → ν) (ps : List (NumberedPatch φ ν))
    (p : NumberedPatch φ ν) : patched r (ps ++ [p]) = p.patch.apply (patched r ps) := by
  simp [patched, Patch.apply]

theorem Patch.apply_of_some {p : Patch φ ν} {r : φ → ν} {f : φ} {v : ν}
    (h : p.lookup f = some v) : p.apply r f = v := by
  simp [Patch.apply, overwrite, h]

theorem Patch.apply_of_none {p : Patch φ ν} {r : φ → ν} {f : φ} (h : p.lookup f = none) :
    p.apply r f = r f := by
  simp [Patch.apply, overwrite, h]

/-- A field holds its first value or one that a patch gave it. -/
theorem patched_sourced (r : φ → ν) (ps : List (NumberedPatch φ ν)) (f : φ) :
    patched r ps f = r f ∨ ∃ p ∈ ps, p.patch.lookup f = some (patched r ps f) := by
  induction ps using List.reverseRecOn with
  | nil => exact .inl rfl
  | append_singleton ps p ih =>
    rw [patched_concat]
    cases hv : p.patch.lookup f with
    | some v => exact .inr ⟨p, by simp, by rw [hv, Patch.apply_of_some hv]⟩
    | none =>
      rw [Patch.apply_of_none hv]
      obtain h | ⟨q, hq, h⟩ := ih
      · exact .inl h
      · exact .inr ⟨q, List.mem_append_left _ hq, h⟩

/-- A field holds what a patch gave it unless a patch of a higher number set it. -/
theorem patched_kept {r : φ → ν} {ps : List (NumberedPatch φ ν)}
    (hps : ps.Pairwise (·.number < ·.number)) {p : NumberedPatch φ ν} (hp : p ∈ ps) {f : φ}
    {v : ν} (hv : p.patch.lookup f = some v) :
    patched r ps f = v ∨ ∃ q ∈ ps, p.number < q.number ∧ (q.patch.lookup f).isSome := by
  induction ps using List.reverseRecOn with
  | nil => cases hp
  | append_singleton ps d ih =>
    rw [List.pairwise_append] at hps
    obtain ⟨hbefore, -, hlast⟩ := hps
    rw [patched_concat]
    rcases List.mem_append.1 hp with hp | hp
    · cases hd : d.patch.lookup f with
      | some w => exact .inr ⟨d, by simp, hlast p hp d (by simp), by simp [hd]⟩
      | none =>
        rw [Patch.apply_of_none hd]
        obtain h | ⟨q, hq, h⟩ := ih hbefore hp
        · exact .inl h
        · exact .inr ⟨q, List.mem_append_left _ hq, h⟩
    · obtain rfl := List.mem_singleton.1 hp
      exact .inl (Patch.apply_of_some hv)

end Records

end VcsClient.Lib
