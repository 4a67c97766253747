import Mathlib.Data.List.AList
import VcsClient.Lib.Machine
import VcsClient.Lib.Patches

/-!
# Settings commits from a window

`commitSettings` of one window (`settingsCommit.ts`), the echo it listens to
(`useSettingsSync.ts`) and `App.SetSettings` (`settings.go`). Each commit sends the whole
struct, built on the newest request that has not settled or on the last echo. The calls run
in the backend one at a time, under `writeMu`, in any order; a save that fails leaves the
settings as they were and emits nothing.

A settings struct is a function of its persisted fields. The fields the backend derives
(labels, availability, the order of the effects) and the running audio engine are left out.
-/

namespace VcsClient.Settings

open VcsClient.Lib

variable {φ ν : Type} [DecidableEq φ]

/-- A settings struct and, as a ghost, the changes that went into it. -/
structure Version (φ ν : Type) where
  value : φ → ν
  built : List (NumberedPatch φ ν)

/-- A request of `commitSettings`; the number of its change is the identity of `next`. -/
structure Request (φ ν : Type) where
  base : Version φ ν
  change : NumberedPatch φ ν

def Request.next (r : Request φ ν) : Version φ ν where
  value := r.change.patch.apply r.base.value
  built := r.base.built ++ [r.change]

/-- A call of `api.setSettings` whose promise has not settled. -/
structure Call (φ ν : Type) where
  request : Request φ ν
  /-- what the backend answered; `none` while it has not run the call -/
  outcome : Option Bool

structure Commits (φ ν : Type) where
  /-- `usePendingSettings` -/
  pending : Option (Request φ ν)
  /-- `useSettings` -/
  stored : Option (Version φ ν)
  calls : AList fun _ : ℕ => Call φ ν
  /-- the commits made so far -/
  commits : ℕ
  /-- `sb.cfg` -/
  backend : Version φ ν
  /-- the `settings:changed` events under way -/
  echoes : List (Version φ ν)
  /-- Ghost: the changes whose own save succeeded, oldest first. -/
  saves : List (NumberedPatch φ ν)

namespace Commits

/-- A hydrated window, nothing under way. -/
def init (initial : φ → ν) : Commits φ ν where
  pending := none
  stored := some ⟨initial, []⟩
  calls := ∅
  commits := 0
  backend := ⟨initial, []⟩
  echoes := []
  saves := []

inductive CommitOp (φ ν : Type) where
  /-- `commitSettings`; the fields a change sets may depend on the base it is handed -/
  | commit (change : (φ → ν) → Patch φ ν)
  /-- `SetSettings` of a call, whose save succeeds -/
  | save (n : ℕ)
  /-- `SetSettings` of a call, whose save fails -/
  | reject (n : ℕ)
  /-- one of the echoes under way reaches the window -/
  | deliver (i : ℕ)
  /-- the promise of a call that has been answered settles -/
  | settle (n : ℕ)

/-- `pending ?? store`, what a commit is built on. -/
def base (s : Commits φ ν) : Option (Version φ ν) := (s.pending.map Request.next).or s.stored

/-- `useEffectiveSettings`. -/
def effective (s : Commits φ ν) : Option (φ → ν) := s.base.map Version.value

/-- `clear`: the overlay goes only when it is still this commit's. -/
def clear (s : Commits φ ν) (n : ℕ) : Option (Request φ ν) :=
  if s.pending.map (·.change.number) = some n then none else s.pending

def step (s : Commits φ ν) : CommitOp φ ν → Option (Commits φ ν)
  | .commit change =>
    match s.base with
    | none => some s
    | some base =>
      let r : Request φ ν := ⟨base, ⟨s.commits, change base.value⟩⟩
      some { s with
        pending := some r
        calls := s.calls.insert s.commits ⟨r, none⟩
        commits := s.commits + 1 }
  | .save n =>
    match s.calls.lookup n with
    | some ⟨r, none⟩ => some { s with
        calls := s.calls.insert n ⟨r, some true⟩
        backend := r.next
        echoes := s.echoes ++ [r.next]
        saves := s.saves ++ [r.change] }
    | _ => none
  | .reject n =>
    match s.calls.lookup n with
    | some ⟨r, none⟩ => some { s with calls := s.calls.insert n ⟨r, some false⟩ }
    | _ => none
  | .deliver i =>
    match s.echoes[i]? with
    | none => none
    | some v => some { s with stored := some v, echoes := s.echoes.eraseIdx i }
  | .settle n =>
    match s.calls.lookup n with
    | some ⟨_, some _⟩ => some { s with pending := s.clear n, calls := s.calls.erase n }
    | _ => none

/-- No call is in flight and no echo under way. -/
def Settled (s : Commits φ ν) : Prop := s.calls.keys = [] ∧ s.echoes = []

/-- What a window's commits promise of a state. -/
structure Faithful (initial : φ → ν) (s : Commits φ ν) : Prop where
  /-- The backend has every change whose save succeeded, unless a later one set the field. -/
  kept : ∀ c ∈ s.saves, ∀ f v, c.patch.lookup f = some v → s.backend.value f = v ∨
    ∃ c' ∈ s.saves, c.number < c'.number ∧ (c'.patch.lookup f).isSome
  /-- The backend has no value but the first and those of changes whose own save succeeded. -/
  sourced : ∀ f, s.backend.value f = initial f ∨
    ∃ c ∈ s.saves, c.patch.lookup f = some (s.backend.value f)
  /-- Once everything has settled the window shows what the backend has. -/
  shown : s.Settled → s.effective = some s.backend.value

/-- A save succeeds only for a request that was built on exactly the saves that succeeded
before it, and the echoes arrive in the order in which they were emitted. -/
def InTurn (s : Commits φ ν) : CommitOp φ ν → Prop
  | .save n => ∀ c ∈ s.calls.lookup n, c.request.base.built = s.saves
  | .deliver i => i = 0
  | .commit _ | .reject _ | .settle _ => True

instance [DecidableEq ν] (s : Commits φ ν) (op : CommitOp φ ν) : Decidable (s.InTurn op) :=
  match op with
  | .save n => inferInstanceAs (Decidable (∀ c ∈ s.calls.lookup n, c.request.base.built = s.saves))
  | .deliver i => inferInstanceAs (Decidable (i = 0))
  | .commit _ | .reject _ | .settle _ => .isTrue trivial

end Commits

end VcsClient.Settings
