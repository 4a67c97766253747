import Mathlib.Data.Finset.Union
import Mathlib.Data.List.AList
import VcsClient.Keybinds.Trigger

/-!
# Which joystick actions are active

`internal/joystick/resolve.go`: the actions a sample of the devices holds down. A
binding without a modifier gives way to an active one that uses its button.
-/

namespace VcsClient.Joystick

open VcsClient.Keybinds

abbrev ActionID := String

structure Binding where
  joy : JoyBinding
  hold : Bool
  deriving DecidableEq

/-- What `Apply` is given. -/
abbrev Binds := AList fun _ : ActionID => List Binding

/-- A sample of every connected device. -/
structure State where
  held : Finset JoyButton

def State.isHeld (s : State) (b : JoyButton) : Bool := b ∈ s.held

def Binding.satisfied (s : State) (b : Binding) : Bool :=
  s.isHeld b.joy.main && b.joy.modifier.all s.isHeld

def satisfied (binds : Binds) (s : State) : List (ActionID × JoyBinding) :=
  binds.entries.flatMap fun e => (e.2.filter (·.satisfied s)).map fun b => (e.1, b.joy)

/-- Pass 2: the buttons of the active bindings that have a modifier. -/
def claimed (sat : List (ActionID × JoyBinding)) : List JoyButton :=
  sat.flatMap fun t =>
    match t.2.modifier with
    | none => []
    | some m => [t.2.main, m]

/-- `Active`. -/
def active (binds : Binds) (s : State) : Finset ActionID :=
  let sat := satisfied binds s
  let claimed := claimed sat
  ((sat.filter fun t => !(t.2.modifier.isNone && claimed.contains t.2.main)).map (·.1)).toFinset

/-- `Apply`'s hold map: the actions that a binding of theirs makes hold actions. -/
def holdOf (binds : Binds) : Finset ActionID :=
  ((binds.entries.filter fun e => e.2.any (·.hold)).map (·.1)).toFinset

/-- If the action is bound at all, a binding of its makes it a hold action. -/
def BoundHold (id : ActionID) (binds : Binds) : Prop :=
  ∀ list ∈ binds.lookup id, list ≠ [] → list.any (·.hold) = true

instance (id : ActionID) (binds : Binds) : Decidable (BoundHold id binds) :=
  match h : binds.lookup id with
  | none => .isTrue fun list hl => by simp [h] at hl
  | some list =>
    decidable_of_iff (list ≠ [] → list.any (·.hold) = true) (by simp [BoundHold, h])

/-- An active action is bound, and one of its bindings is satisfied. -/
theorem exists_of_mem_active {binds : Binds} {s : State} {id : ActionID}
    (h : id ∈ active binds s) : ∃ list ∈ binds.lookup id, ∃ b ∈ list, b.satisfied s = true := by
  simp only [active, List.mem_toFinset, List.mem_map, List.mem_filter] at h
  obtain ⟨⟨id', joy⟩, ⟨hsat, -⟩, rfl⟩ := h
  simp only [satisfied, List.mem_flatMap, List.mem_map, List.mem_filter] at hsat
  obtain ⟨⟨id, list⟩, he, b, ⟨hb, hs⟩, hp⟩ := hsat
  obtain ⟨rfl, -⟩ := Prod.mk.inj hp
  exact ⟨list, AList.mem_lookup_iff.2 he, b, hb, hs⟩

theorem mem_holdOf {binds : Binds} {id : ActionID} :
    id ∈ holdOf binds ↔ ∃ list ∈ binds.lookup id, list.any (·.hold) = true := by
  simp only [holdOf, List.mem_toFinset, List.mem_map, List.mem_filter]
  constructor
  · rintro ⟨⟨id, list⟩, ⟨he, hany⟩, rfl⟩
    exact ⟨list, AList.mem_lookup_iff.2 he, hany⟩
  · rintro ⟨list, hl, hany⟩
    exact ⟨⟨id, list⟩, ⟨AList.mem_lookup_iff.1 hl, hany⟩, rfl⟩

/-- **A hold action that is active** is in the hold map. -/
theorem mem_holdOf_of_active {binds : Binds} {s : State} {id : ActionID}
    (hb : BoundHold id binds) (h : id ∈ active binds s) : id ∈ holdOf binds := by
  obtain ⟨list, hl, b, hmem, -⟩ := exists_of_mem_active h
  exact mem_holdOf.2 ⟨list, hl, hb list hl (List.ne_nil_of_mem hmem)⟩

end VcsClient.Joystick
