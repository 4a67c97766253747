import Mathlib.Algebra.Ring.Parity
import VcsClient.App.PressBalance

/-!
# The mute flag

`App.pressed` and `App.released` (`settings.go`) with the mute cases of
`dispatchAudioPressed` and `dispatchAudioReleased` (`audio.go`), on an `App` with an
audio backend. Push-to-mute and the mute toggle write one flag. A press of push-to-mute
sets it and the release clears it, whatever the toggle has done: the flag is what the
toggle alone makes it when every release comes after an even number of toggles
(`mutes_composed`).
-/

namespace VcsClient.App

def pushToMute : ActionID := "global.push_to_mute"

def muteToggle : ActionID := "global.mute_toggle"

structure Muting where
  /-- `Manager.muted` -/
  muted : Bool
  presses : PressCount
  /-- what `AudioMicMuted` was called with -/
  emitted : List Bool

inductive MuteOp where
  | pressed (actionID : ActionID)
  | released (actionID : ActionID)
  deriving DecidableEq

namespace Muting

def init : Muting := ⟨false, ⟨∅⟩, []⟩

/-- `SetMuted`, and the event. -/
def setMuted (s : Muting) (muted : Bool) : Muting :=
  { s with muted := muted, emitted := s.emitted ++ [muted] }

/-- `dispatchAudioPressed`; the other cases leave the flag. -/
def dispatchAudioPressed (s : Muting) (actionID : ActionID) : Muting :=
  if actionID = "global.push_to_mute" then if !s.muted then s.setMuted true else s
  else if actionID = "global.mute_toggle" then s.setMuted !s.muted
  else s

/-- `dispatchAudioReleased`; the other cases leave the flag. -/
def dispatchAudioReleased (s : Muting) (actionID : ActionID) : Muting :=
  if actionID = "global.push_to_mute" then if s.muted then s.setMuted false else s
  else s

/-- `App.pressed`; the hold map has the actions of kind hold. -/
def pressed (s : Muting) (actionID : ActionID) : Muting :=
  if isHoldID actionID then
    let (emit, presses) := s.presses.press actionID
    let s := { s with presses := presses }
    if emit then s.dispatchAudioPressed actionID else s
  else s.dispatchAudioPressed actionID

/-- `App.released`. -/
def released (s : Muting) (actionID : ActionID) : Muting :=
  if isHoldID actionID then
    let (emit, presses) := s.presses.release actionID
    let s := { s with presses := presses }
    if emit then s.dispatchAudioReleased actionID else s
  else s.dispatchAudioReleased actionID

def apply (s : Muting) : MuteOp → Muting
  | .pressed actionID => s.pressed actionID
  | .released actionID => s.released actionID

def after (ops : List MuteOp) : Muting := ops.foldl apply init

def held (ops : List MuteOp) : ℕ := (after ops).presses.count pushToMute

/-- The state that the toggle alone determines. -/
def toggled (ops : List MuteOp) : Bool := decide (Odd (ops.count (.pressed muteToggle)))

/-- **The two controls compose.** A release is the one that ends a push-to-mute when no
other source holds it. -/
structure Composed (ops : List MuteOp) : Prop where
  restores : ∀ pre, pre ++ [.released pushToMute] <+: ops → held pre = 1 →
    (after (pre ++ [.released pushToMute])).muted = toggled pre
  /-- with no toggle inside it, a push-to-mute leaves the flag as it was -/
  tap : ∀ pre mid, pre ++ .pressed pushToMute :: mid ++ [.released pushToMute] <+: ops →
    held pre = 0 → (∀ mid', mid' <+: mid → 0 < held (pre ++ .pressed pushToMute :: mid')) →
    held (pre ++ .pressed pushToMute :: mid) = 1 → .pressed muteToggle ∉ mid →
    (after (pre ++ .pressed pushToMute :: mid ++ [.released pushToMute])).muted =
      (after pre).muted

/-! ## One edge -/

variable {s : Muting} {ops : List MuteOp} {id : ActionID}

@[simp] theorem after_concat (ops : List MuteOp) (op : MuteOp) :
    after (ops ++ [op]) = (after ops).apply op := by simp [after]

theorem isHoldID_pushToMute : isHoldID pushToMute = true := by decide

theorem isHoldID_muteToggle : isHoldID muteToggle = false := by decide

@[simp] theorem presses_dispatchAudioPressed :
    (s.dispatchAudioPressed id).presses = s.presses := by
  unfold dispatchAudioPressed
  split_ifs <;> rfl

@[simp] theorem presses_dispatchAudioReleased :
    (s.dispatchAudioReleased id).presses = s.presses := by
  unfold dispatchAudioReleased
  split_ifs <;> rfl

theorem muted_released (h : s.presses.count pushToMute = 1) :
    (s.apply (.released pushToMute)).muted = false := by
  show (s.released pushToMute).muted = false
  unfold released
  rw [if_pos isHoldID_pushToMute]
  simp only [PressCount.release_fst, h, decide_true, if_true]
  unfold dispatchAudioReleased
  rw [if_pos (show pushToMute = "global.push_to_mute" from rfl)]
  cases s.muted <;> simp [setMuted]

theorem apply_toggle : s.apply (.pressed muteToggle) = s.setMuted !s.muted := by
  show s.pressed muteToggle = _
  unfold pressed
  rw [if_neg (by simp [isHoldID_muteToggle])]
  rfl

/-- An edge of another action leaves the flag, and the count of push-to-mute. -/
theorem apply_other {op : MuteOp} (hpress : op ≠ .pressed pushToMute)
    (hrelease : op ≠ .released pushToMute) (htoggle : op ≠ .pressed muteToggle) :
    (s.apply op).muted = s.muted ∧
      (s.apply op).presses.count pushToMute = s.presses.count pushToMute := by
  cases op with
  | pressed id =>
    have hid : id ≠ pushToMute := fun h => hpress (h ▸ rfl)
    have hid' : id ≠ muteToggle := fun h => htoggle (h ▸ rfl)
    have hskip : ∀ s : Muting, s.dispatchAudioPressed id = s := fun s => by
      unfold dispatchAudioPressed
      rw [if_neg (show ¬id = "global.push_to_mute" from hid),
        if_neg (show ¬id = "global.mute_toggle" from hid')]
    show (s.pressed id).muted = _ ∧ (s.pressed id).presses.count _ = _
    unfold pressed
    simp only [hskip, ite_self]
    split
    · exact ⟨rfl, by rw [PressCount.press_count, if_neg hid.symm]⟩
    · exact ⟨rfl, rfl⟩
  | released id =>
    have hid : id ≠ pushToMute := fun h => hrelease (h ▸ rfl)
    have hskip : ∀ s : Muting, s.dispatchAudioReleased id = s := fun s => by
      unfold dispatchAudioReleased
      rw [if_neg (show ¬id = "global.push_to_mute" from hid)]
    show (s.released id).muted = _ ∧ (s.released id).presses.count _ = _
    unfold released
    simp only [hskip, ite_self]
    split
    · exact ⟨rfl, by rw [PressCount.release_count, if_neg hid.symm]⟩
    · exact ⟨rfl, rfl⟩

theorem count_pressed :
    (s.apply (.pressed pushToMute)).presses.count pushToMute =
      s.presses.count pushToMute + 1 := by
  show (s.pressed pushToMute).presses.count _ = _
  unfold pressed
  rw [if_pos isHoldID_pushToMute]
  dsimp only
  split <;> simp [PressCount.press_count]

theorem count_released :
    (s.apply (.released pushToMute)).presses.count pushToMute =
      s.presses.count pushToMute - 1 := by
  show (s.released pushToMute).presses.count _ = _
  unfold released
  rw [if_pos isHoldID_pushToMute]
  dsimp only
  split <;> simp [PressCount.release_count]

theorem muted_released_idle (h : s.presses.count pushToMute = 0) :
    (s.apply (.released pushToMute)).muted = s.muted := by
  show (s.released pushToMute).muted = _
  unfold released
  rw [if_pos isHoldID_pushToMute]
  simp [PressCount.release_fst, h]

theorem toggled_toggle (ops : List MuteOp) :
    toggled (ops ++ [.pressed muteToggle]) = !toggled ops := by
  simp [toggled, Nat.odd_add_one, -Nat.not_odd_iff_even]

theorem toggled_other {op : MuteOp} (h : op ≠ .pressed muteToggle) :
    toggled (ops ++ [op]) = toggled ops := by
  simp [toggled, h]

/-! ## Runs -/

/-- The releases that end a push-to-mute come after an even number of toggles. -/
def EvenReleases (ops : List MuteOp) : Prop :=
  ∀ pre, pre ++ [.released pushToMute] <+: ops → held pre = 1 → toggled pre = false

theorem EvenReleases.mono {ops' : List MuteOp} (h : EvenReleases ops) (hpre : ops' <+: ops) :
    EvenReleases ops' := fun pre hp => h pre (hp.trans hpre)

/-- **Without push-to-mute the flag is the toggle's.** -/
theorem muted_eq_toggled (h : EvenReleases ops) (hheld : held ops = 0) :
    (after ops).muted = toggled ops := by
  induction ops using List.reverseRecOn with
  | nil => rfl
  | append_singleton ops op ih =>
    have ih := ih (h.mono (List.prefix_append _ _))
    unfold held at hheld
    rw [after_concat] at hheld ⊢
    by_cases hpress : op = .pressed pushToMute
    · subst hpress
      rw [count_pressed] at hheld
      omega
    by_cases hrelease : op = .released pushToMute
    · subst hrelease
      rw [count_released] at hheld
      rw [toggled_other (by decide)]
      obtain hzero | hone : held ops = 0 ∨ held ops = 1 := by
        unfold held
        omega
      · rw [muted_released_idle hzero, ih hzero]
      · rw [muted_released hone, h ops (List.prefix_refl _) hone]
    by_cases htoggle : op = .pressed muteToggle
    · subst htoggle
      rw [apply_toggle] at hheld ⊢
      rw [toggled_toggle, ← ih hheld]
      rfl
    · obtain ⟨hmuted, hcount⟩ := apply_other hpress hrelease htoggle (s := after ops)
      rw [hmuted, toggled_other htoggle]
      exact ih (hcount.symm.trans hheld)

/-- **The mute controls compose** exactly when every release that ends a push-to-mute comes
after an even number of toggles. -/
theorem mutes_composed (ops : List MuteOp) :
    Composed ops ↔ ∀ pre, pre ++ [.released pushToMute] <+: ops → held pre = 1 →
      toggled pre = false := by
  constructor
  · intro h pre hpre hheld
    rw [← h.restores pre hpre hheld, after_concat, muted_released hheld]
  · intro h
    refine ⟨fun pre hpre hheld => ?_, fun pre mid hops hzero hin hheld hnone => ?_⟩
    · rw [after_concat, muted_released hheld, h pre hpre hheld]
    · have htap : toggled (pre ++ .pressed pushToMute :: mid) = toggled pre := by
        unfold toggled
        rw [List.count_append, List.count_cons_of_ne (by decide), List.count_eq_zero.2 hnone,
          Nat.add_zero]
      have hpre : pre <+: ops := List.IsPrefix.trans ⟨_, (List.append_assoc _ _ _).symm⟩ hops
      rw [after_concat, muted_released hheld,
        muted_eq_toggled (EvenReleases.mono h hpre) hzero, ← htap, h _ hops hheld]

/-- **A tap of push-to-mute opens a muted microphone.** -/
theorem mutes_opened : ¬∀ ops, Composed ops := by
  intro h
  have htap := (h [.pressed muteToggle, .pressed pushToMute, .released pushToMute]).tap
    [.pressed muteToggle] [] (List.prefix_refl _) (by decide) ?_ (by decide) nofun
  · exact absurd htap (by decide)
  · intro mid' hmid
    rw [List.prefix_nil.1 hmid]
    decide

end Muting

end VcsClient.App
