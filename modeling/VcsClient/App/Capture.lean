import Mathlib.Data.List.AList
import VcsClient.Keybinds.Store
import VcsClient.Lib.Machine

/-!
# Captures

`BeginCapture`, `EndCapture`, the timeout and the completion of a joystick capture
(`settings.go`). A call checks its token in one section under `sb.mu`, and suspends, arms,
cancels or resumes the managers one after the other when it holds no lock; the manager's
goroutine delivers a completed capture, which checks its token in a section of its own and
binds under `writeMu`.

What the managers do while they are suspended or armed, the samples that complete a capture
and the events to the UI are left out.
-/

namespace VcsClient.App

open VcsClient.Lib

/-- Where a call stands, with its token and the number of its section under `sb.mu`. -/
inductive CapturePc where
  /-- `BeginCapture`, before `hk.Suspend` -/
  | suspendHotkeys (token n : ℕ)
  /-- before `jm.Suspend` -/
  | suspendJoystick (token n : ℕ)
  /-- before `jm.BeginCapture` -/
  | arm (token n : ℕ)
  /-- `resumeCapture`, before `sb.mu` -/
  | ending (token : ℕ)
  /-- before `hk.Resume` -/
  | resumeHotkeys (token n : ℕ)
  /-- before `jm.CancelCapture` -/
  | cancel (token n : ℕ)
  /-- before `jm.Resume` -/
  | resumeJoystick (token n : ℕ)
  deriving DecidableEq

/-- Where `onJoystickCaptured` stands. -/
inductive Completion where
  /-- before `sb.mu` -/
  | captured (token : ℕ)
  /-- before `writeMu` -/
  | checked (token : ℕ) (action : Keybinds.ActionID)
  deriving DecidableEq

def Completion.token : Completion → ℕ
  | .captured token | .checked token _ => token

def Completion.isChecked : Completion → Bool
  | .captured _ => false
  | .checked _ _ => true

/-- A binding a joystick capture made: whether its token was the current one then, and
whether an end of the current capture had returned. -/
structure Bound where
  action : Keybinds.ActionID
  current : Bool
  afterEnd : Bool
  deriving DecidableEq

structure CaptureRun where
  /-- there is a joystick manager -/
  hasJoy : Bool
  gen : ℕ
  action : Keybinds.ActionID
  /-- the token of the timer that may fire -/
  timer : Option ℕ
  /-- the hotkey manager is suspended -/
  hk : Bool
  /-- the joystick manager is suspended -/
  joy : Bool
  /-- the token of the armed joystick capture -/
  capture : Option ℕ
  calls : AList fun _ : ℕ => CapturePc
  completion : Option Completion
  /-- ghost: the sections of `BeginCapture`, and of ends that went on -/
  sections : ℕ
  /-- ghost: the section of the last `BeginCapture` -/
  begun : ℕ
  /-- ghost: the section of the call that was the last to act on each manager -/
  hkBy : ℕ
  joyBy : ℕ
  captureBy : ℕ
  /-- ghost: no capture is open -/
  ended : Bool
  /-- ghost: an end of the current capture has returned -/
  returned : Bool
  /-- ghost: the current joystick capture has completed -/
  completed : Bool
  /-- ghost: the bindings, oldest first -/
  bounds : List Bound

inductive CaptureOp where
  /-- `BeginCapture`, with its section under `sb.mu` -/
  | beginCapture (c : ℕ) (action : Keybinds.ActionID)
  | endCapture (c : ℕ) (token : ℕ)
  /-- the timer fires -/
  | fire (c : ℕ)
  /-- the call goes on -/
  | run (c : ℕ)
  /-- the armed joystick capture completes -/
  | complete
  /-- `onJoystickCaptured` checks its token -/
  | deliver
  /-- it binds, and saves the keybinds or puts them back -/
  | bind (saved : Bool)
  deriving DecidableEq

namespace CaptureRun

def init (hasJoy : Bool) : CaptureRun where
  hasJoy := hasJoy
  gen := 0
  action := ""
  timer := none
  hk := false
  joy := false
  capture := none
  calls := ∅
  completion := none
  sections := 0
  begun := 0
  hkBy := 0
  joyBy := 0
  captureBy := 0
  ended := true
  returned := false
  completed := false
  bounds := []

/-- The call goes on at `pc`. -/
def goto (s : CaptureRun) (c : ℕ) (pc : CapturePc) : CaptureRun :=
  { s with calls := s.calls.insert c pc }

def done (s : CaptureRun) (c : ℕ) : CaptureRun := { s with calls := s.calls.erase c }

def doneEnd (s : CaptureRun) (c token : ℕ) : CaptureRun :=
  { s.done c with returned := s.returned || decide (token = s.gen) }

def run (s : CaptureRun) (c : ℕ) : CapturePc → CaptureRun
  | .suspendHotkeys token n =>
    let s := { s with hk := true, hkBy := n }
    if s.hasJoy then s.goto c (.suspendJoystick token n) else s.done c
  | .suspendJoystick token n => { s with joy := true, joyBy := n }.goto c (.arm token n)
  | .arm token n => { s with capture := some token, captureBy := n }.done c
  | .ending token =>
    if token ≠ s.gen then s.done c
    else
      { s with timer := none, sections := s.sections + 1, ended := true }.goto c
        (.resumeHotkeys token (s.sections + 1))
  | .resumeHotkeys token n =>
    let s := { s with hk := false, hkBy := n }
    if s.hasJoy then s.goto c (.cancel token n) else s.doneEnd c token
  | .cancel token n => { s with capture := none, captureBy := n }.goto c (.resumeJoystick token n)
  | .resumeJoystick token n => { s with joy := false, joyBy := n }.doneEnd c token

def step (s : CaptureRun) : CaptureOp → Option CaptureRun
  | .beginCapture c action =>
    if c ∈ s.calls then none
    else
      some ({ s with
        gen := s.gen + 1
        action := action
        timer := some (s.gen + 1)
        sections := s.sections + 1
        begun := s.sections + 1
        ended := false
        returned := false
        completed := false }.goto c (.suspendHotkeys (s.gen + 1) (s.sections + 1)))
  | .endCapture c token => if c ∈ s.calls then none else some (s.goto c (.ending token))
  | .fire c =>
    match s.timer with
    | none => none
    | some token =>
      if c ∈ s.calls then none else some ({ s with timer := none }.goto c (.ending token))
  | .run c => (s.calls.lookup c).map (s.run c)
  | .complete =>
    match s.capture, s.completion with
    | some token, none =>
      some { s with
        capture := none
        completion := some (.captured token)
        completed := s.completed || decide (token = s.gen) }
    | _, _ => none
  | .deliver =>
    match s.completion with
    | some (.captured token) =>
      if token ≠ s.gen ∨ s.action = "" then some { s with completion := none }
      else some { s with completion := some (.checked token s.action) }
    | _ => none
  | .bind saved =>
    match s.completion with
    | some (.checked token action) =>
      some { s with
        completion := none
        bounds :=
          if saved then s.bounds ++ [⟨action, decide (token = s.gen), s.returned⟩] else s.bounds }
    | _ => none

/-- The `BeginCapture` of the token is still at work. -/
def CapturePc.begins (token : ℕ) : CapturePc → Bool
  | .suspendHotkeys t _ | .suspendJoystick t _ | .arm t _ => t == token
  | _ => false

/-- While the current capture is open, and its `BeginCapture` has returned: both managers are
suspended, and the joystick capture is armed or complete. -/
def Exclusive (s : CaptureRun) : Prop :=
  s.ended = false → (∀ c pc, s.calls.lookup c = some pc → CapturePc.begins s.gen pc = false) →
    s.hk = true ∧
      (s.hasJoy = true → s.joy = true ∧ (s.capture = some s.gen ∨ s.completed = true))

/-- When nothing is going on and no capture is open, neither manager is suspended. -/
def Resumed (s : CaptureRun) : Prop :=
  s.ended = true → s.calls.keys = [] → s.completion = none → s.hk = false ∧ s.joy = false

/-- What the joystick bound was bound under the current token, before an end of the capture
had returned. -/
def BoundsTimely (s : CaptureRun) : Prop := ∀ b ∈ s.bounds, b.current = true ∧ b.afterEnd = false

/-- The calls reach each manager in the order of their sections; `jm.CancelCapture` finds no
completed capture of its token on its way, and `BeginCapture` none that has been checked. -/
def InOrder (s : CaptureRun) : CaptureOp → Prop
  | .beginCapture _ _ => ∀ x ∈ s.completion, x.isChecked = false
  | .run c =>
    match s.calls.lookup c with
    | some (.suspendHotkeys _ n) | some (.resumeHotkeys _ n) => s.hkBy < n
    | some (.suspendJoystick _ n) | some (.resumeJoystick _ n) => s.joyBy < n
    | some (.arm _ n) => s.captureBy < n
    | some (.cancel token n) => s.captureBy < n ∧ ∀ x ∈ s.completion, x.token ≠ token
    | _ => True
  | _ => True

instance (s : CaptureRun) : ∀ op, Decidable (s.InOrder op)
  | .beginCapture _ _ => inferInstanceAs (Decidable (∀ x ∈ s.completion, _))
  | .run c => by
    unfold InOrder
    dsimp only
    split <;> infer_instance
  | .endCapture _ _ | .fire _ | .complete | .deliver | .bind _ => .isTrue trivial

end CaptureRun

end VcsClient.App
