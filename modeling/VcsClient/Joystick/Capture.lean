import Mathlib.Data.Finset.Sort
import Mathlib.Data.Prod.Lex
import Mathlib.Data.String.Basic
import VcsClient.Joystick.Resolve

/-!
# Capturing a joystick binding

`internal/joystick/capture.go`: what one sample does to a capture. Inputs that were
down when the capture began are left out until they are released; the capture is
complete when everything pressed since then is released.
-/

namespace VcsClient.Joystick

open VcsClient.Keybinds

/-- `expandHatDirection`. -/
def expandHatDirection (dir : ℕ) : List ℕ :=
  if dir % 2 = 0 then [dir] else [dir, (dir + 7) % 8, (dir + 1) % 8]

/-- The cardinals that a hat diagonal held on the device stands for. -/
def diagonalCardinals (b : JoyButton) : Finset JoyButton :=
  if b.button.isHat = false then ∅
  else
    let (hat, dir) := b.button.hat
    if dir % 2 = 0 then ∅
    else
      ((expandHatDirection dir).tail.map fun adj => ⟨b.device, hatButton hat adj⟩).toFinset

/-- `suppressDiagonalCardinals`. -/
def suppressDiagonalCardinals (fresh held : Finset JoyButton) : Finset JoyButton :=
  fresh \ held.biUnion diagonalCardinals

/-- By device, then by button. -/
instance : LinearOrder JoyButton :=
  LinearOrder.lift' (fun b => toLex (b.device, b.button.toNat)) fun a b h => by
    obtain ⟨hd, hb⟩ := Prod.mk.inj (toLex.injective h)
    cases a
    cases b
    simp only [JoyButton.mk.injEq]
    exact ⟨hd, UInt16.toNat.inj hb⟩

/-- A capture under way; `done` names the callback. -/
structure CaptureState where
  /-- `none` until the first sample -/
  baseline : Option (Finset JoyButton)
  order : List JoyButton
  seen : Finset JoyButton
  done : ℕ

namespace CaptureState

/-- What `BeginCapture` arms. -/
def new (done : ℕ) : CaptureState where
  baseline := none
  order := []
  seen := ∅
  done := done

/-- The binding of what was pressed: the first input is the modifier, the last one
the main input. -/
def binding (main : JoyButton) (order : List JoyButton) : JoyBinding where
  device := main.device
  button := main.button
  modifier := if 1 < order.length then order.head? else none

/-- `feedCapture`, with the capture that is armed: the capture afterwards, or the
binding when it is complete. -/
def feed (c : CaptureState) (s : State) : CaptureState ⊕ JoyBinding :=
  match c.baseline with
  | none => .inl { c with baseline := some s.held }
  | some baseline =>
    let baseline := baseline.filter (s.isHeld ·)
    let fresh := suppressDiagonalCardinals ((s.held \ baseline) \ c.seen) s.held
    let c := { c with
      baseline := some baseline
      order := c.order ++ fresh.sort
      seen := c.seen ∪ fresh }
    match c.order.getLast? with
    | none => .inl c
    | some main => if c.order.any s.isHeld then .inl c else .inr (binding main c.order)

end CaptureState

namespace Capturing

/-- What a sample adds to the capture. -/
def fresh (c : CaptureState) (s : State) : Finset JoyButton :=
  match c.baseline with
  | none => ∅
  | some baseline =>
    suppressDiagonalCardinals ((s.held \ baseline.filter (s.isHeld ·)) \ c.seen) s.held

/-- The capture after a sample, before it is looked at for completion. -/
def added (capture : CaptureState) (baseline : Finset JoyButton) (s : State) : CaptureState :=
  { capture with
    baseline := some (baseline.filter (s.isHeld ·))
    order := capture.order ++ (fresh capture s).sort
    seen := capture.seen ∪ fresh capture s }

end Capturing

end VcsClient.Joystick
