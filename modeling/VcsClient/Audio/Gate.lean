import Mathlib.Data.Int.Notation
import Mathlib.Data.List.Infix
import Mathlib.Tactic.Common

/-!
# The transmit gate

`internal/audio/gate.go`: per frame, whether the microphone is open. A level is a value
that can be compared with the threshold. `Step` is its two branches and the mute; what
one branch does depends on its own counters alone.
-/

namespace VcsClient.Audio

variable {L : Type*}

structure GateConfig (L : Type*) where
  voxEnabled : Bool
  voxThreshold : L
  voxMinLengthMS : ℤ
  voxHangMS : ℤ
  pttStartDelayMS : ℤ
  pttReleaseDelayMS : ℤ

structure GateInput (L : Type*) where
  ptt : Bool
  muted : Bool
  level : L

structure Gate (L : Type*) where
  cfg : GateConfig L
  startDelay : ℕ
  releaseDelay : ℕ
  voxMinLen : ℕ
  voxHang : ℕ
  /-- consecutive frames PTT has been down -/
  pttHeld : ℕ
  /-- remaining release-tail frames -/
  tail : ℕ
  /-- consecutive frames above threshold -/
  voxSustain : ℕ
  voxHangLeft : ℕ
  isOpen : Bool
  pttLatched : Bool
  voxLatched : Bool

/-- `msToFrames`, with frames of 10 ms. -/
def msToFrames (ms : ℤ) : ℕ := if ms ≤ 0 then 0 else (ms / 10).toNat

namespace Gate

/-- `SetConfig`. -/
def setConfig (g : Gate L) (cfg : GateConfig L) : Gate L :=
  { g with
    cfg := cfg
    startDelay := msToFrames cfg.pttStartDelayMS
    releaseDelay := msToFrames cfg.pttReleaseDelayMS
    voxMinLen := msToFrames cfg.voxMinLengthMS
    voxHang := msToFrames cfg.voxHangMS }

/-- `NewGate`. -/
def newGate (cfg : GateConfig L) : Gate L :=
  setConfig
    { cfg := cfg
      startDelay := 0
      releaseDelay := 0
      voxMinLen := 0
      voxHang := 0
      pttHeld := 0
      tail := 0
      voxSustain := 0
      voxHangLeft := 0
      isOpen := false
      pttLatched := false
      voxLatched := false } cfg

/-- The PTT branch of `Step`: `pttOpen`, and the counters. -/
def pttBranch (g : Gate L) (ptt : Bool) : Bool × Gate L :=
  if ptt then
    let g := { g with pttHeld := g.pttHeld + 1 }
    let g := if g.startDelay < g.pttHeld then { g with pttLatched := true } else g
    if g.pttLatched then (true, { g with tail := g.releaseDelay }) else (false, g)
  else
    let g := { g with pttHeld := 0, pttLatched := false }
    if 0 < g.tail then (true, { g with tail := g.tail - 1 }) else (false, g)

variable [LE L] [DecidableLE L]

/-- The VOX branch of `Step`: `voxOpen`, and the counters. -/
def voxBranch (g : Gate L) (level : L) : Bool × Gate L :=
  if g.cfg.voxEnabled then
    if g.cfg.voxThreshold ≤ level then
      let g := { g with voxSustain := g.voxSustain + 1 }
      let g := if g.voxMinLen ≤ g.voxSustain then { g with voxLatched := true } else g
      if g.voxLatched then (true, { g with voxHangLeft := g.voxHang }) else (false, g)
    else
      let g := { g with voxSustain := 0, voxLatched := false }
      if 0 < g.voxHangLeft then (true, { g with voxHangLeft := g.voxHangLeft - 1 })
      else (false, g)
  else (false, { g with voxSustain := 0, voxHangLeft := 0, voxLatched := false })

/-- `Step`. -/
def step (g : Gate L) (inp : GateInput L) : Bool × Gate L :=
  let (pttOpen, g) := g.pttBranch inp.ptt
  let (voxOpen, g) := g.voxBranch inp.level
  let g := { g with isOpen := (pttOpen || voxOpen) && !inp.muted }
  (g.isOpen, g)

/-- What is done to a gate. -/
inductive Op (L : Type*) where
  | frame (inp : GateInput L)
  | setConfig (cfg : GateConfig L)

def apply (g : Gate L) : Op L → Gate L
  | .frame inp => (g.step inp).2
  | .setConfig cfg => g.setConfig cfg

/-- The gate after the frames and the configurations. -/
def run (g : Gate L) (ops : List (Op L)) : Gate L := ops.foldl apply g

@[simp] theorem run_nil (g : Gate L) : g.run [] = g := rfl

@[simp] theorem run_append (g : Gate L) (ops ops' : List (Op L)) :
    g.run (ops ++ ops') = (g.run ops).run ops' := List.foldl_append

@[simp] theorem run_cons (g : Gate L) (op : Op L) (ops : List (Op L)) :
    g.run (op :: ops) = (g.apply op).run ops := rfl

end Gate

end VcsClient.Audio
