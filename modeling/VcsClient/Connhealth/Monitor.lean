import Mathlib.Data.List.AList
import VcsClient.Lib.Assoc
import VcsClient.Lib.Log

/-!
# Connection health

The monitor of `internal/connhealth`, step by step. A setter, and the commit of a
`Tick`, hold `emitMu` until their snapshot is delivered; `Tick` reads the state and
runs its probe before, under no lock. Several `Tick`s may be under way.

The log records what happened, newest first. A connected period begins whenever
the control link becomes connected.
-/

namespace VcsClient.Connhealth

open VcsClient.Lib

def stateConnected : String := "connected"

def stateDisconnected : String := "disconnected"

def stateUnavailable : String := "unavailable"

def rttUnknown : ℤ := -1

def defaultFailureThreshold : ℤ := 3

structure Link where
  state : String
  rttMs : ℤ
  healthy : Bool
  available : Bool
  error : String
  deriving DecidableEq

structure Snapshot where
  server : String
  control : Link
  voice : Link
  deriving DecidableEq

/-- A probe: the connected period it was started in, if any, and its round trip,
`none` where it failed. -/
structure Probe where
  startedIn : Option ℕ
  rtt : Option ℤ
  deriving DecidableEq

inductive Event where
  /-- the control link changed to the state -/
  | control (state : String)
  /-- the result of the probe was applied -/
  | applied (p : Probe)
  /-- `OnChange`, and the failures counted at the time -/
  | delivered (s : Snapshot) (failures : ℕ)
  /-- `OnLoss` -/
  | loss
  deriving DecidableEq

/-- Where a `Tick` stands. -/
inductive TickPc where
  /-- before `Ping`, which is handed `lastRTT` -/
  | started (lastRTT : ℤ) (voiceConnected : Bool)
  | pinging (startedIn : Option ℕ) (voiceConnected : Bool)
  /-- before `VoiceRTT` -/
  | answered (p : Probe) (voiceConnected : Bool)
  /-- before the lock -/
  | measured (p : Probe) (voiceRTT : ℤ)
  /-- before `OnLoss`; the threshold was reached in the connected period -/
  | losing (period : ℕ)

/-- A snapshot to be delivered, and the `Tick` that does; `emitMu` is held. -/
structure Emission where
  snap : Snapshot
  tick : Option ℕ

structure Monitor where
  failureThreshold : ℕ
  snap : Snapshot
  failures : ℕ
  lossFired : Bool
  emit : Option Emission
  ticks : AList fun _ : ℕ => TickPc
  started : ℕ
  log : List Event

inductive MonitorOp where
  | setServer (server : String)
  | setControlState (state : String)
  | setVoiceState (state errMsg : String) (available : Bool)
  | tick
  | ping (tick : ℕ)
  | answer (tick : ℕ) (rtt : Option ℤ)
  /-- `d` in nanoseconds -/
  | voiceRTT (tick : ℕ) (d : ℤ)
  | commit (tick : ℕ)
  | publish
  | onLoss (tick : ℕ)

/-! ## Periods -/

def Event.isControl : Event → Bool
  | .control _ => true
  | _ => false

def Event.isConnect : Event → Bool
  | .control state => state == stateConnected
  | _ => false

/-- The connected periods that have begun. -/
def periods (log : List Event) : ℕ := log.countP Event.isConnect

/-- Since the current connected period began, or the last one. -/
def period (log : List Event) : List Event := since Event.isConnect log

def Event.probe : Event → Option Probe
  | .applied p => some p
  | _ => none

def probes (log : List Event) : List Probe := log.filterMap Event.probe

/-- The probes applied while the control link is in its present state. -/
def current (log : List Event) : List Probe := probes (since Event.isControl log)

/-! ## What probes tell -/

structure Vitals where
  rttMs : ℤ
  healthy : Bool
  failures : ℕ
  deriving DecidableEq

/-- What the probes tell, the newest first. -/
def vitals : List Probe → Vitals
  | [] => ⟨rttUnknown, false, 0⟩
  | ⟨_, some rtt⟩ :: _ => ⟨rtt, true, 0⟩
  | ⟨_, none⟩ :: l => ⟨(vitals l).rttMs, false, (vitals l).failures + 1⟩

/-- Whether an event is as it should be, after the log: a snapshot tells of the
control link what probes tell that were started in the current connected period,
and of the voice link no round trip unless it is connected; a loss is the first of
its period, and so many probes of the period have failed one after the other. -/
def Honest (threshold : ℕ) (log : List Event) : Event → Prop
  | .delivered s failures =>
    vitals (current log) = ⟨s.control.rttMs, s.control.healthy, failures⟩ ∧
      (∀ p ∈ current log, p.startedIn = some (periods log)) ∧
      (s.voice.rttMs ≠ rttUnknown → s.voice.state = stateConnected ∧ s.voice.available = true)
  | .loss => .loss ∉ period log ∧
      List.replicate threshold ⟨some (periods log), none⟩ <:+: probes (period log)
  | _ => True

/-! ## The monitor -/

namespace Monitor

/-- `New`. -/
def new (failureThreshold : ℤ) : Monitor where
  failureThreshold :=
    (if failureThreshold ≤ 0 then defaultFailureThreshold else failureThreshold).toNat
  snap :=
    { server := ""
      control := ⟨stateDisconnected, rttUnknown, false, true, ""⟩
      voice := ⟨stateUnavailable, rttUnknown, false, false, ""⟩ }
  failures := 0
  lossFired := false
  emit := none
  ticks := ∅
  started := 0
  log := []

/-- The link is in the period it was last connected in. -/
def now (m : Monitor) : Option ℕ :=
  if m.snap.control.state = stateConnected then some (periods m.log) else none

/-- The mutation of a setter, before its `publish`. -/
def set (m : Monitor) (snap : Snapshot) : Monitor :=
  { m with snap := snap, emit := some ⟨snap, none⟩ }

def setServer (m : Monitor) (server : String) : Monitor :=
  if m.snap.server = server then m else m.set { m.snap with server := server }

def setControlState (m : Monitor) (state : String) : Monitor :=
  if m.snap.control.state = state then m
  else
    let control :=
      { m.snap.control with state := state, rttMs := rttUnknown, healthy := false, error := "" }
    { m.set { m.snap with control := control } with
      failures := 0
      lossFired := false
      log := .control state :: m.log }

def setVoiceState (m : Monitor) (state errMsg : String) (available : Bool) : Monitor :=
  let state := if available then state else stateUnavailable
  let healthy := available && state == stateConnected
  let next : Link :=
    { state := state
      rttMs := if healthy then m.snap.voice.rttMs else rttUnknown
      healthy := healthy
      available := available
      error := errMsg }
  if m.snap.voice = next then m else m.set { m.snap with voice := next }

def goto (m : Monitor) (tick : ℕ) (o : Option TickPc) : Monitor :=
  { m with ticks := assign m.ticks tick o }

/-- The first section of `Tick`. -/
def tick (m : Monitor) : Monitor :=
  if m.snap.control.state ≠ stateConnected then m
  else
    let voiceConnected := m.snap.voice.available && m.snap.voice.state == stateConnected
    let lastRTT := if m.snap.control.rttMs < 0 then 0 else m.snap.control.rttMs
    { m.goto m.started (some (.started lastRTT voiceConnected)) with started := m.started + 1 }

/-- What `Tick` makes of `VoiceRTT`. -/
def readVoiceRTT (voiceConnected : Bool) (d : ℤ) : ℤ :=
  if voiceConnected ∧ 0 < d then d / 1000000 else rttUnknown

/-- The control link after a probe. -/
def applyProbe (control : Link) : Option ℤ → Link
  | some rtt => { control with rttMs := rtt, healthy := true, error := "" }
  | none => { control with healthy := false }

/-- The closure in `Tick`, before its `publish`. -/
def commit (m : Monitor) (n : ℕ) (p : Probe) (voiceRTT : ℤ) : Monitor :=
  if m.snap.control.state ≠ stateConnected then m.goto n none
  else
    let failures := if p.rtt.isSome then 0 else m.failures + 1
    let snap :=
      { m.snap with
        control := applyProbe m.snap.control p.rtt
        voice := { m.snap.voice with rttMs := voiceRTT } }
    let fireLoss := p.rtt.isNone && decide (m.failureThreshold ≤ failures) && !m.lossFired
    { m.goto n (if fireLoss then some (.losing (periods m.log)) else none) with
      failures := failures
      snap := snap
      lossFired := m.lossFired || fireLoss
      emit := if snap ≠ m.snap then some ⟨snap, some n⟩ else none
      log := .applied p :: m.log }

def step (m : Monitor) : MonitorOp → Option Monitor
  | .setServer server => if m.emit.isSome then none else some (m.setServer server)
  | .setControlState state => if m.emit.isSome then none else some (m.setControlState state)
  | .setVoiceState state errMsg available =>
    if m.emit.isSome then none else some (m.setVoiceState state errMsg available)
  | .tick => some m.tick
  | .ping n =>
    match m.ticks.lookup n with
    | some (.started _ voiceConnected) => some (m.goto n (some (.pinging m.now voiceConnected)))
    | _ => none
  | .answer n rtt =>
    match m.ticks.lookup n with
    | some (.pinging startedIn voiceConnected) =>
      some (m.goto n (some (.answered ⟨startedIn, rtt⟩ voiceConnected)))
    | _ => none
  | .voiceRTT n d =>
    match m.ticks.lookup n with
    | some (.answered p voiceConnected) =>
      some (m.goto n (some (.measured p (readVoiceRTT voiceConnected d))))
    | _ => none
  | .commit n =>
    if m.emit.isSome then none
    else
      match m.ticks.lookup n with
      | some (.measured p voiceRTT) => some (m.commit n p voiceRTT)
      | _ => none
  | .publish =>
    m.emit.map fun e => { m with emit := none, log := .delivered e.snap m.failures :: m.log }
  | .onLoss n =>
    if m.emit.any fun e => e.tick == some n then none
    else
      match m.ticks.lookup n with
      | some (.losing _) => some { m.goto n none with log := .loss :: m.log }
      | _ => none

/-- Where the result of a probe is applied, the probe was started in the period
that it is applied to, and the voice link is still as the round trip was read; and
`OnLoss` is called before the next period begins. -/
def InPeriod (m : Monitor) : MonitorOp → Prop
  | .commit n => m.snap.control.state = stateConnected → ∀ c ∈ m.ticks.lookup n,
    match c with
    | .measured p voiceRTT => p.startedIn = some (periods m.log) ∧
        (voiceRTT ≠ rttUnknown →
          m.snap.voice.state = stateConnected ∧ m.snap.voice.available = true)
    | _ => True
  | .onLoss n => ∀ c ∈ m.ticks.lookup n,
    match c with
    | .losing period => period = periods m.log
    | _ => True
  | _ => True

instance (m : Monitor) : ∀ op, Decidable (m.InPeriod op)
  | .setServer _ | .setControlState _ | .setVoiceState _ _ _ | .tick | .ping _ | .answer _ _
  | .voiceRTT _ _ | .publish => .isTrue trivial
  | .commit n =>
    match h : m.ticks.lookup n with
    | some (.measured p voiceRTT) =>
      decidable_of_iff (m.snap.control.state = stateConnected →
          p.startedIn = some (periods m.log) ∧ (voiceRTT ≠ rttUnknown →
            m.snap.voice.state = stateConnected ∧ m.snap.voice.available = true))
        (by simp [InPeriod, h])
    | none => .isTrue fun _ c hc => by simp [h] at hc
    | some (.started _ _) | some (.pinging _ _) | some (.answered _ _) | some (.losing _) =>
      .isTrue fun _ c hc => by
        rw [h] at hc
        cases hc
        trivial
  | .onLoss n =>
    match h : m.ticks.lookup n with
    | some (.losing period) => decidable_of_iff (period = periods m.log) (by simp [InPeriod, h])
    | none => .isTrue fun c hc => by simp [h] at hc
    | some (.started _ _) | some (.pinging _ _) | some (.answered _ _) | some (.measured _ _) =>
      .isTrue fun c hc => by
        rw [h] at hc
        cases hc
        trivial

end Monitor

end VcsClient.Connhealth
