import Mathlib.Data.List.AList
import VcsClient.Lib.Assoc

/-!
# The streams of the audio manager

`Start`, `Stop` and the poll loops of `internal/audio/manager.go`, step by step: a
section under `mu` is one step, and so is the return of a call into the backend,
which may take any time. A join of `Stop` may be given up at any moment, so it holds
nothing back. Capture and playback are the two sides of one description.

Streams are numbered as the backend opens them. A generation is named by the epoch
of its `Start`; that a published stream carries its generation is known to no code.
The rings, the DSP loop, the mixing pools and the events are left out.
-/

namespace VcsClient.Audio

open VcsClient.Lib

inductive Dir where
  | input
  | output
  deriving DecidableEq

structure DeviceInfo where
  id : String
  isDefault : Bool

/-- What `Enumerate` lists. -/
abbrev Devices := Dir → List DeviceInfo

/-- `InputDevice` and `OutputDevice` of a `Config`. -/
abbrev DeviceConfig := Dir → String

def resolveDevice (id : String) (devices : List DeviceInfo) : String :=
  if id ≠ "" ∧ (devices.any fun d => d.id == id) = true then id
  else
    match devices.find? (·.isDefault) with
    | some d => d.id
    | none => (devices.head?.map (·.id)).getD ""

def reopenBackoffInitial : ℕ := 1000000000

def reopenBackoffMax : ℕ := 30 * reopenBackoffInitial

def nextBackoff (cur : ℕ) : ℕ :=
  if cur ≤ 0 then reopenBackoffInitial
  else if reopenBackoffMax < cur * 2 then reopenBackoffMax
  else cur * 2

/-- A stream in a field, and the generation that put it there. -/
structure Owned where
  stream : ℕ
  gen : ℕ
  deriving DecidableEq

/-- What the manager holds of a side. -/
structure Side where
  stream : Option Owned
  id : String
  substituted : Bool
  err : String
  retryAt : ℕ
  backoff : ℕ
  targetID : String
  attemptCfg : String

/-- What an open returns: the error, or the stream. -/
abbrev Opened := Except String ℕ

/-- Where `Start` stands. -/
inductive StartPc where
  /-- in `Enumerate` -/
  | enumerating
  | enumerated (devs : Devices)
  /-- in `OpenCapture`, and in `OpenPlayback` -/
  | openCapture (cfg : DeviceConfig) (devs : Devices)
  | openPlayback (cfg : DeviceConfig) (devs : Devices) (capture : Opened)
  | publish (cfg : DeviceConfig) (devs : Devices) (capture playback : Opened)
  /-- before `starting` is cleared -/
  | published

/-- What a turn of the poll loop works with. -/
structure PollTick where
  cfg : DeviceConfig
  now : ℕ
  devs : Devices

inductive PollPc where
  | idle
  /-- in `Enumerate` -/
  | enumerating
  | enumerated (devs : Devices)
  /-- before it reads the clock and the configuration -/
  | current (devs : Devices)
  /-- in `closeSupersededStreams`, before the section and after -/
  | closing (t : PollTick)
  | stopping (t : PollTick) (streams : List Owned)
  /-- in `maybeReopen` of the side: before the section, in the open, before the
  write-back, before it stops a late stream -/
  | reopen (t : PollTick) (d : Dir)
  | opening (t : PollTick) (d : Dir) (id : String)
  | opened (t : PollTick) (d : Dir) (id : String) (r : Opened)
  | late (t : PollTick) (d : Dir) (stream : ℕ)

structure Poll where
  /-- `stopPoll` is closed -/
  stop : Bool
  pc : PollPc

/-- Where a `Stop` stands; `gen` is the generation it stops. -/
inductive StopPc where
  | joinDSP (gen : ℕ)
  | joinPoll (gen : ℕ)
  | stopping (gen : ℕ) (streams : List Owned)

/-- A stream that was stopped, and the generation that a `Stop` was stopping. -/
structure Stopped where
  owned : Owned
  stop : Option ℕ

structure Manager where
  running : Bool
  starting : Bool
  epoch : ℕ
  sides : Dir → Side
  cfg : DeviceConfig
  start : Option StartPc
  polls : AList fun _ : ℕ => Poll
  stops : AList fun _ : ℕ => StopPc
  calls : ℕ
  opened : ℕ
  stopped : List Stopped

/-- What comes from outside a step. -/
inductive Answer where
  | none
  /-- of `Enumerate`, `none` its error -/
  | devices (devs : Option Devices)
  /-- the error of an open, if any -/
  | opened (err : Option String)
  | time (now : ℕ)

inductive ManagerOp where
  | setConfig (cfg : DeviceConfig)
  | start
  /-- the `Start` under way goes on -/
  | startRun (a : Answer)
  | stop
  | stopRun (call : ℕ)
  | pollRun (gen : ℕ) (a : Answer)
  /-- the loop sees `stopPoll` -/
  | pollExit (gen : ℕ)

namespace Manager

/-- `NewManager`. -/
def new (cfg : DeviceConfig) : Manager where
  running := false
  starting := false
  epoch := 0
  sides := fun _ => ⟨none, "", false, "", 0, 0, "", ""⟩
  cfg := cfg
  start := none
  polls := ∅
  stops := ∅
  calls := 0
  opened := 0
  stopped := []

def openResult (m : Manager) : Option String → Opened
  | none => .ok m.opened
  | some e => .error e

/-- The streams opened, after an open that returned `r`. -/
def openedAfter (m : Manager) : Opened → ℕ
  | .ok _ => m.opened + 1
  | .error _ => m.opened

def openErr : Opened → String
  | .ok _ => ""
  | .error e => e

/-! ## `Start` -/

/-- A side as `Start` publishes it. -/
def startSide (cfg : DeviceConfig) (devs : Devices) (epoch : ℕ) (d : Dir) (r : Opened) : Side :=
  let id := resolveDevice (cfg d) (devs d)
  { stream := r.toOption.map fun n => ⟨n, epoch⟩
    id := id
    substituted := decide (cfg d ≠ "" ∧ cfg d ≠ id)
    err := openErr r
    retryAt := 0
    backoff := 0
    targetID := id
    attemptCfg := cfg d }

/-- The section of `Start` that publishes a generation. -/
def publish (m : Manager) (cfg : DeviceConfig) (devs : Devices) (capture playback : Opened) :
    Manager :=
  { m with
    sides := fun d =>
      startSide cfg devs (m.epoch + 1) d (match d with | .input => capture | .output => playback)
    epoch := m.epoch + 1
    running := true
    start := some .published
    polls := m.polls.insert (m.epoch + 1) ⟨false, .idle⟩ }

def startRun (m : Manager) : StartPc → Answer → Option Manager
  | .enumerating, .devices devs =>
    some { m with start := some (.enumerated (devs.getD fun _ => [])) }
  | .enumerated devs, .none => some { m with start := some (.openCapture m.cfg devs) }
  | .openCapture cfg devs, .opened err =>
    let r := m.openResult err
    some { m with start := some (.openPlayback cfg devs r), opened := m.openedAfter r }
  | .openPlayback cfg devs capture, .opened err =>
    let r := m.openResult err
    some { m with start := some (.publish cfg devs capture r), opened := m.openedAfter r }
  | .publish cfg devs capture playback, .none => some (m.publish cfg devs capture playback)
  | .published, .none => some { m with start := none, starting := false }
  | _, _ => none

/-! ## The poll loop -/

def setPoll (m : Manager) (gen : ℕ) (p : Poll) (pc : PollPc) : Manager :=
  { m with polls := assign m.polls gen (some { p with pc := pc }) }

def setSide (m : Manager) (d : Dir) (s : Side) : Manager :=
  { m with sides := Function.update m.sides d s }

/-- The device of an open side is no longer the right one. -/
def superseded (m : Manager) (t : PollTick) (d : Dir) : Bool :=
  (m.sides d).stream.isSome && resolveDevice (t.cfg d) (t.devs d) != (m.sides d).id

/-- A side after `closeSupersededStreams`. -/
def closeSide (m : Manager) (t : PollTick) (d : Dir) : Side :=
  let s := m.sides d
  if s.stream.isSome then
    if m.superseded t d then { s with stream := none, backoff := 0, retryAt := 0 } else s
  else if t.cfg d ≠ s.attemptCfg then { s with backoff := 0, retryAt := 0 }
  else if s.targetID = "" ∧ resolveDevice (t.cfg d) (t.devs d) ≠ "" then { s with retryAt := 0 }
  else s

def supersededStreams (m : Manager) (t : PollTick) : List Owned :=
  [.input, .output].filterMap fun d => if m.superseded t d then (m.sides d).stream else none

/-- After a side the loop goes on to the next, or waits for its ticker. -/
def afterSide (t : PollTick) : Dir → PollPc
  | .input => .reopen t .output
  | .output => .idle

/-- A side after an open of the poll loop that its generation still wants. -/
def reopenedSide (m : Manager) (t : PollTick) (gen : ℕ) (d : Dir) (id : String) : Opened → Side
  | .error e =>
    let backoff := nextBackoff (m.sides d).backoff
    { m.sides d with err := e, backoff := backoff, retryAt := t.now + backoff }
  | .ok n =>
    { m.sides d with
      stream := some ⟨n, gen⟩
      id := id
      substituted := decide (t.cfg d ≠ "" ∧ t.cfg d ≠ id)
      err := ""
      backoff := 0 }

/-- `maybeReopen` finds the side closed, and its retry due. -/
def Ready (m : Manager) (t : PollTick) (gen : ℕ) (d : Dir) : Prop :=
  (m.sides d).stream = none ∧ (m.sides d).retryAt ≤ t.now ∧ m.epoch = gen

instance (m : Manager) (t : PollTick) (gen : ℕ) (d : Dir) : Decidable (m.Ready t gen d) :=
  inferInstanceAs (Decidable (_ ∧ _ ∧ _))

def pollRun (m : Manager) (gen : ℕ) (p : Poll) : PollPc → Answer → Option Manager
  | .idle, .none => some (m.setPoll gen p .enumerating)
  | .enumerating, .devices none => some (m.setPoll gen p .idle)
  | .enumerating, .devices (some devs) => some (m.setPoll gen p (.enumerated devs))
  | .enumerated devs, .none =>
    some (m.setPoll gen p (if m.epoch ≠ gen then .idle else .current devs))
  | .current devs, .time now => some (m.setPoll gen p (.closing ⟨m.cfg, now, devs⟩))
  | .closing t, .none =>
    if m.epoch ≠ gen then some (m.setPoll gen p (.reopen t .input))
    else
      some { m.setPoll gen p (.stopping t (m.supersededStreams t)) with
        sides := fun d => m.closeSide t d }
  | .stopping t [], .none => some (m.setPoll gen p (.reopen t .input))
  | .stopping t (o :: streams), .none =>
    some { m.setPoll gen p (.stopping t streams) with stopped := ⟨o, none⟩ :: m.stopped }
  | .reopen t d, .none =>
    let id := resolveDevice (t.cfg d) (t.devs d)
    if m.Ready t gen d then
      some ((m.setSide d { m.sides d with targetID := id, attemptCfg := t.cfg d }).setPoll gen p
        (.opening t d id))
    else some (m.setPoll gen p (afterSide t d))
  | .opening t d id, .opened err =>
    let r := m.openResult err
    some { m.setPoll gen p (.opened t d id r) with opened := m.openedAfter r }
  | .opened t d id r, .none =>
    if m.epoch ≠ gen then
      match r with
      | .ok n => some (m.setPoll gen p (.late t d n))
      | .error _ => some (m.setPoll gen p (afterSide t d))
    else some ((m.setSide d (m.reopenedSide t gen d id r)).setPoll gen p (afterSide t d))
  | .late t d n, .none =>
    some { m.setPoll gen p (afterSide t d) with stopped := ⟨⟨n, gen⟩, none⟩ :: m.stopped }
  | _, _ => none

/-! ## `Stop` -/

def beginStop (m : Manager) : Manager :=
  { m with
    running := false
    epoch := m.epoch + 1
    stops := m.stops.insert m.calls (.joinDSP m.epoch)
    calls := m.calls + 1 }

def owned (m : Manager) : List Owned := [.input, .output].filterMap fun d => (m.sides d).stream

def setStop (m : Manager) (call : ℕ) (o : Option StopPc) : Manager :=
  { m with stops := assign m.stops call o }

def stopRun (m : Manager) (call : ℕ) : StopPc → Manager
  | .joinDSP gen =>
    { m.setStop call (some (.joinPoll gen)) with
      polls := mapValues (fun g p => if g = gen then { p with stop := true } else p) m.polls }
  | .joinPoll gen =>
    { m.setStop call (some (.stopping gen m.owned)) with
      sides := fun d => { m.sides d with stream := none } }
  | .stopping _ [] => m.setStop call none
  | .stopping gen (o :: streams) =>
    { m.setStop call (some (.stopping gen streams)) with stopped := ⟨o, some gen⟩ :: m.stopped }

def step (m : Manager) : ManagerOp → Option Manager
  | .setConfig cfg => some { m with cfg := cfg }
  | .start =>
    if m.running then some m
    else if m.starting then some m
    else some { m with starting := true, start := some .enumerating }
  | .startRun a => m.start.bind fun pc => m.startRun pc a
  | .stop => some (if m.running then m.beginStop else m)
  | .stopRun call => (m.stops.lookup call).map (m.stopRun call)
  | .pollRun gen a => (m.polls.lookup gen).bind fun p => m.pollRun gen p p.pc a
  | .pollExit gen =>
    match m.polls.lookup gen with
    | some ⟨true, .idle⟩ => some { m with polls := assign m.polls gen none }
    | _ => none

end Manager

/-! ## Where streams are -/

/-- The generation that a `Stop` is stopping, until it takes the streams. -/
def StopPc.joining : StopPc → Option ℕ
  | .joinDSP gen | .joinPoll gen => some gen
  | .stopping _ _ => none

/-- The streams a call is to publish or to stop. -/
def StartPc.hands : StartPc → List ℕ
  | .openPlayback _ _ capture => capture.toOption.toList
  | .publish _ _ capture playback => capture.toOption.toList ++ playback.toOption.toList
  | _ => []

def PollPc.hands : PollPc → List ℕ
  | .stopping _ streams => streams.map (·.stream)
  | .opened _ _ _ r => r.toOption.toList
  | .late _ _ n => [n]
  | _ => []

def StopPc.hands : StopPc → List ℕ
  | .stopping _ streams => streams.map (·.stream)
  | _ => []

namespace Manager

/-- How often the stream was stopped. -/
def timesStopped (m : Manager) (s : ℕ) : ℕ := (m.stopped.map (·.owned.stream)).count s

/-- In how many fields it is. -/
def timesOwned (m : Manager) (s : ℕ) : ℕ := (m.owned.map (·.stream)).count s

def timesInHand (m : Manager) (s : ℕ) : ℕ :=
  ((m.start.map StartPc.hands).getD []).count s + tally (fun p => p.pc.hands.count s) m.polls +
    tally (fun c => c.hands.count s) m.stops

/-- A `Stop` is between its two sections. -/
def Joining (m : Manager) : Prop := ∃ e ∈ m.stops.entries, e.2.joining ≠ none

instance (m : Manager) : Decidable m.Joining :=
  inferInstanceAs (Decidable (∃ e ∈ m.stops.entries, e.2.joining ≠ none))

/-- The generation is the current one, or one that a `Stop` is about to stop. -/
def Owns (m : Manager) (gen : ℕ) : Prop :=
  (m.running = true ∧ gen = m.epoch) ∨
    ∃ call c, m.stops.lookup call = some c ∧ c.joining = some gen

def AtRest (m : Manager) : Prop :=
  m.start = none ∧ (∀ gen p, m.polls.lookup gen = some p → p.pc = .idle) ∧ m.stops = ∅

/-- Every stream that was opened has been stopped once, or is in the field of a
generation that owns it, or in the hands of one call; a `Stop` stops streams of its
generation alone. At rest there are no hands, and the current generation owns what
is not stopped. -/
structure Accounted (m : Manager) : Prop where
  once : ∀ s < m.opened, m.timesStopped s + m.timesOwned s + m.timesInHand s = 1
  owned : ∀ o ∈ m.owned, m.Owns o.gen
  stopped : ∀ e ∈ m.stopped, ∀ gen ∈ e.stop, e.owned.gen = gen
  rest : m.AtRest → (∀ s < m.opened, m.timesStopped s + m.timesOwned s = 1) ∧
    ∀ o ∈ m.owned, m.running = true ∧ o.gen = m.epoch

/-- `Start` writes over no stream, and publishes none. -/
def PublishesNothing (m : Manager) : StartPc → Prop
  | .publish cfg devs capture playback =>
    m.owned = [] ∧ (StartPc.publish cfg devs capture playback).hands = []
  | _ => True

instance (m : Manager) (pc : StartPc) : Decidable (m.PublishesNothing pc) := by
  unfold PublishesNothing
  split <;> infer_instance

/-- The loop of the generation writes back no stream. -/
def WritesNothing (m : Manager) (gen : ℕ) : PollPc → Prop
  | .opened _ _ _ r => m.epoch = gen → r.toOption = none
  | _ => True

instance (m : Manager) (gen : ℕ) (pc : PollPc) : Decidable (m.WritesNothing gen pc) := by
  unfold WritesNothing
  split <;> infer_instance

/-- While a `Stop` is between its sections no stream is put into a field, by `Start`
or by a poll loop, and `Start` writes over none. -/
def Undisturbed (m : Manager) : ManagerOp → Prop
  | .startRun _ => m.Joining → ∀ pc ∈ m.start, m.PublishesNothing pc
  | .pollRun gen _ => m.Joining → ∀ p ∈ m.polls.lookup gen, m.WritesNothing gen p.pc
  | _ => True

instance (m : Manager) : ∀ op, Decidable (m.Undisturbed op)
  | .startRun _ => inferInstanceAs (Decidable (m.Joining → ∀ pc ∈ m.start, m.PublishesNothing pc))
  | .pollRun gen _ =>
    inferInstanceAs (Decidable (m.Joining → ∀ p ∈ m.polls.lookup gen, m.WritesNothing gen p.pc))
  | .setConfig _ | .start | .stop | .stopRun _ | .pollExit _ => .isTrue trivial

end Manager

end VcsClient.Audio
