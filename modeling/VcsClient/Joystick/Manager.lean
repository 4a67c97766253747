import VcsClient.Joystick.Capture
import VcsClient.Lib.Log

/-!
# The joystick manager

`internal/joystick/manager.go`, section by section. `Apply`, `Suspend`, `BeginCapture`,
`Close` and the dispatch of a tick take `notifyMu` for what they change under `mu` and
for the handler calls that follow; a call that waits for the lock has done nothing
yet, so only the one that has it is there. The handler calls are steps of their own,
in any order, as the maps are listed in any order, but presses before releases.

The errors kept for the UI, the devices and their enumeration are left out. A `Close`
that has left its section may return at any time.
-/

namespace VcsClient.Joystick

open VcsClient.Lib VcsClient.Keybinds

/-- Who has `notifyMu`. -/
inductive Caller where
  | apply
  | suspend
  | beginCapture
  | close
  | tick
  deriving DecidableEq

/-- The handler calls still to be made under `notifyMu`. -/
structure Span where
  caller : Caller
  press : Finset ActionID
  release : Finset ActionID

/-- Where `tick` stands. A poll that fails has no sample. -/
inductive TickPc where
  | idle
  | polling
  | polled (sample : Option State)
  /-- before `feedCapture` -/
  | feeding (sample : State)
  /-- before `notifyMu` -/
  | dispatching (sample : Option State)
  /-- it has `notifyMu` -/
  | notifying

inductive JoyEvent where
  | applied (binds : Binds)
  /-- `Suspend` has set, or found, `suspended` -/
  | suspended
  | suspendReturned
  | resumed
  | closeReturned
  | pressed (id : ActionID)
  | released (id : ActionID)
  /-- the callback of a capture is called -/
  | captured (done : ℕ) (binding : JoyBinding)

structure Manager where
  supported : Bool
  desired : Binds
  hold : Finset ActionID
  active : Finset ActionID
  suspended : Bool
  closed : Bool
  capture : Option CaptureState
  notifyMu : Option Span
  tick : TickPc
  /-- the `Close` calls that are past `notifyMu` -/
  closing : ℕ
  log : List JoyEvent

inductive JoyOp where
  | apply (binds : Binds)
  | suspend
  | resume
  | beginCapture (done : ℕ)
  | cancelCapture
  | close
  | closeReturns
  /-- a tick begins -/
  | tick
  | poll (sample : Option State)
  /-- the tick goes on -/
  | proceed
  /-- the next handler call, about this action -/
  | notify (id : ActionID)
  /-- `notifyMu` is unlocked -/
  | unlock

/-- The edge that an event is for an action. -/
def edgeOf (id : ActionID) : JoyEvent → Option Edge
  | .pressed i => if i = id then some .press else none
  | .released i => if i = id then some .release else none
  | _ => none

/-- The handler calls about an action, oldest first. -/
def edges (id : ActionID) (log : List JoyEvent) : List Edge := (log.filterMap (edgeOf id)).reverse

/-- The last handler call about the action was `Pressed`. -/
def LeftPressed (id : ActionID) (log : List JoyEvent) : Prop :=
  (edges id log).getLast? = some .press

instance (id : ActionID) (log : List JoyEvent) : Decidable (LeftPressed id log) :=
  inferInstanceAs (Decidable (_ = _))

/-- If it is an `Apply` that binds the action, it makes it a hold action. -/
def BindsHold (id : ActionID) : JoyEvent → Prop
  | .applied binds => BoundHold id binds
  | _ => True

instance (id : ActionID) : ∀ e, Decidable (BindsHold id e)
  | .applied binds => inferInstanceAs (Decidable (BoundHold id binds))
  | .suspended | .suspendReturned | .resumed | .closeReturned | .pressed _ | .released _
  | .captured _ _ => .isTrue trivial

/-- Every binding set so far that binds the action made it a hold action. -/
def HoldAction (id : ActionID) (log : List JoyEvent) : Prop := ∀ e ∈ log, BindsHold id e

instance (id : ActionID) (log : List JoyEvent) : Decidable (HoldAction id log) :=
  inferInstanceAs (Decidable (∀ e ∈ log, BindsHold id e))

/-- The last of `Suspend` and `Resume` was `Suspend`. -/
def isSuspended : List JoyEvent → Bool
  | [] => false
  | .suspended :: _ => true
  | .resumed :: _ => false
  | _ :: log => isSuspended log

/-- Whether an event is as it should be, after the log: no `Pressed` is called under a
suspension, and no hold action is left pressed when `Suspend` or `Close` returns. -/
def InOrder (log : List JoyEvent) : JoyEvent → Prop
  | .pressed _ => isSuspended log = false
  | .suspendReturned | .closeReturned => ∀ id, HoldAction id log → ¬ LeftPressed id log
  | _ => True

namespace Manager

/-- `New`. -/
def new (supported : Bool) : Manager where
  supported := supported
  desired := ∅
  hold := ∅
  active := ∅
  suspended := false
  closed := false
  capture := none
  notifyMu := none
  tick := .idle
  closing := 0
  log := []

/-- A section with `takeActiveLocked`: the hold actions that are active are released
afterwards, the other ones stay latched. -/
def takeActive (m : Manager) (caller : Caller) : Manager :=
  { m with
    active := m.active.filter (· ∉ m.hold)
    notifyMu := some ⟨caller, ∅, m.active.filter (· ∈ m.hold)⟩ }

/-- `Apply`. -/
def apply (m : Manager) (binds : Binds) : Manager :=
  { m.takeActive .apply with
    desired := binds
    hold := holdOf binds
    log := .applied binds :: m.log }

/-- `Suspend`. -/
def suspend (m : Manager) : Manager :=
  if m.suspended then
    { m with notifyMu := some ⟨.suspend, ∅, ∅⟩, log := .suspended :: m.log }
  else { m.takeActive .suspend with suspended := true, log := .suspended :: m.log }

/-- `BeginCapture`. -/
def beginCapture (m : Manager) (done : ℕ) : Manager :=
  { m.takeActive .beginCapture with capture := some (.new done) }

/-- `Close`, up to the wait for the loop. -/
def close (m : Manager) : Manager :=
  if m.closed then { m with notifyMu := some ⟨.close, ∅, ∅⟩ }
  else { m.takeActive .close with closed := true }

/-- The beginning of `tick`. -/
def beginTick (m : Manager) : Manager :=
  if m.closed || !m.supported then m
  else if m.suspended && m.capture.isNone then m
  else { m with tick := .polling }

/-- The section of `tick` that finds out what to press and what to release. -/
def dispatch (m : Manager) (s : State) : Manager :=
  if m.suspended || m.closed then { m with tick := .idle }
  else
    let want := Joystick.active m.desired s
    let pressed := m.active ∪ want
    { m with
      active := pressed.filter (· ∈ want)
      notifyMu := some ⟨.tick, want \ m.active, pressed.filter fun id => id ∉ want ∧ id ∈ m.hold⟩
      tick := .notifying }

/-- `tick`, from one lock to the next. -/
def proceed (m : Manager) : Option Manager :=
  match m.tick with
  | .polled sample =>
    match sample with
    | some s =>
      some { m with tick := if m.capture.isSome then .feeding s else .dispatching (some s) }
    | none => some { m with tick := .dispatching none }
  | .feeding s =>
    match m.capture with
    | none => some { m with tick := .idle }
    | some c =>
      match c.feed s with
      | .inl c => some { m with tick := .idle, capture := some c }
      | .inr b =>
        some { m with tick := .idle, capture := none, log := .captured c.done b :: m.log }
  | .dispatching sample =>
    if m.notifyMu.isSome then none
    else
      match sample with
      | none => some { m.takeActive .tick with tick := .notifying }
      | some s => some (m.dispatch s)
  | _ => none

def notify (m : Manager) (id : ActionID) (n : Span) : Option Manager :=
  if id ∈ n.press then
    some { m with
      notifyMu := some { n with press := n.press.erase id }
      log := .pressed id :: m.log }
  else if n.press = ∅ ∧ id ∈ n.release then
    some { m with
      notifyMu := some { n with release := n.release.erase id }
      log := .released id :: m.log }
  else none

def unlock (m : Manager) (n : Span) : Option Manager :=
  if n.press = ∅ ∧ n.release = ∅ then
    let m := { m with notifyMu := none }
    match n.caller with
    | .apply | .beginCapture => some m
    | .suspend => some { m with log := .suspendReturned :: m.log }
    | .close => some { m with closing := m.closing + 1 }
    | .tick => some { m with tick := .idle }
  else none

def step (m : Manager) : JoyOp → Option Manager
  | .apply binds => if m.notifyMu.isSome then none else some (m.apply binds)
  | .suspend => if m.notifyMu.isSome then none else some m.suspend
  | .resume => some { m with suspended := false, log := .resumed :: m.log }
  | .beginCapture done => if m.notifyMu.isSome then none else some (m.beginCapture done)
  | .cancelCapture => some { m with capture := none }
  | .close => if m.notifyMu.isSome then none else some m.close
  | .closeReturns =>
    if m.closing = 0 then none
    else some { m with closing := m.closing - 1, log := .closeReturned :: m.log }
  | .tick =>
    match m.tick with
    | .idle => some m.beginTick
    | _ => none
  | .poll sample =>
    match m.tick with
    | .polling => some { m with tick := .polled sample }
    | _ => none
  | .proceed => m.proceed
  | .notify id => m.notifyMu.bind (m.notify id)
  | .unlock => m.notifyMu.bind m.unlock

/-- No hold action is left pressed while a capture is armed, once `BeginCapture` has
returned. -/
def ArmedReleased (m : Manager) : Prop :=
  m.capture.isSome = true → (∀ n ∈ m.notifyMu, n.caller ≠ .beginCapture) →
    ∀ id, HoldAction id m.log → ¬ LeftPressed id m.log

/-- A tick that comes to its dispatch under an armed capture finds no hold action to
press, unless the manager is suspended or closed. -/
def ArmedQuiet (m : Manager) : JoyOp → Prop
  | .proceed =>
    match m.tick with
    | .dispatching (some s) =>
      m.capture.isSome = true → m.suspended = false → m.closed = false →
        ∀ id ∈ Joystick.active m.desired s, id ∈ m.hold → id ∈ m.active
    | _ => True
  | _ => True

instance (m : Manager) : ∀ op, Decidable (m.ArmedQuiet op)
  | .proceed => by
    unfold ArmedQuiet
    dsimp only
    split <;> infer_instance
  | .apply _ | .suspend | .resume | .beginCapture _ | .cancelCapture | .close | .closeReturns
  | .tick | .poll _ | .notify _ | .unlock => .isTrue trivial

end Manager

end VcsClient.Joystick
