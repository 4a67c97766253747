import Mathlib.Data.List.AList
import VcsClient.Lib.Assoc
import VcsClient.Lib.Log

/-!
# The OS key stream

How `hookRegistrar` of `internal/hotkeys/registrar_gohook.go` starts, restarts and
closes the stream, step by step. `Register` and `Close` do so under `startMu`: a
call that waits for the lock has done nothing yet, so only the call in the section
has a place. Streams are numbered as they are started; a stream's reader is a
goroutine of its own, and may outlive a teardown that gives up on it.

The chord table, and the failures `Register` reports before it looks at the stream,
are left out. The log records what happened, newest first.
-/

namespace VcsClient.Hotkeys

open VcsClient.Lib

inductive StreamError where
  /-- `errHookDisabled` -/
  | hookDisabled
  /-- `errStreamWedged` -/
  | streamWedged
  deriving DecidableEq

inductive StreamEvent where
  /-- the source's `Start` is called -/
  | started (stream : ℕ)
  /-- the source's `End` is called, and returns -/
  | ending (stream : ℕ)
  | ended (stream : ℕ)
  /-- the reader has returned -/
  | exited (stream : ℕ)
  /-- a teardown gave up on the reader -/
  | timedOut (stream : ℕ)
  /-- `ensureStream` returns without an error -/
  | registered
  deriving DecidableEq

/-- A reader: its quit channel is closed; it is on its way out. -/
structure Reader where
  quit : Bool
  leaving : Bool

/-- Where the call under `startMu` stands. -/
inductive Section where
  /-- `Register`, before `planStream` -/
  | plan
  /-- `Close`, before `lifeMu` -/
  | close
  /-- `teardown`, before it closes `quit`; of a restart or of `Close` -/
  | teardown (quit done : Option ℕ) (restart : Bool)
  /-- at the `select` -/
  | waiting (done : ℕ) (restart : Bool)
  /-- `End` is under way -/
  | ending (restart : Bool)
  /-- before `Start` -/
  | startStream
  /-- `Start` is under way -/
  | starting
  /-- `ensureStream` is done -/
  | leave (err : Option StreamError)
  /-- `Close` is done -/
  | closed

structure HookRegistrar where
  disabled : Bool
  running : Bool
  retryArmed : Bool
  quit : Option ℕ
  readerDone : Option ℕ
  startMu : Option Section
  readers : AList fun _ : ℕ => Reader
  starts : ℕ
  log : List StreamEvent

inductive StreamOp where
  | register
  | close
  | unregisterAll
  /-- the call in the section goes on -/
  | proceed
  /-- `readerStopTimeout` is over -/
  | timeout
  /-- what a reader receives -/
  | hookEnabled (stream : ℕ)
  | hookDisabled (stream : ℕ)
  | streamClosed (stream : ℕ)
  | quit (stream : ℕ)
  /-- it returns -/
  | exit (stream : ℕ)

/-- The readers that teardowns gave up on. -/
def givenUp (log : List StreamEvent) : List ℕ :=
  log.filterMap fun
    | .timedOut i => some i
    | _ => none

/-- A teardown has given up on a reader that is still there. -/
def Wedged (log : List StreamEvent) : Prop := ∃ i ∈ givenUp log, .exited i ∉ log

instance (log : List StreamEvent) : Decidable (Wedged log) :=
  inferInstanceAs (Decidable (∃ i ∈ givenUp log, .exited i ∉ log))

def Quiet (log : List StreamEvent) : Prop := ∀ i, .started i ∈ log → .exited i ∈ log

/-- Whether an event is as it should be, after the log: no reader is there when a
stream is started; `End` is called once for a stream whose reader has returned, and
not while another call of it is under way; and no registration succeeds over a
reader that was given up. -/
def Orderly (log : List StreamEvent) : StreamEvent → Prop
  | .started _ => Quiet log
  | .ending i => .exited i ∈ log ∧ .ending i ∉ log ∧ ∀ j, .ending j ∈ log → .ended j ∈ log
  | .registered => ¬ Wedged log
  | _ => True

namespace HookRegistrar

/-- `newHookRegistrar`. -/
def new : HookRegistrar where
  disabled := false
  running := false
  retryArmed := true
  quit := none
  readerDone := none
  startMu := none
  readers := ∅
  starts := 0
  log := []

/-- `planStream` and the switch after it. -/
def planStream (r : HookRegistrar) : HookRegistrar :=
  if r.running = false then { r with startMu := some .startStream }
  else if r.disabled = false then { r with startMu := some (.leave none) }
  else if r.retryArmed = false then { r with startMu := some (.leave (some .hookDisabled)) }
  else
    { r with
      retryArmed := false
      running := false
      quit := none
      readerDone := none
      startMu := some (.teardown r.quit r.readerDone true) }

/-- `Close`, up to its `teardown`. -/
def closeStream (r : HookRegistrar) : HookRegistrar :=
  { r with
    quit := none
    readerDone := none
    running := false
    startMu := some (if r.running then .teardown r.quit r.readerDone false else .closed) }

/-- What follows `teardown`. -/
def afterTeardown (restart : Bool) : Option StreamError → Section
  | none => if restart then .startStream else .closed
  | some e => if restart then .leave (some e) else .closed

/-- `close(quit)`. -/
def closeQuit (r : HookRegistrar) (quit : Option ℕ) : AList fun _ : ℕ => Reader :=
  match quit with
  | none => r.readers
  | some i => mapValues (fun j rd => if j = i then { rd with quit := true } else rd) r.readers

/-- `End` is called; it ends the stream that was started last. -/
def callEnd (r : HookRegistrar) (restart : Bool) : HookRegistrar :=
  { r with startMu := some (.ending restart), log := .ending (r.starts - 1) :: r.log }

def proceed (r : HookRegistrar) : Section → Option HookRegistrar
  | .plan => some r.planStream
  | .close => some r.closeStream
  | .teardown quit done restart =>
    let r := { r with readers := r.closeQuit quit }
    match done with
    | none => some (r.callEnd restart)
    | some i => some { r with startMu := some (.waiting i restart) }
  | .waiting i restart => if (r.readers.lookup i).isSome then none else some (r.callEnd restart)
  | .ending restart =>
    some { r with
      startMu := some (afterTeardown restart none)
      log := .ended (r.starts - 1) :: r.log }
  | .startStream =>
    some { r with
      disabled := false
      startMu := some .starting
      starts := r.starts + 1
      log := .started r.starts :: r.log }
  | .starting =>
    -- nobody else reads what is set here before the reader is there
    some { r with
      quit := some (r.starts - 1)
      readerDone := some (r.starts - 1)
      running := true
      readers := r.readers.insert (r.starts - 1) ⟨false, false⟩
      startMu := some (.leave none) }
  | .leave none => some { r with startMu := none, log := .registered :: r.log }
  | .leave (some _) | .closed => some { r with startMu := none }

/-- One receive of a reader that is not on its way out. -/
def receive (r : HookRegistrar) (i : ℕ) (f : Reader → Option HookRegistrar) :
    Option HookRegistrar :=
  (r.readers.lookup i).bind fun rd => if rd.leaving then none else f rd

def step (r : HookRegistrar) : StreamOp → Option HookRegistrar
  | .register => if r.startMu.isSome then none else some { r with startMu := some .plan }
  | .close => if r.startMu.isSome then none else some { r with startMu := some .close }
  | .unregisterAll => some { r with retryArmed := true }
  | .proceed => r.startMu.bind r.proceed
  | .timeout =>
    match r.startMu with
    | some (.waiting i restart) =>
      some { r with
        startMu := some (afterTeardown restart (some .streamWedged))
        log := .timedOut i :: r.log }
    | _ => none
  | .hookEnabled i => r.receive i fun _ => some { r with disabled := false }
  | .hookDisabled i => r.receive i fun _ => some { r with disabled := true }
  | .streamClosed i => r.receive i fun rd =>
    some { r with disabled := true, readers := r.readers.insert i { rd with leaving := true } }
  | .quit i => r.receive i fun rd =>
    if rd.quit then some { r with readers := r.readers.insert i { rd with leaving := true } }
    else none
  | .exit i =>
    (r.readers.lookup i).bind fun rd =>
      if rd.leaving then some { r with readers := r.readers.erase i, log := .exited i :: r.log }
      else none

/-- `Register` does not look at the stream while a reader is there that a teardown
has given up on. -/
def Unwedged (r : HookRegistrar) : StreamOp → Prop
  | .proceed =>
    match r.startMu with
    | some .plan => ¬ Wedged r.log
    | _ => True
  | _ => True

instance (r : HookRegistrar) : ∀ op, Decidable (r.Unwedged op)
  | .proceed => by
    unfold Unwedged
    dsimp only
    split <;> infer_instance
  | .register | .close | .unregisterAll | .timeout | .hookEnabled _ | .hookDisabled _
  | .streamClosed _ | .quit _ | .exit _ => .isTrue trivial

end HookRegistrar

end VcsClient.Hotkeys
