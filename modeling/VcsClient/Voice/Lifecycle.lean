import Mathlib.Data.List.AList
import VcsClient.Lib.Machine
import VcsClient.Voice.Keepalive

/-!
# The goroutines of a voice session

`Dial`, `Close`, `setState`, `deliverLoop`, `openSocket`, `rxLoop`, `emit`,
`lifecycleLoop` and what it calls in `internal/voice/session.go`, step by step.
A section under `mu` is one step, and so is every operation on a channel. `Dial`
and `lifecycleLoop` are one goroutine: the loop starts when `Dial` returns.

`wait` checks the clock and then parks, where it may see `done`, an event or its
timer. Sockets are numbered as they are dialed. The fields after `deliver`
record a run and are read by no step; the sending of voice is only that
`sendScratch` may be called until `txLoop` exits.
-/

namespace VcsClient.Voice

open VcsClient.Lib

inductive SessionState where
  | idle | resolving | handshaking | connected | rebinding | retrying | closed
  deriving DecidableEq

/-- The pauses of the ladder, in nanoseconds. -/
def helloLadder : List ℤ := [1500, 3000, 4500, 6000, 7500].map (· * 1000000)

def retryInterval : ℤ := 15 * 1000000000

def eventBuffer : ℕ := 16

/-- The error of a state change. -/
inductive Cause where
  | noHelloAck
  | endpoint
  | lookup
  | dial
  deriving DecidableEq

structure StateChange where
  st : SessionState
  err : Option Cause
  deriving DecidableEq

inductive EventKind where
  | helloAck
  | keepaliveReply
  deriving DecidableEq

structure ControlEvent where
  kind : EventKind
  gen : ℕ
  at_ : ℤ
  serverTS : Int64
  /-- The binding it was read on; no code reads it. -/
  binding : ℕ
  deriving DecidableEq

/-- The part `recordKeepalive` reads. -/
def ControlEvent.reply (ev : ControlEvent) : Event := ⟨0, ev.at_, ev.serverTS⟩

/-- What `wait` was called for. -/
inductive Wait where
  /-- A rung of `runLadder`. -/
  | rung (gen attempt : ℕ)
  /-- An interval of `serve`. -/
  | keepalive (gen unanswered : ℕ)
  | retry
  deriving DecidableEq

def Wait.duration (interval : ℤ) : Wait → ℤ
  | .rung _ attempt => helloLadder.getD attempt 0
  | .keepalive _ _ => interval
  | .retry => retryInterval

/-- Where `Dial` and then `lifecycleLoop` stand. -/
inductive LifecyclePc where
  | start
  /-- In `openSocket`, resolving and dialing. -/
  | opening
  | dialed (sock : ℕ)
  /-- The session was closed meanwhile. -/
  | refused (sock : ℕ)
  | replaced (old : Option ℕ) (sock gen : ℕ)
  | spawn (sock gen : ℕ)
  | dialFailed (err : Cause)
  | reopenFailed (err : Cause)
  | ladder
  | currentGen
  | hello (gen attempt : ℕ)
  | enter (w : Wait)
  | check (w : Wait) (deadline : ℤ)
  | parked (w : Wait) (deadline : ℤ)
  | acked (ev : ControlEvent)
  | serve
  | keepalive (gen unanswered : ℕ)
  | lost
  | rebind
  | exhausted
  | reopen
  | stopped
  deriving DecidableEq

/-- What a step of the loop meets. -/
inductive Choice where
  | go
  /-- The wake-up of `setState`. -/
  | signal
  | fail (err : Cause)
  | write (ok : Bool)
  | done
  | take
  | timer
  deriving DecidableEq

inductive RxPc where
  | reading
  | holding (ev : ControlEvent)
  | exited
  deriving DecidableEq

structure RxLoop where
  sock : ℕ
  pc : RxPc
  deriving DecidableEq

inductive ShutdownPc where
  | idle
  /-- The BYE is written and the session marked closed. -/
  | closed (conn : Option ℕ)
  | stopping (conn : Option ℕ)
  | joining
  | joined
  | signalling
  | returned
  deriving DecidableEq

inductive CallbackPc where
  | waiting
  | draining
  | calling (c : StateChange)
  | returned
  deriving DecidableEq

inductive Phase where
  | opening (gen : ℕ)
  | opened (gen : ℕ)
  | failed (gen : ℕ) (at_ : ℤ)
  | paused (gen : ℕ) (until_ : ℤ)
  | ladder (gen : ℕ) (rebinding : Bool)
  | connected (gen : ℕ)
  | exhausted (gen : ℕ) (rebinding : Bool) (at_ : ℤ)
  | lost (gen : ℕ)
  deriving DecidableEq

inductive KeepaliveMark where
  | connected
  /-- A keepalive was attempted, and the interval after it began. -/
  | attempt (gen : ℕ) (since : ℤ)
  | reply
  deriving DecidableEq

structure Life where
  self : UUID
  secret : List UInt8
  /-- The interval of the schedule. -/
  keepalive : ℤ
  now : ℤ
  -- guarded by `mu`
  state : SessionState
  conn : Option ℕ
  gen : ℕ
  closed : Bool
  b : Binding
  cbQueue : List StateChange
  cbFinal : Bool
  events : List ControlEvent
  done : Bool
  cbSignal : Bool
  /-- `Dial` has returned the session. -/
  started : Bool
  loop : LifecyclePc
  rebinding : Bool
  /-- The loop is about to wake the delivery goroutine. -/
  loopOwes : Bool
  txExited : Bool
  rx : AList fun _ : ℕ => RxLoop
  closer : ShutdownPc
  deliver : CallbackPc
  -- the record
  opened : ℕ
  shut : List ℕ
  wire : List (ℕ × Packet)
  committed : List StateChange
  delivered : List StateChange
  phases : List Phase
  /-- Newest first. -/
  marks : List KeepaliveMark
  /-- How often the state became Connected. -/
  binding : ℕ
  /-- The bindings the round trip and the timestamp were read on. -/
  rttOf : ℕ
  tsOf : ℕ
  /-- When the first HELLO of the ladder went out. -/
  ladderStart : Option ℤ

inductive LifeOp where
  | tick (d : ℕ)
  | loop (c : Choice)
  | voice (seq : UInt32) (freq : KHz) (payload : List UInt8) (intercom ok : Bool)
  | txExit
  /-- A control packet is read off the socket of a generation. -/
  | recv (gen : ℕ) (kind : EventKind) (serverTS : Int64)
  | emit (gen : ℕ)
  /-- A read fails, as it does once the socket is closed. -/
  | rxExit (gen : ℕ)
  | close (ok : Bool)
  | closing
  | deliver

namespace Life

def init (self : UUID) (secret : List UInt8) (keepalive now : ℤ) : Life where
  self := self
  secret := secret
  keepalive := keepalive
  now := now
  state := .idle
  conn := none
  gen := 0
  closed := false
  b := .resetBindingLocked
  cbQueue := []
  cbFinal := false
  events := []
  done := false
  cbSignal := false
  started := false
  loop := .start
  rebinding := false
  loopOwes := false
  txExited := false
  rx := ∅
  closer := .idle
  deliver := .waiting
  opened := 0
  shut := []
  wire := []
  committed := []
  delivered := []
  phases := []
  marks := []
  binding := 0
  rttOf := 0
  tsOf := 0
  ladderStart := none

/-- `setState` up to its wake-up. -/
def setState (p : Life) (st : SessionState) (err : Option Cause) : Life :=
  if p.cbFinal then p
  else
    { p with
      state := st
      cbFinal := decide (st = .closed)
      cbQueue := p.cbQueue ++ [⟨st, err⟩]
      committed := p.committed ++ [⟨st, err⟩] }

/-- `setState` on the loop's goroutine, which goes on at `pc` after the wake-up. -/
def transition (p : Life) (st : SessionState) (err : Option Cause) (pc : LifecyclePc) : Life :=
  { p.setState st err with loop := pc, loopOwes := !p.cbFinal }

/-- `sendLocked`: the socket takes the packet, or the write fails. -/
def sendLocked (p : Life) (packet : Packet) (ok : Bool) : Life :=
  match p.conn with
  | some sock => if p.closed ∨ ok = false then p else { p with wire := p.wire ++ [(sock, packet)] }
  | none => p

/-- `sendLocked` returns no error. -/
def sends (p : Life) (ok : Bool) : Bool := ok && !p.closed && p.conn.isSome

def sendKeepalive (p : Life) (ok : Bool) : Life :=
  let p' := p.sendLocked (newKeepalive p.self p.b.lastServerTS) ok
  if p.sends ok then { p' with b := p.b.noteKeepaliveSentLocked p.now } else p'

/-- `recordKeepalive`, and which binding its numbers are from. -/
def record (p : Life) (ev : ControlEvent) : Life :=
  { p with
    b := p.b.recordKeepalive ev.reply
    rttOf := if p.b.measured ev.reply = none then p.rttOf else ev.binding
    tsOf := if ev.serverTS = 0 then p.tsOf else ev.binding
    marks := .reply :: p.marks }

/-- `wait` returns at its deadline. -/
def expired (p : Life) : Wait → Life
  | .rung gen attempt =>
    if attempt + 1 < helloLadder.length then { p with loop := .hello gen (attempt + 1) }
    else
      let p := { p with phases := p.phases ++ [Phase.exhausted p.gen p.rebinding p.now] }
      if p.rebinding then { p with rebinding := false, loop := .reopen }
      else { p with loop := .exhausted }
  | .keepalive gen unanswered =>
    if unanswered ≥ bindingLossThreshold then
      { p with loop := .lost, phases := p.phases ++ [.lost p.gen] }
    else { p with loop := .keepalive gen unanswered }
  | .retry => { p with loop := .reopen, phases := p.phases ++ [.paused p.gen p.now] }

/-- `onEvent` of a wait, which goes on unless it matched. -/
def onEvent (p : Life) (deadline : ℤ) (ev : ControlEvent) : Wait → Life
  | .rung gen attempt =>
    let p := { p with loop := .check (.rung gen attempt) deadline }
    if ev.gen ≠ gen then p
    else
      match ev.kind with
      | .helloAck => { p with loop := .acked ev }
      | .keepaliveReply => p.record ev
  | .keepalive gen unanswered =>
    if ev.gen = gen ∧ ev.kind = .keepaliveReply then
      { p.record ev with loop := .check (.keepalive gen 0) deadline }
    else { p with loop := .check (.keepalive gen unanswered) deadline }
  | .retry => { p with loop := .check .retry deadline }

/-- A step of `Dial` or `lifecycleLoop`. -/
def loopStep (p : Life) : LifecyclePc → Choice → Option Life
  | .start, .go =>
    some { p.transition .resolving none .opening with phases := p.phases ++ [.opening p.gen] }
  | .opening, .fail err =>
    some { p with
      loop := if p.started then .reopenFailed err else .dialFailed err
      phases := p.phases ++ [.failed p.gen p.now] }
  -- the lookup gives up when the session is closed
  | .opening, .done => if p.done then some { p with loop := .stopped } else none
  | .opening, .go => some { p with loop := .dialed p.opened, opened := p.opened + 1 }
  | .dialed sock, .go =>
    if p.closed then some { p with loop := .refused sock }
    else
      some { p with
        loop := .replaced p.conn sock (p.gen + 1)
        conn := some sock
        gen := p.gen + 1
        b := .resetBindingLocked
        phases := p.phases ++ [.opened (p.gen + 1)] }
  | .refused sock, .go => some { p with loop := .stopped, shut := p.shut ++ [sock] }
  | .replaced old sock gen, .go =>
    some { p with loop := .spawn sock gen, shut := p.shut ++ old.toList }
  | .spawn sock gen, .go =>
    some { p with loop := .ladder, rx := p.rx.insert gen ⟨sock, .reading⟩, started := true }
  | .dialFailed err, .go => some (p.transition .closed (some err) .stopped)
  | .reopenFailed err, .go => some (p.transition .retrying (some err) (.enter .retry))
  | .ladder, .go => some (p.transition .handshaking none .currentGen)
  | .currentGen, .go =>
    some { p with
      loop := .hello p.gen 0
      ladderStart := none
      phases := p.phases ++ [.ladder p.gen p.rebinding] }
  | .hello gen attempt, .write ok =>
    some { p.sendLocked (newHello p.self p.secret) ok with
      loop := .enter (.rung gen attempt)
      ladderStart := if p.ladderStart = none ∧ p.sends ok then some p.now else p.ladderStart }
  | .enter (.keepalive gen unanswered), .go =>
    some { p with
      loop := .check (.keepalive gen unanswered) (p.now + p.keepalive)
      marks := .attempt gen p.now :: p.marks }
  | .enter w, .go => some { p with loop := .check w (p.now + w.duration p.keepalive) }
  | .check w deadline, .go =>
    if deadline ≤ p.now then some (p.expired w) else some { p with loop := .parked w deadline }
  | .parked _ _, .done => if p.done then some { p with loop := .stopped } else none
  | .parked w deadline, .take =>
    match p.events with
    | [] => none
    | ev :: events => some ({ p with events := events }.onEvent deadline ev w)
  | .parked w deadline, .timer => some { p with loop := .check w deadline }
  | .acked _, .go =>
    some { p.transition .connected none .serve with
      rebinding := false
      binding := p.binding + 1
      marks := .connected :: p.marks
      phases := p.phases ++ [.connected p.gen] }
  | .serve, .go => some { p with loop := .keepalive p.gen 0 }
  | .keepalive gen unanswered, .write ok =>
    some { p.sendKeepalive ok with loop := .enter (.keepalive gen (unanswered + 1)) }
  | .lost, .go => some { p with loop := .rebind, b := .resetBindingLocked }
  | .rebind, .go => some { p.transition .rebinding none .ladder with rebinding := true }
  | .exhausted, .go => some (p.transition .retrying (some .noHelloAck) (.enter .retry))
  | .reopen, .go =>
    some { p.transition .resolving none .opening with phases := p.phases ++ [.opening p.gen] }
  | _, _ => none

/-- A step of the goroutine that closes the session. -/
def closeStep (p : Life) : ShutdownPc → Option Life
  | .idle => none
  | .closed conn => some { p with closer := .stopping conn, done := true }
  | .stopping conn => some { p with closer := .joining, shut := p.shut ++ conn.toList }
  | .joining =>
    if p.loop = .stopped ∧ p.loopOwes = false ∧ p.txExited ∧
        ∀ e ∈ p.rx.entries, e.2.pc = .exited then
      some { p with closer := .joined }
    else none
  | .joined =>
    some { p.setState .closed none with
      closer := if p.cbFinal then .returned else .signalling }
  | .signalling => some { p with closer := .returned, cbSignal := true }
  | .returned => none

/-- A step of `deliverLoop`. -/
def deliverStep (p : Life) : CallbackPc → Option Life
  | .waiting => if p.cbSignal then some { p with deliver := .draining, cbSignal := false } else none
  | .draining =>
    match p.cbQueue with
    | [] => some { p with deliver := .waiting }
    | c :: rest => some { p with deliver := .calling c, cbQueue := rest }
  | .calling c =>
    some { p with
      deliver := if c.st = .closed then .returned else .draining
      delivered := p.delivered ++ [c] }
  | .returned => none

def step (p : Life) : LifeOp → Option Life
  | .tick d => some { p with now := p.now + d }
  | .loop .signal =>
    if p.loopOwes then some { p with loopOwes := false, cbSignal := true } else none
  | .loop c => if p.loopOwes then none else p.loopStep p.loop c
  | .voice seq freq payload intercom ok =>
    if p.started ∧ p.txExited = false then
      some (p.sendLocked (newVoice p.self seq freq payload true intercom) ok)
    else none
  | .txExit =>
    if p.started ∧ p.done ∧ p.txExited = false then some { p with txExited := true } else none
  | .recv gen kind serverTS =>
    match p.rx.lookup gen with
    | some ⟨sock, .reading⟩ =>
      if sock ∈ p.shut then none
      else
        some { p with
          rx := p.rx.insert gen ⟨sock, .holding ⟨kind, gen, p.now, serverTS, p.binding⟩⟩ }
    | _ => none
  | .emit gen =>
    match p.rx.lookup gen with
    | some ⟨sock, .holding ev⟩ =>
      let p := { p with rx := p.rx.insert gen ⟨sock, .reading⟩ }
      some (if p.events.length < eventBuffer then { p with events := p.events ++ [ev] } else p)
    | _ => none
  | .rxExit gen =>
    match p.rx.lookup gen with
    | some ⟨sock, .reading⟩ => some { p with rx := p.rx.insert gen ⟨sock, .exited⟩ }
    | _ => none
  | .close ok =>
    if p.started ∧ p.closer = .idle then
      some { p.sendLocked (newBye p.self) ok with
        closed := true, conn := none, closer := .closed p.conn }
    else none
  | .closing => p.closeStep p.closer
  | .deliver => p.deliverStep p.deliver

/-- Some goroutine is between a transition and its wake-up. -/
def owes (p : Life) : Bool := p.loopOwes || decide (p.closer = .signalling)

def Quiescent (p : Life) : Prop :=
  (∀ c, p.step (.loop c) = none) ∧ p.step .txExit = none ∧
    (∀ gen, p.step (.emit gen) = none ∧ p.step (.rxExit gen) = none) ∧
    p.step .closing = none ∧ p.step .deliver = none

/-! ## The effect of the helpers -/

/-- What `setState` publishes. -/
def publishes (p : Life) (st : SessionState) (err : Option Cause) : List StateChange :=
  if p.cbFinal then [] else [⟨st, err⟩]

/-- What `sendLocked` puts on the wire. -/
def puts (p : Life) (packet : Packet) (ok : Bool) : List (ℕ × Packet) :=
  if p.sends ok then p.conn.toList.map (·, packet) else []

theorem setState_eq (p : Life) (st : SessionState) (err : Option Cause) : p.setState st err =
    { p with
      state := if p.cbFinal then p.state else st
      cbFinal := p.cbFinal || decide (st = .closed)
      cbQueue := p.cbQueue ++ p.publishes st err
      committed := p.committed ++ p.publishes st err } := by
  unfold setState publishes
  split
  · next hf =>
    cases p
    cases hf
    simp
  · next hf => simp [hf]

theorem transition_eq (p : Life) (st : SessionState) (err : Option Cause) (pc : LifecyclePc) :
    p.transition st err pc =
      { p with
        state := if p.cbFinal then p.state else st
        cbFinal := p.cbFinal || decide (st = .closed)
        cbQueue := p.cbQueue ++ p.publishes st err
        committed := p.committed ++ p.publishes st err
        loop := pc
        loopOwes := !p.cbFinal } := by
  unfold transition
  rw [setState_eq]

theorem sendLocked_eq (p : Life) (packet : Packet) (ok : Bool) :
    p.sendLocked packet ok = { p with wire := p.wire ++ p.puts packet ok } := by
  unfold sendLocked
  split
  · next sock hconn =>
    split
    · next hc =>
      have hnil : p.puts packet ok = [] := by
        rcases hc with hc | rfl
        · simp [puts, sends, hc]
        · simp [puts, sends]
      rw [hnil, List.append_nil]
    · next hc =>
      have hone : p.puts packet ok = [(sock, packet)] := by
        simp [puts, sends, hconn, not_or.1 hc]
      rw [hone]
  · next hconn =>
    have hnil : p.puts packet ok = [] := by simp [puts, hconn]
    rw [hnil, List.append_nil]

theorem sendKeepalive_eq (p : Life) (ok : Bool) : p.sendKeepalive ok =
    { p with
      wire := p.wire ++ p.puts (newKeepalive p.self p.b.lastServerTS) ok
      b := if p.sends ok then p.b.noteKeepaliveSentLocked p.now else p.b } := by
  unfold sendKeepalive
  rw [sendLocked_eq]
  split <;> rfl

theorem puts_closed {p : Life} (hc : p.closed = true) (packet : Packet) (ok : Bool) :
    p.puts packet ok = [] := by
  simp [puts, sends, hc]

theorem expired_frame (p : Life) (w : Wait) : ∃ pc rebinding phases,
    p.expired w = { p with loop := pc, rebinding := rebinding, phases := phases } := by
  unfold expired
  split
  · split
    · exact ⟨_, _, _, rfl⟩
    · dsimp only
      split
      · exact ⟨_, _, _, rfl⟩
      · exact ⟨_, _, _, rfl⟩
  · split
    · exact ⟨_, _, _, rfl⟩
    · exact ⟨_, _, _, rfl⟩
  · exact ⟨_, _, _, rfl⟩

theorem onEvent_frame (p : Life) (deadline : ℤ) (ev : ControlEvent) (w : Wait) :
    ∃ pc b rttOf tsOf marks, p.onEvent deadline ev w =
      { p with loop := pc, b := b, rttOf := rttOf, tsOf := tsOf, marks := marks } := by
  unfold onEvent
  split
  · dsimp only
    split
    · exact ⟨_, _, _, _, _, rfl⟩
    · split
      · exact ⟨_, _, _, _, _, rfl⟩
      · exact ⟨_, _, _, _, _, rfl⟩
  · split
    · exact ⟨_, _, _, _, _, rfl⟩
    · exact ⟨_, _, _, _, _, rfl⟩
  · exact ⟨_, _, _, _, _, rfl⟩

/-! ## What the loop does -/

/-- One step of `Dial` or `lifecycleLoop`, by where it stands. -/
inductive LoopMoves (p : Life) : Choice → Life → Prop where
  | start (hl : p.loop = .start) : LoopMoves p .go
    { p.transition .resolving none .opening with phases := p.phases ++ [.opening p.gen] }
  | failed (hl : p.loop = .opening) (err : Cause) : LoopMoves p (.fail err)
    { p with
      loop := if p.started then .reopenFailed err else .dialFailed err
      phases := p.phases ++ [.failed p.gen p.now] }
  | gaveUp (hl : p.loop = .opening) (hd : p.done = true) : LoopMoves p .done { p with loop := .stopped }
  | dialed (hl : p.loop = .opening) : LoopMoves p .go
    { p with loop := .dialed p.opened, opened := p.opened + 1 }
  | refused {sock : ℕ} (hl : p.loop = .dialed sock) (hc : p.closed = true) : LoopMoves p .go
    { p with loop := .refused sock }
  | installed {sock : ℕ} (hl : p.loop = .dialed sock) (hc : p.closed = false) : LoopMoves p .go
    { p with
      loop := .replaced p.conn sock (p.gen + 1)
      conn := some sock
      gen := p.gen + 1
      b := .resetBindingLocked
      phases := p.phases ++ [.opened (p.gen + 1)] }
  | closedOwn {sock : ℕ} (hl : p.loop = .refused sock) : LoopMoves p .go
    { p with loop := .stopped, shut := p.shut ++ [sock] }
  | closedOld {old : Option ℕ} {sock gen : ℕ} (hl : p.loop = .replaced old sock gen) : LoopMoves p .go
    { p with loop := .spawn sock gen, shut := p.shut ++ old.toList }
  | spawned {sock gen : ℕ} (hl : p.loop = .spawn sock gen) : LoopMoves p .go
    { p with loop := .ladder, rx := p.rx.insert gen ⟨sock, .reading⟩, started := true }
  | dialFailed {err : Cause} (hl : p.loop = .dialFailed err) : LoopMoves p .go
    (p.transition .closed (some err) .stopped)
  | reopenFailed {err : Cause} (hl : p.loop = .reopenFailed err) : LoopMoves p .go
    (p.transition .retrying (some err) (.enter .retry))
  | ladder (hl : p.loop = .ladder) : LoopMoves p .go (p.transition .handshaking none .currentGen)
  | currentGen (hl : p.loop = .currentGen) : LoopMoves p .go
    { p with
      loop := .hello p.gen 0
      ladderStart := none
      phases := p.phases ++ [.ladder p.gen p.rebinding] }
  | hello {gen attempt : ℕ} (hl : p.loop = .hello gen attempt) (ok : Bool) : LoopMoves p (.write ok)
    { p.sendLocked (newHello p.self p.secret) ok with
      loop := .enter (.rung gen attempt)
      ladderStart := if p.ladderStart = none ∧ p.sends ok then some p.now else p.ladderStart }
  | interval {gen unanswered : ℕ} (hl : p.loop = .enter (.keepalive gen unanswered)) : LoopMoves p .go
    { p with
      loop := .check (.keepalive gen unanswered) (p.now + p.keepalive)
      marks := .attempt gen p.now :: p.marks }
  | entered {w : Wait} (hl : p.loop = .enter w) (hw : ∀ gen n, w ≠ .keepalive gen n) : LoopMoves p .go
    { p with loop := .check w (p.now + w.duration p.keepalive) }
  | expired {w : Wait} {deadline : ℤ} (hl : p.loop = .check w deadline) (hd : deadline ≤ p.now) :
    LoopMoves p .go (p.expired w)
  | parked {w : Wait} {deadline : ℤ} (hl : p.loop = .check w deadline) (hd : ¬deadline ≤ p.now) :
    LoopMoves p .go { p with loop := .parked w deadline }
  | ended {w : Wait} {deadline : ℤ} (hl : p.loop = .parked w deadline) (hd : p.done = true) :
    LoopMoves p .done { p with loop := .stopped }
  | took {w : Wait} {deadline : ℤ} (hl : p.loop = .parked w deadline) {ev : ControlEvent}
    {events : List ControlEvent} (he : p.events = ev :: events) :
    LoopMoves p .take ({ p with events := events }.onEvent deadline ev w)
  | woke {w : Wait} {deadline : ℤ} (hl : p.loop = .parked w deadline) :
    LoopMoves p .timer { p with loop := .check w deadline }
  | connected {ev : ControlEvent} (hl : p.loop = .acked ev) : LoopMoves p .go
    { p.transition .connected none .serve with
      rebinding := false
      binding := p.binding + 1
      marks := .connected :: p.marks
      phases := p.phases ++ [.connected p.gen] }
  | serve (hl : p.loop = .serve) : LoopMoves p .go { p with loop := .keepalive p.gen 0 }
  | keepalive {gen unanswered : ℕ} (hl : p.loop = .keepalive gen unanswered) (ok : Bool) :
    LoopMoves p (.write ok) { p.sendKeepalive ok with loop := .enter (.keepalive gen (unanswered + 1)) }
  | lost (hl : p.loop = .lost) : LoopMoves p .go
    { p with loop := .rebind, b := .resetBindingLocked }
  | rebind (hl : p.loop = .rebind) : LoopMoves p .go
    { p.transition .rebinding none .ladder with rebinding := true }
  | exhausted (hl : p.loop = .exhausted) : LoopMoves p .go
    (p.transition .retrying (some .noHelloAck) (.enter .retry))
  | reopen (hl : p.loop = .reopen) : LoopMoves p .go
    { p.transition .resolving none .opening with phases := p.phases ++ [.opening p.gen] }

theorem no_step {p' : Life} {P : Prop} (h : (none : Option Life) = some p') : P := by
  cases h

theorem loopStep_enter {p p' : Life} {w : Wait} {c : Choice} (hl : p.loop = .enter w)
    (hs : p.loopStep (.enter w) c = some p') : p.LoopMoves c p' := by
  cases w <;> cases c <;> cases hs
  · exact .entered hl nofun
  · exact .interval hl
  · exact .entered hl nofun

theorem loopStep_moves {p p' : Life} {c : Choice} (hs : p.loopStep p.loop c = some p') :
    p.LoopMoves c p' := by
  generalize hl : p.loop = pc at hs
  -- a choice that does not belong to the place leaves no step
  induction pc
  case enter w => exact loopStep_enter hl hs
  all_goals induction c <;> try exact no_step hs
  all_goals try obtain rfl := Option.some.inj hs
  case start.go => exact .start hl
  case opening.fail err => exact .failed hl err
  case opening.done =>
    obtain ⟨hd, he⟩ := Option.ite_none_right_eq_some.1 hs
    cases he
    exact .gaveUp hl hd
  case opening.go => exact .dialed hl
  case dialed.go sock =>
    change (if p.closed = true then some _ else some _) = some p' at hs
    split at hs
    · next hc =>
      cases hs
      exact .refused hl hc
    · next hc =>
      cases hs
      exact .installed hl (Bool.eq_false_of_not_eq_true hc)
  case refused.go sock => exact .closedOwn hl
  case replaced.go old sock gen => exact .closedOld hl
  case spawn.go sock gen => exact .spawned hl
  case dialFailed.go err => exact .dialFailed hl
  case reopenFailed.go err => exact .reopenFailed hl
  case ladder.go => exact .ladder hl
  case currentGen.go => exact .currentGen hl
  case hello.write gen attempt ok => exact .hello hl ok
  case check.go w deadline =>
    change (if deadline ≤ p.now then some _ else some _) = some p' at hs
    split at hs
    · next hd =>
      cases hs
      exact .expired hl hd
    · next hd =>
      cases hs
      exact .parked hl hd
  case parked.done w deadline =>
    obtain ⟨hd, he⟩ := Option.ite_none_right_eq_some.1 hs
    cases he
    exact .ended hl hd
  case parked.take w deadline =>
    conv at hs => lhs; whnf
    split at hs
    · cases hs
    · next he =>
      cases hs
      exact .took hl he
  case parked.timer w deadline => exact .woke hl
  case acked.go ev => exact .connected hl
  case serve.go => exact .serve hl
  case keepalive.write gen unanswered ok => exact .keepalive hl ok
  case lost.go => exact .lost hl
  case rebind.go => exact .rebind hl
  case exhausted.go => exact .exhausted hl
  case reopen.go => exact .reopen hl

theorem step_eq_loopStep {p : Life} {c : Choice} (ho : p.loopOwes = false) (hc : c ≠ .signal) :
    p.step (.loop c) = p.loopStep p.loop c := by
  have hno : ¬p.loopOwes = true := by
    rw [ho]
    exact Bool.false_ne_true
  cases c with
  | signal => exact absurd rfl hc
  | _ => exact if_neg hno

theorem step_loop {p p' : Life} {c : Choice} (hs : p.step (.loop c) = some p') :
    (c = .signal ∧ p.loopOwes = true ∧ p' = { p with loopOwes := false, cbSignal := true }) ∨
      p.loopOwes = false ∧ p.LoopMoves c p' := by
  cases ho : p.loopOwes with
  | true =>
    cases c <;> simp only [step, ho] at hs <;> cases hs
    exact .inl ⟨rfl, rfl, rfl⟩
  | false =>
    refine .inr ⟨rfl, ?_⟩
    cases c <;> simp only [step, ho] at hs <;> first | exact loopStep_moves hs | cases hs

inductive Moves (p : Life) : LifeOp → Life → Prop where
  | tick (d : ℕ) : Moves p (.tick d) { p with now := p.now + d }
  | loop {c : Choice} {p' : Life} (ho : p.loopOwes = false) (hm : p.LoopMoves c p') :
    Moves p (.loop c) p'
  | signal (ho : p.loopOwes = true) : Moves p (.loop .signal) { p with loopOwes := false, cbSignal := true }
  | voice (hs : p.started = true) (seq : UInt32) (freq : KHz) (payload : List UInt8)
    (intercom ok : Bool) : Moves p (.voice seq freq payload intercom ok)
    { p with wire := p.wire ++ p.puts (newVoice p.self seq freq payload true intercom) ok }
  | txExit (hd : p.done = true) : Moves p .txExit { p with txExited := true }
  | recv {gen sock : ℕ} (hl : p.rx.lookup gen = some ⟨sock, .reading⟩) (hs : sock ∉ p.shut)
    (kind : EventKind) (serverTS : Int64) : Moves p (.recv gen kind serverTS)
    { p with rx := p.rx.insert gen ⟨sock, .holding ⟨kind, gen, p.now, serverTS, p.binding⟩⟩ }
  | emit {gen sock : ℕ} {ev : ControlEvent} (hl : p.rx.lookup gen = some ⟨sock, .holding ev⟩) :
    Moves p (.emit gen) { p with rx := p.rx.insert gen ⟨sock, .reading⟩, events := p.events ++ [ev] }
  /-- The event queue is full. -/
  | dropped {gen sock : ℕ} {ev : ControlEvent} (hl : p.rx.lookup gen = some ⟨sock, .holding ev⟩) :
    Moves p (.emit gen) { p with rx := p.rx.insert gen ⟨sock, .reading⟩ }
  | rxExit {gen sock : ℕ} (hl : p.rx.lookup gen = some ⟨sock, .reading⟩) :
    Moves p (.rxExit gen) { p with rx := p.rx.insert gen ⟨sock, .exited⟩ }
  | close (hs : p.started = true) (hc : p.closer = .idle) (ok : Bool) : Moves p (.close ok)
    { p with
      wire := p.wire ++ p.puts (newBye p.self) ok
      closed := true
      conn := none
      closer := .closed p.conn }
  | done {conn : Option ℕ} (hc : p.closer = .closed conn) : Moves p .closing
    { p with closer := .stopping conn, done := true }
  | shut {conn : Option ℕ} (hc : p.closer = .stopping conn) : Moves p .closing
    { p with closer := .joining, shut := p.shut ++ conn.toList }
  | joined (hc : p.closer = .joining) (hl : p.loop = .stopped) (ho : p.loopOwes = false) : Moves p .closing
    { p with closer := .joined }
  | published (hc : p.closer = .joined) : Moves p .closing
    { p.setState .closed none with closer := if p.cbFinal then .returned else .signalling }
  | returned (hc : p.closer = .signalling) : Moves p .closing
    { p with closer := .returned, cbSignal := true }
  | woken (hd : p.deliver = .waiting) (hc : p.cbSignal = true) : Moves p .deliver
    { p with deliver := .draining, cbSignal := false }
  | drained (hd : p.deliver = .draining) (hq : p.cbQueue = []) : Moves p .deliver
    { p with deliver := .waiting }
  | popped (hd : p.deliver = .draining) {c : StateChange} {rest : List StateChange}
    (hq : p.cbQueue = c :: rest) : Moves p .deliver { p with deliver := .calling c, cbQueue := rest }
  | called {c : StateChange} (hd : p.deliver = .calling c) : Moves p .deliver
    { p with
      deliver := if c.st = .closed then .returned else .draining
      delivered := p.delivered ++ [c] }

theorem closeStep_moves {p p' : Life} (hs : p.closeStep p.closer = some p') :
    p.Moves .closing p' := by
  generalize hc : p.closer = pc at hs
  unfold closeStep at hs
  split at hs
  · cases hs
  · cases hs; exact .done hc
  · cases hs; exact .shut hc
  · split at hs
    · next hj => cases hs; exact .joined hc hj.1 hj.2.1
    · cases hs
  · cases hs; exact .published hc
  · cases hs; exact .returned hc
  · cases hs

theorem deliverStep_moves {p p' : Life} (hs : p.deliverStep p.deliver = some p') :
    p.Moves .deliver p' := by
  generalize hd : p.deliver = pc at hs
  unfold deliverStep at hs
  split at hs
  · split at hs
    · next hc => cases hs; exact .woken hd hc
    · cases hs
  · split at hs
    · next hq => cases hs; exact .drained hd hq
    · next hq => cases hs; exact .popped hd hq
  · cases hs; exact .called hd
  · cases hs

theorem step_moves {p p' : Life} {op : LifeOp} (hs : p.step op = some p') : p.Moves op p' := by
  cases op with
  | tick d => cases hs; exact .tick d
  | loop c =>
    obtain ⟨rfl, ho, rfl⟩ | ⟨ho, hm⟩ := step_loop hs
    · exact .signal ho
    · exact .loop ho hm
  | voice seq freq payload intercom ok =>
    simp only [step] at hs
    split at hs
    · next hst => cases hs; rw [sendLocked_eq]; exact .voice hst.1 seq freq payload intercom ok
    · cases hs
  | txExit =>
    simp only [step] at hs
    split at hs
    · next hst => cases hs; exact .txExit hst.2.1
    · cases hs
  | recv gen kind serverTS =>
    simp only [step] at hs
    split at hs
    · next hl =>
      split at hs
      · cases hs
      · next hsh => cases hs; exact .recv hl hsh kind serverTS
    · cases hs
  | emit gen =>
    simp only [step] at hs
    split at hs
    · next hl =>
      cases hs
      split
      · exact .emit hl
      · exact .dropped hl
    · cases hs
  | rxExit gen =>
    simp only [step] at hs
    split at hs
    · next hl => cases hs; exact .rxExit hl
    · cases hs
  | close ok =>
    simp only [step] at hs
    split at hs
    · next hst => cases hs; rw [sendLocked_eq]; exact .close hst.1 hst.2 ok
    · cases hs
  | closing => exact closeStep_moves hs
  | deliver => exact deliverStep_moves hs

end Life

end VcsClient.Voice
