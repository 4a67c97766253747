import VcsClient.Lib.Assoc
import VcsClient.Voice.Tx

/-!
# What becomes of the frames

`Pipeline` runs the transmit path (`TxRun`) up to the shutdown of `txLoop`, with
the counter `dropFull`, and records what happened: which call took the lock
when, and each accumulator that filled, each frame handed to `txSend` and each
frame dropped. Every sample carries the number of its call and its place in the
call's frame.

`Conserved` is what a run keeps: nine buffers, every filled accumulator in one
place, and the frames in the order they filled, each of one generation with the
samples of its calls in lock order.
-/

namespace VcsClient.Voice

open VcsClient.Lib

/-- A sample of the `call`-th call of `WriteFrame`, the `pos`-th of its frame. -/
structure Tagged (α : Type) where
  value : α
  call : ℕ
  pos : ℕ
  deriving DecidableEq

def tagFrame {α : Type} (call : ℕ) (frame : List α) : List (Tagged α) :=
  frame.zipIdx.map fun p => ⟨p.1, call, p.2⟩

abbrev Frame (α : Type) := List (Sample (Tagged α))

inductive CallEvent where
  | started (call : ℕ)
  | returned (call : ℕ)
  deriving DecidableEq

/-- The filled accumulator a call has in its hands. -/
def WriteFrame.carrying {α : Type} : WriteFrame α → Option (List (Sample α))
  | .full _ acc _ | .filled _ acc _ => some acc
  | _ => none

/-- The call holds a buffer of the pool. -/
def WriteFrame.hasBuffer {α : Type} : WriteFrame α → Bool
  | .filled _ _ _ => true
  | _ => false

/-- The frame is one of the call's: its samples, in order. -/
def WriteFrame.rest {α : Type} : WriteFrame α → List α
  | .targetsLoaded frame | .genLoaded _ frame | .locked _ frame | .full _ _ frame
  | .filled _ _ frame => frame

/-- `txLoop` holds a buffer of the pool. -/
def TxLoop.hasBuffer {α : Type} : TxLoop α → Bool
  | .waiting => false
  | .received _ | .sending _ _ _ => true

structure Pipeline (α : Type) where
  run : TxRun (Tagged α)
  done : Bool
  exited : Bool
  dropFull : ℕ
  /-- The call each goroutine is in. -/
  numbers : ℕ → ℕ
  started : ℕ
  events : List CallEvent
  /-- The calls that took the lock, in that order. -/
  order : List ℕ
  filled : List (Frame α)
  txSend : List (Frame α)
  dropped : List (Frame α)

inductive PipeOp (α : Type) where
  | tx (op : TxOp α)
  /-- `Close` closes `done`. -/
  | close
  /-- `txLoop` sees it. -/
  | exit

/-- The operation on tagged samples, by a call of the given number. -/
def TxOp.tag {α : Type} (call : ℕ) : TxOp α → TxOp (Tagged α)
  | .writeFrame w frame => .writeFrame w (tagFrame call frame)
  | .loadGen w => .loadGen w
  | .lock w => .lock w
  | .copy w => .copy w
  | .takeFree w => .takeFree w
  | .queue w => .queue w
  | .unlock w => .unlock w
  | .setTXFrequencies targets => .setTXFrequencies targets
  | .endTransmission => .endTransmission
  | .receive => .receive
  | .load encoded => .load encoded
  | .send ok => .send ok
  | .recycle => .recycle

namespace Pipeline

variable {α : Type}

def init (self : UUID) : Pipeline α where
  run := .init self
  done := false
  exited := false
  dropFull := 0
  numbers := fun _ => 0
  started := 0
  events := []
  order := []
  filled := []
  txSend := []
  dropped := []

/-- `flushLocked` has nowhere to put the frame. -/
def drop (p : Pipeline α) (frame : Option (Frame α)) : Pipeline α :=
  { p with dropFull := p.dropFull + 1, dropped := p.dropped ++ frame.toList }

/-- The frame a call has in its hands. -/
def carried (p : Pipeline α) (w : ℕ) : Option (Frame α) :=
  (p.run.calls.lookup w).bind WriteFrame.carrying

/-- What is counted and recorded as the operation turns `p.run` into `run`. -/
def note (p : Pipeline α) (run : TxRun (Tagged α)) : TxOp α → Pipeline α
  | .writeFrame w _ =>
    let events := p.events ++ [.started p.started]
    { p with
      run := run
      numbers := Function.update p.numbers w p.started
      started := p.started + 1
      -- without targets the call has returned at once
      events := if w ∈ run.calls then events else events ++ [.returned p.started] }
  | .lock w => { p with run := run, order := p.order ++ [p.numbers w] }
  | .copy w => { p with run := run, filled := p.filled ++ ({ p with run := run }.carried w).toList }
  | .takeFree w =>
    if p.run.t.free = 0 then { p.drop (p.carried w) with run := run } else { p with run := run }
  | .queue w =>
    if p.run.t.pcm.length < txQueueDepth then { p with run := run }
    else { p.drop (p.carried w) with run := run }
  | .unlock w => { p with run := run, events := p.events ++ [.returned (p.numbers w)] }
  | .receive => { p with run := run, txSend := p.txSend ++ p.run.t.pcm.head?.toList }
  | .loadGen _ | .setTXFrequencies _ | .endTransmission | .load _ | .send _ | .recycle =>
    { p with run := run }

def step (p : Pipeline α) : PipeOp α → Option (Pipeline α)
  | .tx op =>
    if p.exited then
      match op with
      | .receive => none
      | op => (p.run.step (op.tag p.started)).map fun run => p.note run op
    else (p.run.step (op.tag p.started)).map fun run => p.note run op
  | .close => some { p with done := true }
  | .exit =>
    match p.run.loop with
    | .waiting => if p.done then some { p with exited := true } else none
    | _ => none

/-- The buffers in the hands of calls. -/
def callBuffers (p : Pipeline α) : ℕ := p.run.calls.entries.countP fun e => e.2.hasBuffer

/-- The filled accumulators in the hands of calls. -/
def inCalls (p : Pipeline α) : List (Frame α) :=
  p.run.calls.entries.filterMap fun e => e.2.carrying

end Pipeline

/-- In one frame: samples of one call in place order, and of two calls in the
order the calls took the lock. -/
def InOrder {α : Type} (order : List ℕ) (x y : Tagged α) : Prop :=
  x.call = y.call ∧ x.pos < y.pos ∨ [x.call, y.call].Sublist order

namespace Pipeline

structure Conserved {α : Type} (p : Pipeline α) : Prop where
  /-- Every buffer is in the pool, in the queue or in some goroutine's hands. -/
  buffers : p.run.t.free + p.run.t.pcm.length + p.callBuffers + p.run.loop.hasBuffer.toNat =
    txBufferCount
  /-- Every filled accumulator is in one place, and there once. -/
  placed : p.filled.Perm (p.txSend ++ p.run.t.pcm ++ p.inCalls ++ p.dropped)
  once : p.filled.Nodup
  /-- They are sent in the order they filled. -/
  sent : (p.txSend ++ p.run.t.pcm ++ p.inCalls).Sublist p.filled
  counted : p.dropFull = p.dropped.length
  full : ∀ frame ∈ p.filled, frame.length = frameSamples
  oneGen : ∀ frame ∈ p.filled, ∃ gen, ∀ x ∈ frame, x.gen = gen
  inOrder : ∀ frame ∈ p.filled, (frame.map (·.value)).Pairwise (InOrder p.order)
  /-- The lock order is one of the calls: no call is in it twice, and a call that
  returned before another started comes first. -/
  order : p.order.Nodup
  realTime : ∀ c d, [.returned c, .started d].Sublist p.events → c ∈ p.order → d ∈ p.order →
    [c, d].Sublist p.order

end Pipeline

end VcsClient.Voice
