import Mathlib.Data.List.AList
import VcsClient.Lib.Machine
import VcsClient.Voice.Packet

/-!
# The transmit path

`internal/voice/tx.go`. `WriteFrame` runs on the DSP goroutine: it loads the
target set and the generation, collects samples in a shared accumulator under
`mu` and queues every full frame. `txLoop` takes the frames, encodes them, loads
the target set again and sends one packet a target.

`TxRun` interleaves any number of `WriteFrame` calls, `txLoop`,
`SetTXFrequencies` and `EndTransmission`; every atomic load, queue operation and
locked section is a step of its own. A sample carries the generation its call
read, `seen` logs which frequencies were targets during which generation.
Counters and logging are left out.
-/

namespace VcsClient.Voice

open VcsClient.Lib

/-- `opus.FrameSamples`. -/
def frameSamples : ℕ := 960

/-- `opus.MaxPacket`. -/
def maxPacket : ℕ := 997

def maxDatagram : ℕ := 1024

def txQueueDepth : ℕ := 8

def txBufferCount : ℕ := txQueueDepth + 1

structure TXTarget where
  freq : KHz
  intercom : Bool
  deriving DecidableEq

/-- One sample of audio, and the generation its `WriteFrame` call read. -/
structure Sample (α : Type) where
  value : α
  gen : UInt64
  deriving DecidableEq

structure TxState (α : Type) where
  /-- The pointer is nil until the first `SetTXFrequencies`. -/
  targets : Option (List TXTarget)
  gen : UInt64
  pcm : List (List (Sample α))
  /-- How many buffers the free list holds. -/
  free : ℕ
  /-- Who holds the lock. -/
  mu : Option ℕ
  /-- The first `accN` samples of the accumulator. -/
  acc : List (Sample α)
  accGen : UInt64

namespace TxState

variable {α : Type}

def init : TxState α := ⟨none, 0, [], txBufferCount, none, [], 0⟩

/-- The frequencies of the target set. -/
def freqs (t : TxState α) : List KHz := (t.targets.getD []).map (·.freq)

def setTXFrequencies (t : TxState α) (targets : List TXTarget) : TxState α :=
  { t with targets := some targets }

def endTransmission (t : TxState α) : TxState α := { t with gen := t.gen + 1 }

/-- `WriteFrame` up to its loop: a new generation resets the accumulator. -/
def enter (t : TxState α) (w : ℕ) (gen : UInt64) : TxState α :=
  if gen ≠ t.accGen then { t with mu := some w, accGen := gen, acc := [] }
  else { t with mu := some w }

/-- `copy(t.acc[t.accN:], frame)`: what fits, and the rest of the frame. -/
def copy (t : TxState α) (gen : UInt64) (frame : List α) : TxState α × List α :=
  let n := min (frameSamples - t.acc.length) frame.length
  ({ t with acc := t.acc ++ (frame.take n).map (⟨·, gen⟩) }, frame.drop n)

/-- A buffer goes back to the free list, unless that is full. -/
def recycle (t : TxState α) : TxState α :=
  if t.free < txBufferCount then { t with free := t.free + 1 } else t

/-- The send of `flushLocked`. -/
def queue (t : TxState α) (buf : List (Sample α)) : TxState α :=
  if t.pcm.length < txQueueDepth then { t with pcm := t.pcm ++ [buf] } else t.recycle

end TxState

/-- Where a `WriteFrame` call stands, with the rest of its frame. -/
inductive WriteFrame (α : Type) where
  | targetsLoaded (frame : List α)
  | genLoaded (gen : UInt64) (frame : List α)
  /-- At the top of the loop. -/
  | locked (gen : UInt64) (frame : List α)
  /-- In `flushLocked`, about to receive from the free list. -/
  | full (gen : UInt64) (acc : List (Sample α)) (frame : List α)
  /-- In `flushLocked`, about to send a filled buffer. -/
  | filled (gen : UInt64) (buf : List (Sample α)) (frame : List α)

/-- What the encoder made of a frame. -/
inductive Encoded where
  | noEncoder
  | failed
  | bytes (payload : List UInt8)
  deriving DecidableEq

def txPayloadFits (n : ℕ) : Bool := decide (headerSize + n ≤ maxDatagram)

/-- The payload `txSend` goes on with; `none` when it drops the frame. -/
def Encoded.payload : Encoded → Option (List UInt8)
  | .bytes payload =>
    if payload.length = 0 then none
    else if payload.length > maxPacket ∨ txPayloadFits payload.length = false then none
    else some payload
  | _ => none

/-- Where `txLoop` stands. -/
inductive TxLoop (α : Type) where
  | waiting
  /-- `txSend` has not loaded its targets yet. -/
  | received (pcm : List (Sample α))
  | sending (pcm : List (Sample α)) (payload : List UInt8) (targets : List TXTarget)

/-- A packet on the wire, with the samples it encodes. -/
structure Sent (α : Type) where
  packet : Packet
  samples : List (Sample α)

structure TxRun (α : Type) where
  self : UUID
  t : TxState α
  calls : AList fun _ : ℕ => WriteFrame α
  loop : TxLoop α
  seqs : AList fun _ : KHz => UInt32
  sent : List (Sent α)
  /-- Which frequencies were targets during which generation. -/
  seen : List (UInt64 × KHz)

inductive TxOp (α : Type) where
  /-- Call `w` of `WriteFrame` starts and loads the target set. -/
  | writeFrame (w : ℕ) (frame : List α)
  | loadGen (w : ℕ)
  | lock (w : ℕ)
  | copy (w : ℕ)
  | takeFree (w : ℕ)
  | queue (w : ℕ)
  | unlock (w : ℕ)
  | setTXFrequencies (targets : List TXTarget)
  | endTransmission
  | receive
  /-- The frame is encoded and the target set loaded. -/
  | load (encoded : Encoded)
  /-- One packet is written; `ok` is whether the socket took it. -/
  | send (ok : Bool)
  | recycle

namespace TxRun

variable {α : Type}

def init (self : UUID) : TxRun α := ⟨self, .init, ∅, .waiting, ∅, [], []⟩

/-- Log the targets of the moment. -/
def observe (s : TxRun α) : TxRun α :=
  { s with seen := s.seen ++ s.t.freqs.map (s.t.gen, ·) }

def step (s : TxRun α) : TxOp α → Option (TxRun α)
  | .writeFrame w frame =>
    if w ∈ s.calls then none
    else
      match s.t.targets with
      | none | some [] => some s
      | some (_ :: _) => some { s with calls := s.calls.insert w (.targetsLoaded frame) }
  | .loadGen w =>
    match s.calls.lookup w with
    | some (.targetsLoaded frame) =>
      some { s with calls := s.calls.insert w (.genLoaded s.t.gen frame) }
    | _ => none
  | .lock w =>
    match s.calls.lookup w with
    | some (.genLoaded gen frame) =>
      if s.t.mu = none then
        some { s with t := s.t.enter w gen, calls := s.calls.insert w (.locked gen frame) }
      else none
    | _ => none
  | .copy w =>
    match s.calls.lookup w with
    | some (.locked gen (x :: frame)) =>
      let r := s.t.copy gen (x :: frame)
      -- not full yet: all of the frame is in the accumulator
      if r.1.acc.length < frameSamples then
        some { s with t := r.1, calls := s.calls.insert w (.locked gen []) }
      else
        some { s with
          t := { r.1 with acc := [] }
          calls := s.calls.insert w (.full gen r.1.acc r.2) }
    | _ => none
  | .takeFree w =>
    match s.calls.lookup w with
    | some (.full gen acc frame) =>
      if s.t.free = 0 then some { s with calls := s.calls.insert w (.locked gen frame) }
      else
        some { s with
          t := { s.t with free := s.t.free - 1 }
          calls := s.calls.insert w (.filled gen acc frame) }
    | _ => none
  | .queue w =>
    match s.calls.lookup w with
    | some (.filled gen buf frame) =>
      some { s with t := s.t.queue buf, calls := s.calls.insert w (.locked gen frame) }
    | _ => none
  | .unlock w =>
    match s.calls.lookup w with
    | some (.locked _ []) => some { s with t := { s.t with mu := none }, calls := s.calls.erase w }
    | _ => none
  | .setTXFrequencies targets => some { s with t := s.t.setTXFrequencies targets }.observe
  | .endTransmission => some { s with t := s.t.endTransmission }.observe
  | .receive =>
    match s.loop, s.t.pcm with
    | .waiting, pcm :: rest => some { s with t := { s.t with pcm := rest }, loop := .received pcm }
    | _, _ => none
  | .load encoded =>
    match s.loop with
    | .received pcm =>
      match encoded.payload with
      | none => some { s with loop := .sending pcm [] [] }
      | some payload => some { s with loop := .sending pcm payload (s.t.targets.getD []) }
    | _ => none
  | .send ok =>
    match s.loop with
    | .sending pcm payload (target :: targets) =>
      let seq := (s.seqs.lookup target.freq).getD 0
      let p := newVoice s.self seq target.freq payload true target.intercom
      some { s with
        loop := .sending pcm payload targets
        seqs := s.seqs.insert target.freq ((seq + 1) &&& wireMask24)
        sent := if ok then s.sent ++ [⟨p, pcm⟩] else s.sent }
    | _ => none
  | .recycle =>
    match s.loop with
    | .sending _ _ [] => some { s with t := s.t.recycle, loop := .waiting }
    | _ => none

end TxRun

end VcsClient.Voice
