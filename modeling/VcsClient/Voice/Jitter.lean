import Mathlib.Data.List.AList
import VcsClient.Lib.Listing
import VcsClient.Lib.Serial
import VcsClient.Voice.Packet

/-!
# The jitter buffer

`internal/voice/jitter.go`: frames of one stream keyed by their 24-bit
sequence, handed out in sequence order from a playout schedule. `push` admits
a frame, `pop` hands out the next slot (`PopResult`), `reset` empties the
buffer. The payload type is a parameter: the code never looks inside one.

A `range` over the frames visits them in an order the language leaves open, so
every operation that ranges takes the order as an argument (`IterOrder`).
Times and durations are integers, in nanoseconds; `time.Time{}` is 0.
-/

namespace VcsClient.Voice

open VcsClient.Lib

structure JitterFrame (α : Type) where
  seq : UInt32
  payload : α
  addedAt : ℤ
  deriving DecidableEq

structure Jitter (α : Type) where
  target : ℤ
  max : ℤ
  frameDur : ℤ
  maxFrames : ℕ
  maxFrames_pos : 0 < maxFrames
  frames : AList fun _ : UInt32 => JitterFrame α
  hasFirstPush : Bool
  bufferStartAt : ℤ
  primed : Bool
  nextExpected : UInt32
  playoutBase : ℤ
  underrun : Bool

/-- The signed distance from `b` to `a`: the 24-bit difference, its top bit
shifted up into the sign bit and back. -/
def seqDiff (a b : UInt32) : ℤ :=
  ((((a - b) &&& wireMask24) <<< 8).toInt32 >>> 8).toInt

def seqLess (a b : UInt32) : Bool := decide (seqDiff a b < 0)

/-- The `int32` conversion. -/
def int32 (x : ℤ) : ℤ := x.bmod (2 ^ 32)

def maxAheadMultiplier : ℤ := 8

/-- `max` as a frame count, at least one. -/
def maxFramesOf (max frameDur : ℤ) : ℕ :=
  if 0 < frameDur ∧ 1 < max.tdiv frameDur then (max.tdiv frameDur).toNat else 1

theorem maxFramesOf_pos (max frameDur : ℤ) : 0 < maxFramesOf max frameDur := by
  unfold maxFramesOf; split <;> omega

variable {α : Type}

def newJitter (α : Type) (target max frameDur : ℤ) : Jitter α where
  target := target
  max := max
  frameDur := frameDur
  maxFrames := maxFramesOf max frameDur
  maxFrames_pos := maxFramesOf_pos max frameDur
  frames := ∅
  hasFirstPush := false
  bufferStartAt := 0
  primed := false
  nextExpected := 0
  playoutBase := 0
  underrun := false

namespace Jitter

def depth (j : Jitter α) : ℕ := j.frames.keys.length

/-- How far ahead of its reference `push` admits a sequence. -/
def maxAhead (j : Jitter α) : ℤ := int32 (int32 j.maxFrames * maxAheadMultiplier)

def oldestSeqLocked (o : IterOrder UInt32) (j : Jitter α) : Option UInt32 :=
  firstLeast seqLess (o.order j.frames.keys)

def advanceLocked (j : Jitter α) : Jitter α :=
  { j with nextExpected := (j.nextExpected + 1) &&& wireMask24
           playoutBase := j.playoutBase + j.frameDur }

def resyncLocked (j : Jitter α) (now : ℤ) : Jitter α :=
  { j with playoutBase := now + j.frameDur, underrun := false }

/-- The range check of `push`: behind `nextExpected`, or implausibly far ahead
of the reference sequence. -/
def outOfRange (o : IterOrder UInt32) (j : Jitter α) (seq : UInt32) : Bool :=
  if j.primed then seqLess seq j.nextExpected || decide (j.maxAhead < seqDiff seq j.nextExpected)
  else
    match j.oldestSeqLocked o with
    | some oldest => decide (j.maxAhead < seqDiff seq oldest)
    | none => false

/-- The eviction loop of `push`; each turn deletes one frame, so `depth` turns
are enough. The turn with `n` left ranges in the order `it n`. -/
def evict (it : ℕ → IterOrder UInt32) : ℕ → Jitter α → Jitter α
  | 0, j => j
  | n + 1, j =>
    if j.maxFrames < j.depth then
      match j.oldestSeqLocked (it n) with
      | none => j
      | some oldest => evict it n { j with frames := j.frames.erase oldest }
    else j

/-- Store a frame at `seq`; the very first one ever starts the priming clock. -/
def store (j : Jitter α) (seq : UInt32) (payload : α) (now : ℤ) : Jitter α :=
  { j with
    hasFirstPush := true
    bufferStartAt := if j.hasFirstPush then j.bufferStartAt else now
    frames := j.frames.insert seq ⟨seq, payload, now⟩ }

/-- `it 0` is the order of the range check, the later ones of the eviction. -/
def push (it : ℕ → IterOrder UInt32) (j : Jitter α) (seq : UInt32) (payload : α) (now : ℤ) :
    Bool × Jitter α :=
  let seq := seq &&& wireMask24
  if j.outOfRange (it 0) seq then (false, j)
  else if seq ∈ j.frames then (false, j)
  else
    let j := j.store seq payload now
    (true, j.evict (fun n => it (n + 1)) j.depth)

end Jitter

/-- The results of `pop`; a nil payload is `none`. -/
structure PopResult (α : Type) where
  payload : Option α
  lost : Bool
  ok : Bool
  deriving DecidableEq

namespace Jitter

def nothing : PopResult α := ⟨none, false, false⟩

/-- Playout starts once `target` has passed since the first push and a frame
is buffered; `none` while it has not. -/
def prime (o : IterOrder UInt32) (j : Jitter α) (now : ℤ) : Option (Jitter α) :=
  if j.primed then some j
  else if !j.hasFirstPush then none
  else
    let deadline := j.bufferStartAt + j.target
    if now < deadline then none
    else
      match j.oldestSeqLocked o with
      | none => none
      | some seq => some { j with primed := true, nextExpected := seq, playoutBase := deadline }

/-- `pop` once primed and with something buffered, after a pending resync. -/
def popNext (j : Jitter α) (now : ℤ) : PopResult α × Jitter α :=
  match j.frames.lookup j.nextExpected with
  | some frame =>
    (⟨some frame.payload, false, true⟩,
      { j with frames := j.frames.erase j.nextExpected }.advanceLocked)
  | none =>
    if now < j.playoutBase then (nothing, j)
    else (⟨none, true, true⟩, j.advanceLocked)

def pop (o : IterOrder UInt32) (j : Jitter α) (now : ℤ) : PopResult α × Jitter α :=
  match j.prime o now with
  | none => (nothing, j)
  | some j =>
    if j.depth = 0 then (nothing, { j with underrun := true })
    else (if j.underrun then j.resyncLocked now else j).popNext now

def reset (j : Jitter α) : Jitter α :=
  { j with
    frames := ∅
    hasFirstPush := false
    bufferStartAt := 0
    primed := false
    nextExpected := 0
    playoutBase := 0
    underrun := false }

end Jitter

abbrev ms (n : ℤ) : ℤ := n * 1000000

/-- One order for every range of a push. -/
abbrev always (o : IterOrder UInt32) : ℕ → IterOrder UInt32 := fun _ => o

abbrev stored : IterOrder UInt32 := .stored UInt32

/-- One call on a jitter buffer. -/
inductive JitterOp (α : Type) where
  | push (it : ℕ → IterOrder UInt32) (seq : UInt32) (payload : α) (now : ℤ)
  | pop (o : IterOrder UInt32) (now : ℤ)
  | reset

def Jitter.step (j : Jitter α) : JitterOp α → Option (Jitter α)
  | .push it seq payload now => some (j.push it seq payload now).2
  | .pop o now => some (j.pop o now).2
  | .reset => some j.reset

/-! ## What each function does -/

theorem toNat_sub_mask (a b : UInt32) :
    (((a - b) &&& wireMask24).toNat : ℤ) = ahead (2 ^ 24) b.toNat a.toNat := by
  have ha := a.toNat_lt
  have hb := b.toNat_lt
  rw [toNat_mask24, UInt32.toNat_sub, ahead]
  omega

theorem toInt_shift8 (x : Int32) : (x >>> 8).toInt = x.toInt / 256 := by
  rw [← Int32.toInt_toBitVec, Int32.toBitVec_shiftRight, BitVec.toInt_sshiftRight',
    Int32.toInt_toBitVec, Int.shiftRight_eq_div_pow]
  rfl

/-- `seqDiff` is the signed distance on the circle of `2^24` numbers. -/
theorem seqDiff_eq (a b : UInt32) : seqDiff a b = sdiff (2 ^ 24) a.toNat b.toNat := by
  have h := toNat_sub_mask a b
  have h0 := ahead_nonneg (M := 2 ^ 24) (b := b.toNat) (s := a.toNat) (by decide)
  have hlt := ahead_lt (M := 2 ^ 24) (b := b.toNat) (s := a.toNat) (by decide)
  unfold seqDiff
  generalize (a - b) &&& wireMask24 = d at h ⊢
  have h8 : (d <<< 8).toNat = d.toNat * 256 := by
    simp only [UInt32.toNat_shiftLeft, UInt32.reduceToNat, Nat.reduceMod, Nat.shiftLeft_eq]
    omega
  have hi : (d <<< 8).toInt32.toInt = ((d.toNat * 256 : ℕ) : ℤ).bmod (2 ^ 32) := by
    rw [← h8, ← Int32.toInt_toBitVec]
    exact BitVec.toInt_eq_toNat_bmod _
  rw [toInt_shift8, hi]
  rcases lt_or_ge (2 * ahead (2 ^ 24) b.toNat a.toNat) ((2 ^ 24 : ℕ) : ℤ) with hw | hw
  · rw [sdiff_eq_ahead hw, Int.bmod_eq_emod_of_lt (by omega)]
    omega
  · rw [sdiff_eq_ahead_sub hw, Int.bmod_neg _ _ (by omega)]
    omega

theorem maxAhead_eq (j : Jitter α) (h : 8 * j.maxFrames < 2 ^ 23) :
    j.maxAhead = 8 * j.maxFrames := by
  unfold Jitter.maxAhead int32 maxAheadMultiplier
  rw [Int.bmod_eq_of_le_mul_two (x := (j.maxFrames : ℤ)) (by omega) (by omega),
    Int.bmod_eq_of_le_mul_two (by omega) (by omega)]
  omega

namespace Jitter

@[simp] theorem depth_store (j : Jitter α) (seq : UInt32) (payload : α) (now : ℤ)
    (h : seq ∉ j.frames) : (j.store seq payload now).depth = j.depth + 1 := by
  have hk : seq ∉ j.frames.keys := fun hc => h (AList.mem_keys.2 hc)
  simp [depth, store, AList.keys_insert, List.erase_of_not_mem hk]

theorem evict_of_le (it : ℕ → IterOrder UInt32) (n : ℕ) (j : Jitter α) (h : j.depth ≤ j.maxFrames) :
    evict it n j = j := by
  cases n with
  | zero => rfl
  | succ n => simp [evict, Nat.not_lt.2 h]

end Jitter

end VcsClient.Voice
