import VcsClient.Lib.Machine
import VcsClient.Lib.Serial

/-!
# The sample ring

`internal/audio/ring.go`: one goroutine writes, one reads and drains. Every load
and store of an index is a step, and so is every sample that is copied. The
memory is sequentially consistent, as atomics make it for what they order.

`writes` and `taken` record what the calls that returned have done.
-/

namespace VcsClient.Audio

open VcsClient.Lib

variable {α : Type}

/-- A slice; its length is an `int`. -/
structure Slice (α : Type) where
  elems : List α
  fits : elems.length < 2 ^ 63

/-- `len` of the slice, as the code converts it. -/
def Slice.len (s : Slice α) : UInt64 := UInt64.ofNat s.elems.length

def frameSamples : ℤ := 480

structure Ring (α : Type) where
  buf : ℕ → α
  /-- `len(r.buf)`. -/
  size : UInt64
  mask : UInt64
  w : UInt64
  r : UInt64
  dropped : UInt64
  underruns : UInt64

/-- The loop of `NewRing`; 64 doublings leave `size` at 0, for good. -/
def grow (n : UInt64) : ℕ → UInt64 → Option UInt64
  | 0, _ => none
  | fuel + 1, size => if size < n then grow n fuel (size <<< 1) else some size

/-- `NewRing`. -/
def newRing (zero : α) (capacityFrames : ℤ) : Option (Ring α) :=
  (grow (UInt64.ofInt (capacityFrames * frameSamples)) 64 1).map fun size =>
    ⟨fun _ => zero, size, size - 1, 0, 0, 0, 0⟩

/-- Where the writing goroutine stands in `Write`. -/
inductive Writer (α : Type) where
  | idle
  | call (src : Slice α)
  /-- `w` is loaded -/
  | loaded (src : Slice α) (w : UInt64)
  /-- no room, before the count of the dropped samples -/
  | full (src : Slice α)
  | copying (src : Slice α) (w : UInt64) (i : ℕ)

/-- Where the reading goroutine stands in `Read` or `Drain`. -/
inductive Reader (α : Type) where
  | idle
  | read (len : UInt64)
  | loaded (len w : UInt64)
  /-- before the count of the underruns -/
  | short (rd avail : UInt64)
  | copying (rd n : UInt64) (got : List α)
  | drain
  | draining (w : UInt64)

/-- What a call of the reading goroutine took out of the ring. -/
inductive Taken (α : Type) where
  | read (samples : List α)
  | drained (n : ℕ)

def Taken.count : Taken α → ℕ
  | .read samples => samples.length
  | .drained n => n

structure Duplex (α : Type) where
  ring : Ring α
  writer : Writer α
  reader : Reader α
  /-- The calls of `Write`, with the results. -/
  writes : List (Slice α × ℕ)
  taken : List (Taken α)

inductive RingOp (α : Type) where
  | write (src : Slice α)
  | read (len : UInt64)
  | drain
  | writer
  | reader

namespace Duplex

def init (ring : Ring α) : Duplex α := ⟨ring, .idle, .idle, [], []⟩

def slot (p : Duplex α) (x : UInt64) : ℕ := (x &&& p.ring.mask).toNat

def setSlot (p : Duplex α) (x : UInt64) (v : α) : Duplex α :=
  { p with ring.buf := Function.update p.ring.buf (p.slot x) v }

def writerStep (p : Duplex α) : Option (Duplex α) :=
  match p.writer with
  | .idle => none
  | .call src => some { p with writer := .loaded src p.ring.w }
  | .loaded src w =>
    let free := p.ring.size - (w - p.ring.r)
    if src.len > free then some { p with writer := .full src }
    else some { p with writer := .copying src w 0 }
  | .full src =>
    some { p with
      ring.dropped := p.ring.dropped + src.len
      writer := .idle
      writes := p.writes ++ [(src, src.elems.length)] }
  | .copying src w i =>
    match src.elems[i]? with
    | some v =>
      some { p.setSlot (w + UInt64.ofNat i) v with writer := .copying src w (i + 1) }
    | none =>
      some { p with
        ring.w := w + src.len
        writer := .idle
        writes := p.writes ++ [(src, 0)] }

def readerStep (p : Duplex α) : Option (Duplex α) :=
  match p.reader with
  | .idle => none
  | .read len => some { p with reader := .loaded len p.ring.w }
  | .loaded len w =>
    let rd := p.ring.r
    let avail := w - rd
    if avail < len then some { p with reader := .short rd avail }
    else some { p with reader := .copying rd len [] }
  | .short rd avail =>
    let ring := { p.ring with underruns := p.ring.underruns + 1 }
    if avail = 0 then
      some { p with ring := ring, reader := .idle, taken := p.taken ++ [.read []] }
    else some { p with ring := ring, reader := .copying rd avail [] }
  | .copying rd n got =>
    if got.length < n.toNat then
      let v := p.ring.buf (p.slot (rd + UInt64.ofNat got.length))
      some { p with reader := .copying rd n (got ++ [v]) }
    else
      some { p with
        ring.r := rd + n
        reader := .idle
        taken := p.taken ++ [.read got] }
  | .drain => some { p with reader := .draining p.ring.w }
  | .draining w =>
    some { p with
      ring.r := w
      reader := .idle
      taken := p.taken ++ [.drained (w - p.ring.r).toNat] }

def step (p : Duplex α) : RingOp α → Option (Duplex α)
  | .write src =>
    match p.writer with
    | .idle => some { p with writer := .call src }
    | _ => none
  | .read len =>
    match p.reader with
    | .idle => some { p with reader := .read len }
    | _ => none
  | .drain =>
    match p.reader with
    | .idle => some { p with reader := .drain }
    | _ => none
  | .writer => p.writerStep
  | .reader => p.readerStep

/-- The samples of the writes that were not dropped. -/
def accepted (p : Duplex α) : List α :=
  p.writes.flatMap fun c => if c.2 = 0 then c.1.elems else []

/-- How many samples left the ring. -/
def passed (p : Duplex α) : ℕ := (p.taken.map Taken.count).sum

/-- The slots a copy from index `x` on goes through. -/
def window (p : Duplex α) (x : UInt64) (n : ℕ) : List ℕ :=
  (List.range n).map fun i => p.slot (x + UInt64.ofNat i)

def copiedInto (p : Duplex α) : List ℕ :=
  match p.writer with
  | .copying src w _ => p.window w src.elems.length
  | _ => []

/-- The slots being copied out of. -/
def copiedOut (p : Duplex α) : List ℕ :=
  match p.reader with
  | .copying rd n _ => p.window rd n.toNat
  | _ => []

end Duplex

/-- The calls took these samples in turn, and a drain passed over its own. -/
inductive Passes : List (Taken α) → List α → Prop
  | nil : Passes [] []
  | read {ts : List (Taken α)} {l : List α} (xs : List α) :
      Passes ts l → Passes (ts ++ [.read xs]) (l ++ xs)
  | drained {ts : List (Taken α)} {l : List α} (xs : List α) :
      Passes ts l → Passes (ts ++ [.drained xs.length]) (l ++ xs)

/-- What a ring is: a queue of the samples that were accepted. -/
structure Duplex.Fifo (p : Duplex α) : Prop where
  /-- The two copies use different slots, all of them in the buffer. -/
  disjoint : p.copiedInto.Disjoint p.copiedOut
  inside : ∀ i ∈ p.copiedInto ++ p.copiedOut, i < p.ring.size.toNat
  /-- The indices are the counts of what came in and of what left, -/
  written : Counts p.ring.w p.accepted.length
  left : Counts p.ring.r p.passed
  /-- which the capacity keeps together. -/
  ordered : p.passed ≤ p.accepted.length
  bounded : p.accepted.length ≤ p.passed + p.ring.size.toNat
  /-- A write returns 0 or drops all it was given. -/
  whole : ∀ c ∈ p.writes, c.2 = 0 ∨ c.2 = c.1.elems.length
  /-- What left is what was accepted first, in that order. -/
  fifo : Passes p.taken (p.accepted.take p.passed)

end VcsClient.Audio
