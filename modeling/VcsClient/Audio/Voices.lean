import VcsClient.Lib.Slots

/-!
# The voices of the sound effects

The voice pool of `internal/audio/sfx.go`: `play` queues an effect, `mixInto` starts
what is queued, adds every voice to the block and drops those that end. A sample is of
any type with an addition. The ring of voices and its sweep are those of `Lib.Slots`.

`started` and `mixed` are known to no code: the voices that were ever started, with the
one in a slot known by its place among them, and the blocks that were mixed. What they
have to be is said of the calls alone (`blocks`, `effects`).
-/

namespace VcsClient.Audio

open VcsClient.Lib

def maxVoices : ℕ := 8

def maxPendingEffects : ℕ := 32

instance : NeZero maxVoices := ⟨by decide⟩

variable {α : Type}

structure Voice (α : Type) where
  samples : List α
  pos : ℕ
  serial : ℕ

/-- A voice that was started: after how many blocks, and after how many it was evicted. -/
structure Started (α : Type) where
  samples : List α
  block : ℕ
  evicted : Option ℕ

/-- What a voice was started with, and after how many blocks. -/
def Started.effect (s : Started α) : List α × ℕ := (s.samples, s.block)

/-- A mixed block: `dst` before and after, and what was added, voice by voice. -/
structure Block (α : Type) where
  dst : List α
  out : List α
  parts : List (ℕ × List α)

structure VoicePool (α : Type) where
  pending : List String
  voices : Fin maxVoices → Voice α
  head : ℕ
  count : ℕ
  started : List (Started α)
  mixed : List (Block α)

/-- `dst` under way, and the parts added to it. -/
structure Mixing (α : Type) where
  dst : List α
  parts : List (ℕ × List α)

def newVoicePool : VoicePool α := ⟨[], fun _ => ⟨[], 0, 0⟩, 0, 0, [], []⟩

namespace VoicePool

def play (p : VoicePool α) (id : String) : VoicePool α :=
  { p with
    pending :=
      (if maxPendingEffects ≤ p.pending.length then p.pending.tail else p.pending) ++ [id] }

def addVoice (p : VoicePool α) (samples : List α) : VoicePool α :=
  let v : Voice α := ⟨samples, 0, p.started.length⟩
  let s : Started α := ⟨samples, p.mixed.length, none⟩
  if p.count < maxVoices then
    { p with
      voices := Function.update p.voices (slotAt maxVoices p.head p.count) v
      count := p.count + 1
      started := p.started ++ [s] }
  else
    let oldest := (p.voices (slotAt maxVoices p.head 0)).serial
    { p with
      voices := Function.update p.voices (slotAt maxVoices p.head 0) v
      head := (p.head + 1) % maxVoices
      started :=
        p.started.modify oldest (fun s => { s with evicted := some p.mixed.length }) ++ [s] }

/-- `mixInto` starts what `play` queued. -/
def drain (p : VoicePool α) (lookup : String → List α) : VoicePool α :=
  p.pending.foldl
    (fun p id => if 0 < (lookup id).length then p.addVoice (lookup id) else p)
    { p with pending := [] }

/-- `n` samples of the voice are added to `dst`. -/
def addSamples [Add α] (dst : List α) (v : Voice α) (n : ℕ) : List α :=
  (List.range n).foldl
    (fun dst j =>
      match v.samples[v.pos + j]? with
      | some x => dst.modify j (· + x)
      | none => dst) dst

/-- The body of the loop in `mixInto`: the voice as it is kept, unless it ends. -/
def mixVoice [Add α] (m : Mixing α) (v : Voice α) : Mixing α × Option (Voice α) :=
  let remaining := v.samples.length - v.pos
  let n := if remaining < m.dst.length then remaining else m.dst.length
  let v' := { v with pos := v.pos + n }
  (⟨addSamples m.dst v n, m.parts ++ [(v.serial, (v.samples.drop v.pos).take n)]⟩,
    if v'.pos < v.samples.length then some v' else none)

/-- `mixInto`, and the block it leaves in `dst`; `free` is how `TryLock` went. -/
def mixInto [Add α] (p : VoicePool α) (dst : List α) (lookup : String → List α) (free : Bool) :
    VoicePool α × List α :=
  let p := if free then p.drain lookup else p
  let s := sweep mixVoice p.voices p.head p.count ⟨dst, []⟩
  ({ p with
      voices := s.slots
      count := s.write
      mixed := p.mixed ++ [⟨dst, s.acc.dst, s.acc.parts⟩] }, s.acc.dst)

end VoicePool

inductive PoolCall (α : Type) where
  | play (id : String)
  | mixInto (dst : List α) (lookup : String → List α) (free : Bool)

def PoolCall.run [Add α] (p : VoicePool α) : PoolCall α → VoicePool α
  | .play id => p.play id
  | .mixInto dst lookup free => (p.mixInto dst lookup free).1

/-! ## What is heard -/

/-- The blocks of the calls of `mixInto`, as they were given and as they were left. -/
def blocks [Add α] : VoicePool α → List (PoolCall α) → List (List α × List α)
  | _, [] => []
  | p, .play id :: calls => blocks (p.play id) calls
  | p, .mixInto dst lookup free :: calls =>
    (dst, (p.mixInto dst lookup free).2) :: blocks (p.mixInto dst lookup free).1 calls

/-- The samples of the ids that are found, of the last ones that were played. -/
def found (ids : List String) (lookup : String → List α) : List (List α) :=
  ((ids.drop (ids.length - maxPendingEffects)).map lookup).filter (0 < ·.length)

/-- What the calls start, and after how many blocks, with the ids played since a `mixInto`
last had the lock and the number of blocks so far. -/
def effects : List String → ℕ → List (PoolCall α) → List (List α × ℕ)
  | _, _, [] => []
  | ids, n, .play id :: calls => effects (ids ++ [id]) n calls
  | ids, n, .mixInto _ lookup free :: calls =>
    if free then (found ids lookup).map (·, n) ++ effects [] (n + 1) calls
    else effects ids (n + 1) calls

/-- A part added to the front of a block. -/
def addPart [Add α] : List α → List α → List α
  | d :: dst, x :: part => (d + x) :: addPart dst part
  | dst, _ => dst

namespace VoicePool

/-- The active voices, the oldest first. -/
def active (p : VoicePool α) : List (Voice α) := window p.voices p.head p.count

/-- How much was mixed from the start of the voice to block `i`. -/
def mixedSince (p : VoicePool α) (s : Started α) (i : ℕ) : ℕ :=
  (((p.mixed.take i).drop s.block).map (·.dst.length)).sum

/-- The voice is to be heard in block `i`: it is started, neither evicted nor over. -/
def Heard (p : VoicePool α) (s : Started α) (i : ℕ) : Prop :=
  s.block ≤ i ∧ (∀ e ∈ s.evicted, i < e) ∧ p.mixedSince s i < s.samples.length

/-- What the voice `n` contributed, block after block. -/
def contributed (p : VoicePool α) (n : ℕ) : List α :=
  p.mixed.flatMap fun b => (b.parts.filter (·.1 = n)).flatMap (·.2)

/-- Voices are heard in whole, the oldest goes first. -/
structure Whole [Add α] (calls : List (PoolCall α)) (p : VoicePool α) : Prop where
  /-- every call of `mixInto` is a block, -/
  blocks : p.mixed.map (fun b => (b.dst, b.out)) = Audio.blocks newVoicePool calls
  /-- and every effect that is found has a voice -/
  effects : p.started.map (·.effect) = Audio.effects [] 0 calls
  atMost : p.active.length ≤ maxVoices
  /-- the voices in the ring are those that are neither evicted nor over -/
  active : ∀ n, n ∈ p.active.map (·.serial) ↔ ∃ s, p.started[n]? = some s ∧ p.Heard s p.mixed.length
  ordered : (p.active.map (·.serial)).Pairwise (· < ·)
  /-- A block is the sum of its parts, -/
  sum : ∀ b ∈ p.mixed, b.out = b.parts.foldl (fun dst part => addPart dst part.2) b.dst
  /-- each voice has one part at most, -/
  once : ∀ b ∈ p.mixed, (b.parts.map (·.1)).Pairwise (· < ·)
  /-- and it has one in each block from its start to its end, which goes on where the
  block before ended. -/
  parts : ∀ (i : ℕ) (b : Block α) (n : ℕ) (part : List α), p.mixed[i]? = some b →
    ((n, part) ∈ b.parts ↔ ∃ s, p.started[n]? = some s ∧ p.Heard s i ∧
      part = (s.samples.drop (p.mixedSince s i)).take b.dst.length)
  /-- A voice that is not evicted contributes its samples, each once. -/
  whole : ∀ (n : ℕ) (s : Started α), p.started[n]? = some s → s.evicted = none →
    p.contributed n = s.samples.take (p.mixedSince s p.mixed.length)
  /-- An evicted voice was the oldest: those before it were evicted, or over, -/
  oldest : ∀ (n : ℕ) (s : Started α) (e : ℕ), p.started[n]? = some s → s.evicted = some e →
    p.mixedSince s e < s.samples.length ∧
    ∀ m < n, ∀ t, p.started[m]? = some t →
      (∃ e' ∈ t.evicted, e' ≤ e) ∨ t.samples.length ≤ p.mixedSince t e
  /-- and there were enough after it. -/
  crowded : ∀ (n : ℕ) (s : Started α) (e : ℕ), p.started[n]? = some s → s.evicted = some e →
    ∃ younger : List ℕ, younger.length = maxVoices ∧ younger.Pairwise (· < ·) ∧
      ∀ m ∈ younger, n < m ∧ ∃ t, p.started[m]? = some t ∧ t.block ≤ e ∧
        p.mixedSince t e < t.samples.length ∧ ∀ e' ∈ t.evicted, e ≤ e'

end VoicePool

end VcsClient.Audio
