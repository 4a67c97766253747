import VcsClient.Lib.Assoc
import VcsClient.Lib.Machine
import VcsClient.Voice.JitterWindow

/-!
# The receive path

`internal/voice/rx.go`: `rxVoice` filters a parsed VOICE datagram and pushes it
into the jitter buffer of its (sender, frequency) stream, which `rxStreamFor`
opens on the first packet; `rxService` tops the streams up, reports the
transmissions that ended and reaps the streams that have gone quiet.

Decoding is not modelled: `topUp` pops once for each turn it is given, the
turns standing for the room in the stream's PCM ring. A decoder factory that
fails is the flag `decoder`. Every early return of `rxVoice` is a `RxOutcome`,
which names the counter it bumps.
-/

namespace VcsClient.Voice

open VcsClient.Lib

def rxFrameDuration : ℤ := ms 20

def rxIdleTimeout : ℤ := ms 5000

def maxRXStreams : ℕ := 32

structure StreamKey where
  sender : UUID
  freq : KHz
  deriving DecidableEq

/-- The frequency filter; the sets are given by their members. -/
structure RxContext where
  accept : List KHz
  global : List KHz
  test : List KHz

structure RxStream where
  key : StreamKey
  jit : Jitter (List UInt8)
  lastSeen : ℤ
  started : ℤ
  ended : Bool

structure Rx where
  self : UUID
  ctx : Option RxContext
  streams : AList fun _ : StreamKey => RxStream
  jitterTarget : ℤ
  jitterMax : ℤ
  historyIdle : ℤ

/-- A finished transmission, as the history log gets it. -/
structure RxEvent where
  sender : UUID
  freq : KHz
  start : ℤ
  end_ : ℤ
  deriving DecidableEq

inductive RxOutcome where
  | dropFreq
  | dropOwn
  | dropEmpty
  | dropStreamCap
  | dropNoDecoder
  | dropJitter
  | pushed
  deriving DecidableEq

def Packet.streamKey (pkt : Packet) : StreamKey := ⟨pkt.senderID, pkt.frequency⟩

namespace Rx

def init (self : UUID) (jitterTarget jitterMax historyIdle : ℤ) : Rx :=
  ⟨self, none, ∅, jitterTarget, jitterMax, historyIdle⟩

def setRXContext (rx : Rx) (accept global test : List KHz) : Rx :=
  { rx with ctx := some ⟨accept, global, test⟩ }

/-- The filter at the head of `rxVoice`: why a datagram goes no further. -/
def filtered (rx : Rx) (pkt : Packet) : Option RxOutcome :=
  match rx.ctx with
  | none => some .dropFreq
  | some ctx =>
    let isTest := decide (pkt.frequency ∈ ctx.test)
    let isGlobal := decide (pkt.frequency ∈ ctx.global)
    if pkt.senderID = rx.self ∧ !isTest then some .dropOwn
    else if pkt.frequency ∉ ctx.accept ∧ !isGlobal ∧ !isTest then some .dropFreq
    else if pkt.payload.length = 0 then some .dropEmpty
    else none

/-- A stream as `rxStreamFor` opens it. -/
def newStream (rx : Rx) (key : StreamKey) (at_ : ℤ) : RxStream where
  key := key
  jit := newJitter (List UInt8) rx.jitterTarget rx.jitterMax rxFrameDuration
  lastSeen := at_
  started := at_
  ended := false

def rxStreamFor (decoder : Bool) (rx : Rx) (key : StreamKey) (at_ : ℤ) :
    Except RxOutcome (RxStream × Rx) :=
  match rx.streams.lookup key with
  | some st => .ok (st, rx)
  | none =>
    if maxRXStreams ≤ rx.streams.keys.length then .error .dropStreamCap
    else if !decoder then .error .dropNoDecoder
    else
      let st := rx.newStream key at_
      .ok (st, { rx with streams := rx.streams.insert key st })

/-- A packet reaches its stream: it is seen, it restarts an ended transmission
and it is pushed. -/
def deliver (it : ℕ → IterOrder UInt32) (st : RxStream) (pkt : Packet) (at_ : ℤ) :
    Bool × RxStream :=
  let st := { st with
    lastSeen := at_
    started := if st.ended then at_ else st.started
    ended := false }
  let r := st.jit.push it pkt.sequence pkt.payload at_
  (r.1, { st with jit := r.2 })

def rxVoice (it : ℕ → IterOrder UInt32) (decoder : Bool) (rx : Rx) (pkt : Packet) (at_ : ℤ) :
    RxOutcome × Rx :=
  match rx.filtered pkt with
  | some outcome => (outcome, rx)
  | none =>
    match rx.rxStreamFor decoder pkt.streamKey at_ with
    | .error outcome => (outcome, rx)
    | .ok (st, rx) =>
      let r := deliver it st pkt at_
      (if r.1 then .pushed else .dropJitter,
        { rx with streams := rx.streams.insert pkt.streamKey r.2 })

/-- The pops of one service: a turn each, until one has nothing to play. -/
def topUp : List (IterOrder UInt32) → ℤ → Jitter (List UInt8) → Jitter (List UInt8)
  | [], _, jit => jit
  | o :: turns, now, jit =>
    let r := jit.pop o now
    if r.1.ok then topUp turns now r.2 else r.2

def endTransmission (st : RxStream) (now idle : ℤ) : Option RxEvent × RxStream :=
  if st.ended ∨ now - st.lastSeen < idle then (none, st)
  else (some ⟨st.key.sender, st.key.freq, st.started, st.lastSeen⟩, { st with ended := true })

/-- What `rxService` does for one stream. -/
def serve (turns : List (IterOrder UInt32)) (now historyIdle : ℤ) (st : RxStream) :
    Option RxEvent × RxStream :=
  let st := { st with jit := topUp turns now st.jit }
  if !st.ended ∧ 0 < historyIdle ∧ historyIdle ≤ now - st.lastSeen then
    endTransmission st now historyIdle
  else (none, st)

def reap (rx : Rx) (key : StreamKey) (now : ℤ) : Rx :=
  match rx.streams.lookup key with
  | none => rx
  | some st =>
    if now - st.lastSeen < rxIdleTimeout then rx
    else { rx with streams := rx.streams.erase key }

/-- `o` is the order of the published snapshot, `turns` the turns of each
stream's top-up. -/
def rxService (o : IterOrder StreamKey) (turns : StreamKey → List (IterOrder UInt32)) (rx : Rx)
    (now : ℤ) : List RxEvent × Rx :=
  let keys := o.order rx.streams.keys
  let events := keys.filterMap fun key =>
    (rx.streams.lookup key).bind fun st => (serve (turns key) now rx.historyIdle st).1
  let served := { rx with
    streams := mapValues (fun key st => (serve (turns key) now rx.historyIdle st).2) rx.streams }
  let idle := keys.filter fun key =>
    (rx.streams.lookup key).any fun st => rxIdleTimeout ≤ now - st.lastSeen
  (events, idle.foldl (fun rx key => rx.reap key now) served)

end Rx

/-! ## Which streams a service keeps -/

namespace Rx

variable {rx : Rx} {key : StreamKey} {now : ℤ}

@[simp] theorem serve_lastSeen (turns : List (IterOrder UInt32)) (now idle : ℤ) (st : RxStream) :
    (serve turns now idle st).2.lastSeen = st.lastSeen := by
  simp only [serve]
  split
  · simp only [endTransmission]
    split <;> rfl
  · rfl

theorem lookup_reaped (now : ℤ) (idle : List StreamKey) (rx : Rx) (key : StreamKey) :
    (idle.foldl (fun rx key => rx.reap key now) rx).streams.lookup key =
      if key ∈ idle ∧ (rx.streams.lookup key).any (fun st => rxIdleTimeout ≤ now - st.lastSeen)
      then none
      else rx.streams.lookup key := by
  induction idle generalizing rx with
  | nil => simp
  | cons k idle ih =>
    rw [List.foldl_cons, ih]
    have hreap : (rx.reap k now).streams.lookup key =
        if key = k ∧ (rx.streams.lookup key).any (fun st => rxIdleTimeout ≤ now - st.lastSeen)
        then none else rx.streams.lookup key := by
      by_cases hk : key = k
      · subst hk
        simp only [reap]
        cases hl : rx.streams.lookup key with
        | none => simp [hl]
        | some st =>
          by_cases hlt : now - st.lastSeen < rxIdleTimeout
          · simp [hlt, hl, not_le.2 hlt]
          · simp [hlt, not_lt.1 hlt]
      · simp only [reap, hk, false_and, if_false]
        cases rx.streams.lookup k with
        | none => rfl
        | some st =>
          simp only
          split
          · rfl
          · exact AList.lookup_erase_ne hk
    rw [hreap]
    by_cases hk : key = k
    · subst hk
      cases hany : (rx.streams.lookup key).any fun st => rxIdleTimeout ≤ now - st.lastSeen <;>
        simp [hany]
    · simp [hk]

/-- **A service keeps the streams seen within the idle timeout**, served, and
deletes the others. -/
theorem lookup_rxService (o : IterOrder StreamKey) (turns : StreamKey → List (IterOrder UInt32))
    (rx : Rx) (now : ℤ) (key : StreamKey) :
    (rx.rxService o turns now).2.streams.lookup key =
      if (rx.streams.lookup key).any (fun st => rxIdleTimeout ≤ now - st.lastSeen) then none
      else (rx.streams.lookup key).map fun st => (serve (turns key) now rx.historyIdle st).2 := by
  simp only [rxService]
  rw [lookup_reaped, lookup_mapValues]
  cases hl : rx.streams.lookup key with
  | none => simp
  | some st =>
    have hk : key ∈ o.order rx.streams.keys :=
      (o.perm _).symm.subset (AList.mem_keys.2 (AList.lookup_isSome.1 (by rw [hl]; rfl)))
    simp [hk, hl]

end Rx

end VcsClient.Voice
