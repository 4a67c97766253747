import VcsClient.Voice.Rx

/-!
# The goroutines of the receive path

`internal/voice/rx.go` and `Close` of `session.go`, step by step: any number of
receive loops in `rxVoice`, the decode goroutine in `rxService`, the delivery
goroutine and the caller of `Close`. A section under `rx.mu` is one step where
nothing in it can be seen from outside; `endTransmission`, `reap` and
`endOpenRXStreams` read `lastSeen`, which is stored without the lock, and act on
it later, so they hold `mu` over several steps.

`rxStream`s are numbered as they are opened: `heap` keeps them after the map has
let go of them. Decoding is the stage `topUp`, in which the decoder is in use.
`routed`, `reports`, `dropped` and `pushes` record a run and are read by no step.
-/

namespace VcsClient.Voice

open VcsClient.Lib

def rxEventBuffer : ℕ := 64

namespace Receive

/-- `rxStream`; `begun` counts its transmissions and `closes` the closings of
its decoder. -/
structure Stream where
  key : StreamKey
  lastSeen : ℤ
  started : ℤ
  ended : Bool
  begun : ℕ
  closes : ℕ

/-- A stream as `rxStreamFor` opens it. -/
def newStream (key : StreamKey) (at_ : ℤ) : Stream := ⟨key, at_, at_, false, 1, 0⟩

/-- The row of a stream's `n`-th transmission. -/
structure Report where
  stream : ℕ
  n : ℕ
  ev : RxEvent
  deriving DecidableEq

/-- A packet that `rxStreamFor` found a stream for. -/
structure Routed where
  stream : ℕ
  at_ : ℤ
  deriving DecidableEq

/-- A push into a jitter buffer, and whether the stream was in the map. -/
structure Push where
  stream : ℕ
  live : Bool
  deriving DecidableEq

/-- Where a receive loop stands in `rxVoice`. -/
inductive LoopPc where
  | reading
  | lookup (key : StreamKey) (at_ : ℤ)
  | stamp (sid : ℕ) (at_ : ℤ)
  | load (sid : ℕ) (at_ : ℤ)
  | restart (sid : ℕ) (at_ : ℤ)
  | push (sid : ℕ) (at_ : ℤ)
  deriving DecidableEq

/-- One call of `rxService`: its clock reading, the streams of the snapshot it
has yet to serve and the keys it has found idle. -/
structure Sweep where
  now : ℤ
  todo : List ℕ
  idle : List StreamKey
  deriving DecidableEq

/-- Where the decode goroutine stands. In `committing` and `removing` it holds
`mu`. -/
inductive DecodePc where
  | parked
  | serving (w : Sweep)
  | topUp (w : Sweep) (sid : ℕ)
  | seen (w : Sweep) (sid : ℕ) (last : ℤ)
  | ending (w : Sweep) (sid : ℕ) (last : ℤ)
  | committing (w : Sweep) (sid : ℕ) (last read : ℤ)
  | queueing (w : Sweep) (sid : ℕ) (last : ℤ) (report : Report)
  | reaping (w : Sweep)
  | removing (w : Sweep) (sid : ℕ)
  | closing (w : Sweep) (sid : ℕ)
  | exited
  deriving DecidableEq

/-- Where the delivery goroutine stands; the flag says it is draining. -/
inductive DeliverPc where
  | waiting (draining : Bool)
  | calling (draining : Bool)
  | exited
  deriving DecidableEq

/-- Where `Close` stands. In `ending` and `loading` it holds `mu`. -/
inductive ClosePc where
  | uncalled
  | said
  | ending (todo : List ℕ) (pending : List Report)
  | loading (sid : ℕ) (todo : List ℕ) (pending : List Report)
  | queueing (pending : List Report)
  | stopping
  | hangingUp
  | joining
  | draining
  | calling
  | releasing
  | freeing (sids : List ℕ)
  | returned
  deriving DecidableEq

end Receive

open Receive

structure Receiver where
  self : UUID
  ctx : Option RxContext
  historyIdle : ℤ
  clock : ℤ
  heap : ℕ → Stream
  opened : ℕ
  streams : AList fun _ : StreamKey => ℕ
  snapshot : List ℕ
  mu : Bool
  spawned : ℕ
  loops : ℕ → LoopPc
  decode : DecodePc
  deliver : DeliverPc
  closer : ClosePc
  done : Bool
  hungUp : Bool
  rxEvents : List Report
  onRX : List Report
  historyDropped : ℕ
  routed : List Routed
  reports : List Report
  dropped : List Report
  pushes : List Push

namespace Receive

inductive Act where
  | tick (d : ℕ)
  | setRXContext (accept global test : List KHz)
  | openSocket
  | read (i : ℕ) (pkt : Packet)
  | rxVoice (i : ℕ) (decoder : Bool) (o : IterOrder ℕ)
  | wake
  | rxService (o : IterOrder ℕ)
  | decodeDone
  | deliver
  | deliverDone
  | close (o : IterOrder ℕ)

end Receive

namespace Receiver

/-- A session with an `OnRX` whose socket is open. -/
def init (self : UUID) (historyIdle clock : ℤ) : Receiver where
  self := self
  ctx := none
  historyIdle := historyIdle
  clock := clock
  heap := fun _ => ⟨⟨.nil, 0⟩, 0, 0, false, 0, 0⟩
  opened := 0
  streams := ∅
  snapshot := []
  mu := false
  spawned := 1
  loops := fun _ => .reading
  decode := .parked
  deliver := .waiting false
  closer := .uncalled
  done := false
  hungUp := false
  rxEvents := []
  onRX := []
  historyDropped := 0
  routed := []
  reports := []
  dropped := []
  pushes := []

def values (s : Receiver) : List ℕ := s.streams.entries.map (·.2)

def publishLocked (o : IterOrder ℕ) (s : Receiver) : Receiver :=
  { s with snapshot := o.order s.values }

def setStream (s : Receiver) (sid : ℕ) (st : Stream) : Receiver :=
  { s with heap := Function.update s.heap sid st }

def setLoop (s : Receiver) (i : ℕ) (pc : LoopPc) : Receiver :=
  { s with loops := Function.update s.loops i pc }

/-- `dec.Close()`. -/
def closeDecoder (s : Receiver) (sid : ℕ) : Receiver :=
  s.setStream sid { s.heap sid with closes := (s.heap sid).closes + 1 }

/-- The stream is the one the map has under its key. -/
def Live (s : Receiver) (sid : ℕ) : Prop := s.streams.lookup (s.heap sid).key = some sid

instance (s : Receiver) (sid : ℕ) : Decidable (s.Live sid) :=
  inferInstanceAs (Decidable (_ = _))

def queueRXEvent (s : Receiver) (r : Report) : Receiver :=
  if s.rxEvents.length < rxEventBuffer then { s with rxEvents := s.rxEvents ++ [r] }
  else { s with historyDropped := s.historyDropped + 1, dropped := s.dropped ++ [r] }

/-- The row of the stream's running transmission, up to `last`. -/
def report (s : Receiver) (sid : ℕ) (last : ℤ) : Report :=
  let st := s.heap sid
  ⟨sid, st.begun - 1, st.key.sender, st.key.freq, st.started, last⟩

def openStream (s : Receiver) (key : StreamKey) (at_ : ℤ) (o : IterOrder ℕ) : Receiver :=
  publishLocked o
    { s.setStream s.opened (newStream key at_) with
      streams := s.streams.insert key s.opened
      opened := s.opened + 1 }

/-- `rxStreamFor`, under `mu`. -/
def rxStreamFor (s : Receiver) (i : ℕ) (key : StreamKey) (at_ : ℤ) (decoder : Bool)
    (o : IterOrder ℕ) : Receiver :=
  match s.streams.lookup key with
  | some sid => { s.setLoop i (.stamp sid at_) with routed := s.routed ++ [⟨sid, at_⟩] }
  | none =>
    if maxRXStreams ≤ s.streams.keys.length ∨ !decoder then s.setLoop i .reading
    else
      { (s.openStream key at_ o).setLoop i (.stamp s.opened at_) with
        routed := s.routed ++ [⟨s.opened, at_⟩] }

/-- The next step of a receive loop inside `rxVoice`. -/
def rxVoice (s : Receiver) (i : ℕ) (decoder : Bool) (o : IterOrder ℕ) : Option Receiver :=
  match s.loops i with
  | .reading => none
  | .lookup key at_ => if s.mu then none else some (s.rxStreamFor i key at_ decoder o)
  | .stamp sid at_ =>
    some ((s.setStream sid { s.heap sid with lastSeen := at_ }).setLoop i (.load sid at_))
  | .load sid at_ =>
    some (s.setLoop i (if (s.heap sid).ended then .restart sid at_ else .push sid at_))
  | .restart sid at_ =>
    if s.mu then none
    else
      let st := s.heap sid
      some ((if st.ended then
          s.setStream sid { st with started := at_, ended := false, begun := st.begun + 1 }
        else s).setLoop i (.push sid at_))
  | .push sid _ =>
    some { s.setLoop i .reading with pushes := s.pushes ++ [⟨sid, decide (s.Live sid)⟩] }

end Receiver

/-- The sweep goes on after a stream whose `lastSeen` it read as `last`. -/
def Receive.Sweep.next (w : Sweep) (key : StreamKey) (last : ℤ) : DecodePc :=
  .serving (if rxIdleTimeout ≤ w.now - last then { w with idle := w.idle ++ [key] } else w)

namespace Receiver

/-- `endTransmission`, up to its store to `ended`. -/
def endTransmission (s : Receiver) (w : Sweep) (sid : ℕ) (last : ℤ) : Receiver :=
  let st := s.heap sid
  if st.ended ∨ w.now - st.lastSeen < s.historyIdle then
    { s with decode := w.next st.key last }
  else { s with mu := true, decode := .committing w sid last st.lastSeen }

/-- `reap`, up to the removal. -/
def reap (s : Receiver) (w : Sweep) (key : StreamKey) : Receiver :=
  match s.streams.lookup key with
  | none => { s with decode := .reaping w }
  | some sid =>
    if w.now - (s.heap sid).lastSeen < rxIdleTimeout then { s with decode := .reaping w }
    else { s with mu := true, decode := .removing w sid }

/-- The next step of the decode goroutine inside `rxService`. -/
def rxService (s : Receiver) (o : IterOrder ℕ) : Option Receiver :=
  match s.decode with
  | .parked => none
  | .serving w =>
    match w.todo with
    | [] => some { s with decode := .reaping w }
    | sid :: todo => some { s with decode := .topUp { w with todo := todo } sid }
  | .topUp w sid => some { s with decode := .seen w sid (s.heap sid).lastSeen }
  | .seen w sid last =>
    let st := s.heap sid
    if !st.ended ∧ 0 < s.historyIdle ∧ s.historyIdle ≤ w.now - last then
      some { s with decode := .ending w sid last }
    else some { s with decode := w.next st.key last }
  | .ending w sid last => if s.mu then none else some (s.endTransmission w sid last)
  | .committing w sid last read =>
    let s' := s.setStream sid { s.heap sid with ended := true }
    some { s' with
      mu := false
      reports := s.reports ++ [s.report sid read]
      decode := .queueing w sid last (s.report sid read) }
  | .queueing w sid last r =>
    some { s.queueRXEvent r with decode := w.next (s.heap sid).key last }
  | .reaping w =>
    match w.idle with
    | [] => some { s with decode := .parked }
    | key :: idle => if s.mu then none else some (s.reap { w with idle := idle } key)
  | .removing w sid =>
    some (publishLocked o
      { s with
        mu := false
        streams := s.streams.erase (s.heap sid).key
        decode := .closing w sid })
  | .closing w sid =>
    some { s.closeDecoder sid with decode := .reaping w }
  | .exited => none

/-- The next step of the delivery goroutine. -/
def deliverStep (s : Receiver) : Option Receiver :=
  match s.deliver with
  | .waiting draining =>
    match s.rxEvents with
    | [] => if draining then some { s with deliver := .exited } else none
    | r :: rest =>
      some { s with rxEvents := rest, onRX := s.onRX ++ [r], deliver := .calling draining }
  | .calling draining => some { s with deliver := .waiting draining }
  | .exited => none

/-- What `wg.Wait` waits for. -/
def Joined (s : Receiver) : Prop :=
  (∀ i < s.spawned, s.loops i = .reading) ∧ s.decode = .exited ∧ s.deliver = .exited

instance (s : Receiver) : Decidable s.Joined :=
  inferInstanceAs (Decidable ((∀ i < s.spawned, s.loops i = .reading) ∧ _))

/-- The next step of `Close`. -/
def close (s : Receiver) (o : IterOrder ℕ) : Option Receiver :=
  match s.closer with
  | .uncalled => some { s with closer := .said }
  | .said =>
    if s.mu then none
    else some { s with mu := true, closer := .ending (o.order s.values) [] }
  | .ending todo pending =>
    match todo with
    | [] => some { s with mu := false, closer := .queueing pending }
    | sid :: todo =>
      let st := s.heap sid
      if st.ended then some { s with closer := .ending todo pending }
      else
        some { s.setStream sid { st with ended := true } with
          closer := .loading sid todo pending }
  | .loading sid todo pending =>
    let r := s.report sid (s.heap sid).lastSeen
    some { s with reports := s.reports ++ [r], closer := .ending todo (pending ++ [r]) }
  | .queueing pending =>
    match pending with
    | [] => some { s with closer := .stopping }
    | r :: rest => some { s.queueRXEvent r with closer := .queueing rest }
  | .stopping => some { s with done := true, closer := .hangingUp }
  | .hangingUp => some { s with hungUp := true, closer := .joining }
  | .joining => if s.Joined then some { s with closer := .draining } else none
  | .draining =>
    match s.rxEvents with
    | [] => some { s with closer := .releasing }
    | r :: rest =>
      some { s with rxEvents := rest, onRX := s.onRX ++ [r], closer := .calling }
  | .calling => some { s with closer := .draining }
  | .releasing =>
    if s.mu then none
    else some (publishLocked o
      { s with streams := ∅, closer := .freeing (o.order s.values) })
  | .freeing sids =>
    match sids with
    | [] => some { s with closer := .returned }
    | sid :: rest => some { s.closeDecoder sid with closer := .freeing rest }
  | .returned => none

/-- A datagram reaches a receive loop and passes the filters, or not. -/
def read (s : Receiver) (i : ℕ) (pkt : Packet) : Option Receiver :=
  if i < s.spawned ∧ s.loops i = .reading ∧ !s.hungUp then
    match (⟨s.self, s.ctx, ∅, 0, 0, s.historyIdle⟩ : Rx).filtered pkt with
    | some _ => some s
    | none => some (s.setLoop i (.lookup pkt.streamKey s.clock))
  else none

def step (s : Receiver) : Act → Option Receiver
  | .tick d => some { s with clock := s.clock + d }
  | .setRXContext accept global test => some { s with ctx := some ⟨accept, global, test⟩ }
  | .openSocket =>
    if s.closer = .uncalled then some { s with spawned := s.spawned + 1 } else none
  | .read i pkt => s.read i pkt
  | .rxVoice i decoder o => s.rxVoice i decoder o
  | .wake =>
    if s.decode = .parked then some { s with decode := .serving ⟨s.clock, s.snapshot, []⟩ }
    else none
  | .rxService o => s.rxService o
  | .decodeDone =>
    if s.decode = .parked ∧ s.done then some { s with decode := .exited } else none
  | .deliver => s.deliverStep
  | .deliverDone =>
    if s.deliver = .waiting false ∧ s.done then some { s with deliver := .waiting true } else none
  | .close o => s.close o

end Receiver

/-! ## What the goroutines leave alone -/

namespace Receiver

variable {s s' : Receiver}

/-- Writing a stream's cell keeps what the new contents agree on. -/
theorem setStream_proj {α : Type*} (f : Stream → α) {sid : ℕ} {st : Stream}
    (hst : f st = f (s.heap sid)) (sid' : ℕ) :
    f ((s.setStream sid st).heap sid') = f (s.heap sid') := by
  by_cases he : sid' = sid
  · subst he
    simp [setStream, hst]
  · simp [setStream, he]

theorem setStream_live {sid : ℕ} {st : Stream} (hst : st.key = (s.heap sid).key) (sid' : ℕ) :
    (s.setStream sid st).Live sid' ↔ s.Live sid' := by
  unfold Live
  rw [setStream_proj Stream.key hst]
  rfl

theorem closeDecoder_live (s : Receiver) (sid sid' : ℕ) :
    (s.closeDecoder sid).Live sid' ↔ s.Live sid' := by
  unfold closeDecoder
  exact setStream_live (by rfl) sid'

theorem setStream_ended {sid : ℕ} {st : Stream} (hst : st.ended = true) {sid' : ℕ}
    (h : (s.heap sid').ended = true) : ((s.setStream sid st).heap sid').ended = true := by
  by_cases he : sid' = sid
  · subst he
    simp [setStream, hst]
  · simpa [setStream, he] using h

theorem rxVoice_frame {i : ℕ} {decoder : Bool} {o : IterOrder ℕ}
    (hs : s.rxVoice i decoder o = some s') :
    s.loops i ≠ .reading ∧ (∀ j, j ≠ i → s'.loops j = s.loops j) ∧ s'.spawned = s.spawned ∧
      s'.closer = s.closer ∧ s'.decode = s.decode ∧ s'.deliver = s.deliver ∧
      s'.hungUp = s.hungUp ∧ s'.mu = s.mu ∧ s'.reports = s.reports ∧
      s'.rxEvents = s.rxEvents ∧ s'.onRX = s.onRX ∧ s'.dropped = s.dropped ∧
      s'.historyDropped = s.historyDropped ∧ s'.historyIdle = s.historyIdle := by
  unfold rxVoice at hs
  split at hs
  all_goals try simp only [reduceCtorEq, rxStreamFor, openStream, publishLocked, setLoop,
    setStream] at hs
  all_goals repeat' split at hs
  all_goals cases hs
  all_goals simp_all

theorem rxService_frame {o : IterOrder ℕ} (hs : s.rxService o = some s') :
    s.decode ≠ .parked ∧ s.decode ≠ .exited ∧ s'.decode ≠ .exited ∧ s'.loops = s.loops ∧
      s'.spawned = s.spawned ∧ s'.closer = s.closer ∧ s'.deliver = s.deliver ∧
      s'.hungUp = s.hungUp ∧ s'.onRX = s.onRX ∧ s'.routed = s.routed ∧ s'.opened = s.opened ∧
      s'.pushes = s.pushes ∧ s'.historyIdle = s.historyIdle := by
  unfold rxService at hs
  split at hs
  all_goals try simp only [reduceCtorEq, endTransmission, reap, queueRXEvent, publishLocked, closeDecoder,
    setStream,
    Sweep.next] at hs
  all_goals repeat' split at hs
  all_goals cases hs
  all_goals simp_all

theorem deliverStep_frame (hs : s.deliverStep = some s') :
    s.deliver ≠ .exited ∧ ∃ rxEvents onRX deliver,
      s' = { s with rxEvents := rxEvents, onRX := onRX, deliver := deliver } := by
  unfold deliverStep at hs
  split at hs
  all_goals repeat' split at hs
  all_goals cases hs
  all_goals exact ⟨by simp_all, _, _, _, rfl⟩

theorem close_frame {o : IterOrder ℕ} (hs : s.close o = some s') :
    s.closer ≠ .returned ∧ s'.loops = s.loops ∧ s'.spawned = s.spawned ∧ s'.decode = s.decode ∧
      s'.deliver = s.deliver ∧ s'.routed = s.routed ∧ s'.opened = s.opened ∧
      s'.pushes = s.pushes ∧ s'.historyIdle = s.historyIdle := by
  unfold close at hs
  split at hs
  all_goals try simp only [reduceCtorEq, queueRXEvent, publishLocked, closeDecoder, setStream] at hs
  all_goals repeat' split at hs
  all_goals cases hs
  all_goals simp_all

end Receiver

/-! ## Shutting down -/

namespace Receive

/-- `Close` has joined the goroutines. -/
def ClosePc.Past : ClosePc → Prop
  | .draining | .calling | .releasing | .freeing _ | .returned => True
  | _ => False

end Receive

/-- Once joined the goroutines have returned, and no socket is read any more. -/
structure Shutdown (s : Receiver) : Prop where
  idle : ∀ i, s.spawned ≤ i → s.loops i = .reading
  hungUp : s.closer = .joining ∨ s.closer.Past → s.hungUp = true
  joined : s.closer.Past → (∀ i, s.loops i = .reading) ∧ s.decode = .exited ∧ s.deliver = .exited

namespace Shutdown

variable {s s' : Receiver}

theorem init (self : UUID) (historyIdle clock : ℤ) : Shutdown (.init self historyIdle clock) where
  idle := fun _ _ => rfl
  hungUp := by simp [Receiver.init, ClosePc.Past]
  joined := by simp [Receiver.init, ClosePc.Past]

theorem not_past_of_loop (h : Shutdown s) {i : ℕ} (hne : s.loops i ≠ .reading) : ¬ s.closer.Past :=
  fun hp => hne ((h.joined hp).1 i)

theorem not_past_of_decode (h : Shutdown s) (hne : s.decode ≠ .exited) : ¬ s.closer.Past :=
  fun hp => hne (h.joined hp).2.1

theorem not_past_of_deliver (h : Shutdown s) (hne : s.deliver ≠ .exited) : ¬ s.closer.Past :=
  fun hp => hne (h.joined hp).2.2

theorem close (h : Shutdown s) {o : IterOrder ℕ} (hs : s.close o = some s') : Shutdown s' := by
  obtain ⟨-, hloops, hspawned, hdecode, hdeliver, -⟩ := Receiver.close_frame hs
  have hpast : s'.closer.Past → s.closer.Past ∨ s.closer = .joining ∧ s.Joined := by
    unfold Receiver.close at hs
    split at hs
    all_goals try simp only [Receiver.queueRXEvent, Receiver.publishLocked, Receiver.closeDecoder,
      Receiver.setStream] at hs
    all_goals repeat' split at hs
    all_goals cases hs
    all_goals simp_all [ClosePc.Past]
  have hhung : s'.closer = .joining ∨ s'.closer.Past → s'.hungUp = true := by
    have hold := h.hungUp
    unfold Receiver.close at hs
    split at hs
    all_goals try simp only [Receiver.queueRXEvent, Receiver.publishLocked, Receiver.closeDecoder,
      Receiver.setStream] at hs
    all_goals repeat' split at hs
    all_goals cases hs
    all_goals simp_all [ClosePc.Past]
  refine ⟨fun i hi => ?_, hhung, fun hp => ?_⟩
  · rw [hloops]
    exact h.idle i (hspawned ▸ hi)
  · rw [hloops, hdecode, hdeliver]
    rcases hpast hp with hp | ⟨-, hall, hdec, hdel⟩
    · exact h.joined hp
    · refine ⟨fun i => ?_, hdec, hdel⟩
      by_cases hi : i < s.spawned
      · exact hall i hi
      · exact h.idle i (by omega)

theorem step (h : Shutdown s) {a : Act} (hs : s.step a = some s') : Shutdown s' := by
  cases a with
  | tick d => cases hs; exact ⟨h.idle, h.hungUp, h.joined⟩
  | setRXContext accept global test => cases hs; exact ⟨h.idle, h.hungUp, h.joined⟩
  | openSocket =>
    simp only [Receiver.step] at hs
    split at hs
    · cases hs
      exact ⟨fun i hi => h.idle i (by simp only at hi; omega), h.hungUp, h.joined⟩
    · cases hs
  | read i pkt =>
    simp only [Receiver.step, Receiver.read] at hs
    split at hs
    · rename_i hread
      split at hs
      · cases hs; exact h
      · cases hs
        have hnot : ¬ s.closer.Past := fun hp => by simp [h.hungUp (.inr hp)] at hread
        refine ⟨fun j hj => ?_, h.hungUp, fun hp => absurd hp hnot⟩
        have hne : j ≠ i := by
          have : s.spawned ≤ j := hj
          omega
        simpa [Receiver.setLoop, hne] using h.idle j hj
    · cases hs
  | rxVoice i decoder o =>
    obtain ⟨hne, hother, hspawned, hcloser, hdecode, hdeliver, hhung, -⟩ :=
      Receiver.rxVoice_frame hs
    have hnot := h.not_past_of_loop hne
    refine ⟨fun j hj => ?_, by rw [hcloser, hhung]; exact h.hungUp, fun hp => ?_⟩
    · rw [hspawned] at hj
      have hji : j ≠ i := fun he => hne (h.idle i (he ▸ hj))
      rw [hother j hji]
      exact h.idle j hj
    · rw [hcloser] at hp
      exact absurd hp hnot
  | wake =>
    simp only [Receiver.step] at hs
    split at hs
    · rename_i hparked
      cases hs
      exact ⟨h.idle, h.hungUp, fun hp => absurd hp (h.not_past_of_decode (by simp [hparked]))⟩
    · cases hs
  | rxService o =>
    obtain ⟨-, hne, -, hloops, hspawned, hcloser, hdeliver, hhung, -⟩ := Receiver.rxService_frame hs
    refine ⟨by rw [hloops, hspawned]; exact h.idle, by rw [hcloser, hhung]; exact h.hungUp,
      fun hp => ?_⟩
    rw [hcloser] at hp
    exact absurd hp (h.not_past_of_decode hne)
  | decodeDone =>
    simp only [Receiver.step] at hs
    split at hs
    · cases hs
      exact ⟨h.idle, h.hungUp, fun hp => ⟨(h.joined hp).1, rfl, (h.joined hp).2.2⟩⟩
    · cases hs
  | deliver =>
    obtain ⟨hne, rxEvents, onRX, deliver, rfl⟩ := Receiver.deliverStep_frame hs
    exact ⟨h.idle, h.hungUp, fun hp => absurd hp (h.not_past_of_deliver hne)⟩
  | deliverDone =>
    simp only [Receiver.step] at hs
    split at hs
    · rename_i hwait
      cases hs
      exact ⟨h.idle, h.hungUp, fun hp => absurd hp (h.not_past_of_deliver (by simp [hwait.1]))⟩
    · cases hs
  | close o => exact h.close hs

end Shutdown

end VcsClient.Voice
