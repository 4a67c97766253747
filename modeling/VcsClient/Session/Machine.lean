import VcsClient.Lib.Assoc
import VcsClient.Lib.Machine
import VcsClient.Session.State

/-!
# The session manager as a machine

Any number of goroutines call the session's methods while its update streams
receive and end. A step is one section under `mu`, one call to the server, one
mutator call on the store or one publication; `Release` keeps its stream's lock
from the first update it replays to the last. That a unary call succeeds only
while its context lives is assumed of the library (`UnaryFails`). The farewell
`Disconnect` call and `conn.Close` change nothing the manager reads.
-/

namespace VcsClient.Session

open VcsClient.Control VcsClient.Lib VcsClient.State

/-- What one step of a goroutine leaves: the shared state, where the goroutine
goes on, and whether it started the goroutine of a new stream. -/
structure Move where
  m : Manager
  pc : Option Pc
  spawn : Bool := false

namespace Manager

/-- The stream `p` changes. -/
def withStream (m : Manager) (p : ℕ) (f : Stream → Stream) : Manager :=
  { m with
    streams := match m.streams.lookup p with
      | none => m.streams
      | some q => m.streams.insert p (f q) }

/-- `setConnState`. -/
def publish (m : Manager) (st : ConnState) : Manager := { m with published := some st }

/-- The publication of the install or teardown of stamp `stamp`. -/
def publishSection (m : Manager) (st : ConnState) (stamp : ℕ) : Manager :=
  { m.publish st with shown := max m.shown stamp }

/-- The stream context of a connection, if there is one, is cancelled. -/
def endCtx (m : Manager) (owner : Option ℕ) : Manager :=
  { m with ctxDone := owner.toList ++ m.ctxDone }

/-- The context of stream `p` is done: its own was abandoned, or its
connection's is cancelled. -/
def StreamDone (m : Manager) (q : Stream) : Prop := q.abandoned = true ∨ q.owner ∈ m.ctxDone

instance (m : Manager) (q : Stream) : Decidable (m.StreamDone q) :=
  inferInstanceAs (Decidable (_ ∨ _))

/-- The section that gives up the connection. -/
def dropLive (m : Manager) : Manager :=
  { m with live := none, streamGen := m.streamGen + 1, clock := m.clock + 1 }

/-- The section that gives up the connection and forgets the session. -/
def dropSession (m : Manager) : Manager := { m.dropLive with lastDialer := false, lastToken := "" }

/-- `installLocked`, after `live` is in place. -/
def installLocked (m : Manager) (p : ℕ) : Manager :=
  { m.withStream p (fun q => { q with gen := some (m.streamGen + 1) }) with
    streamGen := m.streamGen + 1
    installedGen := m.streamGen + 1
    clock := m.clock + 1 }

def withAttempts (m : Manager) (f : ℕ → Attempt → Attempt) : Manager :=
  { m with attempts := mapValues f m.attempts }

/-- Attempt `a` installed its session (ghost). -/
def markInstalled (m : Manager) (a : ℕ) : Manager :=
  m.withAttempts fun b x => if b = a then { x with installed := true } else x

/-- Attempt `a` returned `r` (ghost). -/
def markReturned (m : Manager) (a : ℕ) (r : Option ConnectError) : Manager :=
  m.withAttempts fun b x => if b = a then { x with result := some r } else x

/-! ## Connect and Reconnect -/

/-- `queueAttempt`. -/
def queueAttempt (m : Manager) (t : ℕ) (k : Kind) : Move :=
  ⟨{ m with attempts := m.attempts.insert t ⟨m.cancelSeq, false, false, false, none⟩ },
    some (.lockLife k m.cancelSeq), false⟩

/-- `beginAttempt`. -/
def beginAttempt (m : Manager) (t : ℕ) (k : Kind) (ticket : ℕ) : Move :=
  ⟨{ m with
      attemptCancel := some t
      cancelled := if m.cancelSeq ≠ ticket then t :: m.cancelled else m.cancelled },
    some (.announce k), false⟩

/-- `teardownLive`. -/
def teardownLive (m : Manager) : Move :=
  match m.live with
  | none => ⟨m, some .forget, false⟩
  | some l => ⟨m.dropLive, some (.teardownClose l.owner), false⟩

/-- `Connect` forgets the session before it. -/
def forget (m : Manager) : Move :=
  ⟨{ m with lastDialer := false, lastToken := "", logins := m.logins + 1, down := false },
    some .dialerFor, false⟩

/-- `Reconnect` reads the session it resumes. -/
def lastSession (m : Manager) : Move :=
  if m.lastDialer = true then ⟨m, some (.dialReconnect m.lastToken), false⟩
  else ⟨m, some (.publishFailed .neverConnected), false⟩

/-- Where a failed `openHeldStream` leads. -/
def subscribeFailed (job : Job) (err : Option Status) : Pc :=
  match job with
  | .connect token _ _ => .attemptError .connect token (.subscribe err) true .ordinary
  | .reconnect token =>
    .attemptError .reconnect token (.subscribe err) true (classifyRPCError err)
  | .resync gen token => .resyncFailed gen token err

/-- `openHeldStream` succeeds: the stream takes the next number and its
goroutine starts. -/
def openHeldStream (cap : ℕ) (m : Manager) (owner : ℕ) (job : Job) : Move :=
  let q : Stream := ⟨owner, job.token, newHeld cap, false, none, false⟩
  ⟨{ m with streams := m.streams.insert m.next q },
    some (match job with
      | .connect _ _ _ | .reconnect _ => .syncClient job m.next
      | .resync gen token => .stillCurrent gen token m.next), true⟩

/-- The stream is given up before it was installed. -/
def abandon (m : Manager) (p : ℕ) : Manager := m.withStream p fun q => { q with abandoned := true }

/-- Where a failed `SyncClient` leads. -/
def syncFailed (m : Manager) (job : Job) (p : ℕ) (err : Option Status) : Move :=
  match job with
  | .connect token _ _ => ⟨m, some (.attemptError .connect token (.rpc err) true .ordinary), false⟩
  | .reconnect token =>
    ⟨m, some (.attemptError .reconnect token (.rpc err) true (classifyRPCError err)), false⟩
  | .resync gen token => ⟨m.abandon p, some (.resyncFailed gen token err), false⟩

/-- `SyncClient` has hydrated the store. -/
def hydrated (m : Manager) (t : ℕ) (job : Job) (p : ℕ) (hadSecret : Bool) : Move :=
  let m := { m with log := m.log ++ [.snapshot p] }
  match job with
  | .connect token guid self => ⟨m, some (.finalCheck token guid self p), false⟩
  | .reconnect token =>
    if hadSecret = true then ⟨m, some (.install job p), false⟩
    -- the server has no voice secret for us: the session was removed
    else ⟨m.endCtx (some t), some (.endSession "expired" none token (.reconnect "expired")), false⟩
  | .resync _ _ => ⟨m, some (.install job p), false⟩

/-- `Connect` gives a session it was told to give up no chance to install. -/
def finalCheck (m : Manager) (t : ℕ) (token : Token) (guid : Guid) (self : ClientInfo) (p : ℕ)
    (late : Bool) : Move :=
  if t ∈ m.cancelled ∨ late = true then
    ⟨m, some (.attemptError .connect token (.rpc none) true .ordinary), false⟩
  else ⟨m, some (.setSelf token guid self p), false⟩

/-- The section that installs a session, or the next stream of one. -/
def install (m : Manager) (t : ℕ) (job : Job) (p : ℕ) : Move :=
  match job with
  | .connect token _ _ =>
    ⟨({ m with live := some ⟨t, token⟩, lastDialer := true, lastToken := token }.installLocked
      p).markInstalled t, some (.release job p (m.clock + 1)), false⟩
  | .reconnect token =>
    if m.lastToken ≠ token then
      -- the session ended while this attempt was syncing
      ⟨m.endCtx (some t), some (.publishFailed (.sessionEnded "expired")), false⟩
    else
      let m' := m.endCtx (m.live.map (·.owner))
      ⟨({ m' with live := some ⟨t, token⟩ }.installLocked p).markInstalled t,
        some (.release job p (m.clock + 1)), false⟩
  | .resync gen _ =>
    if gen ≠ m.streamGen ∨ m.live = none then ⟨m.abandon p, none, false⟩
    else ⟨m.installLocked p, some (.release job p (m.clock + 1)), false⟩

/-- `Release` takes the stream's lock. -/
def release (m : Manager) (job : Job) (p stamp : ℕ) : Option Move :=
  match m.streams.lookup p with
  | none => none
  | some q =>
    if q.replaying = true then none
    else if q.held.released = true then some ⟨m, some (.publishConnected job stamp), false⟩
    else
      some ⟨m.withStream p fun q => { q with replaying := true },
        some (.replay job p q.held.buf stamp), false⟩

/-- `Release` routes the next held update, or opens the hold. -/
def replay (m : Manager) (job : Job) (p : ℕ) (rest : List ServerUpdate) (stamp : ℕ) : Move :=
  match rest with
  | [] =>
    ⟨m.withStream p fun q => { q with held := q.held.opened, replaying := false },
      some (.publishConnected job stamp), false⟩
  | upd :: rest =>
    ⟨{ m with store := (Control.route upd m.store).1, log := m.log ++ [.update p] },
      some (.replay job p rest stamp), false⟩

/-- `setConnState(connected)` after an install. -/
def publishConnected (m : Manager) (job : Job) (stamp : ℕ) : Move :=
  ⟨m.publishSection .connected stamp,
    match job with
    | .connect _ _ _ | .reconnect _ => some (.endAttempt none)
    | .resync _ _ => none, false⟩

/-- The failure of an attempt: its stream context is cancelled, and a cancelled
or late attempt returns that. -/
def attemptError (m : Manager) (t : ℕ) (k : Kind) (token : Token) (cause : ConnectError)
    (v : Verdict) (late : Bool) : Move :=
  let mapped :=
    if t ∈ m.cancelled then some .cancelled else if late = true then some .notResponding else none
  match mapped with
  | some r =>
    ⟨m.endCtx (some t), some (if k = .connect ∧ token ≠ "" then .goodbye r else .publishFailed r), false⟩
  | none =>
    match k, v with
    | .reconnect, .sessionEnded reason =>
      ⟨m.endCtx (some t), some (.endSession reason none token (.reconnect reason)), false⟩
    | _, _ => ⟨m.endCtx (some t), some (.publishFailed cause), false⟩

/-- The deferred `setConnState(disconnected)` of a failed attempt. -/
def publishFailed (m : Manager) (r : ConnectError) : Move :=
  ⟨{ m.publish .disconnected with shown := m.clock }, some (.endAttempt (some r)), false⟩

/-! ## The end of a session -/

/-- What follows `endSession`. -/
def endedBy (did : Bool) : After → Option Pc
  | .exit => none
  | .reconnect reason =>
    -- a teardown has published its own disconnected
    if did = true then some (.endAttempt (some (.sessionEnded reason)))
    else some (.publishFailed (.sessionEnded reason))

/-- `endSessionIf`, its section. -/
def endSession (m : Manager) (reason : String) (still : Option Token) (about : Token)
    (k : After) : Move :=
  if (m.lastToken = "" ∧ m.live = none) ∨ ∃ token ∈ still, m.lastToken ≠ token then
    ⟨m, endedBy false k, false⟩
  else
    ⟨{ m.dropSession with ended := m.ended ++ [(about, m.lastToken)] },
      some (.closeEnded (m.live.map (·.owner)) ⟨reason, some k, about, m.clock + 1, m.logins⟩), false⟩

/-- `Disconnect`, its section. -/
def disconnect (m : Manager) : Move :=
  ⟨m.dropSession,
    some (.closeEnded (m.live.map (·.owner)) ⟨"", none, "", m.clock + 1, m.logins⟩), false⟩

/-- The teardown's owner returns; unless a later `Connect` is under way the
session stays down (ghost). -/
def settleDown (m : Manager) (td : Teardown) : Manager :=
  { m with down := m.down || decide (td.logins = m.logins) }

/-- `endSession` reports its reason and returns. -/
def reportEnded (m : Manager) (td : Teardown) : Move :=
  ⟨{ m.settleDown td with
      ended := m.ended ++ m.live.toList.map fun l => (td.about, l.token) },
    match td.k with
    | none => none
    | some k => endedBy true k, false⟩

/-- `setConnState(disconnected)` of a teardown. -/
def publishEnded (m : Manager) (td : Teardown) : Move :=
  ⟨m.publishSection .disconnected td.stamp,
    some (match td.k with
      | none => .unlockDisconnect td
      | some _ => .sessionEnded td), false⟩

/-! ## Cancellation -/

/-- `CancelConnect`, its section. -/
def cancelConnect (m : Manager) (k : Canceller) : Move :=
  ⟨{ m.withAttempts (fun _ x => if x.Open then { x with touched := true } else x) with
      cancelSeq := m.cancelSeq + 1 },
    some (.cancelCall m.attemptCancel (m.cancelSeq + 1) k), false⟩

/-- `CancelConnect` calls the cancel function it found. -/
def cancelCall (m : Manager) (a : Option ℕ) (seq : ℕ) (k : Canceller) : Move :=
  ⟨{ m.withAttempts (fun _ x => if x.Open ∧ x.ticket < seq then { x with covered := true } else x) with
      cancelled := a.toList ++ m.cancelled },
    match k with
    | .caller => none
    | .disconnect => some .lockDisconnect, false⟩

/-! ## Control loss, unary calls and streams -/

/-- `markControlLost`, its section. -/
def controlLost (m : Manager) (gen : ℕ) : Move :=
  match m.live with
  | none => ⟨m, none, false⟩
  | some l =>
    if gen ≠ m.streamGen then ⟨m, none, false⟩
    else ⟨m.dropLive, some (.closeLost l.owner (m.clock + 1)), false⟩

/-- `PingOnce` and `UpdateRadioInfo`, their section. -/
def unaryCall (m : Manager) : Move :=
  match m.live with
  | none => ⟨m, none, false⟩
  | some l => ⟨m, some (.unaryAnswer m.lastToken l.token), false⟩

/-- `checkSessionEnded`. -/
def checkSessionEnded (m : Manager) (token about : Token) (err : Option Status) : Move :=
  match classifyRPCError err with
  | .sessionEnded reason => ⟨m, some (.endSession reason (some token) about .exit), false⟩
  | _ => ⟨m, none, false⟩

/-- The section of `Consume` for an update. -/
def received (m : Manager) (t : ℕ) (q : Stream) (upd : ServerUpdate) : Option Move :=
  if q.replaying = true then none
  else
    match q.held.receive upd with
    | .hold h => some ⟨m.withStream t fun q => { q with held := h }, some .recv, false⟩
    | .wait err => some ⟨m, some (.waitRelease err), false⟩
    | .route => some ⟨m, some (.route upd), false⟩
    | .stop err => some ⟨m, some (.select err), false⟩

/-- The section of `Consume` for the end of the stream. -/
def recvEnd (m : Manager) (q : Stream) (err : Option Status) : Option Move :=
  if q.replaying = true then none
  else
    match q.held.finish err with
    | .wait err => some ⟨m, some (.waitRelease err), false⟩
    | .stop err => some ⟨m, some (.select err), false⟩
    | _ => none

/-- The stream's goroutine looks for the generation it was given. -/
def select (m : Manager) (q : Stream) (err : Option Status) : Move :=
  match q.gen with
  | none => ⟨m, none, false⟩
  | some gen => ⟨m, some (.streamEnd gen err), false⟩

/-- `handleStreamEnd` looks at the stream context. -/
def streamEnd (m : Manager) (q : Stream) (gen : ℕ) (err : Option Status) : Move :=
  if q.owner ∈ m.ctxDone then ⟨m, none, false⟩ else ⟨m, some (.streamCurrent gen err), false⟩

/-- `handleStreamEnd`, from its section on. -/
def streamCurrent (m : Manager) (q : Stream) (gen : ℕ) (err : Option Status) : Move :=
  if gen ≠ m.streamGen then ⟨m, none, false⟩
  else
    match classifyRPCError err with
    | .sessionEnded reason => ⟨m, some (.endSession reason none q.token .exit), false⟩
    | .superseded | .ordinary => ⟨m, some (.controlLost gen), false⟩
    | .resync => ⟨m, some (.resync gen), false⟩

/-- `resync`, its first section. -/
def resync (m : Manager) (gen : ℕ) : Move :=
  match m.live with
  | none => ⟨m, none, false⟩
  | some l =>
    if gen ≠ m.streamGen then ⟨m, none, false⟩
    else ⟨m, some (.subscribe (.resync gen l.token)), false⟩

def resyncFailed (m : Manager) (q : Stream) (gen : ℕ) (token : Token) (err : Option Status) : Move :=
  if q.owner ∈ m.ctxDone then ⟨m, none, false⟩
  else
    match classifyRPCError err with
    | .sessionEnded reason => ⟨m, some (.endSession reason none token .exit), false⟩
    | _ => ⟨m, some (.controlLost gen), false⟩

/-- Assumed of the RPC library: a unary call whose context is done fails. -/
abbrev UnaryFails (ctxDone : Prop) : Prop := ctxDone

/-- Whether the context of a job's calls is cancelled: the attempt's, or the
stream context that a resync took over. -/
def callDone (m : Manager) (t : ℕ) : Job → Bool
  | .connect _ _ _ | .reconnect _ => t ∈ m.cancelled
  | .resync _ _ => (m.streams.lookup t).any fun q => decide (q.owner ∈ m.ctxDone)

/-- The stream context a job's stream is opened on. -/
def ownerOf (m : Manager) (t : ℕ) : Job → Option ℕ
  | .connect _ _ _ | .reconnect _ => some t
  | .resync _ _ => (m.streams.lookup t).map (·.owner)

/-- A step of the goroutine of stream `t`. -/
def onStream (m : Manager) (t : ℕ) (f : Stream → Option Move) : Option Move :=
  match m.streams.lookup t with
  | none => none
  | some q => f q

/-- The step of goroutine `t`, which stands at the given place. -/
def advance (cap : ℕ) (m : Manager) (t : ℕ) : Pc → Answer → Option Move
  | .queueAttempt k, .go => some (m.queueAttempt t k)
  | .lockLife k ticket, .go =>
    if m.lifeMu = none then some ⟨{ m with lifeMu := some t }, some (.beginAttempt k ticket), false⟩
    else none
  | .beginAttempt k ticket, .go => some (m.beginAttempt t k ticket)
  | .announce k, .go =>
    some ⟨m.publish .reconnecting, some (match k with
      | .connect => .teardownLive
      | .reconnect => .lastSession), false⟩
  | .teardownLive, .go => some m.teardownLive
  | .teardownClose owner, .go => some ⟨m.endCtx (some owner), some .forget, false⟩
  | .forget, .go => some m.forget
  | .dialerFor, .go => some ⟨m, some .dialConnect, false⟩
  | .dialerFor, .fail _ => some ⟨m, some (.publishFailed .address), false⟩
  | .lastSession, .go => some m.lastSession
  | .dialConnect, .go => some ⟨m, some .initAuth, false⟩
  | .dialConnect, .fail err =>
    some ⟨m, some (.attemptError .connect "" (.dial err) false .ordinary), false⟩
  | .dialReconnect token, .go => some ⟨m, some (.subscribe (.reconnect token)), false⟩
  | .dialReconnect token, .fail err =>
    some ⟨m, some (.attemptError .reconnect token (.dial err) false .ordinary), false⟩
  | .initAuth, .guid guid =>
    if UnaryFails (t ∈ m.cancelled) then none else some ⟨m, some (.guestLogin guid), false⟩
  | .initAuth, .noGuest =>
    if UnaryFails (t ∈ m.cancelled) then none
    else some ⟨m, some (.attemptError .connect "" .guestUnavailable true .ordinary), false⟩
  | .initAuth, .fail err =>
    some ⟨m, some (.attemptError .connect "" (.rpc err) true .ordinary), false⟩
  | .guestLogin guid, .login token self =>
    if UnaryFails (t ∈ m.cancelled) then none
    else some ⟨m, some (.subscribe (.connect token guid self)), false⟩
  | .guestLogin _, .fail err =>
    some ⟨m, some (.attemptError .connect "" (.rpc err) true .ordinary), false⟩
  | .subscribe job, .go =>
    match m.ownerOf t job with
    | none => none
    | some owner => some (m.openHeldStream cap owner job)
  | .subscribe job, .fail err => some ⟨m, some (subscribeFailed job err), false⟩
  | .stillCurrent gen token p, .go =>
    if gen ≠ m.streamGen ∨ m.live = none then some ⟨m.abandon p, none, false⟩
    else some ⟨m, some (.syncClient (.resync gen token) p), false⟩
  | .syncClient job p, .data data =>
    if UnaryFails (m.callDone t job = true) then none
    else some ⟨m, some (.hydrate job p data.hydrations data.hadSecret), false⟩
  | .syncClient job p, .fail err => some (m.syncFailed job p err)
  | .hydrate job p (h :: rest) hadSecret, .go =>
    some ⟨{ m with store := h.apply m.store }, some (.hydrate job p rest hadSecret), false⟩
  | .hydrate job p [] hadSecret, .go => some (m.hydrated t job p hadSecret)
  | .finalCheck token guid self p, .go => some (m.finalCheck t token guid self p false)
  | .finalCheck token guid self p, .late => some (m.finalCheck t token guid self p true)
  | .setSelf token guid self p, .go =>
    some ⟨{ m with store := m.store.setSelf guid self },
      some (.install (.connect token guid self) p), false⟩
  | .install job p, .go => some (m.install t job p)
  | .release job p stamp, .go => m.release job p stamp
  | .replay job p rest stamp, .go => some (m.replay job p rest stamp)
  | .publishConnected job stamp, .go => some (m.publishConnected job stamp)
  | .attemptError k token cause _ v, .go => some (m.attemptError t k token cause v false)
  | .attemptError k token cause dialled v, .late =>
    if dialled = true then some (m.attemptError t k token cause v true) else none
  | .goodbye r, .go => some ⟨m, some (.publishFailed r), false⟩
  | .publishFailed r, .go => some (m.publishFailed r)
  | .endAttempt r, .go => some ⟨{ m with attemptCancel := none }, some (.unlockLife r), false⟩
  | .unlockLife r, .go => some ⟨{ m.markReturned t r with lifeMu := none }, none, false⟩
  | .endSession reason still about k, .go => some (m.endSession reason still about k)
  | .closeEnded owner td, .go =>
    some ⟨m.endCtx owner, some (.resetRoster td), false⟩
  | .resetRoster td, .go =>
    some ⟨{ m with store := m.store.resetRoster }, some (.clearVoice td), false⟩
  | .clearVoice td, .go =>
    some ⟨{ m with store := m.store.clearVoice }, some (.clearSelf td), false⟩
  | .clearSelf td, .go =>
    some ⟨{ m with store := m.store.clearSelf }, some (.publishEnded td), false⟩
  | .publishEnded td, .go => some (m.publishEnded td)
  | .sessionEnded td, .go => some (m.reportEnded td)
  | .lockDisconnect, .go =>
    if m.lifeMu = none then some ⟨{ m with lifeMu := some t }, some .disconnect, false⟩ else none
  | .disconnect, .go => some m.disconnect
  | .unlockDisconnect td, .go => some ⟨{ m.settleDown td with lifeMu := none }, none, false⟩
  | .cancelConnect k, .go => some (m.cancelConnect k)
  | .cancelCall a seq k, .go => some (m.cancelCall a seq k)
  | .markControlLost, .go => some ⟨m, some (.controlLost m.streamGen), false⟩
  | .controlLost gen, .go => some (m.controlLost gen)
  | .closeLost owner stamp, .go => some ⟨m.endCtx (some owner), some (.publishLost stamp), false⟩
  | .publishLost stamp, .go => some ⟨m.publishSection .disconnected stamp, none, false⟩
  | .unaryCall, .go => some m.unaryCall
  | .unaryAnswer _ _, .go => some ⟨m, none, false⟩
  | .unaryAnswer token about, .fail err => some (m.checkSessionEnded token about err)
  | .recv, .update upd => some ⟨m, some (.received upd), false⟩
  | .recv, .fail err => some ⟨m, some (.recvEnd err), false⟩
  | .received upd, .go => m.onStream t fun q => m.received t q upd
  | .recvEnd err, .go => m.onStream t fun q => m.recvEnd q err
  | .route upd, .go =>
    some ⟨{ m with store := (Control.route upd m.store).1, log := m.log ++ [.update t] },
      some .recv, false⟩
  | .waitRelease err, .go => m.onStream t fun q =>
    if q.held.released = true then some ⟨m, some (.select err), false⟩ else none
  | .waitRelease _, .fail err => m.onStream t fun q =>
    if m.StreamDone q then some ⟨m, some (.select err), false⟩ else none
  | .select err, .go => m.onStream t fun q => some (m.select q err)
  | .streamEnd gen err, .go => m.onStream t fun q => some (m.streamEnd q gen err)
  | .streamCurrent gen err, .go => m.onStream t fun q => some (m.streamCurrent q gen err)
  | .resync gen, .go => some (m.resync gen)
  | .resyncFailed gen token err, .go =>
    m.onStream t fun q => some (m.resyncFailed q gen token err)
  | _, _ => none

end Manager

structure System where
  m : Manager
  threads : AList fun _ : ℕ => Pc

inductive Label where
  | call (c : Call)
  | run (t : ℕ) (a : Answer)

/-- The goroutine of a stream waits for an update, or for `Release`. -/
def Pc.waits : Pc → Bool
  | .recv | .waitRelease _ => true
  | _ => false

/-- The first step of a method. -/
def Call.entry : Call → Pc
  | .connect => .queueAttempt .connect
  | .reconnect => .queueAttempt .reconnect
  | .disconnect => .cancelConnect .disconnect
  | .cancelConnect => .cancelConnect .caller
  | .markControlLost => .markControlLost
  | .unary => .unaryCall

namespace System

def init : System := ⟨Manager.init, ∅⟩

/-- Goroutine `t` goes on at `pc`, or is done. -/
def goto (threads : AList fun _ : ℕ => Pc) (t : ℕ) : Option Pc → AList fun _ : ℕ => Pc
  | none => threads.erase t
  | some pc => threads.insert t pc

/-- What a move makes of the system. -/
def after (s : System) (t : ℕ) (mv : Move) : System :=
  let threads := goto s.threads t mv.pc
  if mv.spawn = true then
    ⟨{ mv.m with next := mv.m.next + 1 }, threads.insert mv.m.next .recv⟩
  else ⟨mv.m, threads⟩

def enter (s : System) (c : Call) : System :=
  ⟨{ s.m with next := s.m.next + 1 }, s.threads.insert s.m.next c.entry⟩

def step (cap : ℕ) (s : System) : Label → Option System
  | .call c => some (s.enter c)
  | .run t a =>
    match s.threads.lookup t with
    | none => none
    | some pc => (s.m.advance cap t pc a).map (s.after t)

/-- Nothing is under way but streams that wait. -/
def Quiescent (s : System) : Prop :=
  ∀ t ∈ s.threads.keys, ∀ pc ∈ s.threads.lookup t, pc.waits = true

instance (s : System) : Decidable s.Quiescent :=
  List.decidableBAll (fun t : ℕ => ∀ pc ∈ s.threads.lookup t, pc.waits = true) s.threads.keys

end System

/-! ## Schedules -/

/-- Steps of goroutine `t` that need no answer. -/
def goes (t n : ℕ) : List Label := List.replicate n (.run t .go)

def emptyServer : SyncData := ⟨∅, ∅, none, "", "", "secret"⟩

/-- `SyncClient` answers goroutine `t`, which hydrates the store. -/
def syncing (t : ℕ) : List Label := .run t (.data emptyServer) :: goes t 3

/-- A `Connect` by goroutine `t` that logs in with `token`, until it is ready to
install; with no connection to tear down. -/
def connecting (t : ℕ) (token : Token) : List Label :=
  .call .connect :: goes t 8 ++
    [.run t (.guid "g-1"), .run t (.login token ⟨"Maverick", "blue", "VF-1", 0⟩), .run t .go] ++
    syncing t ++ goes t 2

/-- A `Connect` by goroutine `t` from start to end. -/
def connected (t : ℕ) (token : Token) : List Label := connecting t token ++ goes t 6

end VcsClient.Session
