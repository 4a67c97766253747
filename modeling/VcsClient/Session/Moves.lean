import VcsClient.Session.Machine

/-!
# The moves of a goroutine

One rule for each way through a step, with the guards that lead there. What a
move keeps is proved rule by rule; only `advance_moves` looks into the step.
-/

namespace VcsClient.Session.Manager

open VcsClient.Control VcsClient.Lib VcsClient.State

/-- Where goroutine `t` stands, what it is answered, and the move that follows. -/
inductive Moves (cap : ℕ) (m : Manager) (t : ℕ) : Pc → Answer → Move → Prop
  -- Connect and Reconnect
  | queueAttempt (k : Kind) : m.Moves cap t (.queueAttempt k) .go (m.queueAttempt t k)
  | lockLife (k : Kind) (ticket : ℕ) (hfree : m.lifeMu = none) :
      m.Moves cap t (.lockLife k ticket) .go
        ⟨{ m with lifeMu := some t }, some (.beginAttempt k ticket), false⟩
  | beginAttempt (k : Kind) (ticket : ℕ) :
      m.Moves cap t (.beginAttempt k ticket) .go (m.beginAttempt t k ticket)
  | announceConnect :
      m.Moves cap t (.announce .connect) .go ⟨m.publish .reconnecting, some .teardownLive, false⟩
  | announceReconnect :
      m.Moves cap t (.announce .reconnect) .go ⟨m.publish .reconnecting, some .lastSession, false⟩
  | teardownNone (hlive : m.live = none) :
      m.Moves cap t .teardownLive .go ⟨m, some .forget, false⟩
  | teardownLive (l : Live) (hlive : m.live = some l) :
      m.Moves cap t .teardownLive .go ⟨m.dropLive, some (.teardownClose l.owner), false⟩
  | teardownClose (owner : ℕ) :
      m.Moves cap t (.teardownClose owner) .go ⟨m.endCtx (some owner), some .forget, false⟩
  | forget : m.Moves cap t .forget .go m.forget
  | dialerFor : m.Moves cap t .dialerFor .go ⟨m, some .dialConnect, false⟩
  | badAddress (err : Option Status) :
      m.Moves cap t .dialerFor (.fail err) ⟨m, some (.publishFailed .address), false⟩
  | lastSession (hdialer : m.lastDialer = true) :
      m.Moves cap t .lastSession .go ⟨m, some (.dialReconnect m.lastToken), false⟩
  | neverConnected (hdialer : ¬m.lastDialer = true) :
      m.Moves cap t .lastSession .go ⟨m, some (.publishFailed .neverConnected), false⟩
  | dialConnect : m.Moves cap t .dialConnect .go ⟨m, some .initAuth, false⟩
  | dialConnectFails (err : Option Status) : m.Moves cap t .dialConnect (.fail err)
      ⟨m, some (.attemptError .connect "" (.dial err) false .ordinary), false⟩
  | dialReconnect (token : Token) :
      m.Moves cap t (.dialReconnect token) .go ⟨m, some (.subscribe (.reconnect token)), false⟩
  | dialReconnectFails (token : Token) (err : Option Status) :
      m.Moves cap t (.dialReconnect token) (.fail err)
        ⟨m, some (.attemptError .reconnect token (.dial err) false .ordinary), false⟩
  | initAuth (guid : Guid) (hctx : t ∉ m.cancelled) :
      m.Moves cap t .initAuth (.guid guid) ⟨m, some (.guestLogin guid), false⟩
  | noGuest (hctx : t ∉ m.cancelled) : m.Moves cap t .initAuth .noGuest
      ⟨m, some (.attemptError .connect "" .guestUnavailable true .ordinary), false⟩
  | initAuthFails (err : Option Status) : m.Moves cap t .initAuth (.fail err)
      ⟨m, some (.attemptError .connect "" (.rpc err) true .ordinary), false⟩
  | guestLogin (guid : Guid) (token : Token) (self : ClientInfo) (hctx : t ∉ m.cancelled) :
      m.Moves cap t (.guestLogin guid) (.login token self)
        ⟨m, some (.subscribe (.connect token guid self)), false⟩
  | guestLoginFails (guid : Guid) (err : Option Status) :
      m.Moves cap t (.guestLogin guid) (.fail err)
        ⟨m, some (.attemptError .connect "" (.rpc err) true .ordinary), false⟩
  -- the update stream, opened and held
  | openConnect (token : Token) (guid : Guid) (self : ClientInfo) (owner : ℕ)
      (howner : m.ownerOf t (.connect token guid self) = some owner) :
      m.Moves cap t (.subscribe (.connect token guid self)) .go
        ⟨{ m with streams := m.streams.insert m.next ⟨owner, token, newHeld cap, false, none, false⟩ },
          some (.syncClient (.connect token guid self) m.next), true⟩
  | openReconnect (token : Token) (owner : ℕ)
      (howner : m.ownerOf t (.reconnect token) = some owner) :
      m.Moves cap t (.subscribe (.reconnect token)) .go
        ⟨{ m with streams := m.streams.insert m.next ⟨owner, token, newHeld cap, false, none, false⟩ },
          some (.syncClient (.reconnect token) m.next), true⟩
  | openResync (gen : ℕ) (token : Token) (owner : ℕ)
      (howner : m.ownerOf t (.resync gen token) = some owner) :
      m.Moves cap t (.subscribe (.resync gen token)) .go
        ⟨{ m with streams := m.streams.insert m.next ⟨owner, token, newHeld cap, false, none, false⟩ },
          some (.stillCurrent gen token m.next), true⟩
  | subscribeConnectFails (token : Token) (guid : Guid) (self : ClientInfo) (err : Option Status) :
      m.Moves cap t (.subscribe (.connect token guid self)) (.fail err)
        ⟨m, some (.attemptError .connect token (.subscribe err) true .ordinary), false⟩
  | subscribeReconnectFails (token : Token) (err : Option Status) :
      m.Moves cap t (.subscribe (.reconnect token)) (.fail err)
        ⟨m, some (.attemptError .reconnect token (.subscribe err) true (classifyRPCError err)), false⟩
  | subscribeResyncFails (gen : ℕ) (token : Token) (err : Option Status) :
      m.Moves cap t (.subscribe (.resync gen token)) (.fail err)
        ⟨m, some (.resyncFailed gen token err), false⟩
  | resyncMoot (gen : ℕ) (token : Token) (p : ℕ) (hmoot : gen ≠ m.streamGen ∨ m.live = none) :
      m.Moves cap t (.stillCurrent gen token p) .go ⟨m.abandon p, none, false⟩
  | stillCurrent (gen : ℕ) (token : Token) (p : ℕ) (hcur : ¬(gen ≠ m.streamGen ∨ m.live = none)) :
      m.Moves cap t (.stillCurrent gen token p) .go
        ⟨m, some (.syncClient (.resync gen token) p), false⟩
  -- the snapshot
  | syncClient (job : Job) (p : ℕ) (data : SyncData) (hctx : ¬m.callDone t job = true) :
      m.Moves cap t (.syncClient job p) (.data data)
        ⟨m, some (.hydrate job p data.hydrations data.hadSecret), false⟩
  | syncConnectFails (token : Token) (guid : Guid) (self : ClientInfo) (p : ℕ)
      (err : Option Status) : m.Moves cap t (.syncClient (.connect token guid self) p) (.fail err)
        ⟨m, some (.attemptError .connect token (.rpc err) true .ordinary), false⟩
  | syncReconnectFails (token : Token) (p : ℕ) (err : Option Status) :
      m.Moves cap t (.syncClient (.reconnect token) p) (.fail err)
        ⟨m, some (.attemptError .reconnect token (.rpc err) true (classifyRPCError err)), false⟩
  | syncResyncFails (gen : ℕ) (token : Token) (p : ℕ) (err : Option Status) :
      m.Moves cap t (.syncClient (.resync gen token) p) (.fail err)
        ⟨m.abandon p, some (.resyncFailed gen token err), false⟩
  | hydrate (job : Job) (p : ℕ) (h : Hydration) (rest : List Hydration) (hadSecret : Bool) :
      m.Moves cap t (.hydrate job p (h :: rest) hadSecret) .go
        ⟨{ m with store := h.apply m.store }, some (.hydrate job p rest hadSecret), false⟩
  | hydratedConnect (token : Token) (guid : Guid) (self : ClientInfo) (p : ℕ) (hadSecret : Bool) :
      m.Moves cap t (.hydrate (.connect token guid self) p [] hadSecret) .go
        ⟨{ m with log := m.log ++ [.snapshot p] }, some (.finalCheck token guid self p), false⟩
  | hydratedReconnect (token : Token) (p : ℕ) (hadSecret : Bool) (hsecret : hadSecret = true) :
      m.Moves cap t (.hydrate (.reconnect token) p [] hadSecret) .go
        ⟨{ m with log := m.log ++ [.snapshot p] }, some (.install (.reconnect token) p), false⟩
  | expired (token : Token) (p : ℕ) (hadSecret : Bool) (hsecret : ¬hadSecret = true) :
      m.Moves cap t (.hydrate (.reconnect token) p [] hadSecret) .go
        ⟨({ m with log := m.log ++ [.snapshot p] } : Manager).endCtx (some t),
          some (.endSession "expired" none token (.reconnect "expired")), false⟩
  | hydratedResync (gen : ℕ) (token : Token) (p : ℕ) (hadSecret : Bool) :
      m.Moves cap t (.hydrate (.resync gen token) p [] hadSecret) .go
        ⟨{ m with log := m.log ++ [.snapshot p] }, some (.install (.resync gen token) p), false⟩
  | giveUp (token : Token) (guid : Guid) (self : ClientInfo) (p : ℕ) (a : Answer)
      (ha : a = .go ∧ t ∈ m.cancelled ∨ a = .late) :
      m.Moves cap t (.finalCheck token guid self p) a
        ⟨m, some (.attemptError .connect token (.rpc none) true .ordinary), false⟩
  | finalCheck (token : Token) (guid : Guid) (self : ClientInfo) (p : ℕ) (hctx : t ∉ m.cancelled) :
      m.Moves cap t (.finalCheck token guid self p) .go
        ⟨m, some (.setSelf token guid self p), false⟩
  | setSelf (token : Token) (guid : Guid) (self : ClientInfo) (p : ℕ) :
      m.Moves cap t (.setSelf token guid self p) .go
        ⟨{ m with store := m.store.setSelf guid self },
          some (.install (.connect token guid self) p), false⟩
  -- the install, `Release` and the publication after it
  | installConnect (token : Token) (guid : Guid) (self : ClientInfo) (p : ℕ) :
      m.Moves cap t (.install (.connect token guid self) p) .go
        ⟨({ m with live := some ⟨t, token⟩, lastDialer := true, lastToken := token }.installLocked
          p).markInstalled t, some (.release (.connect token guid self) p (m.clock + 1)), false⟩
  | endedMeanwhile (token : Token) (p : ℕ) (hother : m.lastToken ≠ token) :
      m.Moves cap t (.install (.reconnect token) p) .go
        ⟨m.endCtx (some t), some (.publishFailed (.sessionEnded "expired")), false⟩
  | installReconnect (token : Token) (p : ℕ) (hsame : m.lastToken = token) :
      m.Moves cap t (.install (.reconnect token) p) .go
        ⟨({ m.endCtx (m.live.map Live.owner) with live := some ⟨t, token⟩ }.installLocked
          p).markInstalled t, some (.release (.reconnect token) p (m.clock + 1)), false⟩
  | installMoot (gen : ℕ) (token : Token) (p : ℕ) (hmoot : gen ≠ m.streamGen ∨ m.live = none) :
      m.Moves cap t (.install (.resync gen token) p) .go ⟨m.abandon p, none, false⟩
  | installResync (gen : ℕ) (token : Token) (p : ℕ)
      (hcur : ¬(gen ≠ m.streamGen ∨ m.live = none)) :
      m.Moves cap t (.install (.resync gen token) p) .go
        ⟨m.installLocked p, some (.release (.resync gen token) p (m.clock + 1)), false⟩
  | releasedBefore (job : Job) (p stamp : ℕ) (q : Stream) (hq : m.streams.lookup p = some q)
      (hfree : ¬q.replaying = true) (hreleased : q.held.released = true) :
      m.Moves cap t (.release job p stamp) .go ⟨m, some (.publishConnected job stamp), false⟩
  | release (job : Job) (p stamp : ℕ) (q : Stream) (hq : m.streams.lookup p = some q)
      (hfree : ¬q.replaying = true) (hheld : ¬q.held.released = true) :
      m.Moves cap t (.release job p stamp) .go
        ⟨m.withStream p fun q => { q with replaying := true },
          some (.replay job p q.held.buf stamp), false⟩
  | openHold (job : Job) (p stamp : ℕ) : m.Moves cap t (.replay job p [] stamp) .go
      ⟨m.withStream p fun q => { q with held := q.held.opened, replaying := false },
        some (.publishConnected job stamp), false⟩
  | replay (job : Job) (p : ℕ) (upd : ServerUpdate) (rest : List ServerUpdate) (stamp : ℕ) :
      m.Moves cap t (.replay job p (upd :: rest) stamp) .go
        ⟨{ m with store := (Control.route upd m.store).1, log := m.log ++ [.update p] },
          some (.replay job p rest stamp), false⟩
  | connected (token : Token) (guid : Guid) (self : ClientInfo) (stamp : ℕ) :
      m.Moves cap t (.publishConnected (.connect token guid self) stamp) .go
        ⟨m.publishSection .connected stamp, some (.endAttempt none), false⟩
  | reconnected (token : Token) (stamp : ℕ) :
      m.Moves cap t (.publishConnected (.reconnect token) stamp) .go
        ⟨m.publishSection .connected stamp, some (.endAttempt none), false⟩
  | resynced (gen : ℕ) (token : Token) (stamp : ℕ) :
      m.Moves cap t (.publishConnected (.resync gen token) stamp) .go
        ⟨m.publishSection .connected stamp, none, false⟩
  -- the end of an attempt
  | cancelledGoodbye (token : Token) (cause : ConnectError) (dialled : Bool) (v : Verdict)
      (a : Answer) (ha : a = .go ∨ a = .late ∧ dialled = true) (hctx : t ∈ m.cancelled)
      (htoken : token ≠ "") : m.Moves cap t (.attemptError .connect token cause dialled v) a
        ⟨m.endCtx (some t), some (.goodbye .cancelled), false⟩
  | cancelled (k : Kind) (token : Token) (cause : ConnectError) (dialled : Bool) (v : Verdict)
      (a : Answer) (ha : a = .go ∨ a = .late ∧ dialled = true) (hctx : t ∈ m.cancelled)
      (hk : ¬(k = .connect ∧ token ≠ "")) : m.Moves cap t (.attemptError k token cause dialled v) a
        ⟨m.endCtx (some t), some (.publishFailed .cancelled), false⟩
  | lateGoodbye (token : Token) (cause : ConnectError) (v : Verdict) (hctx : t ∉ m.cancelled)
      (htoken : token ≠ "") : m.Moves cap t (.attemptError .connect token cause true v) .late
        ⟨m.endCtx (some t), some (.goodbye .notResponding), false⟩
  | late (k : Kind) (token : Token) (cause : ConnectError) (v : Verdict) (hctx : t ∉ m.cancelled)
      (hk : ¬(k = .connect ∧ token ≠ "")) : m.Moves cap t (.attemptError k token cause true v) .late
        ⟨m.endCtx (some t), some (.publishFailed .notResponding), false⟩
  | refused (token : Token) (cause : ConnectError) (dialled : Bool) (reason : String)
      (hctx : t ∉ m.cancelled) :
      m.Moves cap t (.attemptError .reconnect token cause dialled (.sessionEnded reason)) .go
        ⟨m.endCtx (some t), some (.endSession reason none token (.reconnect reason)), false⟩
  | attemptError (k : Kind) (token : Token) (cause : ConnectError) (dialled : Bool) (v : Verdict)
      (hctx : t ∉ m.cancelled) (hv : ∀ reason, k = .reconnect → v ≠ .sessionEnded reason) :
      m.Moves cap t (.attemptError k token cause dialled v) .go
        ⟨m.endCtx (some t), some (.publishFailed cause), false⟩
  | goodbye (r : ConnectError) :
      m.Moves cap t (.goodbye r) .go ⟨m, some (.publishFailed r), false⟩
  | publishFailed (r : ConnectError) : m.Moves cap t (.publishFailed r) .go
      ⟨{ m.publish .disconnected with shown := m.clock }, some (.endAttempt (some r)), false⟩
  | endAttempt (r : Option ConnectError) : m.Moves cap t (.endAttempt r) .go
      ⟨{ m with attemptCancel := none }, some (.unlockLife r), false⟩
  | unlockLife (r : Option ConnectError) : m.Moves cap t (.unlockLife r) .go
      ⟨{ m.markReturned t r with lifeMu := none }, none, false⟩
  -- endSession and Disconnect
  | endMoot (reason : String) (still : Option Token) (about : Token)
      (hmoot : (m.lastToken = "" ∧ m.live = none) ∨ ∃ token ∈ still, m.lastToken ≠ token) :
      m.Moves cap t (.endSession reason still about .exit) .go ⟨m, none, false⟩
  | reconnectMoot (reason : String) (still : Option Token) (about : Token) (why : String)
      (hmoot : (m.lastToken = "" ∧ m.live = none) ∨ ∃ token ∈ still, m.lastToken ≠ token) :
      m.Moves cap t (.endSession reason still about (.reconnect why)) .go
        ⟨m, some (.publishFailed (.sessionEnded why)), false⟩
  | endSession (reason : String) (still : Option Token) (about : Token) (k : After)
      (hsome : ¬(m.lastToken = "" ∧ m.live = none)) (hstill : ∀ token ∈ still, m.lastToken = token) :
      m.Moves cap t (.endSession reason still about k) .go
        ⟨{ m.dropSession with ended := m.ended ++ [(about, m.lastToken)] },
          some (.closeEnded (m.live.map (·.owner))
            ⟨reason, some k, about, m.clock + 1, m.logins⟩), false⟩
  | closeEnded (owner : Option ℕ) (td : Teardown) :
      m.Moves cap t (.closeEnded owner td) .go ⟨m.endCtx owner, some (.resetRoster td), false⟩
  | resetRoster (td : Teardown) : m.Moves cap t (.resetRoster td) .go
      ⟨{ m with store := m.store.resetRoster }, some (.clearVoice td), false⟩
  | clearVoice (td : Teardown) : m.Moves cap t (.clearVoice td) .go
      ⟨{ m with store := m.store.clearVoice }, some (.clearSelf td), false⟩
  | clearSelf (td : Teardown) : m.Moves cap t (.clearSelf td) .go
      ⟨{ m with store := m.store.clearSelf }, some (.publishEnded td), false⟩
  | publishDisconnect (td : Teardown) (hk : td.k = none) : m.Moves cap t (.publishEnded td) .go
      ⟨m.publishSection .disconnected td.stamp, some (.unlockDisconnect td), false⟩
  | publishEnded (td : Teardown) (k : After) (hk : td.k = some k) :
      m.Moves cap t (.publishEnded td) .go
        ⟨m.publishSection .disconnected td.stamp, some (.sessionEnded td), false⟩
  | sessionEnded (td : Teardown) (hk : td.k = none ∨ td.k = some .exit) :
      m.Moves cap t (.sessionEnded td) .go
        ⟨{ m.settleDown td with
            ended := m.ended ++ m.live.toList.map fun l => (td.about, l.token) }, none, false⟩
  | reconnectEnded (td : Teardown) (why : String) (hk : td.k = some (.reconnect why)) :
      m.Moves cap t (.sessionEnded td) .go
        ⟨{ m.settleDown td with
            ended := m.ended ++ m.live.toList.map fun l => (td.about, l.token) },
          some (.endAttempt (some (.sessionEnded why))), false⟩
  | lockDisconnect (hfree : m.lifeMu = none) : m.Moves cap t .lockDisconnect .go
      ⟨{ m with lifeMu := some t }, some .disconnect, false⟩
  | disconnect : m.Moves cap t .disconnect .go
      ⟨m.dropSession,
        some (.closeEnded (m.live.map (·.owner)) ⟨"", none, "", m.clock + 1, m.logins⟩), false⟩
  | unlockDisconnect (td : Teardown) : m.Moves cap t (.unlockDisconnect td) .go
      ⟨{ m.settleDown td with lifeMu := none }, none, false⟩
  -- CancelConnect
  | cancelConnect (k : Canceller) : m.Moves cap t (.cancelConnect k) .go (m.cancelConnect k)
  | cancelReturns (b : Option ℕ) (seq : ℕ) : m.Moves cap t (.cancelCall b seq .caller) .go
      ⟨{ m.withAttempts (fun _ x =>
          if x.Open ∧ x.ticket < seq then { x with covered := true } else x) with
          cancelled := b.toList ++ m.cancelled }, none, false⟩
  | cancelDisconnect (b : Option ℕ) (seq : ℕ) : m.Moves cap t (.cancelCall b seq .disconnect) .go
      ⟨{ m.withAttempts (fun _ x =>
          if x.Open ∧ x.ticket < seq then { x with covered := true } else x) with
          cancelled := b.toList ++ m.cancelled }, some .lockDisconnect, false⟩
  -- control loss and unary calls
  | markControlLost : m.Moves cap t .markControlLost .go
      ⟨m, some (.controlLost m.streamGen), false⟩
  | lostMoot (gen : ℕ) (hmoot : m.live = none ∨ gen ≠ m.streamGen) :
      m.Moves cap t (.controlLost gen) .go ⟨m, none, false⟩
  | controlLost (gen : ℕ) (l : Live) (hlive : m.live = some l) (hgen : gen = m.streamGen) :
      m.Moves cap t (.controlLost gen) .go
        ⟨m.dropLive, some (.closeLost l.owner (m.clock + 1)), false⟩
  | closeLost (owner stamp : ℕ) : m.Moves cap t (.closeLost owner stamp) .go
      ⟨m.endCtx (some owner), some (.publishLost stamp), false⟩
  | publishLost (stamp : ℕ) : m.Moves cap t (.publishLost stamp) .go
      ⟨m.publishSection .disconnected stamp, none, false⟩
  | unaryOffline (hlive : m.live = none) : m.Moves cap t .unaryCall .go ⟨m, none, false⟩
  | unaryCall (l : Live) (hlive : m.live = some l) : m.Moves cap t .unaryCall .go
      ⟨m, some (.unaryAnswer m.lastToken l.token), false⟩
  | unaryAnswer (token about : Token) :
      m.Moves cap t (.unaryAnswer token about) .go ⟨m, none, false⟩
  | unaryEnded (token about : Token) (err : Option Status) (reason : String)
      (hv : classifyRPCError err = .sessionEnded reason) :
      m.Moves cap t (.unaryAnswer token about) (.fail err)
        ⟨m, some (.endSession reason (some token) about .exit), false⟩
  | unaryFails (token about : Token) (err : Option Status)
      (hv : ∀ reason, classifyRPCError err ≠ .sessionEnded reason) :
      m.Moves cap t (.unaryAnswer token about) (.fail err) ⟨m, none, false⟩
  -- the goroutine of an update stream
  | recv (upd : ServerUpdate) :
      m.Moves cap t .recv (.update upd) ⟨m, some (.received upd), false⟩
  | recvFails (err : Option Status) :
      m.Moves cap t .recv (.fail err) ⟨m, some (.recvEnd err), false⟩
  | holdUpdate (upd : ServerUpdate) (q : Stream) (h : Control.Held)
      (hq : m.streams.lookup t = some q) (hhold : q.held.receive upd = .hold h) :
      m.Moves cap t (.received upd) .go
        ⟨m.withStream t fun q => { q with held := h }, some .recv, false⟩
  | overflow (upd : ServerUpdate) (q : Stream) (err : Option Status)
      (hq : m.streams.lookup t = some q) (hfull : q.held.receive upd = .wait err) :
      m.Moves cap t (.received upd) .go ⟨m, some (.waitRelease err), false⟩
  | received (upd : ServerUpdate) (q : Stream) (hq : m.streams.lookup t = some q)
      (hroute : q.held.receive upd = .route) :
      m.Moves cap t (.received upd) .go ⟨m, some (.route upd), false⟩
  | endHeld (err err' : Option Status) (q : Stream) (hq : m.streams.lookup t = some q)
      (hwait : q.held.finish err = .wait err') :
      m.Moves cap t (.recvEnd err) .go ⟨m, some (.waitRelease err'), false⟩
  | recvEnd (err err' : Option Status) (q : Stream) (hq : m.streams.lookup t = some q)
      (hstop : q.held.finish err = .stop err') :
      m.Moves cap t (.recvEnd err) .go ⟨m, some (.select err'), false⟩
  | route (upd : ServerUpdate) : m.Moves cap t (.route upd) .go
      ⟨{ m with store := (Control.route upd m.store).1, log := m.log ++ [.update t] },
        some .recv, false⟩
  | waitRelease (err : Option Status) (q : Stream) (hq : m.streams.lookup t = some q)
      (hreleased : q.held.released = true) :
      m.Moves cap t (.waitRelease err) .go ⟨m, some (.select err), false⟩
  | waitDone (err err' : Option Status) (q : Stream) (hq : m.streams.lookup t = some q)
      (hdone : m.StreamDone q) :
      m.Moves cap t (.waitRelease err) (.fail err') ⟨m, some (.select err'), false⟩
  | neverInstalled (err : Option Status) (q : Stream) (hq : m.streams.lookup t = some q)
      (hgen : q.gen = none) : m.Moves cap t (.select err) .go ⟨m, none, false⟩
  | select (gen : ℕ) (err : Option Status) (q : Stream) (hq : m.streams.lookup t = some q)
      (hgen : q.gen = some gen) :
      m.Moves cap t (.select err) .go ⟨m, some (.streamEnd gen err), false⟩
  | streamClosed (gen : ℕ) (err : Option Status) (q : Stream) (hq : m.streams.lookup t = some q)
      (hctx : q.owner ∈ m.ctxDone) : m.Moves cap t (.streamEnd gen err) .go ⟨m, none, false⟩
  | streamEnd (gen : ℕ) (err : Option Status) (q : Stream) (hq : m.streams.lookup t = some q)
      (hctx : q.owner ∉ m.ctxDone) :
      m.Moves cap t (.streamEnd gen err) .go ⟨m, some (.streamCurrent gen err), false⟩
  | streamStale (gen : ℕ) (err : Option Status) (q : Stream) (hq : m.streams.lookup t = some q)
      (hgen : gen ≠ m.streamGen) : m.Moves cap t (.streamCurrent gen err) .go ⟨m, none, false⟩
  | streamEnded (gen : ℕ) (err : Option Status) (q : Stream) (reason : String)
      (hq : m.streams.lookup t = some q) (hgen : gen = m.streamGen)
      (hv : classifyRPCError err = .sessionEnded reason) :
      m.Moves cap t (.streamCurrent gen err) .go
        ⟨m, some (.endSession reason none q.token .exit), false⟩
  | streamLost (gen : ℕ) (err : Option Status) (q : Stream) (hq : m.streams.lookup t = some q)
      (hgen : gen = m.streamGen)
      (hv : classifyRPCError err = .superseded ∨ classifyRPCError err = .ordinary) :
      m.Moves cap t (.streamCurrent gen err) .go ⟨m, some (.controlLost gen), false⟩
  | streamResync (gen : ℕ) (err : Option Status) (q : Stream) (hq : m.streams.lookup t = some q)
      (hgen : gen = m.streamGen) (hv : classifyRPCError err = .resync) :
      m.Moves cap t (.streamCurrent gen err) .go ⟨m, some (.resync gen), false⟩
  | resyncStale (gen : ℕ) (hmoot : m.live = none ∨ gen ≠ m.streamGen) :
      m.Moves cap t (.resync gen) .go ⟨m, none, false⟩
  | resync (gen : ℕ) (l : Live) (hlive : m.live = some l) (hgen : gen = m.streamGen) :
      m.Moves cap t (.resync gen) .go ⟨m, some (.subscribe (.resync gen l.token)), false⟩
  | resyncClosed (gen : ℕ) (token : Token) (err : Option Status) (q : Stream)
      (hq : m.streams.lookup t = some q) (hctx : q.owner ∈ m.ctxDone) :
      m.Moves cap t (.resyncFailed gen token err) .go ⟨m, none, false⟩
  | resyncEnded (gen : ℕ) (token : Token) (err : Option Status) (q : Stream) (reason : String)
      (hq : m.streams.lookup t = some q) (hctx : q.owner ∉ m.ctxDone)
      (hv : classifyRPCError err = .sessionEnded reason) :
      m.Moves cap t (.resyncFailed gen token err) .go
        ⟨m, some (.endSession reason none token .exit), false⟩
  | resyncLost (gen : ℕ) (token : Token) (err : Option Status) (q : Stream)
      (hq : m.streams.lookup t = some q) (hctx : q.owner ∉ m.ctxDone)
      (hv : ∀ reason, classifyRPCError err ≠ .sessionEnded reason) :
      m.Moves cap t (.resyncFailed gen token err) .go ⟨m, some (.controlLost gen), false⟩

variable {cap : ℕ} {m : Manager} {t : ℕ}

/-! ## Each way through a section -/

theorem no_move {mv : Move} {P : Prop} (h : (none : Option Move) = some mv) : P := by
  cases h

theorem of_ite_some {P : Prop} [Decidable P] {x mv : Move}
    (h : (if P then some x else none) = some mv) : P ∧ x = mv := by
  obtain ⟨hP, h⟩ := Option.ite_none_right_eq_some.1 h
  exact ⟨hP, Option.some.inj h⟩

theorem of_ite_none {P : Prop} [Decidable P] {x mv : Move}
    (h : (if P then none else some x) = some mv) : ¬P ∧ x = mv := by
  obtain ⟨hP, h⟩ := Option.ite_none_left_eq_some.1 h
  exact ⟨hP, Option.some.inj h⟩

theorem moves_teardownLive : m.Moves cap t .teardownLive .go m.teardownLive := by
  unfold Manager.teardownLive
  split
  · next hlive => exact .teardownNone hlive
  · next l hlive => exact .teardownLive l hlive

theorem moves_lastSession : m.Moves cap t .lastSession .go m.lastSession := by
  unfold Manager.lastSession
  split
  · next hdialer => exact .lastSession hdialer
  · next hdialer => exact .neverConnected hdialer

theorem moves_subscribe {job : Job} {mv : Move}
    (h : m.advance cap t (.subscribe job) .go = some mv) :
    m.Moves cap t (.subscribe job) .go mv := by
  conv at h => lhs; whnf
  split at h
  · cases h
  · next owner howner =>
    cases h
    cases job with
    | connect token guid self => exact .openConnect token guid self owner howner
    | reconnect token => exact .openReconnect token owner howner
    | resync gen token => exact .openResync gen token owner howner

theorem moves_subscribeFailed (job : Job) (err : Option Status) :
    m.Moves cap t (.subscribe job) (.fail err) ⟨m, some (subscribeFailed job err), false⟩ := by
  cases job with
  | connect token guid self => exact .subscribeConnectFails token guid self err
  | reconnect token => exact .subscribeReconnectFails token err
  | resync gen token => exact .subscribeResyncFails gen token err

theorem moves_syncFailed (job : Job) (p : ℕ) (err : Option Status) :
    m.Moves cap t (.syncClient job p) (.fail err) (m.syncFailed job p err) := by
  cases job with
  | connect token guid self => exact .syncConnectFails token guid self p err
  | reconnect token => exact .syncReconnectFails token p err
  | resync gen token => exact .syncResyncFails gen token p err

theorem moves_hydrated (job : Job) (p : ℕ) (hadSecret : Bool) :
    m.Moves cap t (.hydrate job p [] hadSecret) .go (m.hydrated t job p hadSecret) := by
  cases job with
  | connect token guid self => exact .hydratedConnect token guid self p hadSecret
  | reconnect token =>
    simp only [hydrated]
    split
    · next hsecret => exact .hydratedReconnect token p hadSecret hsecret
    · next hsecret => exact .expired token p hadSecret hsecret
  | resync gen token => exact .hydratedResync gen token p hadSecret

theorem moves_hydrate {job : Job} {p : ℕ} {rest : List Hydration} {hadSecret : Bool} {a : Answer}
    {mv : Move} (h : m.advance cap t (.hydrate job p rest hadSecret) a = some mv) :
    m.Moves cap t (.hydrate job p rest hadSecret) a mv := by
  cases rest <;> cases a <;> cases h
  · exact moves_hydrated job p hadSecret
  · exact .hydrate job p _ _ hadSecret

theorem moves_finalCheck (token : Token) (guid : Guid) (self : ClientInfo) (p : ℕ) :
    m.Moves cap t (.finalCheck token guid self p) .go (m.finalCheck t token guid self p false) := by
  unfold Manager.finalCheck
  split
  · next h => exact .giveUp token guid self p .go (.inl ⟨rfl, h.resolve_right nofun⟩)
  · next h => exact .finalCheck token guid self p fun hctx => h (.inl hctx)

theorem moves_finalCheck_late (token : Token) (guid : Guid) (self : ClientInfo) (p : ℕ) :
    m.Moves cap t (.finalCheck token guid self p) .late
      (m.finalCheck t token guid self p true) := by
  unfold Manager.finalCheck
  rw [if_pos (.inr rfl)]
  exact .giveUp token guid self p .late (.inr rfl)

theorem moves_install (job : Job) (p : ℕ) :
    m.Moves cap t (.install job p) .go (m.install t job p) := by
  cases job with
  | connect token guid self => exact .installConnect token guid self p
  | reconnect token =>
    simp only [install]
    split
    · next hother => exact .endedMeanwhile token p hother
    · next hsame => exact .installReconnect token p (not_not.1 hsame)
  | resync gen token =>
    simp only [install]
    split
    · next hmoot => exact .installMoot gen token p hmoot
    · next hcur => exact .installResync gen token p hcur

theorem moves_release {job : Job} {p stamp : ℕ} {mv : Move} (h : m.release job p stamp = some mv) :
    m.Moves cap t (.release job p stamp) .go mv := by
  unfold Manager.release at h
  split at h
  · cases h
  · next q hq =>
    split at h
    · cases h
    · next hfree =>
      split at h
      · next hreleased =>
        cases h
        exact .releasedBefore job p stamp q hq hfree hreleased
      · next hheld =>
        cases h
        exact .release job p stamp q hq hfree hheld

theorem moves_publishConnected (job : Job) (stamp : ℕ) :
    m.Moves cap t (.publishConnected job stamp) .go (m.publishConnected job stamp) := by
  cases job with
  | connect token guid self => exact .connected token guid self stamp
  | reconnect token => exact .reconnected token stamp
  | resync gen token => exact .resynced gen token stamp

/-- An attempt that fails in time, and is not cancelled, fails for its cause. -/
theorem moves_attemptError_go (k : Kind) (token : Token) (cause : ConnectError) (dialled : Bool)
    (v : Verdict) : m.Moves cap t (.attemptError k token cause dialled v) .go
      (m.attemptError t k token cause v false) := by
  unfold Manager.attemptError
  by_cases hctx : t ∈ m.cancelled
  · simp only [if_pos hctx]
    split
    · next hk =>
      obtain ⟨rfl, htoken⟩ := hk
      exact .cancelledGoodbye token cause dialled v .go (.inl rfl) hctx htoken
    · next hk => exact .cancelled k token cause dialled v .go (.inl rfl) hctx hk
  · simp only [if_neg hctx, Bool.false_eq_true, if_false]
    split
    · exact .refused token cause dialled _ hctx
    · next hv =>
      exact .attemptError k token cause dialled v hctx fun reason hk he => hv reason hk he

theorem moves_attemptError_late (k : Kind) (token : Token) (cause : ConnectError) (v : Verdict) :
    m.Moves cap t (.attemptError k token cause true v) .late
      (m.attemptError t k token cause v true) := by
  unfold Manager.attemptError
  by_cases hctx : t ∈ m.cancelled
  · simp only [if_pos hctx]
    split
    · next hk =>
      obtain ⟨rfl, htoken⟩ := hk
      exact .cancelledGoodbye token cause true v .late (.inr ⟨rfl, rfl⟩) hctx htoken
    · next hk => exact .cancelled k token cause true v .late (.inr ⟨rfl, rfl⟩) hctx hk
  · simp only [if_neg hctx, if_true]
    split
    · next hk =>
      obtain ⟨rfl, htoken⟩ := hk
      exact .lateGoodbye token cause v hctx htoken
    · next hk => exact .late k token cause v hctx hk

theorem moves_endSession (reason : String) (still : Option Token) (about : Token) (k : After) :
    m.Moves cap t (.endSession reason still about k) .go (m.endSession reason still about k) := by
  unfold Manager.endSession
  split
  · next hmoot =>
    cases k with
    | exit => exact .endMoot reason still about hmoot
    | reconnect why => exact .reconnectMoot reason still about why hmoot
  · next hno =>
    rw [not_or] at hno
    refine .endSession reason still about k hno.1 fun token ht => ?_
    exact not_not.1 fun hne => hno.2 ⟨token, ht, hne⟩

theorem moves_publishEnded (td : Teardown) :
    m.Moves cap t (.publishEnded td) .go (m.publishEnded td) := by
  unfold Manager.publishEnded
  split
  · next hk => exact .publishDisconnect td hk
  · next k hk => exact .publishEnded td k hk

theorem moves_reportEnded (td : Teardown) :
    m.Moves cap t (.sessionEnded td) .go (m.reportEnded td) := by
  unfold Manager.reportEnded
  split
  · next hk => exact .sessionEnded td (.inl hk)
  · next k hk =>
    cases k with
    | exit => exact .sessionEnded td (.inr hk)
    | reconnect why => exact .reconnectEnded td why hk

theorem moves_cancelCall (b : Option ℕ) (seq : ℕ) (k : Canceller) :
    m.Moves cap t (.cancelCall b seq k) .go (m.cancelCall b seq k) := by
  cases k with
  | caller => exact .cancelReturns b seq
  | disconnect => exact .cancelDisconnect b seq

theorem moves_controlLost (gen : ℕ) :
    m.Moves cap t (.controlLost gen) .go (m.controlLost gen) := by
  unfold Manager.controlLost
  split
  · next hlive => exact .lostMoot gen (.inl hlive)
  · next l hlive =>
    split
    · next hgen => exact .lostMoot gen (.inr hgen)
    · next hgen => exact .controlLost gen l hlive (not_not.1 hgen)

theorem moves_unaryCall : m.Moves cap t .unaryCall .go m.unaryCall := by
  unfold Manager.unaryCall
  split
  · next hlive => exact .unaryOffline hlive
  · next l hlive => exact .unaryCall l hlive

theorem moves_checkSessionEnded (token about : Token) (err : Option Status) :
    m.Moves cap t (.unaryAnswer token about) (.fail err) (m.checkSessionEnded token about err) := by
  unfold Manager.checkSessionEnded
  split
  · next reason hv => exact .unaryEnded token about err reason hv
  · next hv => exact .unaryFails token about err hv

theorem onStream_eq_some {f : Stream → Option Move} {mv : Move} (h : m.onStream t f = some mv) :
    ∃ q, m.streams.lookup t = some q ∧ f q = some mv := by
  unfold Manager.onStream at h
  split at h
  · cases h
  · next q hq => exact ⟨q, hq, h⟩

theorem receive_ne_stop {h : Control.Held} {upd : ServerUpdate} {err : Option Status} :
    h.receive upd ≠ .stop err := by
  unfold Held.receive
  split
  · nofun
  · split <;> nofun

theorem moves_received {q : Stream} {upd : ServerUpdate} {mv : Move}
    (hq : m.streams.lookup t = some q) (h : m.received t q upd = some mv) :
    m.Moves cap t (.received upd) .go mv := by
  unfold Manager.received at h
  split at h
  · cases h
  · split at h
    · next held hhold =>
      cases h
      exact .holdUpdate upd q held hq hhold
    · next err hfull =>
      cases h
      exact .overflow upd q err hq hfull
    · next hroute =>
      cases h
      exact .received upd q hq hroute
    · next hstop => exact absurd hstop receive_ne_stop

theorem moves_recvEnd {q : Stream} {err : Option Status} {mv : Move}
    (hq : m.streams.lookup t = some q) (h : m.recvEnd q err = some mv) :
    m.Moves cap t (.recvEnd err) .go mv := by
  unfold Manager.recvEnd at h
  split at h
  · cases h
  · split at h
    · next err' hwait =>
      cases h
      exact .endHeld err err' q hq hwait
    · next err' hstop =>
      cases h
      exact .recvEnd err err' q hq hstop
    · cases h

theorem moves_select {q : Stream} (err : Option Status) (hq : m.streams.lookup t = some q) :
    m.Moves cap t (.select err) .go (m.select q err) := by
  unfold Manager.select
  split
  · next hgen => exact .neverInstalled err q hq hgen
  · next gen hgen => exact .select gen err q hq hgen

theorem moves_streamEnd {q : Stream} (gen : ℕ) (err : Option Status)
    (hq : m.streams.lookup t = some q) :
    m.Moves cap t (.streamEnd gen err) .go (m.streamEnd q gen err) := by
  unfold Manager.streamEnd
  split
  · next hctx => exact .streamClosed gen err q hq hctx
  · next hctx => exact .streamEnd gen err q hq hctx

theorem moves_streamCurrent {q : Stream} (gen : ℕ) (err : Option Status)
    (hq : m.streams.lookup t = some q) :
    m.Moves cap t (.streamCurrent gen err) .go (m.streamCurrent q gen err) := by
  unfold Manager.streamCurrent
  split
  · next hgen => exact .streamStale gen err q hq hgen
  · next hgen =>
    split
    · next reason hv => exact .streamEnded gen err q reason hq (not_not.1 hgen) hv
    · next hv => exact .streamLost gen err q hq (not_not.1 hgen) (.inl hv)
    · next hv => exact .streamLost gen err q hq (not_not.1 hgen) (.inr hv)
    · next hv => exact .streamResync gen err q hq (not_not.1 hgen) hv

theorem moves_resync (gen : ℕ) : m.Moves cap t (.resync gen) .go (m.resync gen) := by
  unfold Manager.resync
  split
  · next hlive => exact .resyncStale gen (.inl hlive)
  · next l hlive =>
    split
    · next hgen => exact .resyncStale gen (.inr hgen)
    · next hgen => exact .resync gen l hlive (not_not.1 hgen)

theorem moves_resyncFailed {q : Stream} (gen : ℕ) (token : Token) (err : Option Status)
    (hq : m.streams.lookup t = some q) :
    m.Moves cap t (.resyncFailed gen token err) .go (m.resyncFailed q gen token err) := by
  unfold Manager.resyncFailed
  split
  · next hctx => exact .resyncClosed gen token err q hq hctx
  · next hctx =>
    split
    · next reason hv => exact .resyncEnded gen token err q reason hq hctx hv
    · next hv => exact .resyncLost gen token err q hq hctx hv

/-! ## The step -/

/-- **A step is a move.** -/
theorem advance_moves {pc : Pc} {a : Answer} {mv : Move} (h : m.advance cap t pc a = some mv) :
    m.Moves cap t pc a mv := by
  -- an answer that does not belong to the call leaves no move
  induction pc
  case hydrate job p rest hadSecret => exact moves_hydrate h
  all_goals induction a <;> try exact no_move h
  all_goals try obtain rfl := Option.some.inj h
  -- Connect and Reconnect
  case queueAttempt.go k => exact .queueAttempt k
  case lockLife.go k ticket =>
    obtain ⟨hfree, rfl⟩ := of_ite_some h
    exact .lockLife k ticket hfree
  case beginAttempt.go k ticket => exact .beginAttempt k ticket
  case announce.go k =>
    cases k with
    | connect => exact .announceConnect
    | reconnect => exact .announceReconnect
  case teardownLive.go => exact moves_teardownLive
  case teardownClose.go owner => exact .teardownClose owner
  case forget.go => exact .forget
  case dialerFor.go => exact .dialerFor
  case dialerFor.fail err => exact .badAddress err
  case lastSession.go => exact moves_lastSession
  case dialConnect.go => exact .dialConnect
  case dialConnect.fail err => exact .dialConnectFails err
  case dialReconnect.go token => exact .dialReconnect token
  case dialReconnect.fail token err => exact .dialReconnectFails token err
  case initAuth.noGuest =>
    obtain ⟨hctx, rfl⟩ := of_ite_none h
    exact .noGuest hctx
  case initAuth.guid guid =>
    obtain ⟨hctx, rfl⟩ := of_ite_none h
    exact .initAuth guid hctx
  case initAuth.fail err => exact .initAuthFails err
  case guestLogin.login guid token self =>
    obtain ⟨hctx, rfl⟩ := of_ite_none h
    exact .guestLogin guid token self hctx
  case guestLogin.fail guid err => exact .guestLoginFails guid err
  case subscribe.go job => exact moves_subscribe h
  case subscribe.fail job err => exact moves_subscribeFailed job err
  case stillCurrent.go gen token p =>
    change (if gen ≠ m.streamGen ∨ m.live = none then some ⟨m.abandon p, none, false⟩
      else some ⟨m, some (.syncClient (.resync gen token) p), false⟩) = some mv at h
    split at h
    · next hmoot =>
      cases h
      exact .resyncMoot gen token p hmoot
    · next hcur =>
      cases h
      exact .stillCurrent gen token p hcur
  case syncClient.data job p data =>
    obtain ⟨hctx, rfl⟩ := of_ite_none h
    exact .syncClient job p data hctx
  case syncClient.fail job p err => exact moves_syncFailed job p err
  case finalCheck.go token guid self p => exact moves_finalCheck token guid self p
  case finalCheck.late token guid self p => exact moves_finalCheck_late token guid self p
  case setSelf.go token guid self p => exact .setSelf token guid self p
  case install.go job p => exact moves_install job p
  case release.go job p stamp => exact moves_release h
  case replay.go job p rest stamp =>
    cases rest with
    | nil => exact .openHold job p stamp
    | cons upd rest => exact .replay job p upd rest stamp
  case publishConnected.go job stamp => exact moves_publishConnected job stamp
  case attemptError.go k token cause dialled v =>
    exact moves_attemptError_go k token cause dialled v
  case attemptError.late k token cause dialled v =>
    obtain ⟨rfl, rfl⟩ := of_ite_some h
    exact moves_attemptError_late k token cause v
  case goodbye.go r => exact .goodbye r
  case publishFailed.go r => exact .publishFailed r
  case endAttempt.go r => exact .endAttempt r
  case unlockLife.go r => exact .unlockLife r
  -- endSession, Disconnect and CancelConnect
  case endSession.go reason still about k => exact moves_endSession reason still about k
  case closeEnded.go owner td => exact .closeEnded owner td
  case resetRoster.go td => exact .resetRoster td
  case clearVoice.go td => exact .clearVoice td
  case clearSelf.go td => exact .clearSelf td
  case publishEnded.go td => exact moves_publishEnded td
  case sessionEnded.go td => exact moves_reportEnded td
  case lockDisconnect.go =>
    obtain ⟨hfree, rfl⟩ := of_ite_some h
    exact .lockDisconnect hfree
  case disconnect.go => exact .disconnect
  case unlockDisconnect.go td => exact .unlockDisconnect td
  case cancelConnect.go k => exact .cancelConnect k
  case cancelCall.go b seq k => exact moves_cancelCall b seq k
  -- control loss and unary calls
  case markControlLost.go => exact .markControlLost
  case controlLost.go gen => exact moves_controlLost gen
  case closeLost.go owner stamp => exact .closeLost owner stamp
  case publishLost.go stamp => exact .publishLost stamp
  case unaryCall.go => exact moves_unaryCall
  case unaryAnswer.go token about => exact .unaryAnswer token about
  case unaryAnswer.fail token about err => exact moves_checkSessionEnded token about err
  -- the goroutine of an update stream
  case recv.update upd => exact .recv upd
  case recv.fail err => exact .recvFails err
  case received.go upd =>
    obtain ⟨q, hq, h⟩ := onStream_eq_some h
    exact moves_received hq h
  case recvEnd.go err =>
    obtain ⟨q, hq, h⟩ := onStream_eq_some h
    exact moves_recvEnd hq h
  case route.go upd => exact .route upd
  case waitRelease.go err =>
    obtain ⟨q, hq, h⟩ := onStream_eq_some h
    obtain ⟨hreleased, rfl⟩ := of_ite_some h
    exact .waitRelease err q hq hreleased
  case waitRelease.fail err err' =>
    obtain ⟨q, hq, h⟩ := onStream_eq_some h
    obtain ⟨hdone, rfl⟩ := of_ite_some h
    exact .waitDone err err' q hq hdone
  case select.go err =>
    obtain ⟨q, hq, h⟩ := onStream_eq_some h
    cases h
    exact moves_select err hq
  case streamEnd.go gen err =>
    obtain ⟨q, hq, h⟩ := onStream_eq_some h
    cases h
    exact moves_streamEnd gen err hq
  case streamCurrent.go gen err =>
    obtain ⟨q, hq, h⟩ := onStream_eq_some h
    cases h
    exact moves_streamCurrent gen err hq
  case resync.go gen => exact moves_resync gen
  case resyncFailed.go gen token err =>
    obtain ⟨q, hq, h⟩ := onStream_eq_some h
    cases h
    exact moves_resyncFailed gen token err hq

end VcsClient.Session.Manager
