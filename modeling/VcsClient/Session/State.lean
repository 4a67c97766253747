import VcsClient.Control.Held
import VcsClient.Lib.Text

/-!
# The session manager's state and its goroutines

What `Session` guards with `mu`, the update streams it has opened, the contexts
that were cancelled, and where each goroutine stands. `conn`, `control` and
`cancel` are set and cleared together, so they are one value here. A connection
and its stream context carry the number of the attempt that dialled it, an
update stream the number of the goroutine that consumes it.

The last groups of fields are ghosts.

What a failed call means for the session is the verdict of `classifyRPCError`: it
depends on the status code only; the message gives the reason that is shown.
-/

namespace VcsClient.Session

open VcsClient.Control VcsClient.Lib VcsClient.State

/-! ## Errors -/

/-- What an RPC failure means for the session. -/
inductive Verdict where
  | ordinary
  | sessionEnded (reason : String)
  | superseded
  | resync
  deriving DecidableEq

/-- `sessionEndedPrefix`. -/
def sessionEndedPrefix : List Char := "session ended: ".toList

/-- What follows the first occurrence of `pat`. -/
def afterFirst (pat : List Char) : List Char → Option (List Char)
  | [] => if pat = [] then some [] else none
  | c :: cs => if pat.isPrefixOf (c :: cs) then some ((c :: cs).drop pat.length) else afterFirst pat cs

/-- The reason in a message of the server, `expired` when it has none. -/
def endReason (message : String) : String :=
  match afterFirst sessionEndedPrefix message.toList with
  | none => "expired"
  | some rest => if trimSpace rest ≠ [] then String.ofList (trimSpace rest) else "expired"

/-- `classifyRPCError`. -/
def classifyRPCError : Option Status → Verdict
  | none => .ordinary
  | some err =>
    match err.code with
    | .unauthenticated | .permissionDenied => .sessionEnded (endReason err.message)
    | .aborted => .superseded
    | .resourceExhausted => .resync
    | _ => .ordinary

/-- What `Connect` and `Reconnect` return for a failed attempt. -/
inductive ConnectError where
  /-- `ErrConnectCancelled` -/
  | cancelled
  /-- `serverNotRespondingError` -/
  | notResponding
  /-- `sessionEndedError` -/
  | sessionEnded (reason : String)
  | address
  | dial (err : Option Status)
  | guestUnavailable
  | rpc (err : Option Status)
  | subscribe (err : Option Status)
  | neverConnected
  deriving DecidableEq

/-! ## The state -/

abbrev Token := String

/-- `events.ConnectionState`. -/
inductive ConnState where
  | reconnecting
  | connected
  | disconnected
  deriving DecidableEq

/-- `conn`, `control` and `cancel` of a session: the attempt that dialled it
and the token of its control client. -/
structure Live where
  owner : ℕ
  token : Token
  deriving DecidableEq

/-- `pendingStream`, and the stream context and the token it was opened with. -/
structure Stream where
  owner : ℕ
  token : Token
  held : Held
  /-- a `Release` is replaying -/
  replaying : Bool
  /-- the generation `install` handed over -/
  gen : Option ℕ
  abandoned : Bool

/-- The two methods that make a connection attempt. -/
inductive Kind where
  | connect
  | reconnect
  deriving DecidableEq

/-- Who opens a held stream: an attempt, with the token of its session, or the
resync of a generation. `Connect` carries the identity it will record. -/
inductive Job where
  | connect (token : Token) (guid : Guid) (self : ClientInfo)
  | reconnect (token : Token)
  | resync (gen : ℕ) (token : Token)
  deriving DecidableEq

def Job.token : Job → Token
  | .connect token _ _ | .reconnect token | .resync _ token => token

/-- Who runs `CancelConnect`. -/
inductive Canceller where
  | caller
  | disconnect
  deriving DecidableEq

/-- Who runs `endSession`, and what follows it. -/
inductive After where
  | exit
  | reconnect (reason : String)
  deriving DecidableEq

/-- A session that is being torn down: whose verdict it was, and the place of its
section among the installs and teardowns and among the logins (ghosts). `none`
for `k` is `Disconnect`. -/
structure Teardown where
  reason : String
  k : Option After
  about : Token
  stamp : ℕ
  logins : ℕ
  deriving DecidableEq

/-- Where a goroutine stands: what it does next. -/
inductive Pc where
  -- Connect and Reconnect
  | queueAttempt (k : Kind)
  | lockLife (k : Kind) (ticket : ℕ)
  | beginAttempt (k : Kind) (ticket : ℕ)
  | announce (k : Kind)
  | teardownLive
  | teardownClose (owner : ℕ)
  | forget
  | dialerFor
  | lastSession
  | dialConnect
  | dialReconnect (token : Token)
  | initAuth
  | guestLogin (guid : Guid)
  | subscribe (job : Job)
  | stillCurrent (gen : ℕ) (token : Token) (p : ℕ)
  | syncClient (job : Job) (p : ℕ)
  | hydrate (job : Job) (p : ℕ) (rest : List Hydration) (hadSecret : Bool)
  | finalCheck (token : Token) (guid : Guid) (self : ClientInfo) (p : ℕ)
  | setSelf (token : Token) (guid : Guid) (self : ClientInfo) (p : ℕ)
  | install (job : Job) (p : ℕ)
  | release (job : Job) (p : ℕ) (stamp : ℕ)
  | replay (job : Job) (p : ℕ) (rest : List ServerUpdate) (stamp : ℕ)
  | publishConnected (job : Job) (stamp : ℕ)
  | attemptError (k : Kind) (token : Token) (cause : ConnectError) (dialled : Bool) (v : Verdict)
  | goodbye (r : ConnectError)
  | publishFailed (r : ConnectError)
  | endAttempt (r : Option ConnectError)
  | unlockLife (r : Option ConnectError)
  -- endSession and Disconnect
  | endSession (reason : String) (still : Option Token) (about : Token) (k : After)
  | closeEnded (owner : Option ℕ) (td : Teardown)
  | resetRoster (td : Teardown)
  | clearVoice (td : Teardown)
  | clearSelf (td : Teardown)
  | publishEnded (td : Teardown)
  | sessionEnded (td : Teardown)
  | lockDisconnect
  | disconnect
  | unlockDisconnect (td : Teardown)
  -- CancelConnect
  | cancelConnect (k : Canceller)
  | cancelCall (a : Option ℕ) (seq : ℕ) (k : Canceller)
  -- control loss and unary calls
  | markControlLost
  | controlLost (gen : ℕ)
  | closeLost (owner : ℕ) (stamp : ℕ)
  | publishLost (stamp : ℕ)
  | unaryCall
  | unaryAnswer (token : Token) (about : Token)
  -- the goroutine of an update stream
  | recv
  | received (upd : ServerUpdate)
  | recvEnd (err : Option Status)
  | route (upd : ServerUpdate)
  | waitRelease (err : Option Status)
  | select (err : Option Status)
  | streamEnd (gen : ℕ) (err : Option Status)
  | streamCurrent (gen : ℕ) (err : Option Status)
  | resync (gen : ℕ)
  | resyncFailed (gen : ℕ) (token : Token) (err : Option Status)

/-- What a goroutine is answered by the call it makes; `go` where it makes
none, or where the call succeeds with nothing to say. -/
inductive Answer where
  | go
  /-- `InitAuth`: the server has no guest login. -/
  | noGuest
  | guid (guid : Guid)
  /-- `GuestLogin`: the token, and the identity with the name and unit of the
  call and the coalition of the server. -/
  | login (token : Token) (self : ClientInfo)
  | data (data : SyncData)
  | update (upd : ServerUpdate)
  | fail (err : Option Status)
  /-- The post-dial bound has passed. -/
  | late

inductive Call where
  | connect
  | reconnect
  | disconnect
  | cancelConnect
  | markControlLost
  | unary
  deriving DecidableEq

/-- An attempt as its caller sees it (ghost). -/
structure Attempt where
  ticket : ℕ
  /-- a `CancelConnect` took its number while the attempt was under way -/
  touched : Bool
  /-- a `CancelConnect` that took its number after the attempt was queued
  returned before the attempt had installed or returned -/
  covered : Bool
  installed : Bool
  result : Option (Option ConnectError)
  deriving DecidableEq

/-- The attempt is under way and has not installed. -/
def Attempt.Open (x : Attempt) : Prop := x.installed = false ∧ x.result = none

instance (x : Attempt) : Decidable x.Open := inferInstanceAs (Decidable (_ ∧ _))

/-- An entry of the store's history (ghost). -/
inductive Entry where
  /-- the snapshot of a stream is applied -/
  | snapshot (p : ℕ)
  /-- an update of a stream is routed -/
  | update (p : ℕ)
  deriving DecidableEq

/-- The fields of a `Session`, and what its goroutines share. -/
structure Manager where
  live : Option Live
  /-- a `lastDialer` is kept -/
  lastDialer : Bool
  lastToken : Token
  attemptCancel : Option ℕ
  cancelSeq : ℕ
  streamGen : ℕ
  /-- who holds `lifeMu` -/
  lifeMu : Option ℕ
  store : Store
  streams : AList fun _ : ℕ => Stream
  /-- the attempts whose context is cancelled -/
  cancelled : List ℕ
  /-- the attempts whose stream context is cancelled -/
  ctxDone : List ℕ
  /-- the last publication of the control state -/
  published : Option ConnState
  /-- the next goroutine's number -/
  next : ℕ
  /-- ghost: the installs and teardowns so far -/
  clock : ℕ
  /-- ghost: `clock` when the newest section that was published ran -/
  shown : ℕ
  /-- ghost: the verdicts that tore a session down or were reported with one in
  place, and which session it was -/
  ended : List (Token × Token)
  /-- ghost: how many `Connect`s have forgotten the session before them -/
  logins : ℕ
  /-- ghost: a `Disconnect` or `endSession` returned and no `Connect` has forgotten
  a session since -/
  down : Bool
  /-- ghost: the generation installed last -/
  installedGen : ℕ
  /-- ghost: the snapshots and updates applied to the store, oldest first -/
  log : List Entry
  /-- ghost: the attempts -/
  attempts : AList fun _ : ℕ => Attempt

namespace Manager

def init : Manager where
  live := none
  lastDialer := false
  lastToken := ""
  attemptCancel := none
  cancelSeq := 0
  streamGen := 0
  lifeMu := none
  store := Store.new
  streams := ∅
  cancelled := []
  ctxDone := []
  published := none
  next := 0
  clock := 0
  shown := 0
  ended := []
  logins := 0
  down := false
  installedGen := 0
  log := []
  attempts := ∅

end Manager

end VcsClient.Session
