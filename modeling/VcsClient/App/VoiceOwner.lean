import VcsClient.Lib.Assoc
import VcsClient.Lib.Machine
import VcsClient.State.Store
import VcsClient.Voice.Lifecycle

/-!
# Who owns the voice session

Starts, redirects, restarts and teardowns in `internal/app/voice.go`, each on a
goroutine of its own, step by step: a section under `voice.mu`, one read of the
store or of the settings, one store into the bridge and one `Close` are a step
each. Beside them run the delivery loops of the sessions that were dialled,
which report to the connection-health monitor.

A session is what `App` sees of it: the inputs it was dialled with and the
states it queues for delivery. `uuid.Parse` is a parameter. The transmit targets,
the receive context and the round trip in the monitor are left out.
-/

namespace VcsClient.App

open VcsClient.Lib VcsClient.State VcsClient.Voice

def voiceSecretLen : ℕ := 43

/-- `voice.Sources`. -/
structure Sources where
  update : String
  sync : String
  configHost : String
  configPort : ℤ
  serverURL : String
  deriving DecidableEq

/-- What a dial reads of the configuration. -/
structure DialConfig where
  host : String
  port : ℤ
  serverURL : String

/-- What `voiceDialInputs` gathers. -/
structure DialInputs where
  self : UUID
  secret : String
  src : Sources
  deriving DecidableEq

/-- The inputs hold the secret and the address the store holds. -/
def DialInputs.Current (inputs : DialInputs) (st : Store) : Prop :=
  inputs.secret = st.voiceSecret ∧ inputs.src.update = st.coalitionVoiceAddr ∧
    inputs.src.sync = st.coalitionVoiceAddr

instance (inputs : DialInputs) (st : Store) : Decidable (inputs.Current st) :=
  inferInstanceAs (Decidable (_ ∧ _ ∧ _))

/-- A session and its delivery queue. -/
structure Dialled where
  inputs : DialInputs
  /-- `Dial` has returned it -/
  running : Bool
  state : SessionState
  cbFinal : Bool
  cbQueue : List StateChange
  /-- The last state delivered; no code reads it. -/
  last : Option StateChange

namespace Dialled

def setState (s : Dialled) (st : SessionState) (err : Option Cause) : Dialled :=
  if s.cbFinal then s
  else
    { s with
      state := st
      cbFinal := decide (st = .closed)
      cbQueue := s.cbQueue ++ [⟨st, err⟩] }

/-- The session `Dial` makes, up to `openSocket`. -/
def dial (inputs : DialInputs) : Dialled where
  inputs := inputs
  running := false
  state := .resolving
  cbFinal := false
  cbQueue := [⟨.resolving, none⟩]
  last := none

end Dialled

inductive HealthState where
  | unavailable
  | voice (st : SessionState)
  deriving DecidableEq

/-- `connhealth.Link` of the voice plane. -/
structure Link where
  state : HealthState
  healthy : Bool
  available : Bool
  error : Option Cause
  deriving DecidableEq

def setVoiceState (state : HealthState) (err : Option Cause) (available : Bool) : Link :=
  let state := if available then state else .unavailable
  ⟨state, available && decide (state = .voice .connected), available, err⟩

def reportVoiceState (st : SessionState) (err : Option Cause) : Link :=
  setVoiceState (.voice st) err true

def reportVoiceUnavailable : Link := setVoiceState .unavailable none false

/-- `OnState` in `voiceDialOptions`. -/
def onState (change : StateChange) : Link :=
  if change.st = .closed then reportVoiceUnavailable else reportVoiceState change.st change.err

/-- A change of the voice credentials in the store. -/
inductive VoiceChange where
  | setVoiceCredentials (secret coalitionAddr globalAddr : String)
  | setVoiceAddresses (coalitionAddr globalAddr : String)
  | resetSession

def VoiceChange.apply (st : Store) : VoiceChange → Store
  | .setVoiceCredentials secret coalitionAddr globalAddr =>
    st.setVoiceCredentials secret coalitionAddr globalAddr
  | .setVoiceAddresses coalitionAddr globalAddr => st.setVoiceAddresses coalitionAddr globalAddr
  | .resetSession => st.clearVoice

/-- What follows `setVoiceSession`. -/
inductive AfterSet where
  | installed
  /-- in `stopVoiceSession`; `ReconnectVoice` starts again -/
  | stopped (restart : Bool)

inductive Task where
  /-- in `handleVoiceRedirect`, before its look at the session -/
  | live
  /-- before `nextVoiceGeneration`; a redirect saw a session after the given
  teardown -/
  | capture (seen : Option ℕ)
  /-- in `voiceDialInputs` -/
  | inputs (gen : ℕ)
  | self (gen : ℕ) (secret coalitionAddr : String)
  | config (gen : ℕ) (secret coalitionAddr : String) (self : UUID)
  /-- before `voice.Dial` -/
  | dial (gen : ℕ) (inputs : DialInputs)
  /-- in `openSocket` -/
  | dialing (gen : ℕ) (sid : ℕ)
  /-- before the section of `voiceSessionSwap` -/
  | swap (gen : ℕ) (sid : ℕ)
  | clear (restart : Bool)
  /-- before `Close` of a session not installed -/
  | reject (sid : ℕ)
  /-- before the store into the bridge of the `n`-th swap -/
  | store (sess : Option ℕ) (n : ℕ) (old : Option ℕ) (after : AfterSet)
  | close (old : Option ℕ) (after : AfterSet)
  /-- before `reportVoiceUnavailable` -/
  | unavailable (restart : Bool)

def AfterSet.task : AfterSet → Option Task
  | .installed => none
  | .stopped restart => some (.unavailable restart)

/-- The generation the goroutine dials for. -/
def Task.gen : Task → Option ℕ
  | .inputs gen | .self gen _ _ | .config gen _ _ _ | .dial gen _ | .dialing gen _
  | .swap gen _ => some gen
  | _ => none

structure Owner where
  st : Store
  config : DialConfig
  sess : Option ℕ
  gen : ℕ
  bridge : Option ℕ
  monitor : Link
  sessions : ℕ → Dialled
  tasks : AList fun _ : ℕ => Task
  /-- The sessions dialled, the dials that failed and the calls of `Close`. -/
  opened : ℕ
  failed : List ℕ
  closes : List ℕ
  /-- The teardowns; a start has taken its generation since the last. -/
  epoch : ℕ
  requested : Bool
  /-- The swaps; the last one stored into the bridge, the sessions they replaced. -/
  swaps : ℕ
  stored : ℕ
  replaced : List ℕ
  /-- A replaced session reported over a state its successor had reported. -/
  overwrites : List (ℕ × ℕ)

inductive OwnerOp where
  | start (id : ℕ)
  /-- `ReconnectVoice` -/
  | restart (id : ℕ)
  /-- `stopVoiceSession` -/
  | stop (id : ℕ)
  /-- The credentials change, and the observer runs on that goroutine. -/
  | change (id : ℕ) (change : VoiceChange)
  /-- `SetSelf`, `ClearSelf` -/
  | self (self : Option (Guid × ClientInfo))
  | configure (config : DialConfig)
  /-- A goroutine goes on; `openSocket` fails with the given cause. -/
  | run (id : ℕ) (err : Option Cause)
  /-- A session changes its state. -/
  | commit (sid : ℕ) (st : SessionState) (err : Option Cause)
  /-- Its `deliverLoop` calls `OnState`. -/
  | deliver (sid : ℕ)

namespace Owner

def init (st : Store) (config : DialConfig) : Owner where
  st := st
  config := config
  sess := none
  gen := 0
  bridge := none
  monitor := reportVoiceUnavailable
  sessions := fun _ => .dial ⟨.nil, "", "", "", "", 0, ""⟩
  tasks := ∅
  opened := 0
  failed := []
  closes := []
  epoch := 0
  requested := false
  swaps := 0
  stored := 0
  replaced := []
  overwrites := []

def goto (p : Owner) (id : ℕ) (t : Option Task) : Owner :=
  { p with tasks := assign p.tasks id t }

def spawn (p : Owner) (id : ℕ) (t : Task) : Option Owner :=
  if id ∈ p.tasks then none else some (p.goto id t)

/-- `setState` of a session. -/
def commit (p : Owner) (sid : ℕ) (st : SessionState) (err : Option Cause) : Owner :=
  { p with sessions := Function.update p.sessions sid ((p.sessions sid).setState st err) }

/-- `Close` of a session: the last thing it does is to commit Closed. -/
def close (p : Owner) (sid : ℕ) : Owner :=
  { p.commit sid .closed none with closes := p.closes ++ [sid] }

/-- The locked part of `voiceSessionSwap` that installs. -/
def install (p : Owner) (sess : Option ℕ) : Owner :=
  { p with sess := sess, swaps := p.swaps + 1, replaced := p.replaced ++ p.sess.toList }

variable (parse : Guid → Option UUID)

/-- The goroutine `id` goes on from `t`. -/
def runTask (p : Owner) (id : ℕ) (err : Option Cause) : Task → Owner
  | .live =>
    match p.sess with
    | none => p.goto id none
    | some _ => p.goto id (some (.capture (some p.epoch)))
  | .capture seen =>
    { p.goto id (some (.inputs (p.gen + 1))) with
      gen := p.gen + 1
      requested := p.requested || seen.isNone }
  | .inputs gen =>
    if p.st.voiceSecret = "" then p.goto id (some (.unavailable false))
    else p.goto id (some (.self gen p.st.voiceSecret p.st.coalitionVoiceAddr))
  | .self gen secret coalitionAddr =>
    match parse p.st.selfGuid with
    | none => p.goto id (some (.unavailable false))
    | some self => p.goto id (some (.config gen secret coalitionAddr self))
  | .config gen secret coalitionAddr self =>
    p.goto id (some (.dial gen ⟨self, secret, coalitionAddr, coalitionAddr,
      p.config.host, p.config.port, p.config.serverURL⟩))
  | .dial gen inputs =>
    if inputs.secret.utf8ByteSize = voiceSecretLen then
      { p.goto id (some (.dialing gen p.opened)) with
        sessions := Function.update p.sessions p.opened (.dial inputs)
        opened := p.opened + 1 }
    else p.goto id none
  | .dialing gen sid =>
    match err with
    | none =>
      { p.goto id (some (.swap gen sid)) with
        sessions := Function.update p.sessions sid { p.sessions sid with running := true } }
    | some err => { (p.commit sid .closed err).goto id none with failed := p.failed ++ [sid] }
  | .swap gen sid =>
    if gen = p.gen then
      (p.install (some sid)).goto id (some (.store (some sid) (p.swaps + 1) p.sess .installed))
    else p.goto id (some (.reject sid))
  | .clear restart =>
    { (p.install none).goto id (some (.store none (p.swaps + 1) p.sess (.stopped restart))) with
      gen := p.gen + 1
      epoch := p.epoch + 1
      requested := false }
  | .reject sid => (p.close sid).goto id none
  | .store sess n old after =>
    { p.goto id (some (.close old after)) with bridge := sess, stored := n }
  | .close none after => p.goto id after.task
  | .close (some old) after => (p.close old).goto id after.task
  | .unavailable restart =>
    { p.goto id (if restart then some (.capture none) else none) with
      monitor := reportVoiceUnavailable }

/-- The successor has reported a state, which a report of `sid` overwrites. -/
def overwritten (p : Owner) (sid : ℕ) : List (ℕ × ℕ) :=
  match p.sess with
  | none => []
  | some sess =>
    if sid ∈ p.replaced ∧ sess ≠ sid ∧ (p.sessions sess).last.isSome then [(sid, sess)] else []

def step (p : Owner) : OwnerOp → Option Owner
  | .start id => p.spawn id (.capture none)
  | .restart id => p.spawn id (.clear true)
  | .stop id => p.spawn id (.clear false)
  | .change id c => { p with st := c.apply p.st }.spawn id .live
  | .self none => some { p with st := p.st.clearSelf }
  | .self (some (guid, info)) => some { p with st := p.st.setSelf guid info }
  | .configure config => some { p with config := config }
  | .run id err => (p.tasks.lookup id).map (p.runTask parse id err)
  | .commit sid st err =>
    if (p.sessions sid).running = true ∧ st ≠ .closed then some (p.commit sid st err) else none
  | .deliver sid =>
    match (p.sessions sid).cbQueue with
    | [] => none
    | change :: rest =>
      if sid < p.opened then
        some { p with
          sessions := Function.update p.sessions sid
            { p.sessions sid with cbQueue := rest, last := some change }
          monitor := onState change
          overwrites := p.overwrites ++ p.overwritten sid }
      else none

/-! ## What a step can do -/

/-- The goroutine goes from one place to the next, and nothing else changes. -/
inductive Advances (p : Owner) : Task → Option Task → Prop
  | dead (hs : p.sess = none) : Advances p .live none
  | live (hs : p.sess ≠ none) : Advances p .live (some (.capture (some p.epoch)))
  | noSecret {g : ℕ} (hs : p.st.voiceSecret = "") :
    Advances p (.inputs g) (some (.unavailable false))
  | inputs {g : ℕ} :
    Advances p (.inputs g) (some (.self g p.st.voiceSecret p.st.coalitionVoiceAddr))
  | noSelf {g : ℕ} {secret addr : String} (hs : parse p.st.selfGuid = none) :
    Advances p (.self g secret addr) (some (.unavailable false))
  | self {g : ℕ} {secret addr : String} (guid : UUID) :
    Advances p (.self g secret addr) (some (.config g secret addr guid))
  | config {g : ℕ} {secret addr : String} {guid : UUID} :
    Advances p (.config g secret addr guid) (some (.dial g ⟨guid, secret, addr, addr,
      p.config.host, p.config.port, p.config.serverURL⟩))
  | badSecret {g : ℕ} {inputs : DialInputs} (hs : inputs.secret.utf8ByteSize ≠ voiceSecretLen) :
    Advances p (.dial g inputs) none
  | stale {g sid : ℕ} (hg : g ≠ p.gen) : Advances p (.swap g sid) (some (.reject sid))
  | closed {after : AfterSet} : Advances p (.close none after) after.task

/-- A step of the goroutine `id`, which stands at the task. -/
inductive TaskMoves (p : Owner) (id : ℕ) (err : Option Cause) : Task → Owner → Prop
  | advanced {t : Task} {t' : Option Task} (ha : p.Advances parse t t') :
    TaskMoves p id err t { p with tasks := assign p.tasks id t' }
  | captured (seen : Option ℕ) : TaskMoves p id err (.capture seen)
      { p with
        tasks := assign p.tasks id (some (.inputs (p.gen + 1)))
        gen := p.gen + 1
        requested := p.requested || seen.isNone }
  | dialing (gen : ℕ) (inputs : DialInputs) : TaskMoves p id err (.dial gen inputs)
      { p with
        tasks := assign p.tasks id (some (.dialing gen p.opened))
        sessions := Function.update p.sessions p.opened (.dial inputs)
        opened := p.opened + 1 }
  | dialled (gen sid : ℕ) : TaskMoves p id err (.dialing gen sid)
      { p with
        tasks := assign p.tasks id (some (.swap gen sid))
        sessions := Function.update p.sessions sid { p.sessions sid with running := true } }
  | failed (gen sid : ℕ) (cause : Cause) (he : err = some cause) :
    TaskMoves p id err (.dialing gen sid)
      { p with
        tasks := assign p.tasks id none
        sessions := Function.update p.sessions sid ((p.sessions sid).setState .closed cause)
        failed := p.failed ++ [sid] }
  | installed (gen sid : ℕ) (hg : gen = p.gen) : TaskMoves p id err (.swap gen sid)
      { p with
        tasks := assign p.tasks id (some (.store (some sid) (p.swaps + 1) p.sess .installed))
        sess := some sid
        swaps := p.swaps + 1
        replaced := p.replaced ++ p.sess.toList }
  | cleared (restart : Bool) : TaskMoves p id err (.clear restart)
      { p with
        tasks := assign p.tasks id (some (.store none (p.swaps + 1) p.sess (.stopped restart)))
        sess := none
        swaps := p.swaps + 1
        replaced := p.replaced ++ p.sess.toList
        gen := p.gen + 1
        epoch := p.epoch + 1
        requested := false }
  | rejected (sid : ℕ) : TaskMoves p id err (.reject sid)
      { p with
        tasks := assign p.tasks id none
        sessions := Function.update p.sessions sid ((p.sessions sid).setState .closed none)
        closes := p.closes ++ [sid] }
  | stored (sess : Option ℕ) (n : ℕ) (old : Option ℕ) (after : AfterSet) :
    TaskMoves p id err (.store sess n old after)
      { p with
        tasks := assign p.tasks id (some (.close old after))
        bridge := sess
        stored := n }
  | closed (old : ℕ) (after : AfterSet) : TaskMoves p id err (.close (some old) after)
      { p with
        tasks := assign p.tasks id after.task
        sessions := Function.update p.sessions old ((p.sessions old).setState .closed none)
        closes := p.closes ++ [old] }
  | unavailable (restart : Bool) : TaskMoves p id err (.unavailable restart)
      { p with
        tasks := assign p.tasks id (if restart then some (.capture none) else none)
        monitor := reportVoiceUnavailable }

inductive Enters : Task → Prop
  | start : Enters (.capture none)
  | stop (restart : Bool) : Enters (.clear restart)

inductive Moves (p : Owner) : OwnerOp → Owner → Prop
  | entered {op : OwnerOp} {id : ℕ} {t : Task} (hid : p.tasks.lookup id = none) (ht : Enters t) :
    Moves p op { p with tasks := assign p.tasks id (some t) }
  | changed {id : ℕ} {c : VoiceChange} (hid : p.tasks.lookup id = none) (st : Store) :
    Moves p (.change id c) { p with st := st, tasks := assign p.tasks id (some .live) }
  | told {self : Option (Guid × ClientInfo)} (st : Store)
      (hs : st.voiceSecret = p.st.voiceSecret)
      (ha : st.coalitionVoiceAddr = p.st.coalitionVoiceAddr) :
    Moves p (.self self) { p with st := st }
  | configured (config : DialConfig) : Moves p (.configure config) { p with config := config }
  | ran {id : ℕ} {err : Option Cause} {t : Task} {p' : Owner} (ht : p.tasks.lookup id = some t)
      (hm : p.TaskMoves parse id err t p') : Moves p (.run id err) p'
  | committed {sid : ℕ} {st : SessionState} {err : Option Cause}
      (hr : (p.sessions sid).running = true) (hc : st ≠ .closed) :
    Moves p (.commit sid st err)
      { p with sessions := Function.update p.sessions sid ((p.sessions sid).setState st err) }
  | delivered {sid : ℕ} {change : StateChange} {rest : List StateChange}
      (hq : (p.sessions sid).cbQueue = change :: rest) (hsid : sid < p.opened) :
    Moves p (.deliver sid)
      { p with
        sessions := Function.update p.sessions sid
          { p.sessions sid with cbQueue := rest, last := some change }
        monitor := onState change
        overwrites := p.overwrites ++ p.overwritten sid }

variable {parse} {p p' : Owner} {id : ℕ} {op : OwnerOp}

theorem runTask_moves {err : Option Cause} (t : Task) :
    p.TaskMoves parse id err t (p.runTask parse id err t) := by
  cases t with
  | live =>
    simp only [runTask]
    cases hs : p.sess with
    | none => exact .advanced (.dead hs)
    | some sess => exact .advanced (.live (by simp [hs]))
  | inputs gen =>
    simp only [runTask]
    split
    · next hs => exact .advanced (.noSecret hs)
    · exact .advanced .inputs
  | self gen secret addr =>
    simp only [runTask]
    cases hs : parse p.st.selfGuid with
    | none => exact .advanced (.noSelf hs)
    | some guid => exact .advanced (.self guid)
  | dial gen inputs =>
    simp only [runTask]
    split
    · exact .dialing gen inputs
    · next hs => exact .advanced (.badSecret hs)
  | dialing gen sid =>
    cases err with
    | none => exact .dialled gen sid
    | some cause => exact .failed gen sid cause rfl
  | swap gen sid =>
    simp only [runTask]
    split
    · next hg => exact .installed gen sid hg
    · next hg => exact .advanced (.stale hg)
  | close old after =>
    cases old with
    | none => exact .advanced .closed
    | some old => exact .closed old after
  | capture seen => exact .captured seen
  | config gen secret addr guid => exact .advanced .config
  | clear restart => exact .cleared restart
  | reject sid => exact .rejected sid
  | store sess n old after => exact .stored sess n old after
  | unavailable restart => exact .unavailable restart

theorem spawn_moves {t : Task} (hs : p.spawn id t = some p') :
    p.tasks.lookup id = none ∧ p' = p.goto id (some t) := by
  unfold spawn at hs
  split at hs
  · cases hs
  · next hid => exact ⟨AList.lookup_eq_none.2 hid, (Option.some.inj hs).symm⟩

theorem step_moves (hs : p.step parse op = some p') : p.Moves parse op p' := by
  cases op with
  | start id =>
    obtain ⟨hid, rfl⟩ := spawn_moves hs
    exact .entered hid .start
  | restart id =>
    obtain ⟨hid, rfl⟩ := spawn_moves hs
    exact .entered hid (.stop true)
  | stop id =>
    obtain ⟨hid, rfl⟩ := spawn_moves hs
    exact .entered hid (.stop false)
  | change id c =>
    obtain ⟨hid, rfl⟩ := spawn_moves hs
    exact Moves.changed (p := p) hid _
  | self o =>
    cases o with
    | none =>
      cases hs
      exact .told _ rfl rfl
    | some self =>
      cases hs
      exact .told _ rfl rfl
  | configure config =>
    cases hs
    exact .configured config
  | run id err =>
    obtain ⟨t, ht, rfl⟩ := Option.map_eq_some_iff.1 hs
    exact .ran ht (runTask_moves t)
  | commit sid st err =>
    simp only [step] at hs
    split at hs
    · next h =>
      cases hs
      exact .committed h.1 h.2
    · cases hs
  | deliver sid =>
    simp only [step] at hs
    split at hs
    · cases hs
    · next change rest hq =>
      split at hs
      · next hsid =>
        cases hs
        exact .delivered hq hsid
      · cases hs

/-! ## Generations and inputs -/

def Bounded (p : Owner) : Prop :=
  ∀ id t, p.tasks.lookup id = some t → ∀ g ∈ t.gen, g ≤ p.gen

theorem bounded_init (st : Store) (config : DialConfig) : (init st config).Bounded :=
  fun _ _ ht => by simp [init] at ht

section Bounded

variable {t : Task} {o : Option Task} {err : Option Cause}

theorem Advances.gen (ha : p.Advances parse t o) : ∀ t' ∈ o, ∀ g ∈ t'.gen, t.gen = some g := by
  cases ha with
  | @closed after => cases after <;> simp [AfterSet.task, Task.gen]
  | _ => simp [Task.gen]

/-- A step to a task of the same generation, or of none. -/
theorem Bounded.frame (h : p.Bounded) (hg : ∀ t ∈ o, ∀ g ∈ t.gen,
      ∃ t', p.tasks.lookup id = some t' ∧ t'.gen = some g) :
    { p with tasks := assign p.tasks id o }.Bounded :=
  forall_assign h fun t ht g hg' => by
    obtain ⟨t', ht', he⟩ := hg t ht g hg'
    exact h id t' ht' g he

theorem Bounded.ran (h : p.Bounded) (ht : p.tasks.lookup id = some t)
    (hm : p.TaskMoves parse id err t p') : p'.Bounded := by
  cases hm with
  | advanced ha => exact h.frame fun t' ht' g hg => ⟨t, ht, ha.gen t' ht' g hg⟩
  | captured seen =>
    refine forall_assign (fun id' t' ht' g hg => ?_) fun t' ht' g hg => ?_
    · exact (h id' t' ht' g hg).trans (Nat.le_succ _)
    · cases ht'
      cases hg
      exact le_rfl
  | dialing gen inputs | dialled gen sid => exact h.frame (by simp [ht, Task.gen])
  | cleared restart =>
    refine forall_assign (fun id' t' ht' g hg => ?_) fun t' ht' g hg => ?_
    · exact (h id' t' ht' g hg).trans (Nat.le_succ _)
    · cases ht'
      cases hg
  | failed gen sid cause he | rejected sid => exact h.frame (by simp)
  | installed gen sid hg | stored sess n old after => exact h.frame (by simp [Task.gen])
  | closed old after => exact h.frame (by cases after <;> simp [AfterSet.task, Task.gen])
  | unavailable restart => exact h.frame (by cases restart <;> simp [Task.gen])

theorem Bounded.moves (h : p.Bounded) (hm : p.Moves parse op p') : p'.Bounded := by
  cases hm with
  | entered hid ht => exact h.frame (by cases ht <;> simp [Task.gen])
  | changed hid st => exact h.frame (by simp [Task.gen])
  | ran ht hm => exact h.ran ht hm
  | _ => exact h

end Bounded

theorem update_keeps {β : Type*} (f : Dialled → β) {sessions : ℕ → Dialled} {sid : ℕ}
    {s : Dialled} (hs : f s = f (sessions sid)) (i : ℕ) :
    f (Function.update sessions sid s i) = f (sessions i) := by
  rw [Function.update_apply]
  split
  · next h => rw [h, hs]
  · rfl

/-- No goroutine is under way, and every state was delivered. -/
def Quiescent (p : Owner) : Prop :=
  p.tasks = ∅ ∧ ∀ sid < p.opened, (p.sessions sid).cbQueue = []

end Owner

end VcsClient.App
