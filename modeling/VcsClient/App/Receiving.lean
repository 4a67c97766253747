import Mathlib.Data.Finset.Dedup
import VcsClient.App.PersistCfg
import VcsClient.Voice.Rx
import VcsClient.Voice.Tx

/-!
# What a voice session receives

`refreshRXContext` (`voice.go`) and what its inputs are changed by: `UpdateRadioInfo`,
`applyProfile`, `SetSettings`, the server settings in the state store and the installs of a
voice session. A refresh reads the session, the configuration and the server settings one
after another and then writes the session's filter and its effects, holding no lock over
all of it, so any number of them overlap. `UpdateRadioInfo`, an install and an observer of
the state store (server settings, radio echoes) refresh on their own goroutine;
`applyProfile` and `SetSettings` do not refresh.

Of a session only what it receives is kept. The transactions of the configuration commit
in one step.
-/

namespace VcsClient.App

open VcsClient.Lib VcsClient.Config VcsClient.Voice

/-- The frequencies of the enabled radios. -/
def acceptOf (radios : List Radio) : List KHz := (radios.filter (·.enabled)).map (·.frequencyKHz)

/-- `resolveTXTarget` of a radio. -/
def resolveTXTarget (radios : List Radio) (radioID : UInt32) : Option TXTarget :=
  (radios.find? fun r => r.id == radioID && r.enabled).map fun r => ⟨r.frequencyKHz, r.isIntercom⟩

structure Effects where
  voice : String
  clipping : String
  deriving DecidableEq

def effectsOf (audio : Audio) : Effects := ⟨audio.voiceEffect, audio.clippingEffect⟩

/-- `ServerSettings`, as far as a refresh reads it. -/
structure ServerSettings (F : Type) where
  globalFrequencies : List F
  testFrequencies : List F

/-- What a refresh reads of the configuration; as a ghost, after how many changes. -/
structure Tuning where
  accept : List KHz
  effects : Effects
  version : ℕ
  deriving DecidableEq

/-- What a refresh reads of the server settings; as a ghost, after how many changes. -/
structure Shared where
  global : List KHz
  test : List KHz
  version : ℕ
  deriving DecidableEq

/-- What a session was told to receive, as the readings it was written from; a session just
dialled accepts nothing. -/
structure Held where
  /-- `rx.ctx` -/
  filter : Option (Tuning × Shared)
  /-- `rx.fx` -/
  fx : Option Tuning
  deriving DecidableEq

def Held.dialled : Held := ⟨none, none⟩

def Held.ctx (h : Held) : Option RxContext :=
  h.filter.map fun p => ⟨p.1.accept, p.2.global, p.2.test⟩

def Held.effects (h : Held) : Option Effects := h.fx.map (·.effects)

/-- Where a call stands; `push` says that `UpdateRadioInfo` goes on to the server. -/
inductive RxCall where
  /-- `refreshRXContext`, before it reads the session -/
  | refresh (push : Bool)
  | found (push : Bool) (sess : ℕ)
  | tuned (push : Bool) (sess : ℕ) (t : Tuning)
  | ready (push : Bool) (sess : ℕ) (t : Tuning) (srv : Shared)
  /-- before `SetEffects` -/
  | filtered (push : Bool) (sess : ℕ) (t : Tuning)
  /-- the RPC to the server; it succeeds, fails or hangs -/
  | pushing
  deriving DecidableEq

structure Receiving (F : Type) where
  cfg : Config
  settings : Option (ServerSettings F)
  /-- the live session -/
  live : Option (ℕ × Held)
  sessions : ℕ
  calls : AList fun _ : ℕ => RxCall
  /-- Ghost: the changes of what a refresh reads of the configuration. -/
  tunings : ℕ
  /-- Ghost: the changes of the server settings. -/
  shares : ℕ
  /-- Ghost: a profile load or a settings save changed what a refresh reads, and no refresh
  of the live session has read the configuration since. -/
  unread : Bool

inductive RxOp (F : Type) where
  | updateRadioInfo (c : ℕ) (radios : List Radio) (saved : Bool)
  | applyProfile (c : ℕ) (d : Document) (path : String) (saved : Bool)
  | setSettings (general : General) (audio : Audio) (saved : Bool)
  /-- `Store.SetSettings` and its observer -/
  | serverSettings (c : ℕ) (settings : Option (ServerSettings F))
  /-- a radio echo, whose observer refreshes -/
  | echo (c : ℕ)
  /-- `setVoiceSession` of a dialled session, which a newer generation refuses -/
  | install (c : ℕ) (accepted : Bool)
  | stopVoiceSession
  | run (c : ℕ)

namespace Receiving

variable {F : Type} (khz : F → KHz)

def init (cfg : Config) (settings : Option (ServerSettings F)) : Receiving F where
  cfg := cfg
  settings := settings
  live := none
  sessions := 0
  calls := ∅
  tunings := 1
  shares := 1
  unread := false

/-- The frequencies of a list of the server settings that a refresh passes on. -/
def frequencies (fs : List F) : List KHz := (fs.map khz).filter (· ≠ 0)

def tuning (s : Receiving F) : Tuning :=
  ⟨acceptOf s.cfg.radios, effectsOf s.cfg.audio, s.tunings⟩

def shared (s : Receiving F) : Shared where
  global := frequencies khz ((s.settings.map (·.globalFrequencies)).getD [])
  test := frequencies khz ((s.settings.map (·.testFrequencies)).getD [])
  version := s.shares

/-- A refresh would read the same frequencies and effects of both. -/
def SameTuning (c c' : Config) : Prop :=
  (acceptOf c.radios).toFinset = (acceptOf c'.radios).toFinset ∧
    effectsOf c.audio = effectsOf c'.audio

instance (c c' : Config) : Decidable (SameTuning c c') := inferInstanceAs (Decidable (_ ∧ _))

def commit (s : Receiving F) (tx : CfgTxn) : Receiving F where
  __ := s
  cfg := tx.mutate s.cfg
  tunings := if SameTuning s.cfg (tx.mutate s.cfg) then s.tunings else s.tunings + 1

/-- A transaction commits that no refresh follows. -/
def commitOnly (s : Receiving F) (tx : CfgTxn) : Receiving F where
  __ := s.commit tx
  unread := s.unread || decide (¬ SameTuning s.cfg (tx.mutate s.cfg))

def goto (s : Receiving F) (c : ℕ) (pc : RxCall) : Receiving F :=
  { s with calls := s.calls.insert c pc }

/-- A refresh returns: `UpdateRadioInfo` goes on to its push. -/
def leave (s : Receiving F) (c : ℕ) (push : Bool) : Receiving F :=
  { s with calls := if push then s.calls.insert c .pushing else s.calls.erase c }

/-- Write to a session; what one that is no longer live holds does not matter. -/
def write (s : Receiving F) (sess : ℕ) (f : Held → Held) : Receiving F :=
  { s with live := s.live.map fun l => if l.1 = sess then (l.1, f l.2) else l }

def runCall (s : Receiving F) (c : ℕ) : RxCall → Receiving F
  | .refresh push =>
    match s.live with
    | none => s.leave c push
    | some l => s.goto c (.found push l.1)
  | .found push sess =>
    { s with unread := s.unread && decide (s.live.map Prod.fst ≠ some sess) }.goto c
      (.tuned push sess s.tuning)
  | .tuned push sess t => s.goto c (.ready push sess t (s.shared khz))
  | .ready push sess t srv =>
    (s.write sess fun h => { h with filter := some (t, srv) }).goto c (.filtered push sess t)
  | .filtered push sess t => (s.write sess fun h => { h with fx := some t }).leave c push
  | .pushing => { s with calls := s.calls.erase c }

def step (s : Receiving F) : RxOp F → Option (Receiving F)
  | .updateRadioInfo c radios saved =>
    if c ∈ s.calls then none
    else if saved then some ((s.commit (.persistRadios radios)).goto c (.refresh true))
    else some s
  | .applyProfile c d path saved =>
    if c ∈ s.calls then none
    else if saved then some ((s.commitOnly (.applyProfile d path)).goto c .pushing)
    else some s
  | .setSettings general audio saved =>
    if saved then some (s.commitOnly (.setSettings general audio)) else some s
  | .serverSettings c settings =>
    if c ∈ s.calls then none
    else some ({ s with settings := settings, shares := s.shares + 1 }.goto c (.refresh false))
  | .echo c => if c ∈ s.calls then none else some (s.goto c (.refresh false))
  | .install c accepted =>
    if c ∈ s.calls then none
    else if accepted then
      some ({ s with live := some (s.sessions, .dialled), sessions := s.sessions + 1 }.goto c
        (.refresh false))
    else some (s.goto c (.refresh false))
  | .stopVoiceSession => some { s with live := none }
  | .run c => (s.calls.lookup c).map (s.runCall khz c)

/-- No refresh is under way; a push may hang. -/
def Quiet (s : Receiving F) : Prop := ∀ e ∈ s.calls.entries, e.2 = .pushing

instance (s : Receiving F) : Decidable s.Quiet :=
  inferInstanceAs (Decidable (∀ e ∈ s.calls.entries, e.2 = .pushing))

/-- The frequencies `resolveTXTarget` transmits on. -/
def Transmits (radios : List Radio) (f : KHz) : Prop :=
  ∃ radioID target, resolveTXTarget radios radioID = some target ∧ target.freq = f

/-- The live session receives on what the configuration says: on the enabled radios'
frequencies, which are those transmitted on where no two radios share an id. -/
def FollowsConfig (s : Receiving F) : Prop := ∀ sess held, s.live = some (sess, held) →
  (∃ ctx, held.ctx = some ctx ∧ (∀ f, f ∈ ctx.accept ↔ f ∈ acceptOf s.cfg.radios) ∧
    (∀ f, Transmits s.cfg.radios f → f ∈ ctx.accept) ∧
    ((s.cfg.radios.map (·.id)).Nodup → ∀ f ∈ ctx.accept, Transmits s.cfg.radios f)) ∧
  held.effects = some (effectsOf s.cfg.audio)

/-- The live session receives on the server's frequencies. -/
def FollowsServer (s : Receiving F) : Prop := ∀ sess held, s.live = some (sess, held) →
  ∃ ctx, held.ctx = some ctx ∧ ctx.global = (s.shared khz).global ∧
    ctx.test = (s.shared khz).test

/-- A refresh writes nothing older than what the session holds: no refresh that read a newer
configuration, or newer server settings, has written before it. -/
def InOrder (s : Receiving F) : RxOp F → Prop
  | .run c => ∀ pc ∈ s.calls.lookup c, ∀ l ∈ s.live,
    match pc with
    | .ready _ sess t srv => l.1 = sess → ∀ p ∈ l.2.filter,
      p.1.version ≤ t.version ∧ p.2.version ≤ srv.version
    | .filtered _ sess t => l.1 = sess → ∀ t' ∈ l.2.fx, t'.version ≤ t.version
    | _ => True
  | _ => True

instance (s : Receiving F) (op : RxOp F) : Decidable (s.InOrder op) :=
  match op with
  | .updateRadioInfo _ _ _ | .applyProfile _ _ _ _ | .setSettings _ _ _ | .serverSettings _ _
  | .echo _ | .install _ _ | .stopVoiceSession => .isTrue trivial
  | .run c =>
    have : ∀ pc : RxCall, Decidable (∀ l ∈ s.live,
        match pc with
        | .ready _ sess t srv => l.1 = sess → ∀ p ∈ l.2.filter,
          p.1.version ≤ t.version ∧ p.2.version ≤ srv.version
        | .filtered _ sess t => l.1 = sess → ∀ t' ∈ l.2.fx, t'.version ≤ t.version
        | _ => True) := fun pc => by cases pc <;> infer_instance
    inferInstanceAs (Decidable (∀ pc ∈ s.calls.lookup c, _))

end Receiving

end VcsClient.App
