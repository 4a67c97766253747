import VcsClient.App.Signature
import VcsClient.Keybinds.Store
import VcsClient.Lib.Machine
import VcsClient.State.Store

/-!
# Keybind refreshes

The per-radio hotkeys are registered from the local radios (`keybindrefresh.go`,
`settings.go`). Any number of goroutines change the state store; each then runs the radios
observer, which works out the signature of the radios it finds, compares it with the last
one under `sb.mu` and asks for a refresh when they differ. Refreshes run on a worker of
their own, under `writeMu`, as do keybind edits and every other `applyHotkeys`.

Events to the UI, the hold map and the shutdown of the worker are left out.
-/

namespace VcsClient.App

open VcsClient.Lib

/-- The mutators of the state store that run the radios observer. -/
inductive RadioMutation where
  | setRadios (guid : State.Guid) (info : State.RadioInfo)
  | removeClient (guid : State.Guid)
  | setSelf (guid : State.Guid) (info : State.ClientInfo)
  | clearSelf
  | resetRoster
  deriving DecidableEq

def RadioMutation.perform (st : State.Store) : RadioMutation → State.Store
  | .setRadios guid info => st.setRadios guid info
  | .removeClient guid => st.removeClient guid
  | .setSelf guid info => st.setSelf guid info
  | .clearSelf => st.clearSelf
  | .resetRoster => st.resetRoster

/-- `radioRefs`. -/
def radioRefs (st : State.Store) : List RadioRef :=
  match st.radios.lookup st.selfGuid with
  | none => []
  | some info => info.radios.map fun r => ⟨r.id, r.name⟩

/-- What `applyHotkeys` works out of the radios and the keybind store. -/
def planOf (refs : List RadioRef) (kb : Keybinds.Store) : Plan :=
  .make (refs.map (·.id)) fun i =>
    ((keybindActions (refs.map (·.id)))[i]?).bind fun act => kb.binds.lookup act.id

/-- Where a call of the radios observer stands. -/
inductive Observer where
  | notified
  /-- before `sb.mu` -/
  | signed (sig : String)
  /-- in `enqueue`, before `r.mu` -/
  | changed
  /-- in `enqueue`, before the wake -/
  | counted
  deriving DecidableEq

/-- What the holder of `writeMu` does next. -/
inductive Work where
  /-- `persistKeybinds`; `before` is what a failure puts back -/
  | edited (before : Keybinds.Store)
  /-- `applyHotkeys`, before it reads the radios -/
  | planning
  /-- before `hk.Apply` -/
  | planned (p : Plan)
  /-- before `jm.Apply` -/
  | registered (p : Plan)
  /-- before it unlocks -/
  | applied

/-- `applyHotkeys` is next to read the radios. -/
def Work.plans : Work → Bool
  | .planning => true
  | _ => false

inductive Worker where
  | waiting
  /-- at the head of the inner loop -/
  | checking
  /-- `refreshKeybinds`, before `writeMu` -/
  | locking
  | working
  deriving DecidableEq

structure Refresh where
  st : State.Store
  kb : Keybinds.Store
  /-- there is a joystick manager -/
  hasJoy : Bool
  radioSig : String
  observers : AList fun _ : ℕ => Observer
  pending : ℕ
  wake : Bool
  worker : Worker
  writer : Option Work
  /-- what was last registered with the managers -/
  hk : AList fun _ : ActionID => HotkeyBinding
  joy : Joystick.Binds
  /-- ghost: the radios the last `applyHotkeys` read -/
  read : List RadioRef

inductive RefreshOp where
  /-- a mutation of the state store, up to the observer -/
  | mutate (o : ℕ) (m : RadioMutation)
  /-- the observer goes on -/
  | observe (o : ℕ)
  /-- the worker goes on -/
  | work
  /-- a keybind edit takes `writeMu` and leaves this in the keybind store -/
  | edit (kb : Keybinds.Store)
  /-- any other `applyHotkeys` takes `writeMu` -/
  | reapply
  /-- the holder of `writeMu` goes on -/
  | proceed (saved : Bool)

namespace Refresh

def init (kb : Keybinds.Store) (hasJoy : Bool) : Refresh where
  st := .new
  kb := kb
  hasJoy := hasJoy
  radioSig := ""
  observers := ∅
  pending := 0
  wake := false
  worker := .waiting
  writer := none
  hk := (planOf [] kb).kbBinds
  joy := (planOf [] kb).joyBinds
  read := []

def refs (s : Refresh) : List RadioRef := radioRefs s.st

def observe (s : Refresh) (o : ℕ) : Observer → Refresh
  | .notified => { s with observers := s.observers.insert o (.signed (radioSignature s.refs)) }
  | .signed sig =>
    if s.radioSig = sig then { s with observers := s.observers.erase o }
    else { s with radioSig := sig, observers := s.observers.insert o .changed }
  | .changed =>
    { s with pending := s.pending + 1, observers := s.observers.insert o .counted }
  | .counted => { s with wake := true, observers := s.observers.erase o }

def work (s : Refresh) : Option Refresh :=
  match s.worker with
  | .waiting => if s.wake then some { s with wake := false, worker := .checking } else none
  | .checking =>
    if s.pending = 0 then some { s with worker := .waiting }
    else some { s with pending := s.pending - 1, worker := .locking }
  | .locking =>
    match s.writer with
    | none => some { s with writer := some .planning, worker := .working }
    | some _ => none
  | .working => none

def proceed (s : Refresh) (saved : Bool) : Option Refresh :=
  match s.writer with
  | none => none
  | some (.edited before) =>
    if saved then some { s with writer := some .planning }
    else some { s with kb := before, writer := none }
  | some .planning => some { s with writer := some (.planned (planOf s.refs s.kb)), read := s.refs }
  | some (.planned p) => some { s with hk := p.kbBinds, writer := some (.registered p) }
  | some (.registered p) =>
    some { s with joy := if s.hasJoy then p.joyBinds else s.joy, writer := some .applied }
  | some .applied =>
    some { s with
      writer := none
      worker := if s.worker = .working then .checking else s.worker }

def step (s : Refresh) : RefreshOp → Option Refresh
  | .mutate o m =>
    if o ∈ s.observers then none
    else some { s with st := m.perform s.st, observers := s.observers.insert o .notified }
  | .observe o => (s.observers.lookup o).map (s.observe o)
  | .work => s.work
  | .edit kb =>
    match s.writer with
    | none => some { s with kb := kb, writer := some (.edited s.kb) }
    | some _ => none
  | .reapply =>
    match s.writer with
    | none => some { s with writer := some .planning }
    | some _ => none
  | .proceed saved => s.proceed saved

/-- Nothing is going on, and the worker sleeps. -/
def Quiescent (s : Refresh) : Prop :=
  s.observers.keys = [] ∧ s.writer.isNone = true ∧ s.worker = .waiting ∧ s.wake = false

instance (s : Refresh) : Decidable s.Quiescent :=
  inferInstanceAs (Decidable (_ ∧ _ ∧ s.worker = .waiting ∧ _))

/-- What is registered is what the current radios and keybinds make. -/
structure Follows (s : Refresh) : Prop where
  hk : s.hk = (planOf s.refs s.kb).kbBinds
  joy : s.hasJoy = true → s.joy = (planOf s.refs s.kb).joyBinds

/-- The observer has not compared its signature, or asks for a refresh. -/
def Observer.coming : Observer → Bool
  | .counted => false
  | _ => true

/-- A refresh that has not read the radios is to come. -/
def ToCome (s : Refresh) : Prop :=
  0 < s.pending ∨ s.worker = .locking ∨ s.writer.any Work.plans = true

/-- An observer other than this one is still to compare its signature, or to ask for a
refresh. -/
def Another (s : Refresh) (o : ℕ) : Prop :=
  ∃ e ∈ s.observers.entries, e.1 ≠ o ∧ Observer.coming e.2 = true

/-- An observer that finds its signature unchanged and asks for no refresh: the last
`applyHotkeys` read the current radios, or a refresh or another observer is to come. -/
def Covered (s : Refresh) : RefreshOp → Prop
  | .observe o => s.observers.lookup o = some (.signed s.radioSig) →
      s.read = s.refs ∨ s.ToCome ∨ s.Another o
  | _ => True

instance (s : Refresh) : Decidable s.ToCome := inferInstanceAs (Decidable (_ ∨ _ ∨ _))

instance (s : Refresh) (o : ℕ) : Decidable (s.Another o) :=
  inferInstanceAs (Decidable (∃ e ∈ s.observers.entries, _))

instance (s : Refresh) : ∀ op, Decidable (s.Covered op)
  | .observe _ => inferInstanceAs (Decidable (_ → _))
  | .mutate _ _ | .work | .edit _ | .reapply | .proceed _ => .isTrue trivial

end Refresh

end VcsClient.App
