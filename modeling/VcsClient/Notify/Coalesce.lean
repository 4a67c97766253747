import VcsClient.Lib.Machine
import VcsClient.Notify.Store

/-!
# The coalescer and its goroutines

Any number of goroutines call the notifier while its window timers fire. A
step is one locked section, one `OnChange` or one `OnSound`: an entry point
that publishes keeps `emitMu` from its section to its last callback, a windowed
call looks for an open window, applies its change when there is none and then
opens one, and `windowClosed` takes the deferred change out, applies it and
decides whether the window stays open.

The history, the stamps of the calls and `asked` are ghosts.
-/

namespace VcsClient.Notify

open VcsClient.Lib

/-- Who waits for the outcome of a publishing entry point: nobody, the leading
edge of a windowed call, or a window that has closed. -/
inductive After where
  | ret
  | lead (key : Key) (window : ℤ) (cancelGen : ℕ)
  | trail (key : Key) (gen : ℕ) (window : ℤ)
  deriving DecidableEq

/-- Where a goroutine stands: what it does next. -/
inductive Pc where
  /-- `coalesce`, before its first section. -/
  | coalesce (key : Key) (window : ℤ) (c : Change) (stamp : ℕ)
  /-- An entry point, before it takes `emitMu`. -/
  | commit (op : Op) (stamp : ℕ) (k : After)
  /-- Holding `emitMu`, before `OnChange`. -/
  | publish (snap : Snapshot) (sound : Option Item) (k : After)
  /-- Holding `emitMu`, before `OnSound`. -/
  | sound (it : Item) (k : After)
  /-- `coalesce`, its change published, before it opens the window. -/
  | arm (key : Key) (window : ℤ) (cancelGen : ℕ)
  /-- `windowClosed`, before its first section. -/
  | close (key : Key) (gen : ℕ)
  /-- `windowClosed`, after the deferred change. -/
  | rearm (key : Key) (gen : ℕ) (window : ℤ) (changed : Bool)
  /-- `StopTimers`. -/
  | stop
  deriving DecidableEq

inductive Call where
  | plain (op : Op)
  | raiseWindowed (key : Key) (item : Item) (window : ℤ)
  | resolveWindowed (key : Key) (window : ℤ)
  | stopTimers
  deriving DecidableEq

/-- One committed section: what it was, and the list before and after it. -/
structure Record where
  op : Op
  stamp : ℕ
  before : List Item
  after : List Item
  deriving DecidableEq

structure System (δ : Type*) where
  n : Notifier δ
  emit : Option ℕ
  threads : AList fun _ : ℕ => Pc
  now : ℤ
  published : List Snapshot
  sounded : List Item
  /-- ghost: how many calls were made -/
  calls : ℕ
  /-- ghost: the committed sections, oldest first -/
  history : List Record
  /-- ghost: what the last call of each key to take effect asked for, unless a
  row of the key was dismissed, cleared or pushed off the list since -/
  asked : Key → Option Change

inductive Label where
  | call (g : ℕ) (c : Call)
  | run (g : ℕ)
  | fire (id : ℕ) (g : ℕ)
  | tick (now : ℤ)
  deriving DecidableEq

/-- The entry point a change stands for. -/
def Change.op (key : Key) : Change → Op
  | .raise item => .raise key item
  | .resolve => .resolve key

/-- The condition and the change an entry point asserts. -/
def Op.change? : Op → Option (Key × Change)
  | .raise key item => some (key, .raise item)
  | .resolve key => some (key, .resolve)
  | _ => none

/-- The first step of a method; `none` when it returns at once. -/
def Call.entry (stamp : ℕ) : Call → Option Pc
  | .plain op => some (.commit op stamp .ret)
  | .raiseWindowed key item window =>
    if key = "" then some (.commit (.post item) stamp .ret)
    else some (.coalesce key window (.raise item) stamp)
  | .resolveWindowed key window =>
    if key = "" then none else some (.coalesce key window .resolve stamp)
  | .stopTimers => some .stop

/-- What follows a publishing entry point that reported `changed`. -/
def After.resume (changed : Bool) : After → Option Pc
  | .ret => none
  | .lead key window cancelGen => if changed then some (.arm key window cancelGen) else none
  | .trail key gen window => some (.rearm key gen window changed)

/-- The keys whose rows an entry point takes from the user: dismissed, cleared,
or unresolved and pushed off the end of the list. -/
def Op.takes (op : Op) (before after : List Item) : List Key :=
  match op with
  | .dismiss id => ((before.find? (·.id == id)).map (·.key)).toList
  | .clear => before.map (·.key)
  | .post _ | .raise _ _ =>
    (before.filter fun it => !it.resolved && !after.any (·.id == it.id)).map (·.key)
  | _ => []

namespace System

variable {δ : Type*}

def init (δ : Type*) (cap now : ℤ) : System δ where
  n := Notifier.new δ cap
  emit := none
  threads := ∅
  now := now
  published := []
  sounded := []
  calls := 0
  history := []
  asked := fun _ => none

/-- Goroutine `g` goes on at `pc`, or is done. -/
def goto (s : System δ) (g : ℕ) : Option Pc → System δ
  | none => { s with threads := s.threads.erase g }
  | some pc => { s with threads := s.threads.insert g pc }

/-- `asked` after a committed section. -/
def askedAfter (s : System δ) (op : Op) (k : After) (after : List Item) : Key → Option Change :=
  let kept := fun key => if key ∈ op.takes s.n.items after then none else s.asked key
  match k, op.change? with
  | .trail _ _ _, _ | _, none => kept
  | _, some (key, c) => Function.update kept key (some c)

/-- The section of an entry point, whose outcome is `r`, goes into the state. -/
def recorded (s : System δ) (op : Op) (stamp : ℕ) (k : After) (r : Outcome δ) : System δ :=
  { s with
    n := r.n
    history := s.history ++ [⟨op, stamp, s.n.items, r.n.items⟩]
    asked := s.askedAfter op k r.n.items }

/-- `emitMu` and the section of a publishing entry point. -/
def commit [DecidableEq δ] (sha256 : List UInt8 → δ) (s : System δ) (g : ℕ) (op : Op) (stamp : ℕ)
    (k : After) : Option (System δ) :=
  if s.emit = none then
    let r := Op.commit sha256 s.now s.n op
    match r.snap with
    | none => some ((s.recorded op stamp k r).goto g (k.resume false))
    | some snap =>
      some ({ s.recorded op stamp k r with emit := some g }.goto g (some (.publish snap r.sound k)))
  else none

/-- `coalesce`, first section. -/
def coalesce (s : System δ) (g : ℕ) (key : Key) (window : ℤ) (c : Change) (stamp : ℕ) :
    System δ :=
  if window ≤ 0 then s.goto g (some (.commit (c.op key) stamp .ret))
  else
    match s.n.pending.lookup key with
    | some p =>
      { s with
        n := { s.n with pending := s.n.pending.insert key { p with apply := some c, stamp } }
        asked := Function.update s.asked key (some c) }.goto g none
    | none => s.goto g (some (.commit (c.op key) stamp (.lead key window s.n.cancelGen)))

/-- `coalesce`, second section. -/
def arm (s : System δ) (g : ℕ) (key : Key) (window : ℤ) (cancelGen : ℕ) : System δ :=
  if key ∈ s.n.pending then s.goto g none
  else if s.n.cancelGen ≠ cancelGen then s.goto g none
  else { s with n := s.n.armLocked s.now key window }.goto g none

/-- `windowClosed`, first section. -/
def close (s : System δ) (g : ℕ) (key : Key) (gen : ℕ) : System δ :=
  match s.n.pending.lookup key with
  | none => s.goto g none
  | some p =>
    if p.gen ≠ gen then s.goto g none
    else
      match p.apply with
      | none => { s with n := s.n.retirePendingLocked key }.goto g none
      | some c =>
        { s with
          n := { s.n with pending := s.n.pending.insert key { p with apply := none } } }.goto g
            (some (.commit (c.op key) p.stamp
              (.trail key gen ((s.n.windows.lookup key).getD 0))))

/-- `windowClosed`, second section. -/
def rearm (s : System δ) (g : ℕ) (key : Key) (gen : ℕ) (window : ℤ) (changed : Bool) : System δ :=
  match s.n.pending.lookup key with
  | none => s.goto g none
  | some p =>
    if p.gen ≠ gen then s.goto g none
    else if window ≤ 0 then { s with n := s.n.retirePendingLocked key }.goto g none
    else if !changed && p.apply.isNone then { s with n := s.n.retirePendingLocked key }.goto g none
    else { s with n := s.n.armLocked s.now key window }.goto g none

/-- The next step of goroutine `g`, which stands at `pc`. -/
def advance [DecidableEq δ] (sha256 : List UInt8 → δ) (s : System δ) (g : ℕ) : Pc → Option (System δ)
  | .coalesce key window c stamp => some (s.coalesce g key window c stamp)
  | .commit op stamp k => s.commit sha256 g op stamp k
  | .publish snap sound k =>
    let s := { s with published := s.published ++ [snap] }
    match sound with
    | none => some ({ s with emit := none }.goto g (k.resume true))
    | some it => some (s.goto g (some (.sound it k)))
  | .sound it k =>
    some ({ s with emit := none, sounded := s.sounded ++ [it] }.goto g (k.resume true))
  | .arm key window cancelGen => some (s.arm g key window cancelGen)
  | .close key gen => some (s.close g key gen)
  | .rearm key gen window changed => some (s.rearm g key gen window changed)
  | .stop => some ({ s with n := s.n.stopTimers, asked := fun _ => none }.goto g none)

def step [DecidableEq δ] (sha256 : List UInt8 → δ) (s : System δ) : Label → Option (System δ)
  | .call g c =>
    if g ∈ s.threads then none
    else some ({ s with calls := s.calls + 1 }.goto g (c.entry (s.calls + 1)))
  | .run g =>
    match s.threads.lookup g with
    | none => none
    | some pc => s.advance sha256 g pc
  | .fire id g =>
    match s.n.timers.lookup id with
    | none => none
    | some t =>
      if g ∈ s.threads ∨ s.now < t.due then none
      else
        some ({ s with n := { s.n with timers := s.n.timers.erase id } }.goto g
          (some (.close t.key t.gen)))
  | .tick now => if s.now ≤ now then some { s with now } else none

end System

end VcsClient.Notify
