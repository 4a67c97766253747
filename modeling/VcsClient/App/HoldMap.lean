import Mathlib.Data.Finset.Basic
import VcsClient.App.PushToTalk
import VcsClient.Joystick.Resolve

/-!
# The hold map

`applyHotkeys` and the edges that `App.pressed` and `App.released` count
(`settings.go`), step by step: what is registered with the two input managers, the
hold map that decides whether an edge is counted, and the counts change at different
moments. The keyboard manager makes its handler calls without a lock, so a call of
its own may still be under way when `Apply` is; the joystick manager's `Apply` waits
for `notifyMu`. The edges of a manager about one hold action are made one at a time.

What an edge does once it is counted, and a manager that is suspended, are left out.
-/

namespace VcsClient.App

open VcsClient.Lib

inductive Kind where
  | press
  | hold
  deriving DecidableEq

/-- `keybinds.Action`. -/
structure Action where
  id : ActionID
  kind : Kind

/-- `StaticActions`. -/
def staticActions : List Action :=
  [⟨"global.ptt", .hold⟩, ⟨"global.push_to_mute", .hold⟩, ⟨"global.mute_toggle", .press⟩,
    ⟨"global.emergency_broadcast", .press⟩, ⟨"global.compact_overlay", .press⟩,
    ⟨"channel.intercom", .press⟩, ⟨"channel.role", .press⟩, ⟨"channel.ship", .press⟩,
    ⟨"channel.fleet", .press⟩, ⟨"status.available", .press⟩, ⟨"status.combat", .press⟩,
    ⟨"status.discipline", .press⟩, ⟨"status.afk", .press⟩]

/-- `PerRadioActions`. -/
def perRadioActions (radios : List UInt32) : List Action :=
  radios.flatMap fun id =>
    [⟨"radio." ++ toString id.toNat ++ ".ptt", .hold⟩,
      ⟨"radio." ++ toString id.toNat ++ ".select", .press⟩]

def keybindActions (radios : List UInt32) : List Action := staticActions ++ perRadioActions radios

/-- `hotkeys.Binding`. -/
structure HotkeyBinding where
  chord : Keybinds.Chord
  hold : Bool

/-- What `applyHotkeys` works out: the bindings of the two managers, and the actions
that the new hold map maps to true. -/
structure Plan where
  kbBinds : AList fun _ : ActionID => HotkeyBinding
  joyBinds : Joystick.Binds
  holds : Finset ActionID

namespace Plan

def empty : Plan := ⟨∅, ∅, ∅⟩

/-- One turn of the inner loop. -/
def addTrigger (id : ActionID) (hold : Bool) (p : Plan) : Keybinds.Trigger → Plan
  | .key c => if c.isZero then p else { p with kbBinds := p.kbBinds.insert id ⟨c, hold⟩ }
  | .joy b =>
    { p with joyBinds := p.joyBinds.insert id ((p.joyBinds.lookup id).getD [] ++ [⟨b, hold⟩]) }

/-- One turn of the outer loop; `list` is what the store's `Get` returns. -/
def addAction (p : Plan) (act : Action) (list : Option (List Keybinds.Trigger)) : Plan :=
  let hold := decide (act.kind = .hold)
  let p := { p with holds := if hold then insert act.id p.holds else p.holds.erase act.id }
  match list with
  | none => p
  | some list => list.foldl (addTrigger act.id hold) p

/-- The loop of `applyHotkeys`; `get` gives what each `Get` returns. -/
def make (radios : List UInt32) (get : ℕ → Option (List Keybinds.Trigger)) : Plan :=
  (keybindActions radios).zipIdx.foldl (fun p a => p.addAction a.1 (get a.2)) empty

/-- Whether a manager has the action as a hold action, if at all. -/
def binding (p : Plan) : Source → ActionID → Option Bool
  | .keyboard, id => (p.kbBinds.lookup id).map (·.hold)
  | .joystick, id => (p.joyBinds.lookup id).map fun list => list.any (·.hold)

end Plan

/-- A handler call that is under way: `isHold` has said yes; an `Apply` makes it. -/
structure EdgeCall where
  edge : Edge
  judged : Bool
  byApply : Bool
  deriving DecidableEq

/-- Where `applyHotkeys` stands. -/
inductive ApplyPc where
  | idle
  /-- before the union -/
  | planned (p : Plan)
  /-- before `hk.Apply` -/
  | united (p : Plan)
  /-- in a manager's `Apply`, which releases what that manager holds -/
  | draining (src : Source) (p : Plan)
  /-- before `jm.Apply` -/
  | registered (p : Plan)
  /-- before the new map -/
  | applied (p : Plan)

def ApplyPc.isIdle : ApplyPc → Bool
  | .idle => true
  | _ => false

@[simp] theorem ApplyPc.isIdle_iff {pc : ApplyPc} : pc.isIdle = true ↔ pc = .idle := by
  cases pc <;> simp [ApplyPc.isIdle]

structure HoldRun where
  /-- there is a joystick manager -/
  joy : Bool
  holds : Finset ActionID
  presses : PressCount
  /-- what was last registered with each manager -/
  bound : Source → Option Plan
  /-- the hold actions that each manager has pressed -/
  down : Finset (Source × ActionID)
  calls : AList fun _ : Source × ActionID => EdgeCall
  pc : ApplyPc

inductive HoldOp where
  /-- `applyHotkeys` -/
  | apply (radios : List UInt32) (get : ℕ → Option (List Keybinds.Trigger))
  /-- it goes on -/
  | proceed
  /-- the `Apply` it is in releases an action -/
  | drain (id : ActionID)
  /-- an edge of a manager's own -/
  | pressed (src : Source) (id : ActionID)
  | released (src : Source) (id : ActionID)
  /-- the handler call's `isHold` -/
  | isHold (src : Source) (id : ActionID)
  /-- the handler call's `presses.press` or `presses.release` -/
  | count (src : Source) (id : ActionID)

namespace HoldRun

def init (joy : Bool) : HoldRun where
  joy := joy
  holds := ∅
  presses := ⟨∅⟩
  bound := fun _ => none
  down := ∅
  calls := ∅
  pc := .idle

/-- The manager's `Apply` is running: it has no latch and no binding, or keeps
`notifyMu`. -/
def Draining (s : HoldRun) (src : Source) : Prop :=
  match s.pc with
  | .draining src' _ => src' = src
  | _ => False

instance (s : HoldRun) (src : Source) : Decidable (s.Draining src) := by
  unfold Draining
  split <;> infer_instance

/-- No handler call satisfies the predicate. -/
def NoCall (s : HoldRun) (P : Source → EdgeCall → Bool) : Prop :=
  ∀ e ∈ s.calls.entries, P e.1.1 e.2 = false

instance (s : HoldRun) (P : Source → EdgeCall → Bool) : Decidable (s.NoCall P) :=
  inferInstanceAs (Decidable (∀ e ∈ s.calls.entries, P e.1.1 e.2 = false))

def call (s : HoldRun) (src : Source) (id : ActionID) (edge : Edge) (byApply : Bool) : HoldRun :=
  { s with calls := s.calls.insert (src, id) ⟨edge, false, byApply⟩ }

/-- The manager's `Apply` returns: it has released everything. -/
def registered (s : HoldRun) (src : Source) (p : Plan) (pc : ApplyPc) : Option HoldRun :=
  if (∀ k ∈ s.down, k.1 ≠ src) ∧ s.NoCall fun _ c => c.byApply then
    some { s with bound := fun src' => if src' = src then some p else s.bound src', pc := pc }
  else none

def proceed (s : HoldRun) : Option HoldRun :=
  match s.pc with
  | .idle => none
  | .planned p => some { s with holds := s.holds ∪ p.holds, pc := .united p }
  | .united p => some { s with pc := .draining .keyboard p }
  | .draining .keyboard p => s.registered .keyboard p (.registered p)
  | .registered p =>
    if s.joy = false then some { s with pc := .applied p }
    -- `jm.Apply` waits for `notifyMu`
    else if s.NoCall fun src _ => src = .joystick then some { s with pc := .draining .joystick p }
    else none
  | .draining .joystick p => s.registered .joystick p (.applied p)
  | .applied p => some { s with holds := p.holds, pc := .idle }

/-- An edge of a manager's own. -/
def pressed (s : HoldRun) (src : Source) (id : ActionID) : Option HoldRun :=
  if s.Draining src ∨ (s.calls.lookup (src, id)).isSome ∨ (src, id) ∈ s.down then none
  else
    match (s.bound src).bind (·.binding src id) with
    | none => none
    | some true => some ({ s with down := insert (src, id) s.down }.call src id .press false)
    | some false => some (s.call src id .press false)

def released (s : HoldRun) (src : Source) (id : ActionID) : Option HoldRun :=
  if s.Draining src ∨ (s.calls.lookup (src, id)).isSome ∨ (src, id) ∉ s.down then none
  else some ({ s with down := s.down.erase (src, id) }.call src id .release false)

/-- A release by the `Apply` that is running. -/
def drain (s : HoldRun) (id : ActionID) : Option HoldRun :=
  match s.pc with
  | .draining src _ =>
    if (s.calls.lookup (src, id)).isSome ∨ (src, id) ∉ s.down then none
    else some ({ s with down := s.down.erase (src, id) }.call src id .release true)
  | _ => none

/-- `isHold`: an edge of an action that is not in the map is not counted. -/
def isHold (s : HoldRun) (src : Source) (id : ActionID) (c : EdgeCall) : Option HoldRun :=
  if c.judged then none
  else if id ∈ s.holds then
    some { s with calls := s.calls.insert (src, id) { c with judged := true } }
  else some { s with calls := s.calls.erase (src, id) }

def count (s : HoldRun) (src : Source) (id : ActionID) (c : EdgeCall) : Option HoldRun :=
  if c.judged then
    some { s with
      presses :=
        match c.edge with
        | .press => (s.presses.press id).2
        | .release => (s.presses.release id).2
      calls := s.calls.erase (src, id) }
  else none

def step (s : HoldRun) : HoldOp → Option HoldRun
  | .apply radios get =>
    match s.pc with
    | .idle => some { s with pc := .planned (.make radios get) }
    | _ => none
  | .proceed => s.proceed
  | .drain id => s.drain id
  | .pressed src id => s.pressed src id
  | .released src id => s.released src id
  | .isHold src id => (s.calls.lookup (src, id)).bind (s.isHold src id)
  | .count src id => (s.calls.lookup (src, id)).bind (s.count src id)

/-- How many managers have the action pressed. -/
def pressedIn (s : HoldRun) (id : ActionID) : ℕ :=
  (if (Source.keyboard, id) ∈ s.down then 1 else 0) +
    if (Source.joystick, id) ∈ s.down then 1 else 0

/-- `applyHotkeys` is not running, and no handler call is. -/
def Quiescent (s : HoldRun) : Prop := s.pc = .idle ∧ s.calls = ∅

/-- A `Released` that the keyboard manager calls of its own finds the action in the
hold map. -/
def StillHold (s : HoldRun) : HoldOp → Prop
  | .isHold .keyboard id =>
    ∀ c ∈ s.calls.lookup (.keyboard, id), c.edge = .release → c.byApply = false → id ∈ s.holds
  | _ => True

instance (s : HoldRun) : ∀ op, Decidable (s.StillHold op)
  | .isHold .keyboard id => by
    unfold StillHold
    dsimp only
    infer_instance
  | .isHold .joystick _ | .apply _ _ | .proceed | .drain _ | .pressed _ _ | .released _ _
  | .count _ _ => .isTrue trivial

end HoldRun

end VcsClient.App
