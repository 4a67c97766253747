import Mathlib.Data.List.Sort
import Mathlib.Data.String.Basic
import VcsClient.Keybinds.Trigger
import VcsClient.Lib.Assoc
import VcsClient.Lib.Listing

/-!
# The keybind store

`Store` of `internal/keybinds`. A map is ranged over in an order the language
leaves open, except by `Load`, which sorts the action ids first. Warnings are not
modelled.
-/

namespace VcsClient.Keybinds

open VcsClient.Lib

abbrev ActionID := String

def staticActions : List ActionID :=
  ["global.ptt", "global.push_to_mute", "global.mute_toggle", "global.emergency_broadcast",
    "global.compact_overlay", "channel.intercom", "channel.role", "channel.ship", "channel.fleet",
    "status.available", "status.combat", "status.discipline", "status.afk"]

/-- `isPerRadioID`. -/
def isPerRadioID (id : String) : Bool :=
  if id.utf8ByteSize < "radio.0.ptt".utf8ByteSize then false
  else if "radio.".toList.isPrefixOf id.toList = false then false
  else ".ptt".toList.isSuffixOf id.toList || ".select".toList.isSuffixOf id.toList

/-- `Load` understands the id. -/
def recognised (id : String) : Bool := staticActions.contains id || isPerRadioID id

structure Stolen where
  actionID : ActionID
  trigger : Trigger
  deriving DecidableEq

structure Store where
  binds : AList fun _ : ActionID => List Trigger
  unknown : AList fun _ : String => List String

/-- The raw map of a configuration. -/
abbrev RawBinds := AList fun _ : String => List String

namespace Store

/-- `New`. -/
def new : Store := ⟨∅, ∅⟩

/-- The triggers of an action, none without an entry. -/
def triggers (s : Store) (id : ActionID) : List Trigger := (s.binds.lookup id).getD []

/-- A trigger that is taken, and by whom. -/
structure Claim where
  t : Trigger
  owner : String

/-- What `Load` has of the entry it is in. -/
structure Entry where
  out : List Trigger
  keptKey : List Char
  claimed : List Claim

/-- One turn of the inner loop of `Load`. -/
def Entry.take (id : String) (e : Entry) (str : String) : Entry :=
  match Trigger.parse str.toList with
  | .error _ => e
  | .ok t =>
    if e.claimed.any fun c => c.t.equal t then e
    else if t.isKey = true ∧ e.keptKey ≠ [] then e
    else
      { out := e.out ++ [t]
        keptKey := if t.isKey then t.text else e.keptKey
        claimed := e.claimed ++ [⟨t, id⟩] }

/-- One turn of the outer loop. -/
def loadEntry (raw : RawBinds) (s : Store × List Claim) (id : String) : Store × List Claim :=
  let list := (raw.lookup id).getD []
  if recognised id = false then
    ({ s.1 with unknown := s.1.unknown.insert id list }, s.2)
  else
    let e := list.foldl (Entry.take id) ⟨[], [], s.2⟩
    if e.out ≠ [] then ({ s.1 with binds := s.1.binds.insert id e.out }, e.claimed)
    else (s.1, e.claimed)

/-- `sort.Strings` over the ids. -/
def sortedIDs (raw : RawBinds) : List String := raw.keys.insertionSort (· ≤ ·)

/-- `Load`; what the store held goes. -/
def load (raw : RawBinds) : Store := ((sortedIDs raw).foldl (loadEntry raw) (new, [])).1

/-- `Snapshot`. -/
def snapshot (s : Store) : RawBinds :=
  copyInto (fun _ list => list) s.unknown
    (copyInto (fun _ list => list.map fun t => String.ofList t.text) s.binds ∅)

/-- A list in the map; an empty one is deleted. -/
def entryOf (list : List Trigger) : Option (List Trigger) := if list = [] then none else some list

/-- The first trigger of the list that is equal, taken out. -/
def takeOut (t : Trigger) (list : List Trigger) : Option (Trigger × List Trigger) :=
  (list.find? fun e => e.equal t).map fun e => (e, list.eraseP fun e => e.equal t)

/-- The loop of `Add` over the other actions. -/
def steal (s : Store) (id : ActionID) (t : Trigger) : List ActionID → Store × Option Stolen
  | [] => (s, none)
  | other :: ids =>
    if other = id then s.steal id t ids
    else
      match takeOut t (s.triggers other) with
      | none => s.steal id t ids
      | some (e, rest) =>
        ({ s with binds := assign s.binds other (entryOf rest) },
          some ⟨other, e⟩)

/-- `Add`. -/
def add (o : IterOrder ActionID) (s : Store) (id : ActionID) (t : Trigger) :
    Store × Option Stolen :=
  if (s.triggers id).any fun e => e.equal t then (s, none)
  else
    let s :=
      if t.isKey then
        { s with binds := s.binds.insert id ((s.triggers id).filter fun e => !e.isKey) }
      else s
    let (s, stolen) := s.steal id t (o.order s.binds.keys)
    ({ s with binds := s.binds.insert id (s.triggers id ++ [t]) }, stolen)

/-- `RemoveAt`; `none` is `ErrNoSuchTrigger`. -/
def removeAt (s : Store) (id : ActionID) (i : ℤ) : Option Store :=
  let list := s.triggers id
  if i < 0 ∨ (list.length : ℤ) ≤ i then none
  else
    let rest := list.eraseIdx i.toNat
    some { s with binds := assign s.binds id (entryOf rest) }

/-- `Clear`. -/
def clear (s : Store) (id : ActionID) : Store := { s with binds := s.binds.erase id }

end Store

inductive StoreOp where
  | load (raw : RawBinds)
  | add (o : IterOrder ActionID) (id : ActionID) (t : Trigger)
  | removeAt (id : ActionID) (i : ℤ)
  | clear (id : ActionID)

def Store.perform (s : Store) : StoreOp → Store
  | .load raw => .load raw
  | .add o id t => (s.add o id t).1
  | .removeAt id i => (s.removeAt id i).getD s
  | .clear id => s.clear id

def Store.run (ops : List StoreOp) : Store := ops.foldl perform new

end VcsClient.Keybinds
