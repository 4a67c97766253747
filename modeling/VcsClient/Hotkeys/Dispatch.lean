import Mathlib.Data.List.AList
import Mathlib.Data.List.Sort
import Mathlib.Data.String.Basic
import VcsClient.Lib.Listing
import VcsClient.Lib.Log

/-!
# The hotkey dispatcher

`internal/hotkeys/dispatch.go`: key transitions are matched against the bound
actions, an action that is down is latched, and every entry point first
changes the latches under the dispatcher's lock and then makes the `Handler`
calls it collected. Here an entry point is a function to the calls it owes and
the new dispatcher; when they are made is the subject of the next module.

`Sheds` and `Latches` say what an entry point does to one action: at most one
latch goes, or comes, together with exactly one call.
-/

namespace VcsClient.Hotkeys

open VcsClient.Lib

abbrev ActionID := String

abbrev KeyCode := UInt32

abbrev Mods := UInt8

inductive KeyEdge where
  | down
  | up
  deriving DecidableEq

structure KeyEvent where
  edge : KeyEdge
  code : KeyCode
  mods : Mods

/-- A handler, and whether it is a `StaleReleaser` too. -/
structure Handler where
  name : String
  staleReleaser : Bool
  deriving DecidableEq

structure BoundAction where
  code : KeyCode
  mods : Mods
  hold : Bool
  h : Handler

/-- A latch: its generation, and whether its watchdog is armed. -/
structure Latch where
  gen : UInt64
  timer : Bool

structure Dispatcher where
  binds : AList fun _ : ActionID => BoundAction
  latched : AList fun _ : ActionID => Latch
  gen : UInt64
  staleAfter : ℤ

def newDispatcher (staleAfter : ℤ) : Dispatcher := ⟨∅, ∅, 0, staleAfter⟩

/-- A call to make once the lock is dropped. -/
structure Pending where
  id : ActionID
  h : Handler

def sortPending (p : List Pending) : List Pending := p.insertionSort fun a b => a.id ≤ b.id

inductive CallKind where
  | pressed
  | released
  | forceReleased
  deriving DecidableEq

structure Call where
  kind : CallKind
  h : Handler
  id : ActionID
  deriving DecidableEq

def pressedCalls (p : List Pending) : List Call := p.map fun r => ⟨.pressed, r.h, r.id⟩

def releasedCalls (p : List Pending) : List Call := p.map fun r => ⟨.released, r.h, r.id⟩

namespace Dispatcher

def takeLatchLocked (d : Dispatcher) (actionID : ActionID) : List Pending × Dispatcher :=
  match d.latched.lookup actionID with
  | none => ([], d)
  | some _ =>
    let taken := { d with latched := d.latched.erase actionID }
    match d.binds.lookup actionID with
    | some b => (if b.hold then [⟨actionID, b.h⟩] else [], taken)
    | none => ([], taken)

def setLatchLocked (d : Dispatcher) (actionID : ActionID) (b : BoundAction) : Dispatcher :=
  { d with
    gen := d.gen + 1
    latched := d.latched.insert actionID ⟨d.gen + 1, b.hold && decide (0 < d.staleAfter)⟩ }

/-- The loop of `drainLatchedLocked`. -/
def takeAll : List ActionID → Dispatcher → List Pending × Dispatcher
  | [], d => ([], d)
  | id :: ids, d =>
    let r := d.takeLatchLocked id
    let r' := takeAll ids r.2
    (r.1 ++ r'.1, r'.2)

def drainLatchedLocked (o : IterOrder ActionID) (d : Dispatcher) : List Pending × Dispatcher :=
  let r := takeAll (o.order d.latched.keys) d
  (sortPending r.1, r.2)

def add (d : Dispatcher) (actionID : ActionID) (b : BoundAction) : List Call × Dispatcher :=
  let r := d.takeLatchLocked actionID
  (releasedCalls r.1, { r.2 with binds := d.binds.insert actionID b })

def clear (o : IterOrder ActionID) (d : Dispatcher) : List Call × Dispatcher :=
  let r := d.drainLatchedLocked o
  (releasedCalls r.1, { r.2 with binds := ∅ })

def releaseHeld (o : IterOrder ActionID) (d : Dispatcher) : List Call × Dispatcher :=
  let r := d.drainLatchedLocked o
  (releasedCalls r.1, r.2)

/-- The loop of `handle` on a key down: exact chord match, repeats skipped. -/
def pressLoop (e : KeyEvent) : List ActionID → Dispatcher → List Pending × Dispatcher
  | [], d => ([], d)
  | id :: ids, d =>
    match d.binds.lookup id with
    | none => pressLoop e ids d
    | some b =>
      if b.code ≠ e.code ∨ b.mods ≠ e.mods then pressLoop e ids d
      else if (d.latched.lookup id).isSome then pressLoop e ids d
      else
        let r := pressLoop e ids (d.setLatchLocked id b)
        (⟨id, b.h⟩ :: r.1, r.2)

/-- The loop of `handle` on a key up: any latched action of the key. -/
def releaseLoop (e : KeyEvent) : List ActionID → Dispatcher → List Pending × Dispatcher
  | [], d => ([], d)
  | id :: ids, d =>
    match d.binds.lookup id with
    | none => releaseLoop e ids d
    | some b =>
      if b.code ≠ e.code ∨ (d.latched.lookup id).isNone then releaseLoop e ids d
      else
        let r := d.takeLatchLocked id
        let r' := releaseLoop e ids r.2
        (r.1 ++ r'.1, r'.2)

def handle (o : IterOrder ActionID) (d : Dispatcher) (e : KeyEvent) : List Call × Dispatcher :=
  match e.edge with
  | .down =>
    let r := pressLoop e (o.order d.binds.keys) d
    (pressedCalls (sortPending r.1), r.2)
  | .up =>
    let r := releaseLoop e (o.order d.binds.keys) d
    (releasedCalls (sortPending r.1), r.2)

/-- The watchdog of generation `gen` fires: a handler that wants to know is told
right before its `Released`. -/
def forceRelease (d : Dispatcher) (actionID : ActionID) (gen : UInt64) : List Call × Dispatcher :=
  match d.latched.lookup actionID with
  | none => ([], d)
  | some l =>
    if l.gen ≠ gen then ([], d)
    else
      let r := d.takeLatchLocked actionID
      (r.1.flatMap fun p =>
        (if p.h.staleReleaser then [⟨.forceReleased, p.h, p.id⟩] else []) ++
          [⟨.released, p.h, p.id⟩], r.2)

end Dispatcher

/-! ## The edges of one action -/

def Call.edge (c : Call) : Option Edge :=
  match c.kind with
  | .pressed => some .press
  | .released => some .release
  | .forceReleased => none

/-- The `Pressed` and `Released` calls of an action, as edges. -/
def edges (actionID : ActionID) (calls : List Call) : List Edge :=
  (calls.filter (·.id = actionID)).filterMap Call.edge

@[simp] theorem edges_nil (actionID : ActionID) : edges actionID [] = [] := rfl

@[simp] theorem edges_append (actionID : ActionID) (l l' : List Call) :
    edges actionID (l ++ l') = edges actionID l ++ edges actionID l' := by
  simp [edges]

/-- The pending calls of an action. -/
def pendingOf (actionID : ActionID) (p : List Pending) : List Pending :=
  p.filter (·.id = actionID)

theorem edges_pressedCalls (actionID : ActionID) (p : List Pending) :
    edges actionID (pressedCalls p) = (pendingOf actionID p).map fun _ => .press := by
  simp [edges, pressedCalls, pendingOf, List.filter_map, List.filterMap_map, Function.comp_def,
    Call.edge]

theorem edges_releasedCalls (actionID : ActionID) (p : List Pending) :
    edges actionID (releasedCalls p) = (pendingOf actionID p).map fun _ => .release := by
  simp [edges, releasedCalls, pendingOf, List.filter_map, List.filterMap_map, Function.comp_def,
    Call.edge]

theorem pendingOf_sortPending (actionID : ActionID) (p : List Pending) :
    (pendingOf actionID (sortPending p)).Perm (pendingOf actionID p) :=
  (List.perm_insertionSort _ p).filter _

section Moves

variable {actionID : ActionID} {d d' d'' : Dispatcher} {p p' : List Pending}

/-- The latch of the action goes with one pending call, or nothing happens to
the action. -/
def Sheds (actionID : ActionID) (d : Dispatcher) (p : List Pending) (d' : Dispatcher) : Prop :=
  (actionID ∈ d.latched ∧ actionID ∉ d'.latched ∧ ∃ r, pendingOf actionID p = [r]) ∨
  ((actionID ∈ d'.latched ↔ actionID ∈ d.latched) ∧ pendingOf actionID p = [])

/-- The latch of the action comes with one pending call, or nothing happens to
the action. -/
def Latches (actionID : ActionID) (d : Dispatcher) (p : List Pending) (d' : Dispatcher) : Prop :=
  (actionID ∉ d.latched ∧ actionID ∈ d'.latched ∧ ∃ r, pendingOf actionID p = [r]) ∨
  ((actionID ∈ d'.latched ↔ actionID ∈ d.latched) ∧ pendingOf actionID p = [])

/-- A bound action holds, and only a bound action is latched. -/
structure Holds (actionID : ActionID) (d : Dispatcher) : Prop where
  hold : ∀ b, d.binds.lookup actionID = some b → b.hold = true
  bound : actionID ∈ d.latched → actionID ∈ d.binds

theorem Sheds.refl (actionID : ActionID) (d : Dispatcher) : Sheds actionID d [] d :=
  .inr ⟨Iff.rfl, rfl⟩

theorem Latches.refl (actionID : ActionID) (d : Dispatcher) : Latches actionID d [] d :=
  .inr ⟨Iff.rfl, rfl⟩

theorem Sheds.trans (h : Sheds actionID d p d') (h' : Sheds actionID d' p' d'') :
    Sheds actionID d (p ++ p') d'' := by
  simp only [Sheds, pendingOf, List.filter_append] at *
  rcases h with ⟨hin, hout, r, hr⟩ | ⟨hsame, hr⟩ <;>
    rcases h' with ⟨hin', hout', r', hr'⟩ | ⟨hsame', hr'⟩ <;>
    simp only [hr, hr', List.nil_append, List.append_nil]
  · exact absurd hin' hout
  · exact .inl ⟨hin, fun hc => hout (hsame'.1 hc), r, rfl⟩
  · exact .inl ⟨hsame.1 hin', hout', r', rfl⟩
  · exact .inr ⟨hsame'.trans hsame, trivial⟩

theorem Latches.trans (h : Latches actionID d p d') (h' : Latches actionID d' p' d'') :
    Latches actionID d (p ++ p') d'' := by
  simp only [Latches, pendingOf, List.filter_append] at *
  rcases h with ⟨hout, hin, r, hr⟩ | ⟨hsame, hr⟩ <;>
    rcases h' with ⟨hout', hin', r', hr'⟩ | ⟨hsame', hr'⟩ <;>
    simp only [hr, hr', List.nil_append, List.append_nil]
  · exact absurd hin hout'
  · exact .inl ⟨hout, hsame'.2 hin, r, rfl⟩
  · exact .inl ⟨fun hc => hout' (hsame.2 hc), hin', r', rfl⟩
  · exact .inr ⟨hsame'.trans hsame, trivial⟩

theorem Sheds.sort (h : Sheds actionID d p d') : Sheds actionID d (sortPending p) d' := by
  have hp := pendingOf_sortPending actionID p
  rcases h with ⟨hin, hout, r, hr⟩ | ⟨hsame, hr⟩ <;> rw [hr] at hp
  · exact .inl ⟨hin, hout, r, List.perm_singleton.1 hp⟩
  · exact .inr ⟨hsame, hp.eq_nil⟩

theorem Latches.sort (h : Latches actionID d p d') : Latches actionID d (sortPending p) d' := by
  have hp := pendingOf_sortPending actionID p
  rcases h with ⟨hin, hout, r, hr⟩ | ⟨hsame, hr⟩ <;> rw [hr] at hp
  · exact .inl ⟨hin, hout, r, List.perm_singleton.1 hp⟩
  · exact .inr ⟨hsame, hp.eq_nil⟩

theorem Sheds.edges (h : Sheds actionID d p d') :
    exec Edge.apply (decide (actionID ∈ d.latched)) (edges actionID (releasedCalls p)) =
      some (decide (actionID ∈ d'.latched)) := by
  rw [edges_releasedCalls]
  rcases h with ⟨hin, hout, r, hr⟩ | ⟨hsame, hr⟩
  · simp [hr, hin, hout, exec, Edge.apply]
  · simp [hr, hsame]

theorem Latches.edges (h : Latches actionID d p d') :
    exec Edge.apply (decide (actionID ∈ d.latched)) (edges actionID (pressedCalls p)) =
      some (decide (actionID ∈ d'.latched)) := by
  rw [edges_pressedCalls]
  rcases h with ⟨hout, hin, r, hr⟩ | ⟨hsame, hr⟩
  · simp [hr, hin, hout, exec, Edge.apply]
  · simp [hr, hsame]

end Moves

namespace Dispatcher

variable {actionID : ActionID} {d : Dispatcher}

@[simp] theorem takeLatchLocked_binds (d : Dispatcher) (id : ActionID) :
    (d.takeLatchLocked id).2.binds = d.binds := by
  unfold takeLatchLocked
  split
  · rfl
  · split <;> rfl

theorem takeLatchLocked_sheds (h : Holds actionID d) (id : ActionID) :
    Sheds actionID d (d.takeLatchLocked id).1 (d.takeLatchLocked id).2 := by
  unfold takeLatchLocked
  cases hl : d.latched.lookup id with
  | none => exact .refl actionID d
  | some l =>
    have hmem : id ∈ d.latched := AList.lookup_isSome.1 (by rw [hl]; rfl)
    by_cases he : actionID = id
    · subst he
      obtain ⟨b, hb⟩ := Option.isSome_iff_exists.1 (AList.lookup_isSome.2 (h.bound hmem))
      simp only [hb, h.hold b hb, if_true]
      refine .inl ⟨hmem, fun hc => ?_, ⟨actionID, b.h⟩, by simp [pendingOf]⟩
      exact (AList.mem_erase.1 hc).1 rfl
    · have hne : id ≠ actionID := fun hc => he hc.symm
      have hsame : actionID ∈ d.latched.erase id ↔ actionID ∈ d.latched :=
        ⟨fun hc => (AList.mem_erase.1 hc).2, fun hc => AList.mem_erase.2 ⟨he, hc⟩⟩
      simp only
      split
      · refine .inr ⟨hsame, ?_⟩
        split <;> simp [pendingOf, hne]
      · exact .inr ⟨hsame, rfl⟩

theorem takeLatchLocked_subset (d : Dispatcher) (id : ActionID)
    (h : actionID ∈ (d.takeLatchLocked id).2.latched) : actionID ∈ d.latched := by
  unfold takeLatchLocked at h
  split at h
  · exact h
  · split at h <;> exact (AList.mem_erase.1 h).2

theorem takeLatchLocked_not_mem (d : Dispatcher) (id : ActionID) :
    id ∉ (d.takeLatchLocked id).2.latched := by
  unfold takeLatchLocked
  cases hl : d.latched.lookup id with
  | none => exact AList.lookup_eq_none.1 hl
  | some l =>
    simp only
    split <;> exact fun hc => (AList.mem_erase.1 hc).1 rfl

theorem holds_takeLatchLocked (h : Holds actionID d) (id : ActionID) :
    Holds actionID (d.takeLatchLocked id).2 := by
  refine ⟨fun b hb => h.hold b (by rwa [takeLatchLocked_binds] at hb), fun hc => ?_⟩
  rw [takeLatchLocked_binds]
  exact h.bound (takeLatchLocked_subset d id hc)

theorem takeAll_spec (ids : List ActionID) (h : Holds actionID d) :
    Sheds actionID d (takeAll ids d).1 (takeAll ids d).2 ∧ Holds actionID (takeAll ids d).2 := by
  induction ids generalizing d with
  | nil => exact ⟨.refl actionID d, h⟩
  | cons id ids ih =>
    obtain ⟨hsheds, hholds⟩ := ih (holds_takeLatchLocked h id)
    exact ⟨(takeLatchLocked_sheds h id).trans hsheds, hholds⟩

theorem takeAll_subset (ids : List ActionID) (d : Dispatcher)
    (h : actionID ∈ (takeAll ids d).2.latched) : actionID ∈ d.latched ∧ actionID ∉ ids := by
  induction ids generalizing d with
  | nil => exact ⟨h, List.not_mem_nil⟩
  | cons id ids ih =>
    obtain ⟨hmem, hids⟩ := ih _ h
    refine ⟨takeLatchLocked_subset d id hmem, fun hc => ?_⟩
    rcases List.mem_cons.1 hc with rfl | hc
    · exact takeLatchLocked_not_mem d _ hmem
    · exact hids hc

theorem drainLatchedLocked_spec (o : IterOrder ActionID) (h : Holds actionID d) :
    Sheds actionID d (d.drainLatchedLocked o).1 (d.drainLatchedLocked o).2 ∧
      actionID ∉ (d.drainLatchedLocked o).2.latched ∧
      Holds actionID (d.drainLatchedLocked o).2 := by
  obtain ⟨hsheds, hholds⟩ := takeAll_spec (o.order d.latched.keys) h
  refine ⟨hsheds.sort, fun hc => ?_, hholds⟩
  obtain ⟨hmem, hids⟩ := takeAll_subset _ _ hc
  exact hids ((o.perm _).symm.subset (AList.mem_keys.2 hmem))

theorem releaseLoop_spec (e : KeyEvent) (ids : List ActionID) (h : Holds actionID d) :
    Sheds actionID d (releaseLoop e ids d).1 (releaseLoop e ids d).2 ∧
      Holds actionID (releaseLoop e ids d).2 := by
  induction ids generalizing d with
  | nil => exact ⟨.refl actionID d, h⟩
  | cons id ids ih =>
    simp only [releaseLoop]
    split
    · exact ih h
    · split
      · exact ih h
      · obtain ⟨hsheds, hholds⟩ := ih (holds_takeLatchLocked h id)
        exact ⟨(takeLatchLocked_sheds h id).trans hsheds, hholds⟩

theorem setLatchLocked_latches {id : ActionID} {b : BoundAction} (hm : id ∉ d.latched) :
    Latches actionID d [⟨id, b.h⟩] (d.setLatchLocked id b) := by
  by_cases he : actionID = id
  · subst he
    exact .inl ⟨hm, AList.mem_insert _ |>.2 (.inl rfl), _, by simp [pendingOf]; rfl⟩
  · have hne : id ≠ actionID := fun hc => he hc.symm
    refine .inr ⟨?_, by simp [pendingOf, hne]⟩
    simp [setLatchLocked, AList.mem_insert, he]

theorem pressLoop_spec (e : KeyEvent) (ids : List ActionID) (h : Holds actionID d) :
    Latches actionID d (pressLoop e ids d).1 (pressLoop e ids d).2 ∧
      Holds actionID (pressLoop e ids d).2 := by
  induction ids generalizing d with
  | nil => exact ⟨.refl actionID d, h⟩
  | cons id ids ih =>
    simp only [pressLoop]
    split
    · exact ih h
    · next b hb =>
      split
      · exact ih h
      · split
        · exact ih h
        · next hm =>
          have hm : id ∉ d.latched := fun hc => hm (AList.lookup_isSome.2 hc)
          have hset : Holds actionID (d.setLatchLocked id b) := by
            refine ⟨h.hold, fun hc => ?_⟩
            rcases (AList.mem_insert _).1 hc with rfl | hc
            · exact AList.lookup_isSome.1 (by rw [setLatchLocked, hb]; rfl)
            · exact h.bound hc
          obtain ⟨hlatches, hholds⟩ := ih hset
          exact ⟨(setLatchLocked_latches hm).trans hlatches, hholds⟩

end Dispatcher

end VcsClient.Hotkeys
