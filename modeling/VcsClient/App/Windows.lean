import Mathlib.Data.List.AList
import Mathlib.Data.List.Sort
import VcsClient.Lib.Announce
import VcsClient.Lib.Machine
import VcsClient.Lib.Saving

/-!
# The window registry

`Registry` of `internal/app/windows.go`. Any number of goroutines open, close and toggle windows
and set their geometry while the user moves them; a section of `mu`, a call into the window
system, a write of `windows.json` and an event is a step each.

The file is written under `saveMu`, so the last geometry is the one it ends with
(`geometry_stored`). The open set is announced outside any lock, and what the launcher ends with
is right as long as no announcement is overtaken (`launcher_told`). The windows themselves are
numbered as they are created.
-/

namespace VcsClient.App

open VcsClient.Lib

abbrev WindowId := String

structure Geometry where
  x : ℤ
  y : ℤ
  w : ℤ
  h : ℤ
  deriving DecidableEq

def defaultGeometry (id : WindowId) : Geometry :=
  if id = "comms" then ⟨1190, 70, 540, 720⟩
  else if id = "notifications" then ⟨1150, 120, 520, 640⟩
  else ⟨160, 90, 1440, 900⟩

/-- What follows `persist`. -/
inductive AfterSave where
  | return_
  | broadcast
  | observe (id : WindowId) (g : Geometry)
  deriving DecidableEq

inductive WindowCall where
  | open_ (id : WindowId)
  | close (id : WindowId)
  | toggle (id : WindowId)
  | setGeometry (id : WindowId) (g : Geometry)
  /-- On the event thread, after a move or resize. -/
  | scheduleBounds (id : WindowId) (h : ℕ)
  /-- The timer's callback. -/
  | settleBounds (id : WindowId) (h : ℕ)
  | settled (id : WindowId) (h : ℕ) (g : Geometry)
  | setBounds (h : ℕ) (g : Geometry)
  /-- `Close` has unregistered the window. -/
  | bounds (id : WindowId) (h : ℕ)
  | closeHandle (id : WindowId) (h : ℕ) (g : Geometry)
  | record (id : WindowId) (g : Geometry)
  | persist (k : AfterSave)
  | clone (k : AfterSave)
  | save (snap : WindowId → Option Geometry) (k : AfterSave)
  | unlock (k : AfterSave)
  | broadcast
  /-- With the number of changes the ids were read after. -/
  | emit (stamp : ℕ) (ids : List WindowId)
  | observe (id : WindowId) (g : Geometry)

def AfterSave.call : AfterSave → Option WindowCall
  | .return_ => none
  | .broadcast => some .broadcast
  | .observe id g => some (.observe id g)

structure Registry where
  /-- The handles of the open windows. -/
  open_ : AList fun _ : WindowId => ℕ
  geom : WindowId → Option Geometry
  /-- The armed timers, each with the handle of its callback. -/
  timers : WindowId → Option ℕ
  saveMu : Bool
  /-- `windows.json` -/
  disk : WindowId → Option Geometry
  /-- The last write of it failed. -/
  failed : Bool
  -- the window system
  handles : ℕ
  owner : ℕ → WindowId
  where_ : ℕ → Geometry
  closed : List ℕ
  /-- What `EventWindowState` said last. -/
  launcher : List WindowId
  observed : List (WindowId × Geometry)
  calls : ℕ → Option WindowCall
  -- the record
  changes : ℕ
  told : ℕ

inductive WindowOp where
  /-- A binding is called, on a new goroutine. -/
  | call (i : ℕ) (c : WindowCall)
  /-- The user moves or resizes a window; `i` is the event thread's goroutine. -/
  | move (i h : ℕ) (g : Geometry)
  /-- A timer fires. -/
  | fire (i : ℕ) (id : WindowId)
  | run (i : ℕ) (ok : Bool)

def WindowCall.isBinding : WindowCall → Bool
  | .open_ _ | .close _ | .toggle _ | .setGeometry _ _ => true
  | _ => false

namespace Registry

/-- `NewRegistry`, with what `windows.json` holds. -/
def new (disk : WindowId → Option Geometry) : Registry where
  open_ := ∅
  geom := disk
  timers _ := none
  saveMu := false
  disk := disk
  failed := false
  handles := 0
  owner _ := ""
  where_ _ := ⟨0, 0, 0, 0⟩
  closed := []
  launcher := []
  observed := []
  calls _ := none
  changes := 0
  told := 0

def openIDsLocked (r : Registry) : List WindowId := r.open_.keys.mergeSort (· ≤ ·)

def setGeom (r : Registry) (id : WindowId) (g : Geometry) : Registry :=
  { r with geom := Function.update r.geom id (some g) }

/-- `factory.Create`, and its registration. -/
def create (r : Registry) (id : WindowId) : Registry :=
  { r with
    open_ := r.open_.insert id r.handles
    handles := r.handles + 1
    owner := Function.update r.owner r.handles id
    where_ := Function.update r.where_ r.handles ((r.geom id).getD (defaultGeometry id))
    changes := r.changes + 1 }

def unregister (r : Registry) (id : WindowId) : Registry :=
  { r with
    open_ := r.open_.erase id
    timers := Function.update r.timers id none
    changes := r.changes + 1 }

/-- One step of a call: the registry, and what is left of the call. -/
def advance (r : Registry) (ok : Bool) : WindowCall → Option (Registry × Option WindowCall)
  | .open_ id =>
    match r.open_.lookup id with
    | some _ => some (r, none)
    | none => some (r.create id, some .broadcast)
  | .close id =>
    match r.open_.lookup id with
    | none => some (r, none)
    | some h => some (r.unregister id, some (.bounds id h))
  | .toggle id =>
    some (r, some (if (r.open_.lookup id).isSome then .close id else .open_ id))
  | .setGeometry id g =>
    some (r.setGeom id g, some (match r.open_.lookup id with
      | some h => .setBounds h g
      | none => .persist .return_))
  | .scheduleBounds id h => some ({ r with timers := Function.update r.timers id (some h) }, none)
  | .settleBounds id h => some (r, some (.settled id h (r.where_ h)))
  | .settled id h g =>
    if r.open_.lookup id = some h then some (r.setGeom id g, some (.persist (.observe id g)))
    else some (r, none)
  | .setBounds h g =>
    some ({ r with where_ := Function.update r.where_ h g }, some (.persist .return_))
  | .bounds id h => some (r, some (.closeHandle id h (r.where_ h)))
  | .closeHandle id h g => some ({ r with closed := h :: r.closed }, some (.record id g))
  | .record id g => some (r.setGeom id g, some (.persist .broadcast))
  | .persist k => if r.saveMu then none else some ({ r with saveMu := true }, some (.clone k))
  | .clone k => some (r, some (.save r.geom k))
  | .save snap k =>
    some ({ r with disk := if ok then snap else r.disk, failed := !ok }, some (.unlock k))
  | .unlock k => some ({ r with saveMu := false }, k.call)
  | .broadcast => some (r, some (.emit r.changes r.openIDsLocked))
  | .emit stamp ids => some ({ r with launcher := ids, told := max r.told stamp }, none)
  | .observe id g => some ({ r with observed := (id, g) :: r.observed }, none)

def goto (r : Registry) (i : ℕ) (c : Option WindowCall) : Registry :=
  { r with calls := Function.update r.calls i c }

def step (r : Registry) : WindowOp → Option Registry
  | .call i c => if r.calls i = none ∧ c.isBinding then some (r.goto i (some c)) else none
  | .move i h g =>
    if r.calls i = none ∧ h < r.handles ∧ h ∉ r.closed then
      some ({ r with where_ := Function.update r.where_ h g }.goto i
        (some (.scheduleBounds (r.owner h) h)))
    else none
  | .fire i id =>
    match r.timers id with
    | none => none
    | some h =>
      if r.calls i = none then
        some ({ r with timers := Function.update r.timers id none }.goto i
          (some (.settleBounds id h)))
      else none
  | .run i ok =>
    match r.calls i with
    | none => none
    | some c => (r.advance ok c).map fun m => m.1.goto i m.2

/-! ## What a step does -/

def stageOf : Option WindowCall → Stage (WindowId → Option Geometry)
  | some (.setBounds _ _) | some (.persist _) => .owes
  | some (.clone _) => .copying
  | some (.save snap _) => .writing snap
  | some (.unlock _) => .unlocking
  | _ => .idle

/-- Whether a call has still to announce the open windows. -/
def dutyOf : Option WindowCall → Duty (List WindowId)
  | some (.bounds _ _) | some (.closeHandle _ _ _) | some (.record _ _) | some .broadcast =>
    .working
  | some (.persist .broadcast) | some (.clone .broadcast) | some (.save _ .broadcast)
  | some (.unlock .broadcast) => .working
  | some (.emit stamp ids) => .owes stamp ids
  | _ => .none

/-- The window a call has unregistered and not closed. -/
def handOf : Option WindowCall → Option ℕ
  | some (.bounds _ h) | some (.closeHandle _ h _) => some h
  | _ => none

def desk (r : Registry) : Desk ℕ (WindowId → Option Geometry) where
  stage i := stageOf (r.calls i)
  value := r.geom
  stored := r.disk
  failed := r.failed
  held := r.saveMu

def board (r : Registry) : Board ℕ (List WindowId) where
  duty i := dutyOf (r.calls i)
  value := r.openIDsLocked
  told := r.launcher
  clock := r.changes
  newest := r.told

/-- What a step of a call does to the file. -/
inductive Stores (r : Registry) (ok : Bool) : WindowCall → Registry × Option WindowCall → Prop
  | quiet {c m} (hgeom : m.1.geom = r.geom) (hdisk : m.1.disk = r.disk)
      (hfailed : m.1.failed = r.failed) (hmu : m.1.saveMu = r.saveMu)
      (hstage : stageOf m.2 = stageOf (some c)) : r.Stores ok c m
  | change {c m} (hdisk : m.1.disk = r.disk) (hfailed : m.1.failed = r.failed)
      (hmu : m.1.saveMu = r.saveMu) (hfree : (stageOf (some c)).holds = false)
      (hstage : stageOf m.2 = .owes) : r.Stores ok c m
  | lock {k} (hfree : r.saveMu = false) :
      r.Stores ok (.persist k) ({ r with saveMu := true }, some (.clone k))
  | copy {k} : r.Stores ok (.clone k) (r, some (.save r.geom k))
  | write {snap k} : r.Stores ok (.save snap k)
      ({ r with disk := if ok then snap else r.disk, failed := !ok }, some (.unlock k))
  | unlock {k} : r.Stores ok (.unlock k) ({ r with saveMu := false }, k.call)

/-- And to what the launcher is told. -/
inductive Tells (r : Registry) : WindowCall → Registry × Option WindowCall → Prop
  | quiet {c m} (hopen : m.1.open_ = r.open_) (hlauncher : m.1.launcher = r.launcher)
      (hchanges : m.1.changes = r.changes) (htold : m.1.told = r.told)
      (hduty : dutyOf m.2 = dutyOf (some c)) : r.Tells c m
  | change {c m} (hlauncher : m.1.launcher = r.launcher) (hchanges : m.1.changes = r.changes + 1)
      (htold : m.1.told = r.told) (hduty : dutyOf m.2 = .working) : r.Tells c m
  | promise : r.Tells .broadcast (r, some (.emit r.changes r.openIDsLocked))
  | tell {stamp ids} : r.Tells (.emit stamp ids)
      ({ r with launcher := ids, told := max r.told stamp }, none)

inductive Hands (r : Registry) : WindowCall → Registry × Option WindowCall → Prop
  | quiet {c m} (hopen : m.1.open_ = r.open_) (hhandles : m.1.handles = r.handles)
      (howner : m.1.owner = r.owner) (hclosed : m.1.closed = r.closed)
      (hhand : handOf m.2 = handOf (some c)) : r.Hands c m
  | create {id} (hnone : r.open_.lookup id = none) :
      r.Hands (.open_ id) (r.create id, some .broadcast)
  | unregister {id h} (hopen : r.open_.lookup id = some h) :
      r.Hands (.close id) (r.unregister id, some (.bounds id h))
  | shut {id h g} : r.Hands (.closeHandle id h g)
      ({ r with closed := h :: r.closed }, some (.record id g))

/-- The goroutine that moves, and its call before and after. -/
inductive Moves (r : Registry) : WindowOp → Registry → Prop
  | enter {op i c} (hi : r.calls i = none) (hstage : stageOf (some c) = .idle)
      (hduty : dutyOf (some c) = .none) (hhand : handOf (some c) = none) {r' : Registry}
      (hcalls : r'.calls = r.calls) (hdesk : r'.desk = r.desk) (hboard : r'.board = r.board)
      (hopen : r'.open_ = r.open_) (hhandles : r'.handles = r.handles)
      (howner : r'.owner = r.owner) (hclosed : r'.closed = r.closed) :
      r.Moves op (r'.goto i (some c))
  | run {i c ok m} (hi : r.calls i = some c) (hm : r.advance ok c = some m) :
      r.Moves (.run i ok) (m.1.goto i m.2)

variable {r r' : Registry} {c : WindowCall} {ok : Bool} {m : Registry × Option WindowCall} {i : ℕ}

theorem advance_calls (h : r.advance ok c = some m) : m.1.calls = r.calls := by
  cases c
  all_goals
    simp only [advance] at h
    repeat' split at h
    all_goals cases h
    all_goals rfl

theorem advance_stores (h : r.advance ok c = some m) : r.Stores ok c m := by
  cases c with
  | save snap k =>
    cases h
    exact .write
  | persist k =>
    simp only [advance] at h
    split at h
    · cases h
    · cases h
      exact .lock (by simpa using ‹¬r.saveMu = true›)
  | clone k =>
    cases h
    exact .copy
  | unlock k =>
    cases h
    exact .unlock
  | _ =>
    simp only [advance] at h
    repeat' split at h
    all_goals
      cases h
      first
        | exact .quiet rfl rfl rfl rfl rfl
        | exact .change rfl rfl rfl rfl rfl

theorem advance_tells (h : r.advance ok c = some m) : r.Tells c m := by
  cases c with
  | save snap k =>
    cases h
    exact .quiet rfl rfl rfl rfl (by cases k <;> rfl)
  | persist k =>
    simp only [advance] at h
    split at h
    · cases h
    · cases h
      exact .quiet rfl rfl rfl rfl (by cases k <;> rfl)
  | clone k =>
    cases h
    exact .quiet rfl rfl rfl rfl (by cases k <;> rfl)
  | unlock k =>
    cases h
    exact .quiet rfl rfl rfl rfl (by cases k <;> rfl)
  | broadcast =>
    cases h
    exact .promise
  | emit stamp ids =>
    cases h
    exact .tell
  | _ =>
    simp only [advance] at h
    repeat' split at h
    all_goals
      cases h
      first
        | exact .quiet rfl rfl rfl rfl rfl
        | exact .change rfl rfl rfl rfl

theorem advance_hands (h : r.advance ok c = some m) : r.Hands c m := by
  cases c with
  | open_ id =>
    simp only [advance] at h
    split at h
    · cases h
      exact .quiet rfl rfl rfl rfl rfl
    · cases h
      exact .create ‹_›
  | close id =>
    simp only [advance] at h
    split at h
    · cases h
      exact .quiet rfl rfl rfl rfl rfl
    · cases h
      exact .unregister ‹_›
  | closeHandle id win g =>
    cases h
    exact .shut
  | unlock k =>
    cases h
    exact .quiet rfl rfl rfl rfl (by cases k <;> rfl)
  | persist k =>
    simp only [advance] at h
    split at h
    · cases h
    · cases h
      exact .quiet rfl rfl rfl rfl rfl
  | _ =>
    simp only [advance] at h
    repeat' split at h
    all_goals
      cases h
      exact .quiet rfl rfl rfl rfl rfl

theorem step_moves {op : WindowOp} (h : r.step op = some r') : r.Moves op r' := by
  cases op with
  | call i c =>
    simp only [step] at h
    split at h
    · rename_i hc
      cases h
      cases c <;> first
        | exact .enter hc.1 rfl rfl rfl rfl rfl rfl rfl rfl rfl rfl
        | cases hc.2
    · cases h
  | move i h g =>
    simp only [step] at h
    split at h
    · rename_i hc
      cases h
      exact .enter hc.1 rfl rfl rfl rfl rfl rfl rfl rfl rfl rfl
    · cases h
  | fire i id =>
    simp only [step] at h
    split at h
    · cases h
    · split at h
      · cases h
        exact .enter ‹_› rfl rfl rfl rfl rfl rfl rfl rfl rfl rfl
      · cases h
  | run i ok =>
    simp only [step] at h
    split at h
    · cases h
    · obtain ⟨m, hm, rfl⟩ := Option.map_eq_some_iff.1 h
      exact .run ‹_› hm

theorem desk_goto (r : Registry) (i : ℕ) (c : Option WindowCall) : (r.goto i c).desk =
    { r.desk with stage := Function.update r.desk.stage i (stageOf c) } := by
  simp only [desk, goto, Desk.mk.injEq, and_true]
  exact Function.comp_update stageOf r.calls i c

theorem board_goto (r : Registry) (i : ℕ) (c : Option WindowCall) : (r.goto i c).board =
    { r.board with duty := Function.update r.board.duty i (dutyOf c) } := by
  simp only [board, goto, openIDsLocked, Board.mk.injEq, and_true]
  exact Function.comp_update dutyOf r.calls i c

/-! ## The file -/

theorem Moves.desk_sound {op : WindowOp} (h : r.desk.Sound) (hm : r.Moves op r') :
    r'.desk.Sound := by
  cases hm with
  | @enter op i c hi hstage _ _ r' _ hdesk =>
    have hsame : Function.update r'.desk.stage i (stageOf (some c)) = r'.desk.stage := by
      rw [hstage, hdesk, ← show r.desk.stage i = .idle from congrArg stageOf hi,
        Function.update_eq_self]
    rw [desk_goto, hsame, hdesk]
    exact h
  | @run i c ok m hi hm =>
    have hstage : r.desk.stage i = stageOf (some c) := congrArg stageOf hi
    have hcalls : m.1.desk.stage = r.desk.stage := by
      funext j
      rw [desk, advance_calls hm]
      rfl
    rw [desk_goto, hcalls]
    cases advance_stores hm with
    | quiet hgeom hdisk hfailed hmu hq =>
      rw [hq, ← hstage, Function.update_eq_self]
      simp only [desk, hgeom, hdisk, hfailed, hmu]
      exact h
    | change hdisk hfailed hmu hfree hq =>
      rw [hq]
      simp only [desk, hdisk, hfailed, hmu]
      exact h.change (by rw [hstage]; exact hfree) m.1.geom
    | lock hfree => exact h.lock hfree
    | copy => exact h.copy hstage
    | write => exact h.write hstage ok
    | unlock =>
      rename_i k
      have hidle : stageOf k.call = .idle := by cases k <;> rfl
      rw [hidle]
      exact h.unlock hstage

theorem desk_init (disk : WindowId → Option Geometry) : (new disk).desk.Sound where
  free _ _ := rfl
  alone _ _ hi := by cases hi
  fresh _ _ hi := by cases hi
  stored := .inr (.inr (.inr (.inr rfl)))

/-- **The file ends with the last geometry.** In every run, once every goroutine is done and if
the last write succeeded, `windows.json` holds the geometry in memory. -/
theorem geometry_stored (disk : WindowId → Option Geometry) (ops : List WindowOp) (r : Registry)
    (hrun : exec step (new disk) ops = some r) (hrest : ∀ i, r.calls i = none)
    (hok : r.failed = false) : r.disk = r.geom := by
  have h : r.desk.Sound := exec_invariant (I := fun r => r.desk.Sound)
    (fun _ _ _ h _ hs => (step_moves hs).desk_sound h) (desk_init disk) (Meets.trivial _ _ _) hrun
  exact h.settled (fun i => congrArg stageOf (hrest i)) hok

/-- The comms window is opened, dragged and closed; `ok` is whether the last write succeeds. -/
def session (g : Geometry) (ok : Bool) : List WindowOp :=
  [.call 0 (.open_ "comms"), .run 0 true, .run 0 true, .run 0 true,
    .move 1 0 g, .run 1 true, .fire 2 "comms", .call 0 (.close "comms"),
    -- the settle reads the bounds, and `Close` unregisters the window
    .run 2 true, .run 0 true, .run 2 true, .run 0 true, .run 0 true, .run 0 true,
    .run 0 true, .run 0 true, .run 0 ok, .run 0 true, .run 0 true, .run 0 true]

theorem geometry_stored_session : ∃ r, exec step (new fun _ => none) (session ⟨5, 6, 7, 8⟩ true) =
    some r ∧ r.disk = r.geom ∧ r.disk "comms" = some ⟨5, 6, 7, 8⟩ :=
  ⟨_, rfl, geometry_stored (fun _ => none) (session ⟨5, 6, 7, 8⟩ true) _ rfl (fun i => by
    match i with
    | 0 => rfl
    | 1 => rfl
    | 2 => rfl
    | i + 3 => rfl) rfl, rfl⟩

/-! ## The launcher -/

def stampOf : Option WindowCall → Option ℕ
  | some (.emit stamp _) => some stamp
  | _ => none

/-- An announcement is not made after that of a later change. -/
def InOrder (r : Registry) : WindowOp → Prop
  | .run i _ => ∀ stamp ∈ stampOf (r.calls i), r.told ≤ stamp
  | _ => True

instance (r : Registry) : ∀ op, Decidable (r.InOrder op)
  | .run i _ => inferInstanceAs (Decidable (∀ stamp ∈ stampOf (r.calls i), r.told ≤ stamp))
  | .call _ _ => .isTrue trivial
  | .move _ _ _ => .isTrue trivial
  | .fire _ _ => .isTrue trivial

theorem Moves.board_sound {op : WindowOp} (h : r.board.Sound) (ho : r.InOrder op)
    (hm : r.Moves op r') : r'.board.Sound := by
  cases hm with
  | @enter op i c hi _ hduty _ r' _ _ hboard =>
    have hsame : Function.update r'.board.duty i (dutyOf (some c)) = r'.board.duty := by
      rw [hduty, hboard, ← show r.board.duty i = .none from congrArg dutyOf hi,
        Function.update_eq_self]
    rw [board_goto, hsame, hboard]
    exact h
  | @run i c ok m hi hm =>
    have hduty : r.board.duty i = dutyOf (some c) := congrArg dutyOf hi
    have hcalls : m.1.board.duty = r.board.duty := by
      funext j
      rw [board, advance_calls hm]
      rfl
    rw [board_goto, hcalls]
    cases advance_tells hm with
    | quiet hopen hlauncher hchanges htold hq =>
      rw [hq, ← hduty, Function.update_eq_self]
      simp only [board, openIDsLocked, hopen, hlauncher, hchanges, htold]
      exact h
    | change hlauncher hchanges htold hq =>
      rw [hq]
      simp only [board, hlauncher, hchanges, htold]
      exact h.retract m.1.openIDsLocked
    | promise => exact h.promise
    | tell => exact h.announce hduty (ho _ (congrArg stampOf hi))

theorem board_init (disk : WindowId → Option Geometry) : (new disk).board.Sound where
  newest := le_rfl
  owes _ _ _ hi := by cases hi
  told := .inr (.inr ⟨rfl, by simp [board, openIDsLocked, new]⟩)

/-- **The launcher is told the open windows.** In every run in which no announcement is
overtaken by that of an earlier change, once every goroutine is done the last one lists the open
windows. -/
theorem launcher_told (disk : WindowId → Option Geometry) (ops : List WindowOp) (r : Registry)
    (hrun : exec step (new disk) ops = some r) (horder : Meets step InOrder (new disk) ops)
    (hrest : ∀ i, r.calls i = none) : r.launcher = r.openIDsLocked := by
  have h : r.board.Sound := exec_invariant (I := fun r => r.board.Sound)
    (fun _ _ _ h ho hs => (step_moves hs).board_sound h ho) (board_init disk) horder hrun
  exact h.settled fun i => congrArg dutyOf (hrest i)

theorem launcher_told_session : ∃ r, exec step (new fun _ => none) (session ⟨5, 6, 7, 8⟩ false) =
    some r ∧ r.launcher = r.openIDsLocked ∧ r.open_.keys = [] ∧ r.disk "comms" = none :=
  ⟨_, rfl, launcher_told (fun _ => none) (session ⟨5, 6, 7, 8⟩ false) _ rfl
    (by decide) (fun i => by
    match i with
    | 0 => rfl
    | 1 => rfl
    | 2 => rfl
    | i + 3 => rfl), rfl, rfl⟩

/-! ## The windows -/

/-- The window a goroutine has unregistered and not closed. -/
def inHand (r : Registry) (i : ℕ) : Option ℕ := handOf (r.calls i)

/-- A window is in the registry, in the hands of one `Close`, or closed. -/
structure Accounted (r : Registry) : Prop where
  registered : ∀ id h, r.open_.lookup id = some h → r.owner h = id ∧ h < r.handles ∧
    h ∉ r.closed ∧ ∀ i, r.inHand i ≠ some h
  inHand : ∀ i h, r.inHand i = some h → h < r.handles ∧ h ∉ r.closed
  alone : ∀ i j h, r.inHand i = some h → r.inHand j = some h → i = j
  once : r.closed.Nodup
  past : ∀ h ∈ r.closed, h < r.handles
  all : ∀ h < r.handles, r.open_.lookup (r.owner h) = some h ∨ h ∈ r.closed ∨
    ∃ i, r.inHand i = some h

theorem inHand_goto (r : Registry) (i : ℕ) (c : Option WindowCall) :
    (r.goto i c).inHand = Function.update r.inHand i (handOf c) :=
  Function.comp_update handOf r.calls i c

theorem accounted_new (disk : WindowId → Option Geometry) : (new disk).Accounted where
  registered _ _ h := by cases h
  inHand _ _ h := by cases h
  alone _ _ _ h := by cases h
  once := List.nodup_nil
  past _ h := by cases h
  all _ h := by cases h

/-- Nothing changes but what has nothing to do with the windows. -/
theorem Accounted.keep (h : r.Accounted) (hopen : r'.open_ = r.open_)
    (hhandles : r'.handles = r.handles) (howner : r'.owner = r.owner)
    (hclosed : r'.closed = r.closed) (hhand : r'.inHand = r.inHand) : r'.Accounted where
  registered := by rw [hopen, howner, hhandles, hclosed, hhand]; exact h.registered
  inHand := by rw [hhandles, hclosed, hhand]; exact h.inHand
  alone := by rw [hhand]; exact h.alone
  once := by rw [hclosed]; exact h.once
  past := by rw [hclosed, hhandles]; exact h.past
  all := by rw [hopen, howner, hhandles, hclosed, hhand]; exact h.all

theorem Accounted.create {id : WindowId} (h : r.Accounted) (hnone : r.open_.lookup id = none)
    (hhand : r'.inHand = r.inHand) (hopen : r'.open_ = r.open_.insert id r.handles)
    (hhandles : r'.handles = r.handles + 1)
    (howner : r'.owner = Function.update r.owner r.handles id) (hclosed : r'.closed = r.closed) :
    r'.Accounted where
  registered id' w hw := by
    rw [hopen] at hw
    rw [howner, hhandles, hclosed, hhand]
    by_cases he : id' = id
    · subst he
      obtain rfl : r.handles = w := by simpa using hw
      exact ⟨Function.update_self .., by omega, fun hc => (h.past _ hc).false,
        fun i hi => (h.inHand i _ hi).1.false⟩
    · rw [AList.lookup_insert_ne he] at hw
      obtain ⟨ho, hlt, hc, hi⟩ := h.registered id' w hw
      exact ⟨by rw [Function.update_of_ne hlt.ne, ho], by omega, hc, hi⟩
  inHand i w hi := by
    rw [hhand] at hi
    obtain ⟨hlt, hc⟩ := h.inHand i w hi
    exact ⟨by omega, hclosed ▸ hc⟩
  alone := by rw [hhand]; exact h.alone
  once := by rw [hclosed]; exact h.once
  past w hw := by
    have := h.past w (hclosed ▸ hw)
    omega
  all w hw := by
    rw [hopen, howner, hclosed, hhand]
    obtain rfl | hne := eq_or_ne w r.handles
    · rw [Function.update_self]
      exact .inl (AList.lookup_insert _)
    · rw [Function.update_of_ne hne]
      obtain hl | hrest := h.all w (by omega)
      · refine .inl ?_
        rw [AList.lookup_insert_ne, hl]
        rintro rfl
        rw [hnone] at hl
        cases hl
      · exact .inr hrest

theorem Accounted.unregister {id : WindowId} {w : ℕ} (h : r.Accounted)
    (hw : r.open_.lookup id = some w) (hfree : r.inHand i = none)
    (hhand : r'.inHand = Function.update r.inHand i (some w)) (hopen : r'.open_ = r.open_.erase id)
    (hhandles : r'.handles = r.handles) (howner : r'.owner = r.owner)
    (hclosed : r'.closed = r.closed) : r'.Accounted where
  registered id' w' hw' := by
    rw [hopen] at hw'
    have hne : id' ≠ id := by
      rintro rfl
      rw [AList.lookup_erase] at hw'
      cases hw'
    rw [AList.lookup_erase_ne hne] at hw'
    obtain ⟨ho, hlt, hc, hi⟩ := h.registered id' w' hw'
    rw [howner, hhandles, hclosed, hhand]
    refine ⟨ho, hlt, hc, fun j hj => ?_⟩
    by_cases hji : j = i
    · subst hji
      obtain rfl : w = w' := by simpa using hj
      exact hne (ho.symm.trans (h.registered id w hw).1)
    · rw [Function.update_of_ne hji] at hj
      exact hi j hj
  inHand j w' hj := by
    rw [hhand] at hj
    rw [hhandles, hclosed]
    by_cases hji : j = i
    · subst hji
      obtain rfl : w = w' := by simpa using hj
      exact ⟨(h.registered id w hw).2.1, (h.registered id w hw).2.2.1⟩
    · rw [Function.update_of_ne hji] at hj
      exact h.inHand j w' hj
  alone j k w' hj hk := by
    have hnew : ∀ n, n ≠ i → Function.update r.inHand i (some w) n ≠ some w := fun n hn => by
      rw [Function.update_of_ne hn]
      exact (h.registered id w hw).2.2.2 n
    rw [hhand] at hj hk
    by_cases hji : j = i <;> by_cases hki : k = i
    · rw [hji, hki]
    · subst hji
      obtain rfl : w = w' := by simpa using hj
      exact absurd hk (hnew k hki)
    · subst hki
      obtain rfl : w = w' := by simpa using hk
      exact absurd hj (hnew j hji)
    · rw [Function.update_of_ne hji] at hj
      rw [Function.update_of_ne hki] at hk
      exact h.alone j k w' hj hk
  once := by rw [hclosed]; exact h.once
  past := by rw [hclosed, hhandles]; exact h.past
  all w' hw' := by
    rw [hopen, howner, hclosed, hhand]
    obtain hl | hc | ⟨j, hj⟩ := h.all w' (hhandles ▸ hw')
    · by_cases he : r.owner w' = id
      · obtain rfl : w = w' := by rw [he, hw] at hl; simpa using hl
        exact .inr (.inr ⟨i, Function.update_self ..⟩)
      · exact .inl (by rw [AList.lookup_erase_ne he, hl])
    · exact .inr (.inl hc)
    · refine .inr (.inr ⟨j, ?_⟩)
      rw [Function.update_of_ne, hj]
      rintro rfl
      rw [hfree] at hj
      cases hj

theorem Accounted.shut {w : ℕ} (h : r.Accounted) (hw : r.inHand i = some w)
    (hhand : r'.inHand = Function.update r.inHand i none) (hopen : r'.open_ = r.open_)
    (hhandles : r'.handles = r.handles) (howner : r'.owner = r.owner)
    (hclosed : r'.closed = w :: r.closed) : r'.Accounted where
  registered id w' hw' := by
    obtain ⟨ho, hlt, hc, hi⟩ := h.registered id w' (hopen ▸ hw')
    rw [howner, hhandles, hclosed, hhand]
    refine ⟨ho, hlt, fun hmem => ?_, fun j hj => ?_⟩
    · obtain rfl | hmem := List.mem_cons.1 hmem
      · exact hi i hw
      · exact hc hmem
    · by_cases hji : j = i
      · rw [hji, Function.update_self] at hj
        cases hj
      · rw [Function.update_of_ne hji] at hj
        exact hi j hj
  inHand j w' hj := by
    rw [hhand] at hj
    by_cases hji : j = i
    · rw [hji, Function.update_self] at hj
      cases hj
    · rw [Function.update_of_ne hji] at hj
      obtain ⟨hlt, hc⟩ := h.inHand j w' hj
      rw [hhandles, hclosed]
      refine ⟨hlt, fun hmem => ?_⟩
      obtain rfl | hmem := List.mem_cons.1 hmem
      · exact hji (h.alone j i w' hj hw)
      · exact hc hmem
  alone j k w' hj hk := by
    rw [hhand] at hj hk
    by_cases hji : j = i
    · rw [hji, Function.update_self] at hj
      cases hj
    by_cases hki : k = i
    · rw [hki, Function.update_self] at hk
      cases hk
    rw [Function.update_of_ne hji] at hj
    rw [Function.update_of_ne hki] at hk
    exact h.alone j k w' hj hk
  once := by rw [hclosed]; exact List.nodup_cons.2 ⟨(h.inHand i w hw).2, h.once⟩
  past w' hw' := by
    rw [hclosed] at hw'
    rw [hhandles]
    obtain rfl | hw' := List.mem_cons.1 hw'
    · exact (h.inHand i w' hw).1
    · exact h.past w' hw'
  all w' hw' := by
    rw [hopen, howner, hclosed, hhand]
    obtain hl | hc | ⟨j, hj⟩ := h.all w' (hhandles ▸ hw')
    · exact .inl hl
    · exact .inr (.inl (List.mem_cons_of_mem _ hc))
    · by_cases hji : j = i
      · subst hji
        obtain rfl : w = w' := by rw [hw] at hj; simpa using hj
        exact .inr (.inl List.mem_cons_self)
      · exact .inr (.inr ⟨j, by rw [Function.update_of_ne hji, hj]⟩)

theorem Accounted.moves {op : WindowOp} (h : r.Accounted) (hm : r.Moves op r') : r'.Accounted := by
  cases hm with
  | @enter op i c hi _ _ hhand r' hcalls _ _ hopen hhandles howner hclosed =>
    refine h.keep hopen hhandles howner hclosed ?_
    have hnone : r.inHand i = none := congrArg handOf hi
    have hsame : r'.inHand = r.inHand := by funext j; rw [Registry.inHand, hcalls]; rfl
    rw [inHand_goto, hhand, hsame, ← hnone, Function.update_eq_self]
  | @run i c ok m hi hm =>
    have hself : r.inHand i = handOf (some c) := congrArg handOf hi
    have hsame : m.1.inHand = r.inHand := by
      funext j
      rw [Registry.inHand, advance_calls hm]
      rfl
    have hgoto := inHand_goto m.1 i m.2
    rw [hsame] at hgoto
    cases advance_hands hm with
    | quiet hopen hhandles howner hclosed hq =>
      refine h.keep hopen hhandles howner hclosed ?_
      rw [hgoto, hq, ← hself, Function.update_eq_self]
    | create hnone =>
      refine h.create hnone ?_ rfl rfl rfl rfl
      rw [hgoto, show handOf (some .broadcast) = r.inHand i from hself.symm,
        Function.update_eq_self]
    | unregister hopen => exact h.unregister hopen hself hgoto rfl rfl rfl rfl
    | shut => exact h.shut hself hgoto rfl rfl rfl rfl

/-- **No window is lost or closed twice.** In every state of every run no window was closed
twice, and once every goroutine is done the windows closed are the ones created that are not
open. -/
theorem windows_accounted (disk : WindowId → Option Geometry) (ops : List WindowOp) (r : Registry)
    (hrun : exec step (new disk) ops = some r) :
    r.closed.Nodup ∧ (∀ id h, r.open_.lookup id = some h → h < r.handles ∧ h ∉ r.closed) ∧
      ((∀ i, r.calls i = none) →
        ∀ h, h ∈ r.closed ↔ h < r.handles ∧ ∀ id, r.open_.lookup id ≠ some h) := by
  have h : r.Accounted := exec_invariant (I := Accounted)
    (fun _ _ _ h _ hs => h.moves (step_moves hs)) (accounted_new disk) (Meets.trivial _ _ _) hrun
  refine ⟨h.once, fun id w hw => ⟨(h.registered id w hw).2.1, (h.registered id w hw).2.2.1⟩,
    fun hrest w => ⟨fun hc => ⟨h.past w hc, fun id hw => (h.registered id w hw).2.2.1 hc⟩, ?_⟩⟩
  rintro ⟨hlt, hnone⟩
  obtain hl | hc | ⟨i, hi⟩ := h.all w hlt
  · exact absurd hl (hnone _)
  · exact hc
  · rw [Registry.inHand, hrest] at hi
    cases hi

theorem windows_accounted_session : ∃ r, exec step (new fun _ => none)
    (session ⟨5, 6, 7, 8⟩ true) = some r ∧ r.closed.Nodup ∧ r.closed = [0] ∧ r.handles = 1 :=
  ⟨_, rfl, (windows_accounted (fun _ => none) (session ⟨5, 6, 7, 8⟩ true) _ rfl).1, rfl, rfl⟩

end Registry

end VcsClient.App
