import Mathlib.Data.List.AList
import VcsClient.Lib.FirstMatch

/-!
# The notification list

One capped list of rows, newest first. A keyed row is a condition: raising the
key again with the content on screen changes nothing, resolving marks the row
and keeps it. Dismissing an unresolved row records the key as suppressed at the
content it had, so that the same content does not come back.

Every function here is one section under the notifier's lock. `Op.commit` is
the section of each entry point that publishes; `armLocked` and its like are
the coalescer's sections, which live here because dismissing a row cancels the
window of its key. Content is compared by a digest, the parameter `sha256`.
-/

namespace VcsClient.Notify

open VcsClient.Lib

/-- The key of a condition, empty for a row that is none. -/
abbrev Key := String

/-- An open set of names, of which three drive delivery. -/
abbrev Severity := String

def severityError : Severity := "error"

def severityWarn : Severity := "warn"

def severityInfo : Severity := "info"

def defaultCap : ℕ := 200

structure KV where
  key : String
  value : String
  deriving DecidableEq

structure Action where
  label : String
  icon : String
  kind : String
  target : String
  primary : Bool
  deriving DecidableEq

structure Item where
  id : String
  key : Key
  category : String
  severity : Severity
  icon : String
  title : String
  body : String
  context : List KV
  actions : List Action
  time : ℤ
  unread : Bool
  resolved : Bool
  deriving DecidableEq

structure Snapshot where
  items : List Item
  unread : ℕ
  deriving DecidableEq

/-- The list with its unread count. -/
def Snapshot.of (items : List Item) : Snapshot := ⟨items, items.countP (·.unread)⟩

/-- What a deferred call will do when its window closes. -/
inductive Change where
  | raise (item : Item)
  | resolve
  deriving DecidableEq

/-- One key's open window: the timer armed for it and the change it holds.
`stamp` is a ghost, the number of the call that change came from. -/
structure PendingChange where
  gen : ℕ
  timer : Option ℕ
  apply : Option Change
  stamp : ℕ
  deriving DecidableEq

/-- A timer of the runtime, to run `windowClosed(key, gen)` from `due` on. -/
structure Timer where
  key : Key
  gen : ℕ
  due : ℤ
  deriving DecidableEq

/-- What the notifier's lock guards, and the runtime's armed timers. -/
structure Notifier (δ : Type*) where
  cap : ℕ
  items : List Item
  seq : ℕ
  suppressed : AList fun _ : Key => δ
  cancelGen : ℕ
  pendingGen : ℕ
  pending : AList fun _ : Key => PendingChange
  windows : AList fun _ : Key => ℤ
  timerSeq : ℕ
  timers : AList fun _ : ℕ => Timer

/-! ## Fingerprints -/

/-- Each part, followed by a separator. -/
def write (parts : List String) : List UInt8 :=
  parts.flatMap fun p => p.toUTF8.data.toList ++ [0]

def formatBool (b : Bool) : String := if b then "true" else "false"

/-- The bytes a row is hashed from: everything the user can see of it. -/
def Item.stream (it : Item) : List UInt8 :=
  write [it.key, it.category, it.severity, it.icon, it.title, it.body] ++
    it.context.flatMap (fun kv => write [kv.key, kv.value]) ++
    it.actions.flatMap fun a => write [a.label, a.icon, a.kind, a.target, formatBool a.primary]

section
variable {δ : Type*} (sha256 : List UInt8 → δ)

def fingerprint (it : Item) : δ := sha256 it.stream

/-- The user sees the same in both rows. -/
def Item.SameContent (a b : Item) : Prop :=
  a.key = b.key ∧ a.category = b.category ∧ a.severity = b.severity ∧ a.icon = b.icon ∧
    a.title = b.title ∧ a.body = b.body ∧ a.context = b.context ∧ a.actions = b.actions

instance (a b : Item) : Decidable (a.SameContent b) := inferInstanceAs (Decidable (_ ∧ _))

theorem Item.SameContent.refl (a : Item) : a.SameContent a :=
  ⟨rfl, rfl, rfl, rfl, rfl, rfl, rfl, rfl⟩

theorem Item.SameContent.symm {a b : Item} (h : a.SameContent b) : b.SameContent a := by
  obtain ⟨h₁, h₂, h₃, h₄, h₅, h₆, h₇, h₈⟩ := h
  exact ⟨h₁.symm, h₂.symm, h₃.symm, h₄.symm, h₅.symm, h₆.symm, h₇.symm, h₈.symm⟩

theorem Item.SameContent.trans {a b c : Item} (h : a.SameContent b) (h' : b.SameContent c) :
    a.SameContent c := by
  obtain ⟨h₁, h₂, h₃, h₄, h₅, h₆, h₇, h₈⟩ := h
  obtain ⟨k₁, k₂, k₃, k₄, k₅, k₆, k₇, k₈⟩ := h'
  exact ⟨h₁.trans k₁, h₂.trans k₂, h₃.trans k₃, h₄.trans k₄, h₅.trans k₅, h₆.trans k₆,
    h₇.trans k₇, h₈.trans k₈⟩

theorem Item.SameContent.fingerprint_eq {a b : Item} (h : a.SameContent b) :
    fingerprint sha256 a = fingerprint sha256 b := by
  obtain ⟨h₁, h₂, h₃, h₄, h₅, h₆, h₇, h₈⟩ := h
  simp only [fingerprint, Item.stream, h₁, h₂, h₃, h₄, h₅, h₆, h₇, h₈]

end

/-! ## Ids -/

def idOf (seq : ℕ) : String := "n" ++ toString seq

theorem idOf_inj {a b : ℕ} (h : idOf a = idOf b) : a = b := by
  have hdigits : Nat.toDigits 10 a = Nat.toDigits 10 b := by
    have hlists := congrArg String.toList h
    simpa [idOf, Nat.toString_eq_ofList_toDigits] using hlists
  have := congrArg (Nat.ofDigitChars 10 · 0) hdigits
  simpa [Nat.ofDigitChars_toDigits] using this

/-! ## Locked sections of the list -/

/-- What a row becomes when it is put on the list. -/
def Item.stamped (it : Item) (id : String) (now : ℤ) : Item :=
  { it with id, time := now, resolved := false, unread := it.severity != severityInfo }

/-- A condition that cleared: the row stays and is no longer counted. -/
def Item.cleared (it : Item) : Item := { it with resolved := true, unread := false }

def Item.seen (it : Item) : Item := { it with unread := false }

/-- What one locked section leaves behind: the state, and what is to be
published and played after the lock is released. -/
structure Outcome (δ : Type*) where
  n : Notifier δ
  snap : Option Snapshot
  sound : Option Item

namespace Notifier

variable {δ : Type*}

/-- `New(Options{Cap: cap})`. -/
def new (δ : Type*) (cap : ℤ) : Notifier δ where
  cap := if cap ≤ 0 then defaultCap else cap.toNat
  items := []
  seq := 0
  suppressed := ∅
  cancelGen := 0
  pendingGen := 0
  pending := ∅
  windows := ∅
  timerSeq := 0
  timers := ∅

def snapshotLocked (n : Notifier δ) : Snapshot := .of n.items

/-- The row with this id, when it is to be heard. -/
def soundForLocked (n : Notifier δ) (id : String) : Option Item :=
  (n.items.find? (·.id == id)).filter (·.severity == severityError)

def insertLocked (n : Notifier δ) (now : ℤ) (item : Item) : String × Notifier δ :=
  let id := idOf (n.seq + 1)
  (id, { n with seq := n.seq + 1, items := (item.stamped id now :: n.items).take n.cap })

/-- The newest row with this key. -/
def findByKeyLocked (n : Notifier δ) (key : Key) : Option Item := n.items.find? (·.key == key)

def unchanged (n : Notifier δ) : Outcome δ := ⟨n, none, none⟩

/-- The section changed the list and publishes it. -/
def changed (n : Notifier δ) : Outcome δ := ⟨n, some n.snapshotLocked, none⟩

/-- The section put the row with this id on the list. -/
def announced (r : String × Notifier δ) : Outcome δ :=
  ⟨r.2, some r.2.snapshotLocked, r.2.soundForLocked r.1⟩

def post (n : Notifier δ) (now : ℤ) (item : Item) : Outcome δ :=
  announced (n.insertLocked now { item with key := "" })

def resolveReport (n : Notifier δ) (key : Key) : Outcome δ :=
  if key = "" then n.unchanged
  else
    let n := { n with suppressed := n.suppressed.erase key }
    match n.findByKeyLocked key with
    | none => n.unchanged
    | some it =>
      if it.resolved then n.unchanged
      else
        changed { n with items := modifyFirst (·.key == key) Item.cleared n.items }

def markRead (n : Notifier δ) (id : String) : Outcome δ :=
  if n.items.any (fun it => it.id == id && it.unread) then
    changed { n with
      items := modifyFirst (fun it => it.id == id && it.unread) Item.seen n.items }
  else n.unchanged

def markAllRead (n : Notifier δ) : Outcome δ :=
  if n.items.any (·.unread) then
    changed { n with items := n.items.map Item.seen }
  else n.unchanged

/-! ## Locked sections of the coalescer -/

def pendingResolveLocked (n : Notifier δ) (key : Key) : Bool :=
  match n.pending.lookup key with
  | none => false
  | some p => p.apply == some .resolve

/-- `timer.Stop()`. -/
def stop (n : Notifier δ) : Option ℕ → Notifier δ
  | none => n
  | some id => { n with timers := n.timers.erase id }

def retirePendingLocked (n : Notifier δ) (key : Key) : Notifier δ :=
  { n with pending := n.pending.erase key, windows := n.windows.erase key }

def cancelPendingLocked (n : Notifier δ) (key : Key) : Notifier δ :=
  let n := { n with cancelGen := n.cancelGen + 1 }
  match n.pending.lookup key with
  | none => n
  | some p => (n.stop p.timer).retirePendingLocked key

/-- `time.AfterFunc(window, func() { n.windowClosed(key, gen) })`, for the
entry `p` of the key. -/
def startTimer (n : Notifier δ) (now : ℤ) (key : Key) (window : ℤ) (p : PendingChange) :
    Notifier δ :=
  { n with
    windows := n.windows.insert key window
    timerSeq := n.timerSeq + 1
    timers := n.timers.insert (n.timerSeq + 1) ⟨key, p.gen, now + window⟩
    pending := n.pending.insert key { p with timer := some (n.timerSeq + 1) } }

/-- A new window has a new generation; a window kept open keeps its own. -/
def armLocked (n : Notifier δ) (now : ℤ) (key : Key) (window : ℤ) : Notifier δ :=
  match n.pending.lookup key with
  | none =>
    { n with pendingGen := n.pendingGen + 1 }.startTimer now key window
      ⟨n.pendingGen + 1, none, none, 0⟩
  | some p => (n.stop p.timer).startTimer now key window p

/-- Every window retired, every timer of a window stopped. -/
def stopTimersLoop : List (Sigma fun _ : Key => PendingChange) → Notifier δ → Notifier δ
  | [], n => n
  | e :: rest, n => stopTimersLoop rest ((n.stop e.2.timer).retirePendingLocked e.1)

def stopTimers (n : Notifier δ) : Notifier δ :=
  stopTimersLoop n.pending.entries { n with cancelGen := n.cancelGen + 1 }

section
variable [DecidableEq δ] (sha256 : List UInt8 → δ)

/-- `none`: the raise changes nothing. -/
def raiseLocked (n : Notifier δ) (now : ℤ) (key : Key) (item : Item) :
    Option (String × Notifier δ) :=
  let item := { item with key := key }
  let fp := fingerprint sha256 item
  let fresh := { n with suppressed := n.suppressed.erase key }.insertLocked now item
  if n.suppressed.lookup key = some fp then none
  else
    match n.findByKeyLocked key with
    | none => some fresh
    | some it =>
      if it.resolved then some fresh
      else if fingerprint sha256 it = fp then none
      else
        some (it.id, { n with
          items := modifyFirst (·.key == key) (fun _ => item.stamped it.id now) n.items })

def raiseReport (n : Notifier δ) (now : ℤ) (key : Key) (item : Item) : Outcome δ :=
  if key = "" then n.post now item
  else
    match n.raiseLocked sha256 now key item with
    | none => n.unchanged
    | some r => announced r

/-- What dismissing a row does to its key: the window is cancelled, and the key
is suppressed when its condition still holds, a deferred `Resolve` included. -/
def forget (n : Notifier δ) (it : Item) : Notifier δ :=
  if it.key = "" then n
  else
    let settledClear := n.pendingResolveLocked it.key
    let n := n.cancelPendingLocked it.key
    if !it.resolved && !settledClear then
      { n with suppressed := n.suppressed.insert it.key (fingerprint sha256 it) }
    else n

def dismiss (n : Notifier δ) (id : String) : Outcome δ :=
  match n.items.find? (·.id == id) with
  | none => n.unchanged
  | some it =>
    let n := n.forget sha256 it
    changed { n with items := n.items.eraseP (·.id == id) }

def clear (n : Notifier δ) : Outcome δ :=
  if n.items = [] then n.unchanged
  else
    let n := n.items.foldl (forget sha256) n
    changed { n with items := [] }

end

end Notifier

inductive Op where
  | post (item : Item)
  | raise (key : Key) (item : Item)
  | resolve (key : Key)
  | markRead (id : String)
  | markAllRead
  | dismiss (id : String)
  | clear
  deriving DecidableEq

/-- The locked section of an entry point. -/
def Op.commit {δ : Type*} [DecidableEq δ] (sha256 : List UInt8 → δ) (now : ℤ) (n : Notifier δ) :
    Op → Outcome δ
  | .post item => n.post now item
  | .raise key item => n.raiseReport sha256 now key item
  | .resolve key => n.resolveReport key
  | .markRead id => n.markRead id
  | .markAllRead => n.markAllRead
  | .dismiss id => n.dismiss sha256 id
  | .clear => n.clear sha256

end VcsClient.Notify
