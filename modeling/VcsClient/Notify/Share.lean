import VcsClient.Notify.Instant
import VcsClient.Notify.Settles

/-!
# What a key sees of the notifier

A key's share of the notifier is the rows of the key without their ids, its
suppression, its window and what the goroutines have left to do with it. The
other keys, the numbers of ids, generations and timers, and one row, `x`, are
left out. `Share.step` runs a share on its own, on the calls of the key, the
steps of its goroutines, its timer and what the user does with its rows;
`System.inputs` says which of these a step of the notifier is.
-/

namespace VcsClient.Notify

open VcsClient.Lib

variable {δ : Type*}

/-! ## The share of a key -/

def Item.unnamed (it : Item) : Item := { it with id := "" }

structure OpenWindow where
  apply : Option Change
  period : ℤ
  due : Option ℤ
  deriving DecidableEq

/-- Its timer has fired. -/
def OpenWindow.fired (w : OpenWindow) : OpenWindow := { w with due := none }

/-- What follows a change that was applied. -/
inductive Follow where
  | ret
  | lead (window : ℤ)
  | trail (window : ℤ)
  deriving DecidableEq

/-- What a goroutine has left to do with the key. One that comes too late to
open, close or re-arm a window has only its change left. -/
inductive Stage where
  | coalesce (window : ℤ) (c : Change)
  | commit (c : Change) (k : Follow)
  | published (k : Follow)
  | arm (window : ℤ)
  | close
  | rearm (window : ℤ) (changed : Bool)
  deriving DecidableEq

@[ext] structure Share (δ : Type*) where
  rows : List Item
  suppressed : Option δ
  window : Option OpenWindow
  stages : ℕ → Option Stage

/-- What reaches the share of a key from outside. Rows are told by their place
among the rows of the share, newest first. -/
inductive Input where
  | call (g : ℕ) (c : Call)
  | run (g : ℕ) (now : ℤ)
  | fire (g : ℕ)
  | mark (i : ℕ)
  | markAll
  | dismiss (i : ℕ)
  | clear
  /-- The oldest row is pushed off the list. -/
  | lose
  /-- The window is cancelled, and no row of the share with it. -/
  | cancel
  /-- A window is cancelled while a call of the key is about to open one. -/
  | bump
  deriving DecidableEq

/-- The change an entry point makes, and its key; a `Post` raises no key. -/
def Op.about : Op → Option (Key × Change)
  | .post item => some ("", .raise item)
  | op => op.change?

def Follow.resume (changed : Bool) : Follow → Option Stage
  | .ret => none
  | .lead window => if changed then some (.arm window) else none
  | .trail window => some (.rearm window changed)

def Follow.published : Follow → Option Stage
  | .ret => none
  | k => some (.published k)

/-- The first stage of a call, when it is one of the key. -/
def Call.stage (k : Key) : Call → Option Stage
  | .plain op => (op.about.filter (·.1 = k)).map fun r => .commit r.2 .ret
  | .raiseWindowed key item window =>
    if key ≠ k then none
    else if k = "" then some (.commit (.raise item) .ret) else some (.coalesce window (.raise item))
  | .resolveWindowed key window =>
    if key ≠ k ∨ k = "" then none else some (.coalesce window .resolve)
  | .stopTimers => none

/-- The window is gone for the goroutine that was to close it. -/
def Stage.lapse : Stage → Option Stage
  | .commit c (.trail _) => some (.commit c .ret)
  | .published (.trail _) | .close | .rearm _ _ => none
  | st => some st

/-- A window was cancelled since the goroutine looked for one. -/
def Stage.miss : Stage → Option Stage
  | .commit c (.lead _) => some (.commit c .ret)
  | .published (.lead _) | .arm _ => none
  | st => some st

/-- The goroutine is on its way to open a window. -/
def Stage.leads : Stage → Bool
  | .commit _ (.lead _) | .published (.lead _) | .arm _ => true
  | _ => false

namespace Share

def goto (v : Share δ) (g : ℕ) (st : Option Stage) : Share δ :=
  { v with stages := Function.update v.stages g st }

def cancel (v : Share δ) : Share δ :=
  { v with window := none, stages := fun g => (v.stages g).bind Stage.lapse }

def bump (v : Share δ) : Share δ := { v with stages := fun g => (v.stages g).bind Stage.miss }

/-- The pending change will resolve the key. -/
def clears (v : Share δ) : Bool := v.window.any (·.apply == some .resolve)

/-- A row put on the list: the share has no ids. -/
def fresh (v : Share δ) (now : ℤ) (item : Item) : Share δ :=
  { v with rows := item.stamped "" now :: v.rows }

/-- The unresolved row, the newest one, and the others. -/
def live (v : Share δ) : Option (Item × List Item) :=
  match v.rows with
  | [] => none
  | it :: rest => if it.resolved then none else some (it, rest)

def resolve (v : Share δ) (k : Key) : Share δ × Bool :=
  if k = "" then (v, false)
  else
    match v.live with
    | none => ({ v with suppressed := none }, false)
    | some (it, rest) => ({ v with suppressed := none, rows := it.cleared :: rest }, true)

section
variable [DecidableEq δ] (sha256 : List UInt8 → δ) (k : Key)

def raise (v : Share δ) (now : ℤ) (item : Item) : Share δ × Bool :=
  let item := { item with key := k }
  let fp := fingerprint sha256 item
  if k = "" then (v.fresh now item, true)
  else if v.suppressed = some fp then (v, false)
  else
    match v.live with
    | none => ({ v with suppressed := none }.fresh now item, true)
    | some (it, rest) =>
      if fingerprint sha256 it = fp then (v, false)
      else ({ v with rows := item.stamped "" now :: rest }, true)

def apply (v : Share δ) (now : ℤ) : Change → Share δ × Bool
  | .raise item => v.raise sha256 k now item
  | .resolve => v.resolve k

/-- What taking a row away does to the window and the suppression. -/
def forget (v : Share δ) (it : Item) : Share δ :=
  if k = "" then v
  else
    let settled := v.clears
    let v := v.cancel
    if !it.resolved && !settled then { v with suppressed := some (fingerprint sha256 it) } else v

def advance (v : Share δ) (now : ℤ) (g : ℕ) : Stage → Share δ
  | .coalesce window c =>
    if window ≤ 0 then v.goto g (some (.commit c .ret))
    else
      match v.window with
      | some w => { v with window := some { w with apply := some c } }.goto g none
      | none => v.goto g (some (.commit c (.lead window)))
  | .commit c f =>
    let r := v.apply sha256 k now c
    r.1.goto g (if r.2 then f.published else f.resume false)
  | .published f => v.goto g (f.resume true)
  | .arm window =>
    match v.window with
    | some _ => v.goto g none
    | none => { v with window := some ⟨none, window, some (now + window)⟩ }.goto g none
  | .close =>
    match v.window with
    | none => v.goto g none
    | some w =>
      match w.apply with
      | none => v.cancel.goto g none
      | some c =>
        { v with window := some { w with apply := none } }.goto g
          (some (.commit c (.trail w.period)))
  | .rearm window changed =>
    match v.window with
    | none => v.goto g none
    | some w =>
      if window ≤ 0 ∨ !changed && w.apply.isNone then v.cancel.goto g none
      else { v with window := some ⟨w.apply, window, some (now + window)⟩ }.goto g none

def step (v : Share δ) : Input → Share δ
  | .call g c => v.goto g (c.stage k)
  | .run g now =>
    match v.stages g with
    | none => v
    | some st => v.advance sha256 k now g st
  | .fire g =>
    { v with window := v.window.map OpenWindow.fired }.goto g (some .close)
  | .mark i => { v with rows := v.rows.modify i Item.seen }
  | .markAll => { v with rows := v.rows.map Item.seen }
  | .dismiss i =>
    match v.rows[i]? with
    | none => v
    | some it => { v.forget sha256 k it with rows := v.rows.eraseIdx i }
  | .clear =>
    match v.rows with
    | [] => v
    | it :: _ => { v.forget sha256 k it with rows := [] }
  | .lose => { v with rows := v.rows.dropLast }
  | .cancel => v.cancel
  | .bump => v.bump

end

end Share

/-! ## The share in the notifier -/

section
variable (k : Key) (x : String)

/-- A row of the key, the one left out apart. -/
def Item.inShare (it : Item) : Bool := it.key == k && it.id != x

def shareRows (items : List Item) : List Item := items.filter (Item.inShare k x)

namespace Notifier

/-- The window of the key that is open has this generation. -/
def isOpen (n : Notifier δ) (gen : ℕ) : Bool := (n.pending.lookup k).any (·.gen == gen)

def openWindow (n : Notifier δ) : Option OpenWindow :=
  (n.pending.lookup k).map fun p =>
    ⟨p.apply, (n.windows.lookup k).getD 0, (p.timer.bind n.timers.lookup).map (·.due)⟩

end Notifier

def After.follow (n : Notifier δ) : After → Follow
  | .ret => .ret
  | .lead key window cancelGen => if key = k ∧ cancelGen = n.cancelGen then .lead window else .ret
  | .trail key gen window => if key = k ∧ n.isOpen k gen then .trail window else .ret

def Pc.stage (n : Notifier δ) : Pc → Option Stage
  | .coalesce key window c _ => if key = k then some (.coalesce window c) else none
  | .commit op _ after => (op.about.filter (·.1 = k)).map fun r => .commit r.2 (after.follow k n)
  | .publish _ _ after | .sound _ after => (after.follow k n).published
  | .arm key window cancelGen =>
    if key = k ∧ cancelGen = n.cancelGen then some (.arm window) else none
  | .close key gen => if key = k ∧ n.isOpen k gen then some .close else none
  | .rearm key gen window changed =>
    if key = k ∧ n.isOpen k gen then some (.rearm window changed) else none
  | .stop => none

/-- The share of the key in a notifier with these goroutines. -/
def shareOf (n : Notifier δ) (threads : AList fun _ : ℕ => Pc) : Share δ where
  rows := (shareRows k x n.items).map Item.unnamed
  suppressed := n.suppressed.lookup k
  window := n.openWindow k
  stages := fun g => (threads.lookup g).bind (Pc.stage k n)

def System.share (s : System δ) : Share δ := shareOf k x s.n s.threads

/-! ### What reaches it -/

/-- The section closed the window of the key. -/
def cancelled (n n' : Notifier δ) : List Input :=
  if (n.pending.lookup k).isSome && (n'.pending.lookup k).isNone then [.cancel] else []

/-- The last row of the list was pushed off, and was one of the share. -/
def lost (before after : List Item) : List Input :=
  if before.getLast?.any fun it => it.inShare k x && !after.any (·.id == it.id) then [.lose] else []

/-- What a section does to the rows of the share that its goroutines do not. -/
def Op.inputs (n n' : Notifier δ) : Op → List Input
  | .post _ | .raise _ _ => lost k x n.items n'.items
  | .resolve _ => []
  | .markRead id => (((shareRows k x n.items).findIdx? (·.id == id)).map Input.mark).toList
  | .markAllRead => [.markAll]
  | .dismiss id =>
    match (shareRows k x n.items).findIdx? (·.id == id) with
    | some i => [.dismiss i]
    | none => cancelled k n n'
  | .clear => if shareRows k x n.items = [] then cancelled k n n' else [.clear]

namespace System

/-- A call of the key is on its way to open a window. -/
def leading (s : System δ) : Bool :=
  s.threads.entries.any fun e => (e.2.stage k s.n).any Stage.leads

def bumped (s : System δ) (n' : Notifier δ) : List Input :=
  if n'.cancelGen ≠ s.n.cancelGen ∧ s.leading k then [.bump] else []

/-- A step of one of the key's goroutines. -/
def own (s : System δ) (g : ℕ) (pc : Pc) : List Input :=
  ((pc.stage k s.n).map fun _ => Input.run g s.now).toList

def runInputs [DecidableEq δ] (sha256 : List UInt8 → δ) (s : System δ) (g : ℕ) (pc : Pc) :
    List Input :=
  match pc with
  | .publish _ (some _) _ => []
  | .commit op _ _ =>
    let n' := (Op.commit sha256 s.now s.n op).n
    s.own k g pc ++ s.bumped k n' ++ op.inputs k x s.n n'
  | .stop => s.bumped k s.n.stopTimers ++ cancelled k s.n s.n.stopTimers
  | _ => s.own k g pc

/-- What a step of the notifier is to the share. -/
def inputs [DecidableEq δ] (sha256 : List UInt8 → δ) (s : System δ) : Label → List Input
  | .call g c => ((c.stage k).map fun _ => Input.call g c).toList
  | .run g =>
    match s.threads.lookup g with
    | none => []
    | some pc => s.runInputs k x sha256 g pc
  | .fire id g =>
    match s.n.timers.lookup id with
    | none => []
    | some t => if t.key = k ∧ s.n.isOpen k t.gen then [.fire g] else []
  | .tick _ => []

end System

end

/-! ## The windows of the other keys -/

/-- The window of the key and its timer are the same. -/
structure Notifier.SameWindow (k : Key) (n n' : Notifier δ) : Prop where
  pending : n'.pending.lookup k = n.pending.lookup k
  period : n'.windows.lookup k = n.windows.lookup k
  timer : ∀ p id, n.pending.lookup k = some p → p.timer = some id →
    n'.timers.lookup id = n.timers.lookup id

namespace Notifier.SameWindow

variable {k : Key} {n n' n'' : Notifier δ}

theorem refl (n : Notifier δ) : n.SameWindow k n := ⟨rfl, rfl, fun _ _ _ _ => rfl⟩

theorem trans (h : n.SameWindow k n') (h' : n'.SameWindow k n'') : n.SameWindow k n'' where
  pending := h'.pending.trans h.pending
  period := h'.period.trans h.period
  timer := fun p id hp ht => (h'.timer p id (h.pending.trans hp) ht).trans (h.timer p id hp ht)

theorem of_same [DecidableEq δ] (h : n.SameWindows n') : n.SameWindow k n' where
  pending := by rw [h.pending]
  period := by rw [h.windows]
  timer := fun p id _ _ => by rw [h.timers]

theorem isOpen (h : n.SameWindow k n') (gen : ℕ) : n'.isOpen k gen = n.isOpen k gen := by
  simp only [Notifier.isOpen, h.pending]

theorem openWindow (h : n.SameWindow k n') : n'.openWindow k = n.openWindow k := by
  simp only [Notifier.openWindow, h.pending, h.period]
  cases hp : n.pending.lookup k with
  | none => rfl
  | some p =>
    cases ht : p.timer with
    | none => simp [ht]
    | some id => simp [ht, h.timer p id hp ht]

theorem retire {key : Key} (hne : k ≠ key) : n.SameWindow k (n.retirePendingLocked key) where
  pending := AList.lookup_erase_ne hne
  period := AList.lookup_erase_ne hne
  timer := fun _ _ _ _ => rfl

end Notifier.SameWindow

namespace System

variable {k : Key} {s : System δ}

/-- The timers of two open windows are different. -/
theorem Windows.timer_ne (h : s.Windows) {key : Key} {p q : PendingChange} {i j : ℕ}
    (hp : s.n.pending.lookup k = some p) (hq : s.n.pending.lookup key = some q) (hne : k ≠ key)
    (hi : p.timer = some i) (hj : q.timer = some j) (harmed : s.n.timers.lookup i ≠ none) :
    i ≠ j := by
  rintro rfl
  obtain ⟨t, ht⟩ := Option.ne_none_iff_exists'.1 harmed
  have hgen : p.gen = q.gen := (h.timer k p i t hp hi ht).symm.trans (h.timer key q i t hq hj ht)
  exact hne (h.key_inj hp hq hgen)

theorem Windows.sameWindow_stop (h : s.Windows) {key : Key} {q : PendingChange}
    (hq : s.n.pending.lookup key = some q) (hne : k ≠ key) :
    s.n.SameWindow k (s.n.stop q.timer) := by
  cases hj : q.timer with
  | none => exact .refl _
  | some j =>
    refine ⟨rfl, rfl, fun p i hp hi => ?_⟩
    by_cases harmed : s.n.timers.lookup i = none
    · by_cases hij : i = j
      · subst hij
        exact (AList.lookup_erase _ _).trans harmed.symm
      · exact AList.lookup_erase_ne hij
    · exact AList.lookup_erase_ne (h.timer_ne hp hq hne hi hj harmed)

theorem Windows.sameWindow_cancel (h : s.Windows) {key : Key} (hne : k ≠ key) :
    s.n.SameWindow k (s.n.cancelPendingLocked key) := by
  have hgen : s.n.SameWindow k { s.n with cancelGen := s.n.cancelGen + 1 } :=
    ⟨rfl, rfl, fun _ _ _ _ => rfl⟩
  unfold Notifier.cancelPendingLocked
  simp only
  split
  · exact hgen
  · next q hq =>
    have hgen' : Windows { s with n := { s.n with cancelGen := s.n.cancelGen + 1 } } :=
      h.congr rfl rfl rfl rfl
    exact hgen.trans ((hgen'.sameWindow_stop hq hne).trans (.retire hne))

theorem Windows.sameWindow_forget (sha256 : List UInt8 → δ) (h : s.Windows) {it : Item}
    (hne : k ≠ it.key) : s.n.SameWindow k (s.n.forget sha256 it) := by
  have hcancel := h.sameWindow_cancel hne
  unfold Notifier.forget
  simp only
  split
  · exact .refl _
  · split
    · exact hcancel.trans ⟨rfl, rfl, fun _ _ _ _ => rfl⟩
    · exact hcancel

theorem Windows.sameWindow_arm (h : s.Windows) {key : Key} (hne : k ≠ key) (window : ℤ) :
    s.n.SameWindow k (s.n.armLocked s.now key window) := by
  -- the new timer has a number that no window has
  have hstart : ∀ n : Notifier δ, s.n.SameWindow k n → n.timerSeq = s.n.timerSeq → ∀ q,
      s.n.SameWindow k (n.startTimer s.now key window q) := by
    intro n hn hseq q
    refine hn.trans ⟨AList.lookup_insert_ne hne, AList.lookup_insert_ne hne, fun p i hp hi => ?_⟩
    refine AList.lookup_insert_ne fun he => ?_
    have := h.entryIds k p i (hn.pending ▸ hp) hi
    omega
  unfold Notifier.armLocked
  split
  · exact hstart { s.n with pendingGen := s.n.pendingGen + 1 } ⟨rfl, rfl, fun _ _ _ _ => rfl⟩ rfl _
  · next q hq =>
    refine hstart _ (h.sameWindow_stop hq hne) ?_ _
    cases q.timer <;> rfl

end System

/-! ## What a goroutine has left to do -/

/-- The generation a call looked for a window in. -/
def After.captured : After → Option ℕ
  | .lead _ _ cancelGen => some cancelGen
  | _ => none

def Pc.captured : Pc → Option ℕ
  | .commit _ _ k | .publish _ _ k | .sound _ k => k.captured
  | .arm _ _ cancelGen => some cancelGen
  | _ => none

section
variable {k : Key} {n n' : Notifier δ}

theorem follow_congr (hcancel : n'.cancelGen = n.cancelGen)
    (hopen : ∀ gen, n'.isOpen k gen = n.isOpen k gen) (after : After) :
    after.follow k n' = after.follow k n := by
  cases after <;> simp only [After.follow, hcancel, hopen]

theorem stage_congr (hcancel : n'.cancelGen = n.cancelGen)
    (hopen : ∀ gen, n'.isOpen k gen = n.isOpen k gen) (pc : Pc) : pc.stage k n' = pc.stage k n := by
  cases pc <;> simp only [Pc.stage, follow_congr hcancel hopen, hcancel, hopen]

/-- What is left of it when no window is open. -/
def Follow.lapse : Follow → Follow
  | .trail _ => .ret
  | f => f

/-- What is left of it when a window was cancelled. -/
def Follow.miss : Follow → Follow
  | .lead _ => .ret
  | f => f

theorem lapse_commit (c : Change) (f : Follow) :
    (Stage.commit c f).lapse = some (.commit c f.lapse) := by
  cases f <;> rfl

theorem lapse_published (f : Follow) : f.published.bind Stage.lapse = f.lapse.published := by
  cases f <;> rfl

theorem miss_commit (c : Change) (f : Follow) :
    (Stage.commit c f).miss = some (.commit c f.miss) := by
  cases f <;> rfl

theorem miss_published (f : Follow) : f.published.bind Stage.miss = f.miss.published := by
  cases f <;> rfl

theorem isOpen_of_none (h : n.pending.lookup k = none) (gen : ℕ) : n.isOpen k gen = false := by
  simp [Notifier.isOpen, h]

theorem follow_cancel (hcancel : n'.cancelGen = n.cancelGen) (hnone : n'.pending.lookup k = none)
    (after : After) : after.follow k n' = (after.follow k n).lapse := by
  cases after with
  | ret => rfl
  | lead key window gen =>
    simp only [After.follow, hcancel]
    split <;> rfl
  | trail key gen window =>
    simp only [After.follow, isOpen_of_none hnone, Bool.false_eq_true, and_false, if_false]
    split <;> rfl

theorem follow_bump (hopen : ∀ gen, n'.isOpen k gen = n.isOpen k gen)
    (hlt : n.cancelGen < n'.cancelGen) {after : After}
    (hle : ∀ c ∈ after.captured, c ≤ n.cancelGen) :
    after.follow k n' = (after.follow k n).miss := by
  cases after with
  | ret => rfl
  | lead key window gen =>
    have hgen : gen ≤ n.cancelGen := hle gen rfl
    simp only [After.follow]
    rw [if_neg (by omega)]
    split <;> rfl
  | trail key gen window =>
    simp only [After.follow, hopen]
    split <;> rfl

/-- No window is open: whoever was to close one has only a change left. -/
theorem stage_cancel (hcancel : n'.cancelGen = n.cancelGen) (hnone : n'.pending.lookup k = none)
    (pc : Pc) : pc.stage k n' = (pc.stage k n).bind Stage.lapse := by
  cases pc with
  | coalesce key window c stamp =>
    simp only [Pc.stage]
    split <;> rfl
  | commit op stamp after =>
    simp only [Pc.stage, follow_cancel hcancel hnone after]
    cases op.about.filter (·.1 = k) with
    | none => rfl
    | some r => exact (lapse_commit _ _).symm
  | publish snap sound after =>
    simp only [Pc.stage, follow_cancel hcancel hnone after, lapse_published]
  | sound it after => simp only [Pc.stage, follow_cancel hcancel hnone after, lapse_published]
  | arm key window gen =>
    simp only [Pc.stage, hcancel]
    split <;> rfl
  | close key gen =>
    simp only [Pc.stage, isOpen_of_none hnone, Bool.false_eq_true, and_false, if_false]
    split <;> rfl
  | rearm key gen window changed =>
    simp only [Pc.stage, isOpen_of_none hnone, Bool.false_eq_true, and_false, if_false]
    split <;> rfl
  | stop => rfl

/-- A window was cancelled: whoever was to open one has only a change left. -/
theorem stage_bump (hopen : ∀ gen, n'.isOpen k gen = n.isOpen k gen)
    (hlt : n.cancelGen < n'.cancelGen) {pc : Pc} (hle : ∀ c ∈ pc.captured, c ≤ n.cancelGen) :
    pc.stage k n' = (pc.stage k n).bind Stage.miss := by
  cases pc with
  | coalesce key window c stamp =>
    simp only [Pc.stage]
    split <;> rfl
  | commit op stamp after =>
    simp only [Pc.stage, follow_bump hopen hlt hle]
    cases op.about.filter (·.1 = k) with
    | none => rfl
    | some r => exact (miss_commit _ _).symm
  | publish snap sound after => simp only [Pc.stage, follow_bump hopen hlt hle, miss_published]
  | sound it after => simp only [Pc.stage, follow_bump hopen hlt hle, miss_published]
  | arm key window gen =>
    have hgen : gen ≤ n.cancelGen := hle gen rfl
    simp only [Pc.stage]
    rw [if_neg (by omega)]
    split <;> rfl
  | close key gen =>
    simp only [Pc.stage, hopen]
    split <;> rfl
  | rearm key gen window changed =>
    simp only [Pc.stage, hopen]
    split <;> rfl
  | stop => rfl

/-- A new window has a generation nobody carries. -/
theorem follow_fresh (hcancel : n'.cancelGen = n.cancelGen) (hnone : n.pending.lookup k = none)
    {after : After} (hopen : ∀ r ∈ after.token, n'.isOpen k r.2 = false) :
    after.follow k n' = after.follow k n := by
  cases after with
  | ret => rfl
  | lead key window gen => simp only [After.follow, hcancel]
  | trail key gen window =>
    have hgen : n'.isOpen k gen = false := hopen (key, gen) rfl
    simp only [After.follow, hgen, isOpen_of_none hnone]

theorem stage_fresh (hcancel : n'.cancelGen = n.cancelGen) (hnone : n.pending.lookup k = none)
    {pc : Pc} (hopen : ∀ r ∈ pc.token, n'.isOpen k r.2 = false) : pc.stage k n' = pc.stage k n := by
  cases pc with
  | coalesce key window c stamp => rfl
  | commit op stamp after => simp only [Pc.stage, follow_fresh hcancel hnone hopen]
  | publish snap sound after => simp only [Pc.stage, follow_fresh hcancel hnone hopen]
  | sound it after => simp only [Pc.stage, follow_fresh hcancel hnone hopen]
  | arm key window gen => simp only [Pc.stage, hcancel]
  | close key gen =>
    have hgen : n'.isOpen k gen = false := hopen (key, gen) rfl
    simp only [Pc.stage, hgen, isOpen_of_none hnone]
  | rearm key gen window changed =>
    have hgen : n'.isOpen k gen = false := hopen (key, gen) rfl
    simp only [Pc.stage, hgen, isOpen_of_none hnone]
  | stop => rfl

theorem follow_resume (n : Notifier δ) (after : After) (changed : Bool) :
    (after.resume changed).bind (Pc.stage k n) = (after.follow k n).resume changed := by
  cases after with
  | ret => rfl
  | lead key window gen =>
    simp only [After.resume, After.follow]
    cases changed <;> simp only [Bool.false_eq_true, if_true, if_false, Option.bind_some, Pc.stage,
      Option.bind_none] <;> split <;> rfl
  | trail key gen window =>
    simp only [After.resume, After.follow, Option.bind_some, Pc.stage]
    split <;> rfl

end

/-! ## The share after a section -/

theorem Share.goto_self {v : Share δ} {g : ℕ} {st : Option Stage} (h : v.stages g = st) :
    v.goto g st = v := by
  rw [Share.goto, ← h, Function.update_eq_self]

section
variable {k : Key} {x : String} {n n' : Notifier δ} {threads : AList fun _ : ℕ => Pc}

theorem shareOf_same (hrows : shareRows k x n'.items = shareRows k x n.items)
    (hsup : n'.suppressed.lookup k = n.suppressed.lookup k) (hwin : n.SameWindow k n')
    (hcancel : n'.cancelGen = n.cancelGen) : shareOf k x n' threads = shareOf k x n threads := by
  have hstage : Pc.stage k n' = Pc.stage k n := funext fun pc => stage_congr hcancel hwin.isOpen pc
  simp only [shareOf, hrows, hsup, hwin.openWindow, hstage]

/-- Every call on its way to a window looked for one in a generation of the past. -/
def Captured (n : Notifier δ) (threads : AList fun _ : ℕ => Pc) : Prop :=
  ∀ g pc, threads.lookup g = some pc → ∀ c ∈ pc.captured, c ≤ n.cancelGen

theorem shareOf_bump (hcap : Captured n threads) (hwin : n.SameWindow k n')
    (hrows : shareRows k x n'.items = shareRows k x n.items)
    (hsup : n'.suppressed.lookup k = n.suppressed.lookup k) (hlt : n.cancelGen < n'.cancelGen) :
    shareOf k x n' threads = (shareOf k x n threads).bump := by
  have hstages : (fun g => (threads.lookup g).bind (Pc.stage k n')) =
      fun g => ((threads.lookup g).bind (Pc.stage k n)).bind Stage.miss := by
    funext g
    cases hl : threads.lookup g with
    | none => rfl
    | some pc => exact stage_bump hwin.isOpen hlt (hcap g pc hl)
  simp only [shareOf, Share.bump, hrows, hsup, hwin.openWindow, hstages]

theorem shareOf_cancel (hnone : n'.pending.lookup k = none)
    (hrows : shareRows k x n'.items = shareRows k x n.items)
    (hsup : n'.suppressed.lookup k = n.suppressed.lookup k) (hcancel : n'.cancelGen = n.cancelGen) :
    shareOf k x n' threads = (shareOf k x n threads).cancel := by
  have hstages : (fun g => (threads.lookup g).bind (Pc.stage k n')) =
      fun g => ((threads.lookup g).bind (Pc.stage k n)).bind Stage.lapse := by
    funext g
    cases threads.lookup g with
    | none => rfl
    | some pc => exact stage_cancel hcancel hnone pc
  simp [shareOf, Share.cancel, hrows, hsup, hstages, Notifier.openWindow, hnone]

/-- No window is open to be cancelled. -/
theorem cancel_closed (hnone : n.pending.lookup k = none) :
    (shareOf k x n threads).cancel = shareOf k x n threads :=
  (shareOf_cancel hnone rfl rfl rfl).symm

end

namespace System

variable {k : Key} {x : String} {s : System δ}

theorem share_goto (s : System δ) (g : ℕ) (pc : Option Pc) :
    (s.goto g pc).share k x = (s.share k x).goto g (pc.bind (Pc.stage k s.n)) := by
  have hstages : (fun g' => ((s.goto g pc).threads.lookup g').bind (Pc.stage k s.n)) =
      Function.update (fun g' => (s.threads.lookup g').bind (Pc.stage k s.n)) g
        (pc.bind (Pc.stage k s.n)) := by
    funext g'
    rw [goto_lookup, Function.update_apply]
    split <;> rfl
  simp only [share, shareOf, Share.goto, goto_n, hstages]

end System

end VcsClient.Notify
