import Mathlib.Data.List.Count
import Mathlib.Logic.Function.Basic
import VcsClient.Lib.Log
import VcsClient.Lib.Machine

/-!
# The permission re-check

`RequestHotkeyPermission`, `RecheckHotkeyPermission`, `cancelPermissionPoll`, `permissionStatus`,
`armPermissionPoll` and `applyGrantedHotkeys` of `internal/app/settings.go`, step by step: a section
under `sb.mu` is one step, and so are one read of the OS status and one `close`. Clicks, focus
events, polls, keybind writes and readers of the state are under way at once, and `writeMu` is held
over several of their steps.

Each poll is cancelled at most once, whoever cancels it (`polls_cancelled`). A re-check re-applies
the hotkeys once for each grant, and a poll that it swept away does not (`grants_applied`).
-/

namespace VcsClient.App

open VcsClient.Lib

/-- `hotkeys.Permission`. -/
inductive Permission where
  | unknown
  | granted
  | denied
  | notApplicable
  deriving DecidableEq

def Permission.settled : Permission → Bool
  | .granted | .notApplicable => true
  | .unknown | .denied => false

inductive PermCaller where
  /-- `RequestHotkeyPermission`. -/
  | request
  /-- `RecheckHotkeyPermission`. -/
  | recheck
  /-- The poll of a channel; channels are numbered as they are made. -/
  | poll (ch : ℕ)
  /-- A keybind write. -/
  | write
  /-- `GetHotkeyState`, or a resume that emits the state. -/
  | state
  /-- The end of `applyHotkeys`, which emits the state. -/
  | emit
  /-- `stopPermissionPoll`. -/
  | stop
  deriving DecidableEq

inductive PermCall where
  | idle
  /-- Before `perm.Status`. -/
  | status (w : PermCaller)
  /-- It read `p`, and has not cached it. -/
  | store (p : Permission) (w : PermCaller)
  | arm
  /-- At `cancelPermissionPoll`. -/
  | cancel (w : PermCaller)
  /-- It took the channel, and is about to close it. -/
  | close (ch : ℕ) (w : PermCaller)
  | lock (w : PermCaller)
  /-- The re-check, about to read `lastPerm` once more. -/
  | again
  /-- The poll, about to look at its channel once more. -/
  | check (ch : ℕ)
  | apply (w : PermCaller)
  | unlock
  /-- In the `select` of a poll. -/
  | ticking (ch : ℕ)
  deriving DecidableEq

/-- It holds `writeMu`. -/
def PermCall.holds : PermCall → Bool
  | .again | .check _ | .apply _ | .unlock => true
  | .status w | .store _ w => w = .recheck ∨ w = .emit
  | .cancel w | .close _ w => w = .recheck
  | .idle | .arm | .lock _ | .ticking _ => false

/-- The channel of the poll that runs here. -/
def PermCall.polls : PermCall → Option ℕ
  | .ticking ch | .check ch | .status (.poll ch) | .store _ (.poll ch) | .lock (.poll ch)
  | .apply (.poll ch) => some ch
  | _ => none

/-- A re-check that has still to hear from the OS. -/
def PermCall.asks : PermCall → Bool
  | .status w | .store _ w => w = .recheck
  | _ => false

/-- A re-check that is about to apply. -/
def PermCall.sure : PermCall → Bool
  | .cancel w | .close _ w | .apply w => w = .recheck
  | _ => false

theorem PermCall.holds_of_asks {pc : PermCall} (h : pc.asks = true) : pc.holds = true := by
  cases pc <;> simp_all [PermCall.asks, PermCall.holds]

theorem PermCall.holds_of_sure {pc : PermCall} (h : pc.sure = true) : pc.holds = true := by
  cases pc <;> simp_all [PermCall.sure, PermCall.holds]

namespace PermCaller

def stored : PermCaller → Permission → PermCall
  | .request, .granted => .cancel .request
  | .request, .notApplicable => .idle
  | .request, _ => .arm
  | .recheck, .granted => .cancel .recheck
  | .recheck, _ => .unlock
  | .poll ch, .granted => .lock (.poll ch)
  | .poll ch, _ => .ticking ch
  | .emit, _ => .unlock
  | _, _ => .idle

/-- After `cancelPermissionPoll`. -/
def cancelled : PermCaller → PermCall
  | .request => .lock .request
  | .recheck => .apply .recheck
  | _ => .idle

/-- With `writeMu`. -/
def locked : PermCaller → PermCall
  | .recheck => .again
  | .poll ch => .check ch
  | w => .apply w

@[simp] theorem stored_holds (w : PermCaller) (q : Permission) :
    (w.stored q).holds = (PermCall.store q w).holds := by
  cases w <;> cases q <;> rfl

@[simp] theorem stored_polls (w : PermCaller) (q : Permission) :
    (w.stored q).polls = (PermCall.store q w).polls := by
  cases w <;> cases q <;> rfl

@[simp] theorem cancelled_holds (w : PermCaller) :
    w.cancelled.holds = (PermCall.cancel w).holds := by
  cases w <;> rfl

@[simp] theorem cancelled_polls (w : PermCaller) : w.cancelled.polls = none := by
  cases w <;> rfl

@[simp] theorem locked_holds (w : PermCaller) : w.locked.holds = true := by
  cases w <;> rfl

@[simp] theorem locked_polls (w : PermCaller) :
    w.locked.polls = (PermCall.lock w).polls := by
  cases w <;> rfl

end PermCaller

inductive PermEvent where
  | armed (ch : ℕ)
  /-- A section of `cancelPermissionPoll` found a channel. -/
  | took (ch : ℕ) (w : PermCaller)
  /-- The re-check ran the section of `cancelPermissionPoll`. -/
  | swept
  | stored (old new : Permission) (w : PermCaller)
  | applied (w : PermCaller)
  deriving DecidableEq

/-- The status that was cached was settled, and no longer is. -/
def PermEvent.lost : PermEvent → Bool
  | .stored old new _ => old.settled && !new.settled
  | _ => false

def PermEvent.found : PermEvent → Bool
  | .stored _ new w => new = .granted ∧ w = .recheck
  | _ => false

structure PermPolls where
  lastPerm : Permission
  permCancel : Option ℕ
  /-- How many channels were made. -/
  armed : ℕ
  /-- The calls of `close`. -/
  closed : List ℕ
  writeMu : Option ℕ
  calls : ℕ → PermCall
  log : List PermEvent

inductive PermOp where
  | begin (c : ℕ) (w : PermCaller)
  /-- A goroutine goes on; `p` is what the OS says if it asks. -/
  | run (c : ℕ) (p : Permission)
  | tick (c : ℕ)
  /-- The poll finds its channel closed. -/
  | leave (c : ℕ)
  /-- The deadline of the poll. -/
  | expire (c : ℕ)
  /-- A keybind write fails before it applies anything. -/
  | fail (c : ℕ)

namespace PermPolls

def init : PermPolls := ⟨.unknown, none, 0, [], none, fun _ => .idle, []⟩

def goto (s : PermPolls) (c : ℕ) (pc : PermCall) : PermPolls :=
  { s with calls := Function.update s.calls c pc }

/-- How a call begins; a re-check that has nothing to improve is over at once. -/
def first (s : PermPolls) : PermCaller → Option PermCall
  | .request => some (.status .request)
  | .recheck => some (if s.lastPerm.settled then .idle else .lock .recheck)
  | .write => some (.lock .write)
  | .state => some (.status .state)
  | .stop => some (.cancel .stop)
  | .poll _ | .emit => none

def run (s : PermPolls) (c : ℕ) (p : Permission) : PermCall → Option PermPolls
  | .status w => some (s.goto c (.store p w))
  | .store q w => some ({ s with
      lastPerm := q
      log := .stored s.lastPerm q w :: s.log }.goto c (w.stored q))
  -- the poll already running is superseded, and the new one is the goroutine that goes on
  | .arm => some ({ s with
      closed := s.permCancel.toList ++ s.closed
      permCancel := some s.armed
      armed := s.armed + 1
      log := .armed s.armed :: s.log }.goto c (.ticking s.armed))
  | .cancel w =>
    let log := if w = .recheck then .swept :: s.log else s.log
    match s.permCancel with
    | none => some ({ s with log := log }.goto c w.cancelled)
    | some ch => some ({ s with
        permCancel := none
        log := .took ch w :: log }.goto c (.close ch w))
  | .close ch w => some ({ s with closed := ch :: s.closed }.goto c w.cancelled)
  | .lock w =>
    if s.writeMu = none then some ({ s with writeMu := some c }.goto c w.locked) else none
  | .again => some (s.goto c (if s.lastPerm.settled then .unlock else .status .recheck))
  | .check ch => some (s.goto c (if ch ∈ s.closed then .unlock else .apply (.poll ch)))
  | .apply w => some ({ s with log := .applied w :: s.log }.goto c (.status .emit))
  | .unlock => some ({ s with writeMu := none }.goto c .idle)
  | .idle | .ticking _ => none

def step (s : PermPolls) : PermOp → Option PermPolls
  | .begin c w => if s.calls c = .idle then (s.first w).map (s.goto c) else none
  | .run c p => s.run c p (s.calls c)
  | .tick c =>
    match s.calls c with
    | .ticking ch => some (s.goto c (.status (.poll ch)))
    | _ => none
  | .leave c =>
    match s.calls c with
    | .ticking ch => if ch ∈ s.closed then some (s.goto c .idle) else none
    | _ => none
  | .expire c =>
    match s.calls c with
    | .ticking _ => some (s.goto c .idle)
    | _ => none
  | .fail c => if s.calls c = .apply .write then some (s.goto c .unlock) else none

variable {s s' : PermPolls}

theorem calls_goto (s : PermPolls) (c c' : ℕ) (pc : PermCall) :
    (s.goto c pc).calls c' = if c' = c then pc else s.calls c' :=
  Function.update_apply ..

theorem of_calls_goto {c c' : ℕ} {pc pc' : PermCall} (h : (s.goto c pc).calls c' = pc')
    (hpc : pc ≠ pc') : c' ≠ c ∧ s.calls c' = pc' := by
  rw [calls_goto] at h
  split at h
  · exact absurd h hpc
  · exact ⟨‹_›, h⟩

theorem calls_goto_of_ne {c c' : ℕ} {pc pc' : PermCall} (h : s.calls c' = pc')
    (hc : s.calls c ≠ pc') : (s.goto c pc).calls c' = pc' := by
  have hne : c' ≠ c := fun hcc => hc (hcc ▸ h)
  exact (calls_goto ..).trans ((if_neg hne).trans h)

inductive Moves (s : PermPolls) : PermPolls → Prop where
  /-- A goroutine goes on by itself. -/
  | goes {c pc} (hholds : pc.holds = (s.calls c).holds)
      (hpolls : pc.polls = none ∨ pc.polls = (s.calls c).polls)
      (hclose : ∀ ch w, s.calls c ≠ .close ch w ∧ pc ≠ .close ch w)
      (happly : ∀ ch, pc = .apply (.poll ch) → s.calls c = .check ch ∧ ch ∉ s.closed)
      (hasks : pc.asks = true → (s.calls c).asks = true ∨ s.lastPerm.settled = false)
      (hsure : pc.sure = true → (s.calls c).sure = true) : Moves s (s.goto c pc)
  | stores {c q w} (hc : s.calls c = .store q w) : Moves s ({ s with
      lastPerm := q
      log := .stored s.lastPerm q w :: s.log }.goto c (w.stored q))
  | arms {c} (hc : s.calls c = .arm) : Moves s ({ s with
      closed := s.permCancel.toList ++ s.closed
      permCancel := some s.armed
      armed := s.armed + 1
      log := .armed s.armed :: s.log }.goto c (.ticking s.armed))
  | cancels {c w log} (hc : s.calls c = .cancel w) (hnone : s.permCancel = none)
      (hlog : log = if w = .recheck then .swept :: s.log else s.log) :
      Moves s ({ s with log := log }.goto c w.cancelled)
  | takes {c w ch log} (hc : s.calls c = .cancel w) (hch : s.permCancel = some ch)
      (hlog : log = if w = .recheck then .swept :: s.log else s.log) :
      Moves s ({ s with permCancel := none, log := .took ch w :: log }.goto c (.close ch w))
  | closes {c ch w} (hc : s.calls c = .close ch w) :
      Moves s ({ s with closed := ch :: s.closed }.goto c w.cancelled)
  | locks {c w} (hc : s.calls c = .lock w) (hfree : s.writeMu = none) :
      Moves s ({ s with writeMu := some c }.goto c w.locked)
  | applies {c w} (hc : s.calls c = .apply w) :
      Moves s ({ s with log := .applied w :: s.log }.goto c (.status .emit))
  | unlocks {c} (hc : s.calls c = .unlock) : Moves s ({ s with writeMu := none }.goto c .idle)

theorem Moves.of_calls {c : ℕ} {pc pc' : PermCall} (hc : s.calls c = pc)
    (hholds : pc'.holds = pc.holds)
    (hpolls : pc'.polls = none ∨ pc'.polls = pc.polls)
    (hclose : ∀ ch w, pc ≠ .close ch w ∧ pc' ≠ .close ch w)
    (happly : ∀ ch, pc' = .apply (.poll ch) → pc = .check ch ∧ ch ∉ s.closed)
    (hasks : pc'.asks = true → pc.asks = true ∨ s.lastPerm.settled = false)
    (hsure : pc'.sure = true → pc.sure = true) : Moves s (s.goto c pc') := by
  subst hc
  exact .goes hholds hpolls hclose happly hasks hsure

theorem moves_of_run {c : ℕ} {p : Permission} {pc : PermCall} (hc : s.calls c = pc)
    (h : s.run c p pc = some s') : Moves s s' := by
  cases pc with
  | status w =>
    cases h
    exact .of_calls hc rfl (.inr (by cases w <;> rfl)) (by simp) (by simp) .inl id
  | store q w =>
    cases h
    exact .stores hc
  | arm =>
    cases h
    exact .arms hc
  | cancel w =>
    simp only [run] at h
    split at h
    · cases h
      exact .cancels hc ‹_› rfl
    · cases h
      exact .takes hc ‹_› rfl
  | close ch w =>
    cases h
    exact .closes hc
  | lock w =>
    simp only [run] at h
    split at h
    · cases h
      exact .locks hc ‹_›
    · cases h
  | again =>
    simp only [run] at h
    split at h
    · cases h
      exact .of_calls hc rfl (.inl rfl) (by simp) (by simp) (by simp [PermCall.asks])
        (by simp [PermCall.sure])
    · rename_i hset
      cases h
      exact .of_calls hc rfl (.inl rfl) (by simp) (by simp) (fun _ => .inr (by simpa using hset))
        (by simp [PermCall.sure])
  | check ch =>
    simp only [run] at h
    split at h
    · cases h
      exact .of_calls hc rfl (.inl rfl) (by simp) (by simp) (by simp [PermCall.asks])
        (by simp [PermCall.sure])
    · cases h
      refine .of_calls hc rfl (.inr rfl) (by simp) (fun ch' heq => ?_) (by simp [PermCall.asks])
        (by simp [PermCall.sure])
      cases heq
      exact ⟨rfl, ‹_›⟩
  | apply w =>
    cases h
    exact .applies hc
  | unlock =>
    cases h
    exact .unlocks hc
  | idle => cases h
  | ticking ch => cases h

theorem moves_of_step {op : PermOp} (h : s.step op = some s') : Moves s s' := by
  cases op with
  | begin c w =>
    simp only [step] at h
    split at h
    · rename_i hc
      obtain ⟨pc, hfirst, rfl⟩ := Option.map_eq_some_iff.1 h
      -- a call begins outside the lock, and no poll does
      have hpc : pc.holds = false ∧ pc.polls = none ∧ (∀ ch w, pc ≠ .close ch w) ∧
          (∀ w, pc ≠ .apply w) ∧ pc.asks = false ∧ pc.sure = false := by
        cases w with
        | recheck =>
          simp only [first] at hfirst
          split at hfirst <;> cases hfirst <;> simp [PermCall.holds, PermCall.polls, PermCall.asks,
            PermCall.sure]
        | poll ch => cases hfirst
        | emit => cases hfirst
        | _ => cases hfirst; simp [PermCall.holds, PermCall.polls, PermCall.asks, PermCall.sure]
      obtain ⟨hholds, hpolls, hclose, happly, hasks, hsure⟩ := hpc
      exact .of_calls hc (by simpa [PermCall.holds] using hholds) (.inl hpolls)
        (fun ch w => ⟨by simp, hclose ch w⟩) (fun ch heq => absurd heq (happly _)) (by simp [hasks])
        (by simp [hsure])
    · cases h
  | run c p => exact moves_of_run rfl h
  | tick c =>
    simp only [step] at h
    split at h
    · rename_i hc
      cases h
      exact .of_calls hc rfl (.inr rfl) (by simp) (by simp) (by simp [PermCall.asks])
        (by simp [PermCall.sure])
    · cases h
  | leave c =>
    simp only [step] at h
    split at h
    · rename_i hc
      split at h
      · cases h
        exact .of_calls hc rfl (.inl rfl) (by simp) (by simp) (by simp [PermCall.asks])
          (by simp [PermCall.sure])
      · cases h
    · cases h
  | expire c =>
    simp only [step] at h
    split at h
    · rename_i hc
      cases h
      exact .of_calls hc rfl (.inl rfl) (by simp) (by simp) (by simp [PermCall.asks])
        (by simp [PermCall.sure])
    · cases h
  | fail c =>
    simp only [step] at h
    split at h
    · rename_i hc
      cases h
      exact .of_calls hc rfl (.inl rfl) (by simp) (by simp) (by simp [PermCall.asks])
        (by simp [PermCall.sure])
    · cases h

/-! ## `writeMu` -/

def Held (s : PermPolls) : Prop := ∀ c, (s.calls c).holds = true → s.writeMu = some c

theorem Held.eq (h : s.Held) {c c' : ℕ} (hc : (s.calls c).holds = true)
    (hc' : (s.calls c').holds = true) : c' = c := by
  have hmu := h c hc
  rw [h c' hc'] at hmu
  exact Option.some.inj hmu

theorem Held.goto (h : s.Held) {c : ℕ} {pc : PermCall}
    (hpc : pc.holds = true → s.writeMu = some c) : (s.goto c pc).Held := fun c' hc' => by
  rw [calls_goto] at hc'
  split at hc'
  · rename_i heq
    subst heq
    exact hpc hc'
  · exact h c' hc'

theorem Held.move (h : s.Held) (hm : Moves s s') : s'.Held := by
  cases hm with
  | @goes c pc hholds => exact h.goto fun hpc => h c (hholds ▸ hpc)
  | @stores c q w hc =>
    exact Held.goto (s := { s with .. }) h fun hpc => h c (by rw [hc]; simpa using hpc)
  | arms hc => exact Held.goto (s := { s with .. }) h (by simp [PermCall.holds])
  | @cancels c w log hc =>
    exact Held.goto (s := { s with .. }) h fun hpc => h c (by rw [hc]; simpa using hpc)
  | @takes c w ch log hc =>
    exact Held.goto (s := { s with .. }) h fun hpc => h c (by rw [hc]; exact hpc)
  | @closes c ch w hc =>
    exact Held.goto (s := { s with .. }) h fun hpc => h c (by
      rw [hc]
      rw [PermCaller.cancelled_holds] at hpc
      exact hpc)
  | @locks c w hc hfree =>
    intro c' hc'
    rw [calls_goto] at hc'
    split at hc'
    · rename_i heq
      exact congrArg some heq.symm
    · rw [h c' hc'] at hfree
      cases hfree
  | @applies c w hc =>
    exact Held.goto (s := { s with .. }) h fun _ => h c (by rw [hc]; rfl)
  | @unlocks c hc =>
    intro c' hc'
    rw [calls_goto] at hc'
    split at hc'
    · cases hc'
    · -- whoever else held it would be `c`
      exact absurd (h.eq (by rw [hc]; rfl) hc') ‹_›

/-! ## The channels -/

/-- Every channel is the current one, closed, or in the hands of one goroutine. -/
structure Channels (s : PermPolls) : Prop where
  once : s.closed.Nodup
  made : ∀ ch ∈ s.closed, ch < s.armed
  current : ∀ ch, s.permCancel = some ch → ch < s.armed ∧ ch ∉ s.closed ∧
    ∀ c w, s.calls c ≠ .close ch w
  hands : ∀ c ch w, s.calls c = .close ch w → ch < s.armed ∧ ch ∉ s.closed ∧ .took ch w ∈ s.log
  one : ∀ c c' ch w w', s.calls c = .close ch w → s.calls c' = .close ch w' → c = c'
  all : ∀ ch < s.armed, ch ∈ s.closed ∨ s.permCancel = some ch ∨ ∃ c w, s.calls c = .close ch w

/-- A goroutine that closes nothing goes on, and does not close anything next. -/
theorem Channels.goto (h : s.Channels) {c : ℕ} {p : PermCall} {l : List PermEvent}
    (hlog : s.log ⊆ l) (hc : ∀ ch w, s.calls c ≠ .close ch w) (hpc : ∀ ch w, p ≠ .close ch w) :
    ({ s with log := l }.goto c p).Channels := by
  have hback : ∀ {c' ch w}, (s.goto c p).calls c' = .close ch w → s.calls c' = .close ch w :=
    fun heq => (of_calls_goto heq (hpc _ _)).2
  refine ⟨h.once, h.made, fun ch hch => ?_, fun c' ch w heq => ?_,
    fun c' c'' ch w w' heq heq' => ?_, fun ch hch => ?_⟩
  · obtain ⟨hlt, hopen, hnone⟩ := h.current ch hch
    exact ⟨hlt, hopen, fun c' w heq => hnone c' w (hback heq)⟩
  · obtain ⟨hlt, hopen, htook⟩ := h.hands c' ch w (hback heq)
    exact ⟨hlt, hopen, hlog htook⟩
  · exact h.one c' c'' ch w w' (hback heq) (hback heq')
  · obtain hclosed | hcur | ⟨c', w, heq⟩ := h.all ch hch
    · exact .inl hclosed
    · exact .inr (.inl hcur)
    · exact .inr (.inr ⟨c', w, calls_goto_of_ne heq (hc ch w)⟩)

section Channels

variable {c ch : ℕ} {w : PermCaller}

/-- A new poll supersedes the one that runs. -/
theorem Channels.arm (h : s.Channels) (hc : s.calls c = .arm) :
    ({ s with
      closed := s.permCancel.toList ++ s.closed
      permCancel := some s.armed
      armed := s.armed + 1
      log := .armed s.armed :: s.log }.goto c (.ticking s.armed)).Channels := by
  have hback : ∀ {c' ch w}, (s.goto c (.ticking s.armed)).calls c' = .close ch w →
      s.calls c' = .close ch w := fun heq => (of_calls_goto heq (by simp)).2
  refine ⟨?_, fun ch hch => ?_, fun ch hch => ?_, fun c' ch w heq => ?_,
    fun c' c'' ch w w' heq heq' => ?_, fun ch hch => ?_⟩
  · refine List.nodup_append.2 ⟨?_, h.once, fun ch hch ch' hch' heq => ?_⟩
    · cases s.permCancel <;> simp
    · subst heq
      exact (h.current ch (by simpa using hch)).2.1 hch'
  · obtain hch | hch := List.mem_append.1 hch
    · exact (h.current ch (by simpa using hch)).1.trans (Nat.lt_succ_self _)
    · exact (h.made ch hch).trans (Nat.lt_succ_self _)
  · cases hch
    refine ⟨Nat.lt_succ_self _, fun hmem => ?_, fun c' w heq => ?_⟩
    · obtain hmem | hmem := List.mem_append.1 hmem
      · exact (h.current _ (by simpa using hmem)).1.false
      · exact (h.made _ hmem).false
    · exact (h.hands c' _ w (hback heq)).1.false
  · obtain ⟨hlt, hopen, htook⟩ := h.hands c' ch w (hback heq)
    refine ⟨hlt.trans (Nat.lt_succ_self _), fun hmem => ?_, List.mem_cons_of_mem _ htook⟩
    obtain hmem | hmem := List.mem_append.1 hmem
    · exact (h.current ch (by simpa using hmem)).2.2 c' w (hback heq)
    · exact hopen hmem
  · exact h.one c' c'' ch w w' (hback heq) (hback heq')
  · obtain rfl | hne := eq_or_ne ch s.armed
    · exact .inr (.inl rfl)
    · obtain hclosed | hcur | ⟨c', w, heq⟩ := h.all ch (by
        have : ch < s.armed + 1 := hch
        omega)
      · exact .inl (List.mem_append_right _ hclosed)
      · exact .inl (List.mem_append_left _ (by simpa using hcur))
      · exact .inr (.inr ⟨c', w, calls_goto_of_ne heq (by simp [hc])⟩)

/-- The channel goes into the hands of who cancels the poll. -/
theorem Channels.take (h : s.Channels) {log : List PermEvent} (hc : s.calls c = .cancel w)
    (hch : s.permCancel = some ch) (hsub : s.log ⊆ .took ch w :: log) :
    ({ s with permCancel := none, log := .took ch w :: log }.goto c (.close ch w)).Channels := by
  obtain ⟨hlt, hopen, hnone⟩ := h.current ch hch
  have hcalls : ∀ {c' ch' w'}, (s.goto c (.close ch w)).calls c' = .close ch' w' →
      c' = c ∧ ch' = ch ∧ w' = w ∨ s.calls c' = .close ch' w' := by
    intro c' ch' w' heq
    rw [calls_goto] at heq
    split at heq
    · cases heq
      exact .inl ⟨‹_›, rfl, rfl⟩
    · exact .inr heq
  refine ⟨h.once, h.made, (fun ch' heq => nomatch heq), fun c' ch' w' heq => ?_,
    fun c' c'' ch' w' w'' heq heq' => ?_, fun ch' hch' => ?_⟩
  · obtain ⟨rfl, rfl, rfl⟩ | heq := hcalls heq
    · exact ⟨hlt, hopen, List.mem_cons_self⟩
    · obtain ⟨hlt', hopen', htook⟩ := h.hands c' ch' w' heq
      exact ⟨hlt', hopen', hsub htook⟩
  · obtain ⟨rfl, rfl, -⟩ | hold := hcalls heq
    · obtain ⟨rfl, -, -⟩ | hold' := hcalls heq'
      · rfl
      · exact absurd hold' (hnone c'' w'')
    · obtain ⟨-, rfl, -⟩ | hold' := hcalls heq'
      · exact absurd hold (hnone c' w')
      · exact h.one c' c'' ch' w' w'' hold hold'
  · obtain hclosed | hcur | ⟨c', w', heq⟩ := h.all ch' hch'
    · exact .inl hclosed
    · rw [hch] at hcur
      cases hcur
      exact .inr (.inr ⟨c, w, (calls_goto ..).trans (if_pos rfl)⟩)
    · exact .inr (.inr ⟨c', w', calls_goto_of_ne heq (by simp [hc])⟩)

theorem Channels.close (h : s.Channels) (hc : s.calls c = .close ch w) :
    ({ s with closed := ch :: s.closed }.goto c w.cancelled).Channels := by
  obtain ⟨hlt, hopen, -⟩ := h.hands c ch w hc
  have hback : ∀ {c' ch' w'}, (s.goto c w.cancelled).calls c' = .close ch' w' →
      c' ≠ c ∧ s.calls c' = .close ch' w' := fun heq =>
    of_calls_goto heq (by cases w <;> simp [PermCaller.cancelled])
  refine ⟨List.nodup_cons.2 ⟨hopen, h.once⟩, fun ch' hch' => ?_, fun ch' hch' => ?_,
    fun c' ch' w' heq => ?_, fun c' c'' ch' w' w'' heq heq' => ?_, fun ch' hch' => ?_⟩
  · obtain rfl | hch' := List.mem_cons.1 hch'
    · exact hlt
    · exact h.made ch' hch'
  · obtain ⟨hlt', hopen', hnone⟩ := h.current ch' hch'
    refine ⟨hlt', fun hmem => ?_, fun c' w' heq => hnone c' w' (hback heq).2⟩
    obtain rfl | hmem := List.mem_cons.1 hmem
    · exact hnone c w hc
    · exact hopen' hmem
  · obtain ⟨hne, heq'⟩ := hback heq
    obtain ⟨hlt', hopen', htook⟩ := h.hands c' ch' w' heq'
    refine ⟨hlt', fun hmem => ?_, htook⟩
    obtain rfl | hmem := List.mem_cons.1 hmem
    · exact hne (h.one c' c ch' w' w heq' hc)
    · exact hopen' hmem
  · exact h.one c' c'' ch' w' w'' (hback heq).2 (hback heq').2
  · obtain hclosed | hcur | ⟨c', w', heq⟩ := h.all ch' hch'
    · exact .inl (List.mem_cons_of_mem _ hclosed)
    · exact .inr (.inl hcur)
    · obtain rfl | hne := eq_or_ne c' c
      · rw [hc] at heq
        cases heq
        exact .inl List.mem_cons_self
      · exact .inr (.inr ⟨c', w', (calls_goto ..).trans ((if_neg hne).trans heq)⟩)

end Channels

theorem Channels.move (h : s.Channels) (hm : Moves s s') : s'.Channels := by
  cases hm with
  | goes _ _ hclose =>
    exact h.goto (List.Subset.refl _) (fun ch w => (hclose ch w).1) fun ch w => (hclose ch w).2
  | @stores c q w hc =>
    have hnext : ∀ ch w', w.stored q ≠ .close ch w' := by
      cases w <;> cases q <;> simp [PermCaller.stored]
    exact { h.goto (List.subset_cons_self ..) (by simp [hc]) hnext with }
  | arms hc => exact h.arm hc
  | @cancels c w log hc hnone hlog =>
    have hsub : s.log ⊆ log := by
      subst hlog
      split
      · exact List.subset_cons_self ..
      · exact List.Subset.refl _
    have hnext : ∀ ch w', w.cancelled ≠ .close ch w' := by cases w <;> simp [PermCaller.cancelled]
    exact { h.goto hsub (by simp [hc]) hnext with }
  | @takes c w ch log hc hch hlog =>
    refine h.take hc hch ?_
    subst hlog
    split
    · exact List.Subset.trans (List.subset_cons_self ..) (List.subset_cons_self ..)
    · exact List.subset_cons_self ..
  | closes hc => exact h.close hc
  | @locks c w hc =>
    have hnext : ∀ ch w', w.locked ≠ .close ch w' := by cases w <;> simp [PermCaller.locked]
    exact { h.goto (List.Subset.refl _) (by simp [hc]) hnext with }
  | @applies c w hc =>
    exact { h.goto (List.subset_cons_self ..) (by simp [hc]) (by simp) with }
  | @unlocks c hc => exact { h.goto (List.Subset.refl _) (by simp [hc]) (by simp) with }

/-! ## The polls -/

/-- A poll runs on one goroutine, until it has applied. -/
structure Polled (s : PermPolls) : Prop where
  below : ∀ c ch, (s.calls c).polls = some ch → ch < s.armed ∧ .applied (.poll ch) ∉ s.log
  one : ∀ c c' ch, (s.calls c).polls = some ch → (s.calls c').polls = some ch → c = c'
  past : ∀ ch, .applied (.poll ch) ∈ s.log → ch < s.armed
  once : ∀ ch, s.log.count (.applied (.poll ch)) ≤ 1

theorem Polled.goto (h : s.Polled) {c : ℕ} {p : PermCall} {e : List PermEvent}
    (hpc : p.polls = none ∨ p.polls = (s.calls c).polls) (he : ∀ w, .applied w ∉ e) :
    ({ s with log := e ++ s.log }.goto c p).Polled := by
  have hback : ∀ {c' ch}, ((s.goto c p).calls c').polls = some ch →
      (s.calls c').polls = some ch := by
    intro c' ch heq
    rw [calls_goto] at heq
    split at heq
    · rename_i hcc
      subst hcc
      obtain hpc | hpc := hpc
      · rw [hpc] at heq
        cases heq
      · rwa [hpc] at heq
    · exact heq
  have hmem : ∀ {w}, PermEvent.applied w ∈ e ++ s.log → .applied w ∈ s.log := fun hmem =>
    (List.mem_append.1 hmem).resolve_left (he _)
  refine ⟨fun c' ch heq => ?_, fun c' c'' ch heq heq' => h.one c' c'' ch (hback heq) (hback heq'),
    fun ch hch => h.past ch (hmem hch), fun ch => ?_⟩
  · obtain ⟨hlt, hnot⟩ := h.below c' ch (hback heq)
    exact ⟨hlt, fun hch => hnot (hmem hch)⟩
  · change (e ++ s.log).count _ ≤ 1
    rw [List.count_append, List.count_eq_zero_of_not_mem (he _), Nat.zero_add]
    exact h.once ch

theorem Polled.move (h : s.Polled) (hm : Moves s s') : s'.Polled := by
  cases hm with
  | goes _ hpolls => exact h.goto (e := []) hpolls (by simp)
  | @stores c q w hc =>
    exact { h.goto (e := [.stored s.lastPerm q w]) (c := c) (p := w.stored q)
      (.inr (by rw [hc, PermCaller.stored_polls])) (by simp) with }
  | @arms c hc =>
    have hback : ∀ {c' ch}, ((s.goto c (.ticking s.armed)).calls c').polls = some ch →
        c' = c ∧ ch = s.armed ∨ (s.calls c').polls = some ch := by
      intro c' ch heq
      rw [calls_goto] at heq
      split at heq
      · cases heq
        exact .inl ⟨‹_›, rfl⟩
      · exact .inr heq
    have hmem : ∀ {ch}, PermEvent.applied (.poll ch) ∈ PermEvent.armed s.armed :: s.log →
        .applied (.poll ch) ∈ s.log := by simp
    refine ⟨fun c' ch heq => ?_, fun c' c'' ch heq heq' => ?_, fun ch hch => ?_, fun ch => ?_⟩
    · obtain ⟨-, rfl⟩ | hold := hback heq
      · exact ⟨Nat.lt_succ_self _, fun hch => (h.past _ (hmem hch)).false⟩
      · obtain ⟨hlt, hnot⟩ := h.below c' ch hold
        exact ⟨hlt.trans (Nat.lt_succ_self _), fun hch => hnot (hmem hch)⟩
    · obtain ⟨rfl, rfl⟩ | hold := hback heq
      · obtain ⟨rfl, -⟩ | hold' := hback heq'
        · rfl
        · exact absurd (h.below c'' _ hold').1 (Nat.lt_irrefl _)
      · obtain ⟨-, rfl⟩ | hold' := hback heq'
        · exact absurd (h.below c' _ hold).1 (Nat.lt_irrefl _)
        · exact h.one c' c'' ch hold hold'
    · exact (h.past ch (hmem hch)).trans (Nat.lt_succ_self _)
    · change (PermEvent.armed s.armed :: s.log).count _ ≤ 1
      rw [List.count_cons_of_ne (by simp)]
      exact h.once ch
  | @cancels c w log hc hnone hlog =>
    subst hlog
    split
    · exact h.goto (e := [.swept]) (.inl w.cancelled_polls) (by simp)
    · exact h.goto (e := []) (.inl w.cancelled_polls) (by simp)
  | @takes c w ch log hc hch hlog =>
    subst hlog
    split
    · exact { h.goto (e := [.took ch w, .swept]) (c := c) (p := .close ch w) (.inl rfl)
        (by simp) with }
    · exact { h.goto (e := [.took ch w]) (c := c) (p := .close ch w) (.inl rfl) (by simp) with }
  | @closes c ch w hc =>
    exact { h.goto (e := []) (c := c) (.inl w.cancelled_polls) (by simp) with }
  | @locks c w hc =>
    exact { h.goto (e := []) (c := c) (p := w.locked)
      (.inr (by rw [hc, PermCaller.locked_polls])) (by simp) with }
  | @applies c w hc =>
    have hback : ∀ {c' ch}, ((s.goto c (.status .emit)).calls c').polls = some ch →
        c' ≠ c ∧ (s.calls c').polls = some ch := by
      intro c' ch heq
      rw [calls_goto] at heq
      split at heq
      · cases heq
      · exact ⟨‹_›, heq⟩
    -- the poll that applies is the goroutine that goes on
    have hpoll : ∀ ch, w = .poll ch → (s.calls c).polls = some ch := by
      rintro ch rfl
      rw [hc]
      rfl
    refine ⟨fun c' ch heq => ?_, fun c' c'' ch heq heq' =>
      h.one c' c'' ch (hback heq).2 (hback heq').2, fun ch hch => ?_, fun ch => ?_⟩
    · obtain ⟨hne, hold⟩ := hback heq
      obtain ⟨hlt, hnot⟩ := h.below c' ch hold
      refine ⟨hlt, fun hch => ?_⟩
      obtain hch | hch := List.mem_cons.1 hch
      · cases hch
        exact hne (h.one c' c ch hold (hpoll ch rfl))
      · exact hnot hch
    · obtain hch | hch := List.mem_cons.1 hch
      · cases hch
        exact (h.below c ch (hpoll ch rfl)).1
      · exact h.past ch hch
    · change (PermEvent.applied w :: s.log).count _ ≤ 1
      obtain rfl | hne := eq_or_ne w (.poll ch)
      · rw [List.count_cons_self, List.count_eq_zero_of_not_mem (h.below c ch (hpoll ch rfl)).2]
      · rw [List.count_cons_of_ne (by simpa using hne)]
        exact h.once ch
  | @unlocks c hc => exact { h.goto (e := []) (c := c) (p := .idle) (.inl rfl) (by simp) with }

/-! ## Sweeps -/

/-- A re-check swept the poll away, and nothing else had taken its channel by then. -/
def Swept (ch : ℕ) (log : List PermEvent) : Prop :=
  ∃ later earlier, log = later ++ .swept :: earlier ∧ .armed ch ∈ earlier ∧
    ∀ w, .took ch w ∈ earlier → w = .recheck

theorem swept_cons {ch : ℕ} {e : PermEvent} {log : List PermEvent} :
    Swept ch (e :: log) ↔ Swept ch log ∨
      e = .swept ∧ .armed ch ∈ log ∧ ∀ w, .took ch w ∈ log → w = .recheck := by
  constructor
  · rintro ⟨later, earlier, heq, harmed, htook⟩
    cases later with
    | nil =>
      cases heq
      exact .inr ⟨rfl, harmed, htook⟩
    | cons e' later =>
      cases heq
      exact .inl ⟨later, earlier, rfl, harmed, htook⟩
  · rintro (⟨later, earlier, rfl, harmed, htook⟩ | ⟨rfl, harmed, htook⟩)
    · exact ⟨e :: later, earlier, rfl, harmed, htook⟩
    · exact ⟨[], log, rfl, harmed, htook⟩

theorem swept_cons_of_ne {ch : ℕ} {e : PermEvent} {log : List PermEvent} (he : e ≠ .swept) :
    Swept ch (e :: log) ↔ Swept ch log := by
  rw [swept_cons]
  exact ⟨fun h => h.resolve_right fun h' => he h'.1, .inl⟩

/-- A poll that was swept away is closed, or will be before `writeMu` is free. -/
structure Sweeps (s : PermPolls) : Prop where
  made : ∀ ch, .armed ch ∈ s.log → ch < s.armed
  closing : ∀ ch, Swept ch s.log → ch ∈ s.closed ∨ ∃ c, s.calls c = .close ch .recheck
  applying : ∀ c ch, s.calls c = .apply (.poll ch) → ¬Swept ch s.log
  applied : Each (fun log e => ∀ ch, e = .applied (.poll ch) → ¬Swept ch log) s.log

/-- A goroutine goes on that neither closes a channel nor is about to let a poll apply. -/
theorem Sweeps.goto (h : s.Sweeps) {c : ℕ} {p : PermCall} {e : List PermEvent}
    (hc : ∀ ch, s.calls c ≠ .close ch .recheck)
    (hpc : ∀ ch, p = .apply (.poll ch) → ¬Swept ch s.log)
    (he : e = [] ∨ ∃ e', e = [e'] ∧ (∀ ch, e' ≠ .armed ch) ∧ e' ≠ .swept ∧
      ∀ ch, e' = .applied (.poll ch) → ¬Swept ch s.log) :
    ({ s with log := e ++ s.log }.goto c p).Sweeps := by
  have hswept : ∀ ch, Swept ch (e ++ s.log) ↔ Swept ch s.log := by
    intro ch
    obtain rfl | ⟨e', rfl, -, hne, -⟩ := he
    · rfl
    · exact swept_cons_of_ne hne
  refine ⟨fun ch hch => ?_, fun ch hch => ?_, fun c' ch heq hch => ?_, ?_⟩
  · obtain rfl | ⟨e', rfl, hne, -⟩ := he
    · exact h.made ch hch
    · exact h.made ch ((List.mem_cons.1 hch).resolve_left fun heq => hne ch heq.symm)
  · obtain hclosed | ⟨c', heq⟩ := h.closing ch ((hswept ch).1 hch)
    · exact .inl hclosed
    · exact .inr ⟨c', calls_goto_of_ne heq (hc ch)⟩
  · rw [calls_goto] at heq
    split at heq
    · exact hpc ch heq ((hswept ch).1 hch)
    · exact h.applying c' ch heq ((hswept ch).1 hch)
  · obtain rfl | ⟨e', rfl, -, -, happ⟩ := he
    · exact h.applied
    · exact each_cons.2 ⟨happ, h.applied⟩

/-- A re-check sweeps: what it finds neither closed nor current, another re-check is closing. -/
theorem Sweeps.sweep (h : s.Sweeps) (hch : s.Channels) {ch : ℕ}
    (hsw : Swept ch (.swept :: s.log)) : ch ∈ s.closed ∨ s.permCancel = some ch ∨
      ∃ c, s.calls c = .close ch .recheck := by
  obtain hold | ⟨-, harmed, htook⟩ := swept_cons.1 hsw
  · exact (h.closing ch hold).imp_right .inr
  · obtain hclosed | hcur | ⟨c, w, hc⟩ := hch.all ch (h.made ch harmed)
    · exact .inl hclosed
    · exact .inr (.inl hcur)
    · cases htook w (hch.hands c ch w hc).2.2
      exact .inr (.inr ⟨c, hc⟩)

theorem Held.no_apply (h : s.Held) {c c' ch : ℕ} {pc : PermCall} {t : PermPolls}
    (hc : s.calls c = .cancel .recheck) (hpc : pc ≠ .apply (.poll ch))
    (ht : t.calls = s.calls := by rfl) : (t.goto c pc).calls c' ≠ .apply (.poll ch) := by
  intro heq
  obtain ⟨hne, hc'⟩ := of_calls_goto heq hpc
  rw [ht] at hc'
  exact hne (h.eq (by rw [hc]; rfl) (by rw [hc']; rfl))

theorem Sweeps.move (h : s.Sweeps) (hheld : s.Held) (hch : s.Channels) (hm : Moves s s') :
    s'.Sweeps := by
  cases hm with
  | @goes c pc _ _ hclose happly =>
    refine h.goto (e := []) (fun ch => (hclose ch _).1) (fun ch heq hsw => ?_) (.inl rfl)
    -- it holds `writeMu`, so no re-check is about to close the channel
    obtain ⟨hc, hopen⟩ := happly ch heq
    obtain hclosed | ⟨c', hc'⟩ := h.closing ch hsw
    · exact hopen hclosed
    · have hcc : c' = c := hheld.eq (by rw [hc]; rfl) (by rw [hc']; rfl)
      rw [hcc, hc] at hc'
      cases hc'
  | @stores c q w hc =>
    have hnext : ∀ ch, w.stored q ≠ .apply (.poll ch) := by
      cases w <;> cases q <;> simp [PermCaller.stored]
    exact { h.goto (e := [.stored s.lastPerm q w]) (c := c) (p := w.stored q) (by simp [hc])
      (fun ch heq => absurd heq (hnext ch)) (.inr ⟨_, rfl, by simp, by simp, by simp⟩) with }
  | @arms c hc =>
    refine ⟨fun ch hmem => ?_, fun ch hsw => ?_, fun c' ch heq hsw => ?_,
      each_cons.2 ⟨by simp, h.applied⟩⟩
    · obtain heq | hmem := List.mem_cons.1 hmem
      · cases heq
        exact Nat.lt_succ_self _
      · exact (h.made ch hmem).trans (Nat.lt_succ_self _)
    · obtain hclosed | ⟨c', heq⟩ := h.closing ch ((swept_cons_of_ne (by simp)).1 hsw)
      · exact .inl (List.mem_append_right _ hclosed)
      · exact .inr ⟨c', calls_goto_of_ne heq (by simp [hc])⟩
    · exact h.applying c' ch (of_calls_goto heq (by simp)).2 ((swept_cons_of_ne (by simp)).1 hsw)
  | @cancels c w log hc hnone hlog =>
    have hnext : ∀ ch, w.cancelled ≠ .apply (.poll ch) := by cases w <;> simp [PermCaller.cancelled]
    subst hlog
    split
    · rename_i hw
      subst hw
      refine ⟨fun ch hmem => ?_, fun ch hsw => ?_, fun c' ch heq => ?_,
        each_cons.2 ⟨by simp, h.applied⟩⟩
      · exact h.made ch ((List.mem_cons.1 hmem).resolve_left (by simp))
      · obtain hclosed | hcur | ⟨c', heq⟩ := h.sweep hch hsw
        · exact .inl hclosed
        · rw [hnone] at hcur
          cases hcur
        · exact .inr ⟨c', calls_goto_of_ne heq (by simp [hc])⟩
      · exact absurd heq (hheld.no_apply hc (hnext ch))
    · exact h.goto (e := []) (by simp [hc]) (fun ch heq => absurd heq (hnext ch)) (.inl rfl)
  | @takes c w ch log hc hcur hlog =>
    subst hlog
    split
    · rename_i hw
      subst hw
      have htook : ∀ {ch'}, Swept ch' (.took ch .recheck :: .swept :: s.log) →
          Swept ch' (.swept :: s.log) := (swept_cons_of_ne (by simp)).1
      refine ⟨fun ch' hmem => ?_, fun ch' hsw => ?_, fun c' ch' heq => ?_,
        each_cons.2 ⟨by simp, each_cons.2 ⟨by simp, h.applied⟩⟩⟩
      · have hmem := (List.mem_cons.1 hmem).resolve_left (by simp)
        exact h.made ch' ((List.mem_cons.1 hmem).resolve_left (by simp))
      · obtain hclosed | hcur' | ⟨c', heq⟩ := h.sweep hch (htook hsw)
        · exact .inl hclosed
        · rw [hcur] at hcur'
          cases hcur'
          exact .inr ⟨c, (calls_goto ..).trans (if_pos rfl)⟩
        · exact .inr ⟨c', calls_goto_of_ne heq (by simp [hc])⟩
      · exact absurd heq (hheld.no_apply hc (by simp))
    · exact { h.goto (e := [.took ch w]) (c := c) (p := .close ch w) (by simp [hc]) (by simp)
        (.inr ⟨_, rfl, by simp, by simp, by simp⟩) with }
  | @closes c ch w hc =>
    have hnext : ∀ ch', w.cancelled ≠ .apply (.poll ch') := by
      cases w <;> simp [PermCaller.cancelled]
    refine ⟨h.made, fun ch' hsw => ?_, fun c' ch' heq => ?_, h.applied⟩
    · obtain hclosed | ⟨c', heq⟩ := h.closing ch' hsw
      · exact .inl (List.mem_cons_of_mem _ hclosed)
      · obtain rfl | hne := eq_or_ne c' c
        · rw [hc] at heq
          cases heq
          exact .inl List.mem_cons_self
        · exact .inr ⟨c', (calls_goto ..).trans ((if_neg hne).trans heq)⟩
    · exact h.applying c' ch' (of_calls_goto heq (hnext ch')).2
  | @locks c w hc =>
    have hnext : ∀ ch, w.locked ≠ .apply (.poll ch) := by cases w <;> simp [PermCaller.locked]
    exact { h.goto (e := []) (c := c) (p := w.locked) (by simp [hc])
      (fun ch heq => absurd heq (hnext ch)) (.inl rfl) with }
  | @applies c w hc =>
    refine h.goto (e := [.applied w]) (by simp [hc]) (by simp)
      (.inr ⟨_, rfl, by simp, by simp, fun ch heq => ?_⟩)
    cases heq
    exact h.applying c ch hc
  | @unlocks c hc =>
    exact { h.goto (e := []) (c := c) (p := .idle) (by simp [hc]) (by simp) (.inl rfl) with }

/-! ## The grants -/

/-- Each grant found by a re-check answers for one status that was not settled. -/
structure Grants (s : PermPolls) : Prop where
  applied : s.log.count (.applied .recheck) ≤ s.log.countP PermEvent.found
  sure : ∀ c, (s.calls c).sure = true →
    s.log.count (.applied .recheck) < s.log.countP PermEvent.found
  found : s.log.countP PermEvent.found ≤ s.log.countP PermEvent.lost + 1
  asks : ∀ c, (s.calls c).asks = true →
    s.log.countP PermEvent.found ≤ s.log.countP PermEvent.lost
  unsettled : s.lastPerm.settled = false →
    s.log.countP PermEvent.found ≤ s.log.countP PermEvent.lost

/-- A step that neither caches a status nor applies for a re-check. -/
theorem Grants.goto (h : s.Grants) {c : ℕ} {p : PermCall} {l : List PermEvent}
    (hsure : p.sure = true → (s.calls c).sure = true)
    (hasks : p.asks = true → (s.calls c).asks = true ∨ s.lastPerm.settled = false)
    (happlied : l.count (.applied .recheck) = s.log.count (.applied .recheck))
    (hfound : l.countP PermEvent.found = s.log.countP PermEvent.found)
    (hlost : l.countP PermEvent.lost = s.log.countP PermEvent.lost) :
    ({ s with log := l }.goto c p).Grants := by
  refine ⟨(happlied.trans_le h.applied).trans_eq hfound.symm, fun c' hc' => ?_,
    (hfound.trans_le h.found).trans_eq (congrArg (· + 1) hlost.symm), fun c' hc' => ?_,
    fun hset => (hfound.trans_le (h.unsettled hset)).trans_eq hlost.symm⟩
  · refine (happlied.trans_lt ?_).trans_eq hfound.symm
    rw [calls_goto] at hc'
    split at hc'
    · exact h.sure c (hsure hc')
    · exact h.sure c' hc'
  · refine (hfound.trans_le ?_).trans_eq hlost.symm
    rw [calls_goto] at hc'
    split at hc'
    · exact (hasks hc').elim (h.asks c) h.unsettled
    · exact h.asks c' hc'

theorem Grants.store (h : s.Grants) (hheld : s.Held) {c : ℕ} {q : Permission} {w : PermCaller}
    (hc : s.calls c = .store q w) :
    ({ s with
      lastPerm := q
      log := .stored s.lastPerm q w :: s.log }.goto c (w.stored q)).Grants := by
  have hA : (PermEvent.stored s.lastPerm q w :: s.log).count (.applied .recheck) =
      s.log.count (.applied .recheck) := List.count_cons_of_ne (by simp)
  have hF : (PermEvent.stored s.lastPerm q w :: s.log).countP PermEvent.found =
      s.log.countP PermEvent.found + if q = .granted ∧ w = .recheck then 1 else 0 := by
    simp [List.countP_cons, PermEvent.found]
  have hL : (PermEvent.stored s.lastPerm q w :: s.log).countP PermEvent.lost =
      s.log.countP PermEvent.lost +
        if s.lastPerm.settled = true ∧ q.settled = false then 1 else 0 := by
    simp [List.countP_cons, PermEvent.lost]
  have happlied := h.applied
  have hfound := h.found
  have hasks : w = .recheck → _ := fun hw => h.asks c (by rw [hc, hw]; rfl)
  refine ⟨?_, fun c' hc' => ?_, ?_, fun c' hc' => ?_, fun hset => ?_⟩
  · simp only [PermPolls.goto, hA, hF]
    omega
  · simp only [PermPolls.goto, hA, hF]
    rw [calls_goto] at hc'
    split at hc'
    · have hnew : q = .granted ∧ w = .recheck := by
        cases w <;> cases q <;> simp_all [PermCaller.stored, PermCall.sure]
      rw [if_pos hnew]
      omega
    · have := h.sure c' hc'
      omega
  · simp only [PermPolls.goto, hF, hL]
    split
    · rename_i hnew
      have := hasks hnew.2
      omega
    · omega
  · simp only [PermPolls.goto, hF, hL]
    rw [calls_goto] at hc'
    split at hc'
    · cases w <;> cases q <;> cases hc'
    · -- it holds `writeMu`, so the status was not read by a re-check
      rename_i hne
      have hw : w ≠ .recheck := by
        rintro rfl
        exact hne (hheld.eq (by rw [hc]; rfl) (PermCall.holds_of_asks hc'))
      have := h.asks c' hc'
      rw [if_neg fun hnew => hw hnew.2]
      omega
  · simp only [PermPolls.goto, hF, hL] at hset ⊢
    rw [if_neg fun hnew => by rw [hnew.1] at hset; cases hset]
    cases hold : s.lastPerm.settled with
    | false =>
      have := h.unsettled hold
      omega
    | true =>
      rw [if_pos ⟨rfl, hset⟩]
      omega

theorem applied_countP (w : PermCaller) (l : List PermEvent) :
    (PermEvent.applied w :: l).countP PermEvent.found = l.countP PermEvent.found ∧
      (PermEvent.applied w :: l).countP PermEvent.lost = l.countP PermEvent.lost :=
  ⟨List.countP_cons_of_neg (by simp [PermEvent.found]),
    List.countP_cons_of_neg (by simp [PermEvent.lost])⟩

/-- The re-check spends the grant that it found. -/
theorem Grants.apply (h : s.Grants) (hheld : s.Held) {c : ℕ} (hc : s.calls c = .apply .recheck) :
    ({ s with log := .applied .recheck :: s.log }.goto c (.status .emit)).Grants := by
  obtain ⟨hF, hL⟩ := applied_countP .recheck s.log
  have hA := List.count_cons_self (a := PermEvent.applied .recheck) (l := s.log)
  have hsure := h.sure c (by rw [hc]; rfl)
  have hother : ∀ {c'}, c' ≠ c → (s.calls c').holds = false := by
    intro c' hne
    rw [Bool.eq_false_iff]
    intro hc'
    exact hne (hheld.eq (by rw [hc]; rfl) hc')
  refine ⟨?_, fun c' hc' => ?_, ?_, fun c' hc' => ?_, fun hset => ?_⟩
  · simp only [PermPolls.goto, hA, hF]
    exact hsure
  · rw [calls_goto] at hc'
    split at hc'
    · cases hc'
    · rename_i hne
      have hfree := hother hne
      rw [PermCall.holds_of_sure hc'] at hfree
      cases hfree
  · simp only [PermPolls.goto, hF, hL]
    exact h.found
  · simp only [PermPolls.goto, hF, hL]
    rw [calls_goto] at hc'
    split at hc'
    · cases hc'
    · exact h.asks c' hc'
  · simp only [PermPolls.goto, hF, hL]
    exact h.unsettled hset

theorem Grants.move (h : s.Grants) (hheld : s.Held) (hm : Moves s s') : s'.Grants := by
  cases hm with
  | goes _ _ _ _ hasks hsure => exact h.goto hsure hasks rfl rfl rfl
  | stores hc => exact h.store hheld hc
  | @arms c hc =>
    exact { h.goto (c := c) (l := .armed s.armed :: s.log) (by simp [PermCall.sure])
      (by simp [PermCall.asks]) (by simp) (by simp [PermEvent.found])
      (by simp [PermEvent.lost]) with }
  | @cancels c w log hc hnone hlog =>
    refine h.goto (fun hsure => ?_) (fun hasks => ?_) ?_ ?_ ?_
    · cases w <;> simp_all [PermCaller.cancelled, PermCall.sure]
    · cases w <;> simp [PermCaller.cancelled, PermCall.asks] at hasks
    all_goals
      subst hlog
      split <;> simp [PermEvent.found, PermEvent.lost]
  | @takes c w ch log hc hcur hlog =>
    refine { h.goto (c := c) (p := .close ch w) (l := .took ch w :: log) (by rw [hc]; exact id)
      (by simp [PermCall.asks]) ?_ ?_ ?_ with }
    all_goals
      subst hlog
      split <;> simp [PermEvent.found, PermEvent.lost]
  | @closes c ch w hc =>
    refine { h.goto (c := c) (fun hsure => ?_) (fun hasks => ?_) rfl rfl rfl with }
    · cases w <;> simp_all [PermCaller.cancelled, PermCall.sure]
    · cases w <;> simp [PermCaller.cancelled, PermCall.asks] at hasks
  | @locks c w hc =>
    refine { h.goto (c := c) (fun hsure => ?_) (fun hasks => ?_) rfl rfl rfl with }
    · cases w <;> simp [PermCaller.locked, PermCall.sure] at hsure
    · cases w <;> simp [PermCaller.locked, PermCall.asks] at hasks
  | @applies c w hc =>
    obtain rfl | hne := eq_or_ne w .recheck
    · exact h.apply hheld hc
    · obtain ⟨hF, hL⟩ := applied_countP w s.log
      exact h.goto (by simp [PermCall.sure]) (by simp [PermCall.asks])
        (List.count_cons_of_ne (by simpa using hne)) hF hL
  | @unlocks c hc =>
    exact { h.goto (c := c) (by simp [PermCall.sure]) (by simp [PermCall.asks]) rfl rfl rfl with }

/-! ## Runs -/

structure Kept (s : PermPolls) : Prop where
  held : s.Held
  channels : s.Channels
  polled : s.Polled
  sweeps : s.Sweeps
  grants : s.Grants

theorem kept_init : init.Kept where
  held c h := by cases h
  channels :=
    { once := .nil
      made := fun ch h => by cases h
      current := fun ch h => by cases h
      hands := fun c ch w h => by cases h
      one := fun c c' ch w w' h => by cases h
      all := fun ch h => absurd h (Nat.not_lt_zero ch) }
  polled :=
    { below := fun c ch h => by cases h
      one := fun c c' ch h => by cases h
      past := fun ch h => by cases h
      once := fun ch => Nat.zero_le _ }
  sweeps :=
    { made := fun ch h => by cases h
      closing := fun ch h => by
        obtain ⟨later, earlier, heq, -⟩ := h
        cases later <;> cases heq
      applying := fun c ch h => by cases h
      applied := each_nil }
  grants :=
    { applied := le_rfl
      sure := fun c h => by cases h
      found := Nat.zero_le _
      asks := fun c h => by cases h
      unsettled := fun _ => le_rfl }

theorem Kept.step (h : s.Kept) {op : PermOp} (hs : s.step op = some s') : s'.Kept := by
  have hm := moves_of_step hs
  exact ⟨h.held.move hm, h.channels.move hm, h.polled.move hm,
    h.sweeps.move h.held h.channels hm, h.grants.move h.held hm⟩

theorem kept_run {ops : List PermOp} (hrun : exec step init ops = some s) : s.Kept :=
  exec_invariant (I := Kept) (fun _ _ _ h _ hs => h.step hs) kept_init (Meets.trivial _ _ _) hrun

/-- **Every poll is cancelled at most once.** However the calls are interleaved, no channel is
closed twice, and each that was made is closed, current, or in the hands of one goroutine that is
about to close it. So of two polls on open channels, one is about to be cancelled. -/
theorem polls_cancelled (ops : List PermOp) (s : PermPolls) (hrun : exec step init ops = some s) :
    s.closed.Nodup ∧
      (∀ ch < s.armed, ch ∈ s.closed ∨ s.permCancel = some ch ∨ ∃ c w, s.calls c = .close ch w) ∧
      (∀ c ch w, s.calls c = .close ch w → ch ∉ s.closed ∧ s.permCancel ≠ some ch ∧
        ∀ c' w', s.calls c' = .close ch w' → c' = c) ∧
      ∀ c c' ch ch', (s.calls c).polls = some ch → (s.calls c').polls = some ch' → c ≠ c' →
        ch ∉ s.closed → ch' ∉ s.closed →
        ∃ c'' w, s.calls c'' = .close ch w ∨ s.calls c'' = .close ch' w := by
  have h := kept_run hrun
  refine ⟨h.channels.once, h.channels.all, fun c ch w hc => ?_,
    fun c c' ch ch' hc hc' hne ho ho' => ?_⟩
  · exact ⟨(h.channels.hands c ch w hc).2.1, fun hcur => (h.channels.current ch hcur).2.2 c w hc,
      fun c' w' hc' => h.channels.one c' c ch w' w hc' hc⟩
  · have hall := (h.channels.all ch (h.polled.below c ch hc).1).resolve_left ho
    have hall' := (h.channels.all ch' (h.polled.below c' ch' hc').1).resolve_left ho'
    obtain hcur | ⟨c'', w, hw⟩ := hall
    · obtain hcur' | ⟨c'', w, hw⟩ := hall'
      · rw [hcur] at hcur'
        cases hcur'
        exact absurd (h.polled.one c c' ch hc hc') hne
      · exact ⟨c'', w, .inr hw⟩
    · exact ⟨c'', w, .inl hw⟩

/-- A click arms a poll; the grant comes, the poll sees it and waits for `writeMu`, which a focus
event has taken to sweep the poll away. -/
def sweptAway : List PermOp :=
  [.begin 0 .request, .run 0 .denied, .run 0 .denied, .run 0 .denied,
    .begin 1 .recheck, .run 1 .denied, .run 1 .denied, .run 1 .granted,
    .tick 0, .run 0 .granted, .run 0 .granted,
    .run 1 .granted, .run 1 .granted, .run 1 .granted, .run 1 .granted, .run 1 .granted,
    .run 1 .granted, .run 1 .granted, .run 0 .granted, .run 0 .granted, .run 0 .granted]

theorem polls_cancelled_sweptAway : ∃ s, exec step init sweptAway = some s ∧ s.closed = [0] ∧
    s.closed.Nodup :=
  ⟨_, rfl, rfl, (polls_cancelled sweptAway _ rfl).1⟩

/-- **Each grant is applied once.** However many focus events come, the re-check re-applies the
hotkeys at most once, and once more for each time the cached status stops being settled. Each poll
applies at most once, and not at all once a re-check has swept it away, unless a click or the
shutdown had taken its channel by then. -/
theorem grants_applied (ops : List PermOp) (s : PermPolls) (hrun : exec step init ops = some s) :
    s.log.count (.applied .recheck) ≤ s.log.countP PermEvent.lost + 1 ∧
      (∀ ch, s.log.count (.applied (.poll ch)) ≤ 1) ∧
      ∀ ch later earlier before, s.log = later ++ .applied (.poll ch) :: earlier →
        .swept :: before <:+ earlier → .armed ch ∈ before →
          ∃ w, w ≠ .recheck ∧ .took ch w ∈ before := by
  have h := kept_run hrun
  refine ⟨h.grants.applied.trans h.grants.found, h.polled.once, ?_⟩
  rintro ch later earlier before hlog ⟨between, hbetween⟩ harmed
  have hnot := h.sweeps.applied later _ earlier hlog ch rfl
  by_contra hnone
  refine hnot ⟨between, before, hbetween.symm, harmed, fun w hw => ?_⟩
  by_contra hne
  exact hnone ⟨w, hne, hw⟩

theorem grants_applied_sweptAway : ∃ s, exec step init sweptAway = some s ∧
    s.log.count (.applied .recheck) = 1 ∧ s.log.countP PermEvent.lost = 0 ∧
      s.log.count (.applied .recheck) ≤ s.log.countP PermEvent.lost + 1 :=
  ⟨_, rfl, by decide, by decide, (grants_applied sweptAway _ rfl).1⟩

end PermPolls

end VcsClient.App
