import Mathlib.Data.List.AList
import VcsClient.Lib.Listing
import VcsClient.Voice.Tx

/-!
# The transmit side of the application

`internal/app/voice.go` and `installTXTargetsLocked` of `history.go`: the held
PTT actions with the target each resolved to, the live voice session, and the
timer that clears the session's targets after a release. Every function here is
one critical section of `voiceState.mu`.

A session is reduced to what the application sets on it: the transmit targets
and the number of `EndTransmission` calls. `time.AfterFunc` arms a `Timer`;
when it fires its callback waits for the lock, and stopping it then comes too
late. What `resolveTXTarget` found for a press is an argument.
-/

namespace VcsClient.App

open VcsClient.Lib VcsClient.Voice

abbrev ActionID := String

/-- A live voice session, as the application drives it. -/
structure VoiceSession where
  sid : ℕ
  targets : List TXTarget
  ended : ℕ
  deriving DecidableEq

/-- One own transmission of the history log. -/
structure OwnEntry where
  freq : KHz
  start : ℤ
  end_ : ℤ
  deriving DecidableEq

/-- A release that left nothing held; no code reads it, a timer carries the one
it was armed for. -/
structure Release where
  number : ℕ
  at_ : ℤ
  deriving DecidableEq

structure Timer where
  id : ℕ
  release : Release
  delay : ℤ
  deadline : ℤ
  deriving DecidableEq

structure VoiceState where
  sess : Option VoiceSession
  tx : AList fun _ : ActionID => Option TXTarget
  gen : UInt64
  txStarted : AList fun _ : KHz => ℤ
  clearTimer : Option ℕ
  /-- Timers that may still be stopped. -/
  armed : List Timer
  /-- Timers whose callback waits for the lock. -/
  fired : List Timer
  timers : ℕ
  now : ℤ
  history : List OwnEntry

/-- The iteration orders of one critical section. -/
structure Orders where
  actions : IterOrder ActionID
  freqs : IterOrder KHz
  started : IterOrder KHz

def clearTailMargin : ℤ := 20 * 1000000

/-- One turn of `txTargetsLocked`: the resolved target of an action, by its frequency. -/
def addTarget (tx : AList fun _ : ActionID => Option TXTarget)
    (dedup : AList fun _ : KHz => TXTarget) (id : ActionID) : AList fun _ : KHz => TXTarget :=
  match tx.lookup id with
  | some (some t) => dedup.insert t.freq t
  | _ => dedup

def txTargetsLocked (o : IterOrder ActionID) (of : IterOrder KHz)
    (tx : AList fun _ : ActionID => Option TXTarget) : List TXTarget :=
  let dedup := (o.order tx.keys).foldl (addTarget tx) ∅
  (of.order dedup.keys).filterMap dedup.lookup

namespace VoiceState

def init (now : ℤ) : VoiceState := ⟨none, ∅, 0, ∅, none, [], [], 0, now, []⟩

/-- `Stop` keeps an armed timer from firing and does nothing to a fired one. -/
def cancelPendingTXClearLocked (v : VoiceState) : VoiceState :=
  match v.clearTimer with
  | none => v
  | some id => { v with clearTimer := none, armed := v.armed.filter (·.id ≠ id) }

/-- Install targets, on the session unless it is nil, and record the own
transmissions that end with them. -/
def installTXTargetsLocked (o : IterOrder KHz) (v : VoiceState) (sess : Option VoiceSession)
    (targets : List TXTarget) : VoiceState :=
  let next := targets.map (·.freq)
  let started := next.foldl (fun m f => if f ∈ m then m else m.insert f v.now) v.txStarted
  let ended := (o.order started.keys).filter (· ∉ next)
  { v with
    txStarted := ended.foldl (fun m f => m.erase f) started
    sess := match sess with
      | none => v.sess
      | some s => some { s with targets := targets }
    history := v.history ++
      ended.filterMap fun f => (started.lookup f).map fun start => ⟨f, start, v.now⟩ }

def txPress (r : Orders) (v : VoiceState) (actionID : ActionID) (target : Option TXTarget) :
    VoiceState :=
  let freshStart := v.tx.keys.length = 0
  let v := v.cancelPendingTXClearLocked
  let v := { v with tx := v.tx.insert actionID target }
  match v.sess with
  | none => v
  | some sess =>
    let sess := if freshStart then { sess with ended := sess.ended + 1 } else sess
    v.installTXTargetsLocked r.started (some sess) (txTargetsLocked r.actions r.freqs v.tx)

/-- `held` is whether any action is still held. -/
def txRelease (r : Orders) (v : VoiceState) (actionID : ActionID) : Bool × VoiceState :=
  let v := { v with tx := v.tx.erase actionID }
  if v.tx.keys.length = 0 then (false, v)
  else
    match v.sess with
    | none => (true, v)
    | some sess => (true, v.installTXTargetsLocked r.started (some sess)
        (txTargetsLocked r.actions r.freqs v.tx))

/-- `delayMS` is the configured PTT release delay. -/
def scheduleTXTargetClear (v : VoiceState) (release : Release) (delayMS : ℕ) : VoiceState :=
  let delay := delayMS * 1000000 + clearTailMargin
  let v := v.cancelPendingTXClearLocked
  { v with
    clearTimer := some v.timers
    armed := v.armed ++ [⟨v.timers, release, delay, v.now + delay⟩]
    timers := v.timers + 1 }

def clearTXTargetsIfStillIdle (r : Orders) (v : VoiceState) : VoiceState :=
  let v := { v with clearTimer := none }
  if v.tx.keys.length ≠ 0 then v
  else
    match v.sess with
    | none => v
    | some sess => v.installTXTargetsLocked r.started (some sess) []

/-- `nextVoiceGeneration`: the epoch a dial is started under. -/
def nextVoiceGeneration (v : VoiceState) : VoiceState := { v with gen := v.gen + 1 }

/-- `setVoiceSession` with a session, whose targets are still empty: rejected
when the epoch has moved on since the dial. -/
def setVoiceSession (v : VoiceState) (sid : ℕ) (gen : UInt64) : VoiceState :=
  if gen ≠ v.gen then v else { v with sess := some ⟨sid, [], 0⟩ }

/-- `setVoiceSession` with nil: a teardown, which ends every own transmission. -/
def teardown (r : Orders) (v : VoiceState) : VoiceState :=
  let v := { v with gen := v.gen + 1 }
  let v := v.installTXTargetsLocked r.started none []
  { v with sess := none }

/-- A timer's time comes: its callback waits for the lock from here on. -/
def fire (v : VoiceState) (id : ℕ) : Option VoiceState :=
  match v.armed.find? (·.id = id) with
  | none => none
  | some t =>
    if v.now < t.deadline then none
    else some { v with armed := v.armed.filter (·.id ≠ id), fired := v.fired ++ [t] }

end VoiceState

/-! ## The frame of each section -/

namespace VoiceState

@[simp] theorem install_tx (o : IterOrder KHz) (v : VoiceState) (sess : Option VoiceSession)
    (targets : List TXTarget) : (v.installTXTargetsLocked o sess targets).tx = v.tx := rfl

@[simp] theorem install_now (o : IterOrder KHz) (v : VoiceState) (sess : Option VoiceSession)
    (targets : List TXTarget) : (v.installTXTargetsLocked o sess targets).now = v.now := rfl

@[simp] theorem install_armed (o : IterOrder KHz) (v : VoiceState) (sess : Option VoiceSession)
    (targets : List TXTarget) : (v.installTXTargetsLocked o sess targets).armed = v.armed := rfl

@[simp] theorem install_fired (o : IterOrder KHz) (v : VoiceState) (sess : Option VoiceSession)
    (targets : List TXTarget) : (v.installTXTargetsLocked o sess targets).fired = v.fired := rfl

@[simp] theorem cancel_tx (v : VoiceState) : v.cancelPendingTXClearLocked.tx = v.tx := by
  unfold cancelPendingTXClearLocked; split <;> rfl

@[simp] theorem cancel_now (v : VoiceState) : v.cancelPendingTXClearLocked.now = v.now := by
  unfold cancelPendingTXClearLocked; split <;> rfl

@[simp] theorem cancel_sess (v : VoiceState) : v.cancelPendingTXClearLocked.sess = v.sess := by
  unfold cancelPendingTXClearLocked; split <;> rfl

@[simp] theorem cancel_fired (v : VoiceState) : v.cancelPendingTXClearLocked.fired = v.fired := by
  unfold cancelPendingTXClearLocked; split <;> rfl

theorem cancel_armed (v : VoiceState) : ∀ t ∈ v.cancelPendingTXClearLocked.armed, t ∈ v.armed := by
  unfold cancelPendingTXClearLocked
  split
  · exact fun t ht => ht
  · exact fun t ht => (List.mem_filter.1 ht).1

/-- Where every armed timer is the pending one, none is left. -/
theorem cancel_armed_eq_nil (v : VoiceState) (h : ∀ t ∈ v.armed, v.clearTimer = some t.id) :
    v.cancelPendingTXClearLocked.armed = [] := by
  refine List.eq_nil_iff_forall_not_mem.2 fun t ht => ?_
  have hid := h t (v.cancel_armed t ht)
  simp [cancelPendingTXClearLocked, hid] at ht

/-- A press installs the targets of what is held after it. -/
theorem txPress_tx (r : Orders) (v : VoiceState) (actionID : ActionID) (target : Option TXTarget) :
    (v.txPress r actionID target).tx = v.tx.insert actionID target := by
  simp only [txPress]
  split <;> simp

theorem txPress_sess (r : Orders) (v : VoiceState) (actionID : ActionID) (target : Option TXTarget)
    (sess : VoiceSession) (h : (v.txPress r actionID target).sess = some sess) :
    sess.targets = txTargetsLocked r.actions r.freqs (v.txPress r actionID target).tx := by
  rw [txPress_tx]
  simp only [txPress] at h
  split at h
  · next hs => simp only [hs] at h; cases h
  · simp only [installTXTargetsLocked, Option.some.injEq] at h
    subst h
    simp

theorem txPress_rest (r : Orders) (v : VoiceState) (actionID : ActionID)
    (target : Option TXTarget) :
    (v.txPress r actionID target).now = v.now ∧ (v.txPress r actionID target).fired = v.fired ∧
      (v.txPress r actionID target).armed = v.cancelPendingTXClearLocked.armed := by
  simp only [txPress]
  split <;> exact ⟨by simp, by simp, rfl⟩

theorem txRelease_tx (r : Orders) (v : VoiceState) (actionID : ActionID) :
    (v.txRelease r actionID).2.tx = v.tx.erase actionID := by
  simp only [txRelease]
  split
  · rfl
  · split <;> rfl

/-- A release that leaves something held installs the targets of that. -/
theorem txRelease_sess (r : Orders) (v : VoiceState) (actionID : ActionID) (sess : VoiceSession)
    (h : (v.txRelease r actionID).2.sess = some sess)
    (hheld : (v.txRelease r actionID).2.tx.keys.length ≠ 0) :
    sess.targets = txTargetsLocked r.actions r.freqs (v.txRelease r actionID).2.tx := by
  rw [txRelease_tx] at hheld ⊢
  simp only [txRelease] at h
  rw [if_neg hheld] at h
  split at h
  · next hs => simp only [hs] at h; cases h
  · simp only [installTXTargetsLocked, Option.some.injEq] at h
    subst h
    rfl

theorem txRelease_held (r : Orders) (v : VoiceState) (actionID : ActionID) :
    (v.txRelease r actionID).1 = decide ((v.txRelease r actionID).2.tx.keys.length ≠ 0) := by
  rw [txRelease_tx]
  simp only [txRelease]
  split
  · next h => exact (decide_eq_false (not_not.2 h)).symm
  · next h => split <;> exact (decide_eq_true h).symm

theorem txRelease_rest (r : Orders) (v : VoiceState) (actionID : ActionID) :
    (v.txRelease r actionID).2.now = v.now ∧ (v.txRelease r actionID).2.fired = v.fired ∧
      (v.txRelease r actionID).2.armed = v.armed := by
  simp only [txRelease]
  split
  · exact ⟨rfl, rfl, rfl⟩
  · split <;> exact ⟨rfl, rfl, rfl⟩

theorem clear_rest (r : Orders) (v : VoiceState) :
    (v.clearTXTargetsIfStillIdle r).tx = v.tx ∧ (v.clearTXTargetsIfStillIdle r).now = v.now ∧
      (v.clearTXTargetsIfStillIdle r).armed = v.armed ∧
      (v.clearTXTargetsIfStillIdle r).fired = v.fired := by
  simp only [clearTXTargetsIfStillIdle]
  split
  · exact ⟨rfl, rfl, rfl, rfl⟩
  · split <;> exact ⟨rfl, rfl, rfl, rfl⟩

end VoiceState

/-! ## The frequencies of the targets -/

section Targets

variable {tx : AList fun _ : ActionID => Option TXTarget} {m : AList fun _ : KHz => TXTarget}
  {f : KHz}

theorem mem_addTarget {id : ActionID} :
    f ∈ addTarget tx m id ↔ f ∈ m ∨ ∃ t, tx.lookup id = some (some t) ∧ t.freq = f := by
  unfold addTarget
  split
  · next t ht => simp [ht, AList.mem_insert, or_comm, eq_comm]
  · next hne => simpa using fun t ht => absurd ht (hne t)

theorem mem_foldl_addTarget (ids : List ActionID) :
    f ∈ ids.foldl (addTarget tx) m ↔
      f ∈ m ∨ ∃ id ∈ ids, ∃ t, tx.lookup id = some (some t) ∧ t.freq = f := by
  induction ids generalizing m with
  | nil => simp
  | cons id ids ih => rw [List.foldl_cons, ih, mem_addTarget]; simp [or_assoc]

theorem freq_foldl_addTarget (ids : List ActionID) (hm : ∀ f t, m.lookup f = some t → t.freq = f) :
    ∀ f t, (ids.foldl (addTarget tx) m).lookup f = some t → t.freq = f := by
  induction ids generalizing m with
  | nil => exact hm
  | cons id ids ih =>
    refine ih fun f t h => ?_
    unfold addTarget at h
    split at h
    · next t' _ =>
      by_cases he : f = t'.freq
      · subst he
        rw [AList.lookup_insert, Option.some.injEq] at h
        rw [h]
      · rw [AList.lookup_insert_ne he] at h
        exact hm f t h
    · exact hm f t h

/-- **The targets' frequencies** are those of the held actions that resolved. -/
theorem mem_freqs_txTargetsLocked {o : IterOrder ActionID} {of : IterOrder KHz} :
    f ∈ (txTargetsLocked o of tx).map (·.freq) ↔
      ∃ id t, tx.lookup id = some (some t) ∧ t.freq = f := by
  have hfreq : ∀ f t, ((o.order tx.keys).foldl (addTarget tx) ∅).lookup f = some t → t.freq = f :=
    freq_foldl_addTarget _ (by simp)
  have hkeys : ∀ id, id ∈ o.order tx.keys ↔ id ∈ tx :=
    fun id => (o.perm _).mem_iff.trans AList.mem_keys
  have hmem : f ∈ (o.order tx.keys).foldl (addTarget tx) ∅ ↔ _ :=
    mem_foldl_addTarget (o.order tx.keys)
  simp only [AList.notMem_empty, false_or, hkeys] at hmem
  simp only [txTargetsLocked, List.mem_map, List.mem_filterMap]
  constructor
  · rintro ⟨t, ⟨f', -, hl⟩, rfl⟩
    rw [← hfreq f' t hl] at hl
    obtain ⟨id, -, t', ht', hf⟩ := (mem_foldl_addTarget (o.order tx.keys)).1
      (AList.lookup_isSome.1 (by rw [hl]; rfl)) |>.resolve_left (AList.notMem_empty _)
    exact ⟨id, t', ht', hf⟩
  · rintro ⟨id, t, ht, hf⟩
    have hin := hmem.2 ⟨id, AList.lookup_isSome.1 (by rw [ht]; rfl), t, ht, hf⟩
    obtain ⟨t', ht'⟩ := Option.isSome_iff_exists.1 (AList.lookup_isSome.2 hin)
    exact ⟨t', ⟨f, (of.perm _).mem_iff.2 (AList.mem_keys.2 hin), ht'⟩, hfreq f t' ht'⟩

theorem txTargetsLocked_eq_nil {o : IterOrder ActionID} {of : IterOrder KHz}
    (h : ∀ id ∈ tx.keys, tx.lookup id = some none) : txTargetsLocked o of tx = [] := by
  refine List.eq_nil_iff_forall_not_mem.2 fun t ht => ?_
  obtain ⟨id, t', ht', -⟩ := mem_freqs_txTargetsLocked.1 (List.mem_map_of_mem ht)
  have hmem : id ∈ tx.keys := AList.mem_keys.2 (AList.lookup_isSome.1 (by rw [ht']; rfl))
  rw [h id hmem] at ht'
  cases ht'

end Targets

end VcsClient.App
