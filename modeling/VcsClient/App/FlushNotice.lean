import VcsClient.History.Persist
import VcsClient.Notify.Store

/-!
# The notification of a failing flush

`main.go` gives the transmission log `notifyHistoryFlush` as its `onErr`, which `Flush`
calls with the error of a save that failed. That function resolves the notification when
it is called without an error, and nothing calls it so: the notification stays unresolved
after the flush that saves (`flush_notice`).
-/

namespace VcsClient.App

open VcsClient.Lib VcsClient.Notify VcsClient.History

structure FlushAttempt where
  failed : Bool
  /-- The notification is unresolved after it. -/
  unresolved : Bool
  deriving DecidableEq

/-- The log and the notifier; `attempts` are the flushes that had something to save,
oldest first. -/
structure FlushNotice (δ : Type*) where
  persist : History.Persist
  notifier : Notifier δ
  attempts : List FlushAttempt

def historyFlushKey : Key := "history:flush"

def historyFlushItem (err : String) : Item where
  id := ""
  key := ""
  category := "Transmission Log"
  severity := severityError
  icon := "history"
  title := "Cannot save the transmission log"
  body := err
  context := []
  actions := []
  time := 0
  unread := false
  resolved := false

variable {δ : Type*}

/-- The notification with the key is unresolved. -/
def flushUnresolved (n : Notifier δ) : Bool :=
  (n.findByKeyLocked historyFlushKey).any fun it => !it.resolved

/-- No notification of the key is suppressed, and the newest is unresolved if there is one. -/
structure FlushStanding (n : Notifier δ) : Prop where
  room : 0 < n.cap
  heard : n.suppressed.lookup historyFlushKey = none
  standing : ∀ it, n.findByKeyLocked historyFlushKey = some it → it.resolved = false

theorem flushStanding_new (cap : ℤ) : FlushStanding (Notifier.new δ cap) where
  room := by
    show 0 < if cap ≤ 0 then Notify.defaultCap else cap.toNat
    split
    · decide
    · omega
  heard := rfl
  standing _ h := nomatch h

theorem flushStanding_of {n : Notifier δ} {it : Item} (hroom : 0 < n.cap)
    (hheard : n.suppressed.lookup historyFlushKey = none)
    (hfind : n.findByKeyLocked historyFlushKey = some it) (hit : it.resolved = false) :
    FlushStanding n ∧ flushUnresolved n = true := by
  refine ⟨⟨hroom, hheard, fun it' hit' => ?_⟩, ?_⟩
  · obtain rfl : it = it' := Option.some.inj (hfind.symm.trans hit')
    exact hit
  · unfold flushUnresolved
    rw [hfind, Option.any_some, hit]
    rfl

variable [DecidableEq δ] (sha256 : List UInt8 → δ)

/-- `notifyHistoryFlush`. -/
def notifyHistoryFlush (n : Notifier δ) (now : ℤ) : Option String → Notifier δ
  | none => (n.resolveReport historyFlushKey).n
  | some err => (n.raiseReport sha256 now historyFlushKey (historyFlushItem err)).n

/-- **A report** leaves the notification unresolved. -/
theorem flushStanding_notify {n : Notifier δ} (h : FlushStanding n) (now : ℤ) (err : String) :
    FlushStanding (notifyHistoryFlush sha256 n now (some err)) ∧
      flushUnresolved (notifyHistoryFlush sha256 n now (some err)) = true := by
  have hkey : ¬historyFlushKey = "" := by decide
  unfold notifyHistoryFlush Notifier.raiseReport
  dsimp only
  rw [if_neg hkey]
  unfold Notifier.raiseLocked
  dsimp only
  rw [h.heard, if_neg nofun]
  cases hfind : n.findByKeyLocked historyFlushKey with
  | none =>
    -- the first failure
    have hinsert : ((n.insertLocked now { historyFlushItem err with
        key := historyFlushKey }).2.findByKeyLocked historyFlushKey) =
          some (Item.stamped { historyFlushItem err with key := historyFlushKey }
            (idOf (n.seq + 1)) now) := by
      obtain ⟨k, hk⟩ := Nat.exists_eq_add_one.2 h.room
      show List.find? _ (List.take n.cap (_ :: n.items)) = _
      rw [hk, List.take_succ_cons]
      exact List.find?_cons_of_pos (beq_self_eq_true historyFlushKey)
    exact flushStanding_of h.room (AList.lookup_erase _ _) hinsert rfl
  | some it =>
    have hit := h.standing it hfind
    dsimp only
    rw [hit, if_neg Bool.false_ne_true]
    by_cases hfp : fingerprint sha256 it =
        fingerprint sha256 { historyFlushItem err with key := historyFlushKey }
    · -- the same error again
      rw [if_pos hfp]
      exact flushStanding_of h.room h.heard hfind hit
    · rw [if_neg hfp]
      exact flushStanding_of h.room h.heard
        (find?_modifyFirst hfind (beq_self_eq_true historyFlushKey)) rfl

namespace FlushNotice

/-- The log is loaded, and the notifier is new. -/
def start (disk : Disk) (capacity : ℤ) (path : String) (debounce cap : ℤ) : FlushNotice δ where
  persist := History.Persist.start disk capacity path debounce
  notifier := Notifier.new δ cap
  attempts := []

/-- A step of the log, with the error of a save that fails and the time of its notification. -/
def step (s : FlushNotice δ) (a : History.Op × String × ℤ) : Option (FlushNotice δ) :=
  match s.persist.step a.1 with
  | none => none
  | some persist =>
    match a.1 with
    | .save false =>
      -- `onErr`
      let n := notifyHistoryFlush sha256 s.notifier a.2.2 (some a.2.1)
      some ⟨persist, n, s.attempts ++ [⟨true, flushUnresolved n⟩]⟩
    | .settle => some { s with
      persist := persist
      attempts := s.attempts ++ [⟨false, flushUnresolved s.notifier⟩] }
    | _ => some { s with persist := persist }

variable {sha256} {s s' : FlushNotice δ} {a : History.Op × String × ℤ}

inductive Moves (sha256 : List UInt8 → δ) (s : FlushNotice δ) : FlushNotice δ → Prop
  | failed (persist : History.Persist) (now : ℤ) (err : String) : Moves sha256 s
      ⟨persist, notifyHistoryFlush sha256 s.notifier now (some err), s.attempts ++
        [⟨true, flushUnresolved (notifyHistoryFlush sha256 s.notifier now (some err))⟩]⟩
  | saved (persist : History.Persist) : Moves sha256 s { s with
      persist := persist
      attempts := s.attempts ++ [⟨false, flushUnresolved s.notifier⟩] }
  | other (persist : History.Persist) : Moves sha256 s { s with persist := persist }

theorem moves_of_step (h : step sha256 s a = some s') : Moves sha256 s s' := by
  unfold step at h
  split at h
  · cases h
  · next persist _ =>
    split at h
    · cases h
      exact .failed persist a.2.2 a.2.1
    · cases h
      exact .saved persist
    · cases h
      exact .other persist

/-! ## Runs -/

/-- After each attempt the notification says how it went. -/
def Told (attempts : List FlushAttempt) : Prop := ∀ a ∈ attempts, a.unresolved = a.failed

/-- No attempt succeeds after one that failed. -/
def NoRecovery (attempts : List FlushAttempt) : Prop :=
  attempts.Pairwise fun a b => a.failed = true → b.failed = true

instance (attempts : List FlushAttempt) : Decidable (Told attempts) :=
  inferInstanceAs (Decidable (∀ a ∈ attempts, _))

/-- What is known of a run. -/
structure Inv (s : FlushNotice δ) : Prop where
  standing : FlushStanding s.notifier
  /-- it is unresolved from the first failure on -/
  unresolved : flushUnresolved s.notifier = s.attempts.any FlushAttempt.failed
  told : Told s.attempts ↔ NoRecovery s.attempts

/-- One attempt more, after which the notification is unresolved if it failed or one before
did. -/
theorem told_concat {attempts : List FlushAttempt} (failed : Bool)
    (h : Told attempts ↔ NoRecovery attempts) :
    Told (attempts ++ [⟨failed, failed || attempts.any FlushAttempt.failed⟩]) ↔
      NoRecovery (attempts ++ [⟨failed, failed || attempts.any FlushAttempt.failed⟩]) := by
  have hlast : (failed || attempts.any FlushAttempt.failed) = failed ↔
      ∀ a ∈ attempts, a.failed = true → failed = true := by
    cases failed with
    | true => simp
    | false => simp
  unfold Told NoRecovery at *
  rw [List.forall_mem_append, List.pairwise_append, h, List.forall_mem_singleton, hlast]
  simp only [List.pairwise_singleton, List.forall_mem_singleton, true_and]

omit [DecidableEq δ] in
theorem inv_start (disk : Disk) (capacity : ℤ) (path : String) (debounce cap : ℤ) :
    Inv (start (δ := δ) disk capacity path debounce cap) where
  standing := flushStanding_new cap
  unresolved := rfl
  told := ⟨fun _ => List.Pairwise.nil, fun _ _ h => nomatch h⟩

theorem inv_moves (h : Inv s) (hm : Moves sha256 s s') : Inv s' := by
  cases hm with
  | failed persist now err =>
    obtain ⟨hstanding, hun⟩ := flushStanding_notify sha256 h.standing now err
    refine ⟨hstanding, ?_, ?_⟩
    · rw [hun, List.any_append, List.any_cons, Bool.true_or, Bool.or_true]
    · rw [hun]
      exact told_concat true h.told
  | saved persist =>
    refine ⟨h.standing, ?_, ?_⟩
    · rw [h.unresolved, List.any_append, List.any_cons, List.any_nil, Bool.or_self, Bool.or_false]
    · rw [h.unresolved]
      exact told_concat false h.told
  | other persist => exact ⟨h.standing, h.unresolved, h.told⟩

end FlushNotice

open FlushNotice in
/-- **A failing flush is reported** as long as it fails: in a run, the notification is
unresolved after each attempted flush exactly if that one failed, where and only where no
attempt succeeds after one that failed. -/
theorem flush_notice {disk : Disk} {capacity : ℤ} {path : String} {debounce cap : ℤ}
    {acts : List (History.Op × String × ℤ)} {s : FlushNotice δ}
    (h : exec (step sha256) (start disk capacity path debounce cap) acts = some s) :
    Told s.attempts ↔ NoRecovery s.attempts :=
  (exec_invariant (fun _ _ _ hi _ hs => inv_moves hi (moves_of_step hs))
    (inv_start disk capacity path debounce cap) (Meets.trivial _ _ _) h).told

/-- An entry, and a flush whose rename fails. -/
def renameFails : List (History.Op × String × ℤ) :=
  [(.append ⟨0, "Ada", "a1", 118000, "Tower", 900, false⟩ 0, "", 0), (.flush, "", 0),
    (.save false, "rename history: permission denied", 5)]

open FlushNotice in
theorem flush_notice_fails : ∃ s : FlushNotice (List UInt8),
    exec (step id) (start .missing 2000 "history.json" 5 200) renameFails = some s ∧
      Told s.attempts := by
  obtain ⟨s, hs⟩ : ∃ s : FlushNotice (List UInt8),
      exec (step id) (start .missing 2000 "history.json" 5 200) renameFails = some s := ⟨_, rfl⟩
  refine ⟨s, hs, (flush_notice id hs).2 ?_⟩
  cases hs
  exact List.pairwise_singleton _ _

open FlushNotice in
/-- The flush after it saves the log, and the notification stays. -/
theorem flush_notice_stays : ¬∀ acts (s : FlushNotice (List UInt8)),
    exec (step id) (start .missing 2000 "history.json" 5 200) acts = some s →
      Told s.attempts := by
  intro h
  have htold := h (renameFails ++ [(.flush, "", 6), (.save true, "", 6), (.settle, "", 6)]) _ rfl
  exact absurd htold (by decide)

end VcsClient.App
