import VcsClient.History.Log
import VcsClient.Lib.Machine

/-!
# Saving the transmission log

`Tick` and `Flush` of `internal/history/store.go`, among appends and clears. The check
of `Tick` and the `Flush` it calls are two steps, and a `Flush` is three: the copy under
the lock, the write without it, and the reset of the flag under it again. One `Flush` is
in progress at a time.

`Kept` says what each place of a flush holds: while a save is being written the flag is
set, and a save that was written is what the log holds unless the revision has moved on.
So a clean log is on the disk (`log_saved`).
-/

namespace VcsClient.History

open VcsClient.Lib

/-- Where the flush in progress is. -/
inductive Flush where
  | idle
  /-- The entries are copied, and not on the disk. -/
  | copied (snap : List Entry) (rev : ℕ)
  /-- The file is in place. -/
  | renamed (rev : ℕ)
  deriving DecidableEq

structure Persist where
  log : Log
  disk : Disk
  flush : Flush
  /-- Ticks that found the log due, and have not called `Flush`. -/
  due : ℕ
  /-- What was appended or loaded since the last clear, oldest first. -/
  kept : List Entry
  /-- The log was loaded or saved. -/
  synced : Bool

inductive Op where
  | append (e : Entry) (now : ℤ)
  | clear (now : ℤ)
  | tick (now : ℤ)
  /-- A tick calls `Flush`. -/
  | tickFlush
  | flush
  /-- The file is written and renamed, or not. -/
  | save (ok : Bool)
  /-- The flag is reset, if the revision allows it. -/
  | settle

namespace Persist

/-- `Load` and `SetPersist`, of the same path. -/
def start (disk : Disk) (capacity : ℤ) (path : String) (debounce : ℤ) : Persist where
  log := (load disk capacity).1.setPersist path debounce
  disk := disk
  flush := .idle
  due := 0
  kept := if (load disk capacity).2 = none then disk.entries else []
  synced := (load disk capacity).2 = none

/-- `Flush` up to the copy. -/
def begin (m : Persist) : Persist :=
  if m.log.path = "" ∨ m.log.dirty = false then m
  else { m with flush := .copied m.log.entries m.log.rev }

def step (m : Persist) : Op → Option Persist
  | .append e now => some { m with
      log := m.log.append e now
      kept := m.kept ++ [e] }
  | .clear now => some { m with
      log := m.log.clear now
      kept := [] }
  | .tick now => some { m with due := if m.log.ticks now then m.due + 1 else m.due }
  | .tickFlush =>
    if m.flush = .idle ∧ 0 < m.due then some { m.begin with due := m.due - 1 } else none
  | .flush => if m.flush = .idle then some m.begin else none
  | .save ok =>
    match m.flush with
    | .copied snap rev =>
      -- a failed save leaves the file as it was
      if ok then some { m with
        disk := .file schemaVersion snap
        flush := .renamed rev
        synced := true }
      else some { m with flush := .idle }
    | _ => none
  | .settle =>
    match m.flush with
    | .renamed rev => some { m with
        log := if m.log.rev = rev then { m.log with dirty := false } else m.log
        flush := .idle }
    | _ => none

/-! ## What a step does -/

inductive Moves (m : Persist) : Persist → Prop
  | append (e : Entry) (now : ℤ) : Moves m { m with
      log := m.log.append e now
      kept := m.kept ++ [e] }
  | clear (now : ℤ) : Moves m { m with
      log := m.log.clear now
      kept := [] }
  /-- A tick that was made, or that calls a `Flush` with nothing to do. -/
  | ticked (due : ℕ) : Moves m { m with due := due }
  | begun (due : ℕ) (hidle : m.flush = .idle) (hdirty : m.log.dirty = true) : Moves m { m with
      flush := .copied m.log.entries m.log.rev
      due := due }
  | saved (snap : List Entry) (rev : ℕ) (hflush : m.flush = .copied snap rev) : Moves m { m with
      disk := .file schemaVersion snap
      flush := .renamed rev
      synced := true }
  | failed (snap : List Entry) (rev : ℕ) (hflush : m.flush = .copied snap rev) :
      Moves m { m with flush := .idle }
  | cleaned (rev : ℕ) (hflush : m.flush = .renamed rev) (hrev : m.log.rev = rev) :
      Moves m { m with
        log := { m.log with dirty := false }
        flush := .idle }
  /-- The log moved on while it was saved. -/
  | outdated (rev : ℕ) (hflush : m.flush = .renamed rev) (hrev : m.log.rev ≠ rev) :
      Moves m { m with flush := .idle }

variable {m m' : Persist}

theorem moves_of_begin (due : ℕ) (hidle : m.flush = .idle) :
    Moves m { m.begin with due := due } := by
  unfold begin
  split
  · exact .ticked due
  · next hwork =>
    rw [not_or, Bool.not_eq_false] at hwork
    exact .begun due hidle hwork.2

theorem moves_of_step {op : Op} (h : step m op = some m') : Moves m m' := by
  cases op with
  | append e now => cases h; exact .append e now
  | clear now => cases h; exact .clear now
  | tick now => cases h; exact .ticked _
  | tickFlush =>
    simp only [step] at h
    split at h
    · next hdue =>
      cases h
      exact moves_of_begin _ hdue.1
    · cases h
  | flush =>
    simp only [step] at h
    split at h
    · next hidle =>
      cases h
      exact moves_of_begin m.begin.due hidle
    · cases h
  | save ok =>
    simp only [step] at h
    split at h
    · next snap rev hflush =>
      split at h
      · cases h; exact .saved snap rev hflush
      · cases h; exact .failed snap rev hflush
    · cases h
  | settle =>
    simp only [step] at h
    split at h
    · next rev hflush =>
      cases h
      split
      · next hrev => exact .cleaned rev hflush hrev
      · next hrev => exact .outdated rev hflush hrev
    · cases h

/-! ## What every state satisfies -/

/-- What the flush in progress holds of the log. -/
def AtPlace (log : Log) (disk : Disk) : Flush → Prop
  | .idle => True
  | .copied snap rev =>
    log.dirty = true ∧ rev ≤ log.rev ∧ (log.rev = rev → snap = log.entries)
  | .renamed rev =>
    log.dirty = true ∧ rev ≤ log.rev ∧ (log.rev = rev → disk.entries = log.entries)

structure Kept (m : Persist) : Prop where
  kept : m.log.entries = m.kept.rtake m.log.cap
  place : AtPlace m.log m.disk m.flush
  clean : m.log.dirty = false → m.synced = true →
    m.disk.entries.rtake m.log.cap = m.log.entries

/-- A log that has moved on is dirty, and its revision is a newer one. -/
theorem AtPlace.newer {log log' : Log} {disk : Disk} {flush : Flush} (h : AtPlace log disk flush)
    (hdirty : log'.dirty = true) (hrev : log'.rev = log.rev + 1) : AtPlace log' disk flush := by
  cases flush with
  | idle => exact trivial
  | copied snap rev =>
    obtain ⟨-, hle, -⟩ := h
    exact ⟨hdirty, by omega, fun heq => absurd heq (by omega)⟩
  | renamed rev =>
    obtain ⟨-, hle, -⟩ := h
    exact ⟨hdirty, by omega, fun heq => absurd heq (by omega)⟩

theorem clean_of_dirty {log : Log} {disk : Disk} {synced : Bool} (hdirty : log.dirty = true) :
    log.dirty = false → synced = true → disk.entries.rtake log.cap = log.entries :=
  fun hclean _ => absurd hclean (by rw [hdirty]; decide)

theorem kept_start (disk : Disk) (capacity : ℤ) (path : String) (debounce : ℤ) :
    Kept (start disk capacity path debounce) := by
  rcases Decidable.em ((load disk capacity).2 = none) with hload | hload
  · obtain ⟨hentries, -⟩ := load_clean hload
    refine ⟨?_, trivial, fun _ _ => hentries.symm⟩
    show (load disk capacity).1.entries = _
    rw [hentries]
    simp only [start, hload, if_true]
    rfl
  · refine ⟨?_, trivial, fun _ hsynced => ?_⟩
    · simp only [start, hload, if_false]
      rw [load_failed hload]
      exact (List.rtake_nil _).symm
    · simp only [start, hload] at hsynced
      cases hsynced

/-- **A step keeps the log accounted for.** -/
theorem kept_moves (h : Kept m) (hm : Moves m m') : Kept m' := by
  cases hm with
  | append e now =>
    refine ⟨?_, h.place.newer rfl rfl, clean_of_dirty rfl⟩
    rw [Log.append_entries, h.kept, rtake_snoc _ _ m.log.cap_pos]
    rfl
  | clear now => exact ⟨(List.rtake_nil _).symm, h.place.newer rfl rfl, clean_of_dirty rfl⟩
  | ticked due => exact ⟨h.kept, h.place, h.clean⟩
  | begun due hidle hdirty =>
    exact ⟨h.kept, ⟨hdirty, le_rfl, fun _ => rfl⟩, clean_of_dirty hdirty⟩
  | saved snap rev hflush =>
    have hplace := h.place
    rw [hflush] at hplace
    obtain ⟨hdirty, hle, hsnap⟩ := hplace
    exact ⟨h.kept, ⟨hdirty, hle, hsnap⟩, clean_of_dirty hdirty⟩
  | failed snap rev hflush => exact ⟨h.kept, trivial, h.clean⟩
  | cleaned rev hflush hrev =>
    refine ⟨h.kept, trivial, fun _ _ => ?_⟩
    have hplace := h.place
    rw [hflush] at hplace
    have hdisk := hplace.2.2 hrev
    show m.disk.entries.rtake m.log.cap = m.log.entries
    rw [hdisk]
    exact rtake_of_length_le m.log.le_cap
  | outdated rev hflush hrev => exact ⟨h.kept, trivial, h.clean⟩

theorem kept_run {s t : Persist} {ops : List Op} (h : Kept s) (hr : exec step s ops = some t) :
    Kept t :=
  exec_invariant (fun _ _ _ hi _ hs => kept_moves hi (moves_of_step hs)) h
    (Meets.trivial step s ops) hr

/-- **The transmission log.** The entries are the last of those appended or loaded since
the last clear, the snapshot is their reverse, and a clean log that was loaded or saved
is what the last entries of the file are. -/
theorem log_saved {disk : Disk} {capacity : ℤ} {path : String} {debounce : ℤ} {ops : List Op}
    (h : exec step (start disk capacity path debounce) ops = some m) :
    m.log.entries = m.kept.rtake m.log.cap ∧
      m.log.snapshot = m.log.entries.reverse ∧
      (m.log.dirty = false → m.flush = .idle → m.synced = true →
        m.disk.entries.rtake m.log.cap = m.log.entries) := by
  have hkept := kept_run (kept_start disk capacity path debounce) h
  exact ⟨hkept.kept, m.log.snapshot_eq, fun hclean _ hsynced => hkept.clean hclean hsynced⟩

/-- An append, a save with another append while it is written, and the save of the next
tick. -/
def savedTwice : List Op :=
  [.append ⟨0, "Ada", "a1", 118000, "Tower", 900, false⟩ 0, .flush,
    .append ⟨1, "Bea", "b2", 121500, "Guard", 400, false⟩ 1, .save true, .settle, .tick 9,
    .tickFlush, .save true, .settle]

/-- The entry appended while the log was saved is on the disk after the next save. -/
theorem log_saved_twice :
    ∃ m, exec step (start .missing 1 "history.json" 5) savedTwice = some m ∧
      m.log.dirty = false ∧
      m.disk.entries.rtake m.log.cap = [⟨1, "Bea", "b2", 121500, "Guard", 400, false⟩] := by
  obtain ⟨m, hm⟩ : ∃ m, exec step (start .missing 1 "history.json" 5) savedTwice = some m :=
    ⟨_, rfl⟩
  have hclean : m.log.dirty = false := by cases hm; rfl
  have hidle : m.flush = .idle := by cases hm; rfl
  have hsynced : m.synced = true := by cases hm; rfl
  obtain ⟨-, -, hsaved⟩ := log_saved hm
  refine ⟨m, hm, hclean, (hsaved hclean hidle hsynced).trans ?_⟩
  cases hm
  rfl

end Persist

end VcsClient.History
