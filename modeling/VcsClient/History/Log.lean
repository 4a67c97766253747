import Mathlib.Data.List.DropRight
import Mathlib.Data.Nat.Notation
import Mathlib.Tactic.Common

/-!
# The transmission log

`internal/history/history.go` and the `Load` of `store.go`: a bounded ring of completed
transmissions, oldest first. Appending keeps the last `cap` of what was appended
(`append_entries`), and `snapshot` is the reverse.

A revision is a number that does not wrap, and a log read from a file is the one that
was encoded into it.
-/

namespace VcsClient.History

/-- `DefaultCap`. -/
def defaultCap : ℕ := 2000

/-- `SchemaVersion`. -/
def schemaVersion : ℤ := 1

structure Entry where
  atTime : ℤ
  sender : String
  guid : String
  freqKHz : ℕ
  radio : String
  durationMS : ℤ
  own : Bool
  deriving DecidableEq, Inhabited

/-- `copy`. -/
def copyFront {α : Type*} (dst src : List α) : List α :=
  src.take dst.length ++ dst.drop src.length

/-- What `Append` does to the entries: a full ring is shifted in place. -/
def ringPush (cap : ℕ) (entries : List Entry) (e : Entry) : List Entry :=
  (if cap ≤ entries.length then
    (copyFront entries (entries.drop (entries.length - cap + 1))).take (cap - 1)
  else entries) ++ [e]

/-- The loop of `Snapshot` over the entries from `i` on, into `out`. -/
def fillBack (n : ℕ) : List Entry → ℕ → List Entry → List Entry
  | [], _, out => out
  | e :: rest, i, out => fillBack n rest (i + 1) (out.set (n - 1 - i) e)

section Ring

variable {cap : ℕ} {entries : List Entry} {e : Entry}

theorem rtake_of_length_le {α : Type*} {l : List α} (h : l.length ≤ cap) : l.rtake cap = l := by
  rw [List.rtake, Nat.sub_eq_zero_of_le h, List.drop_zero]

theorem rtake_rtake {α : Type*} (l : List α) (n k : ℕ) (h : n ≤ k) :
    (l.rtake k).rtake n = l.rtake n := by
  simp only [List.rtake, List.length_drop, List.drop_drop]
  congr 1
  omega

/-- Of what is kept of a list, one more entry keeps the same as of the list. -/
theorem rtake_snoc {α : Type*} (l : List α) (a : α) (hcap : 0 < cap) :
    (l.rtake cap ++ [a]).rtake cap = (l ++ [a]).rtake cap := by
  obtain ⟨n, rfl⟩ := Nat.exists_eq_add_of_lt hcap
  rw [Nat.zero_add, List.rtake_concat_succ, List.rtake_concat_succ,
    rtake_rtake l n (n + 1) (by omega)]

/-- The shifted ring holds what followed the entries that are evicted. -/
theorem take_copyFront (l : List Entry) (k : ℕ) :
    (copyFront l (l.drop k)).take (l.length - k) = l.drop k := by
  have hlen : (l.drop k).length = l.length - k := List.length_drop
  have hsrc : (l.drop k).take l.length = l.drop k := List.take_of_length_le (by omega)
  rw [copyFront, hsrc, ← hlen, List.take_left]

/-- **`Append` keeps the last `cap`** of the entries and the new one. -/
theorem ringPush_eq (hcap : 0 < cap) : ringPush cap entries e = (entries ++ [e]).rtake cap := by
  unfold ringPush
  split
  · next hfull =>
    have hkeep : cap - 1 = entries.length - (entries.length - cap + 1) := by omega
    rw [hkeep, take_copyFront]
    obtain ⟨n, rfl⟩ := Nat.exists_eq_add_of_lt hcap
    rw [Nat.zero_add, List.rtake_concat_succ, List.rtake]
    congr 2
    omega
  · next hroom => rw [rtake_of_length_le (by simp; omega)]

theorem length_ringPush_le (hcap : 0 < cap) : (ringPush cap entries e).length ≤ cap := by
  rw [ringPush_eq hcap, List.rtake, List.length_drop]
  omega

theorem fillBack_eq : ∀ (l : List Entry) (i : ℕ) (d : Entry) (tail : List Entry),
    tail.length = i → fillBack (i + l.length) l i (List.replicate l.length d ++ tail) =
      l.reverse ++ tail
  | [], _, _, _, _ => rfl
  | e :: rest, i, d, tail, hlen => by
    have hset : (List.replicate (rest.length + 1) d ++ tail).set rest.length e =
        List.replicate rest.length d ++ e :: tail := by
      rw [List.replicate_succ', List.append_assoc, List.set_append_right _ _ (by simp)]
      simp
    have hnext := fillBack_eq rest (i + 1) d (e :: tail) (by simp [hlen])
    have hat : i + (rest.length + 1) - 1 - i = rest.length := by omega
    have htotal : i + (rest.length + 1) = i + 1 + rest.length := by omega
    rw [List.length_cons, fillBack, hat, hset, htotal, hnext]
    simp

end Ring

/-! ## The log -/

structure Log where
  cap : ℕ
  cap_pos : 0 < cap
  /-- Oldest first. -/
  entries : List Entry
  le_cap : entries.length ≤ cap
  dirty : Bool
  rev : ℕ
  lastChange : ℤ
  path : String
  debounce : ℤ
  /-- A clock is set. -/
  clock : Bool

namespace Log

/-- `New`. -/
def new (capacity : ℤ) : Log where
  cap := if capacity ≤ 0 then defaultCap else capacity.toNat
  cap_pos := by
    split
    · decide
    · omega
  entries := []
  le_cap := Nat.zero_le _
  dirty := false
  rev := 0
  lastChange := 0
  path := ""
  debounce := 0
  clock := false

/-- `Append`, at `now`. -/
def append (l : Log) (e : Entry) (now : ℤ) : Log :=
  { l with
    entries := ringPush l.cap l.entries e
    le_cap := length_ringPush_le l.cap_pos
    dirty := true
    rev := l.rev + 1
    lastChange := if l.clock then now else l.lastChange }

/-- `Clear`, at `now`. -/
def clear (l : Log) (now : ℤ) : Log :=
  { l with
    entries := []
    le_cap := Nat.zero_le _
    dirty := true
    rev := l.rev + 1
    lastChange := if l.clock then now else l.lastChange }

/-- `Snapshot`: newest first. -/
def snapshot (l : Log) : List Entry :=
  fillBack l.entries.length l.entries 0 (List.replicate l.entries.length default)

/-- `SetPersist`. -/
def setPersist (l : Log) (path : String) (debounce : ℤ) : Log :=
  { l with
    path := path
    debounce := debounce
    clock := true }

/-- The check of `Tick`, at `now`: it goes on to `Flush`. -/
def ticks (l : Log) (now : ℤ) : Bool :=
  l.dirty && l.path != "" && l.clock && !decide (now - l.lastChange < l.debounce)

theorem append_entries (l : Log) (e : Entry) (now : ℤ) :
    (l.append e now).entries = (l.entries ++ [e]).rtake l.cap := ringPush_eq l.cap_pos

theorem snapshot_eq (l : Log) : l.snapshot = l.entries.reverse := by
  unfold snapshot
  have h := fillBack_eq l.entries 0 default [] rfl
  rw [Nat.zero_add, List.append_nil, List.append_nil] at h
  exact h

@[simp] theorem append_cap (l : Log) (e : Entry) (now : ℤ) : (l.append e now).cap = l.cap := rfl

/-- The loop of `Load`. A log without a clock does not note when it was appended to. -/
def appendAll (l : Log) (es : List Entry) : Log := es.foldl (fun l e => l.append e 0) l

/-- **Appending one after another** keeps the last `cap` of them all. -/
theorem appendAll_entries : ∀ (es : List Entry) (l : Log) (kept : List Entry),
    l.entries = kept.rtake l.cap → (l.appendAll es).entries = (kept ++ es).rtake l.cap
  | [], l, kept, h => by rw [List.append_nil]; exact h
  | e :: es, l, kept, h => by
    have hone : (l.append e 0).entries = (kept ++ [e]).rtake (l.append e 0).cap := by
      rw [append_entries, h, rtake_snoc _ _ l.cap_pos, append_cap]
    have := appendAll_entries es (l.append e 0) (kept ++ [e]) hone
    rwa [List.append_assoc, append_cap] at this

theorem appendAll_cap (es : List Entry) (l : Log) : (l.appendAll es).cap = l.cap := by
  induction es generalizing l with
  | nil => rfl
  | cons e es ih => exact ih (l.append e 0)

end Log

/-! ## Loading -/

inductive Disk where
  | missing
  | unreadable
  | corrupt
  | file (version : ℤ) (entries : List Entry)
  deriving DecidableEq

def Disk.entries : Disk → List Entry
  | .file _ es => es
  | _ => []

inductive LoadErr where
  /-- `read history: …` -/
  | read
  /-- `parse history: …` -/
  | parse
  /-- `history: schema version … is newer than this build reads (…)` -/
  | newer (version : ℤ)
  deriving DecidableEq

/-- `Load`. -/
def load (disk : Disk) (capacity : ℤ) : Log × Option LoadErr :=
  match disk with
  | .missing => (.new capacity, none)
  | .unreadable => (.new capacity, some .read)
  | .corrupt => (.new capacity, some .parse)
  | .file version es =>
    if schemaVersion < version then (.new capacity, some (.newer version))
    else ({ (Log.new capacity).appendAll es with dirty := false }, none)

/-- **A log that was loaded** holds the last entries of the file, and is clean. -/
theorem load_clean {disk : Disk} {capacity : ℤ} (h : (load disk capacity).2 = none) :
    (load disk capacity).1.entries = disk.entries.rtake (load disk capacity).1.cap ∧
      (load disk capacity).1.dirty = false := by
  unfold load at h ⊢
  cases disk with
  | missing => exact ⟨(List.rtake_nil _).symm, rfl⟩
  | unreadable => cases h
  | corrupt => cases h
  | file version es =>
    dsimp only at h ⊢
    split at h
    · cases h
    · next hver =>
      rw [if_neg hver]
      refine ⟨?_, rfl⟩
      have hkept := Log.appendAll_entries es (.new capacity) [] (by simp [Log.new])
      rw [List.nil_append] at hkept
      show ((Log.new capacity).appendAll es).entries =
        es.rtake ((Log.new capacity).appendAll es).cap
      rw [hkept, Log.appendAll_cap]

theorem load_failed {disk : Disk} {capacity : ℤ} (h : (load disk capacity).2 ≠ none) :
    (load disk capacity).1 = .new capacity := by
  unfold load at h ⊢
  cases disk with
  | missing => rfl
  | unreadable => rfl
  | corrupt => rfl
  | file version es =>
    dsimp only at h ⊢
    split at h
    · next hver => rw [if_pos hver]
    · exact absurd rfl h

theorem load_cap (disk : Disk) (capacity : ℤ) :
    (load disk capacity).1.cap = (Log.new capacity).cap := by
  unfold load
  cases disk with
  | missing => rfl
  | unreadable => rfl
  | corrupt => rfl
  | file version es =>
    dsimp only
    split
    · rfl
    · exact Log.appendAll_cap es _

end VcsClient.History
