import VcsClient.Lib.Machine
import VcsClient.Profile.Seed

/-!
# Starts of the application

The shipped profiles over a run of starts, each with the profiles of its own build,
among the user's edits and deletions. A save of the records may fail; what the program
wrote is then not recorded.

A record is the hash of something that was written to the file, and when the last
writing was recorded it is the hash of that (`Recorded`). So what the user wrote stays,
what the user deleted stays deleted, and what the user left alone is kept up to date
(`seeding_safe`).
-/

namespace VcsClient.Profile

open VcsClient.Lib

variable {β : Type*}

inductive Op (β : Type*) where
  | start (bs : Shipped β) (io : Io)
  /-- The user saves, or deletes, a file. -/
  | edit (id : String) (content : Option β)

/-- The user puts a file in its place. -/
def Op.Creates (id : String) : Op β → Prop
  | .start _ _ => False
  | .edit id' content => id' = id ∧ content ≠ none

namespace Profiles

/-- The files of the user, and no records. -/
def fresh (files : String → Option β) : Profiles β where
  files := files
  recorded := fun _ => none
  written := fun _ => []

/-! ## What the records say -/

structure Recorded (hash : β → String) (m : Profiles β) : Prop where
  /-- A record is the hash of something that was written. -/
  written : ∀ id rec, m.recorded id = some rec → ∃ p ∈ m.written id, hash p.1 = rec
  /-- When the last writing was recorded, the record is its hash. -/
  last : ∀ id c rest, m.written id = (c, true) :: rest → m.recorded id = some (hash c)

theorem recorded_fresh {hash : β → String} (files : String → Option β) :
    Recorded hash (fresh files) where
  written _ _ h := by cases h
  last _ _ _ h := by cases h

variable [DecidableEq β]

def step (hash : β → String) (m : Profiles β) : Op β → Option (Profiles β)
  | .start bs io => some (seedBuiltinProfiles hash m bs io)
  | .edit id content => some { m with files := Function.update m.files id content }

variable {hash : β → String} {m m' : Profiles β} {id : String}

theorem recorded_step (hhash : ∀ c, hash c ≠ "") {op : Op β} (h : Recorded hash m)
    (hs : step hash m op = some m') : Recorded hash m' := by
  cases op with
  | edit id content => cases hs; exact ⟨h.written, h.last⟩
  | start bs io =>
    cases hs
    constructor
    · intro id rec hrec
      cases start_seedBuiltinProfiles hhash m bs io id with
      | kept hfile hrecord hwritten hleft =>
        rw [hwritten]
        exact h.written id rec (hrecord.symm.trans hrec)
      | wrote b hb hid hverdict hfile hrecord hwritten =>
        rw [hwritten]
        rw [hrecord] at hrec
        split at hrec
        · exact ⟨_, List.mem_cons_self, Option.some.inj hrec⟩
        · obtain ⟨p, hp, hrec⟩ := h.written id rec hrec
          exact ⟨p, List.mem_cons_of_mem _ hp, hrec⟩
    · intro id c rest hlast
      cases start_seedBuiltinProfiles hhash m bs io id with
      | kept hfile hrecord hwritten hleft =>
        rw [hrecord]
        exact h.last id c rest (hwritten.symm.trans hlast)
      | wrote b hb hid hverdict hfile hrecord hwritten =>
        rw [hwritten] at hlast
        obtain ⟨hhead, -⟩ := List.cons.inj hlast
        rw [Prod.mk.injEq] at hhead
        rw [hrecord, if_pos hhead.2, hhead.1]

theorem recorded_run (hhash : ∀ c, hash c ≠ "") {s t : Profiles β} {ops : List (Op β)}
    (h : Recorded hash s) (hr : exec (step hash) s ops = some t) : Recorded hash t :=
  exec_invariant (fun _ _ _ hi _ hs => recorded_step hhash hi hs) h
    (Meets.trivial (step hash) s ops) hr

/-! ## The user's files -/

/-- Whatever is shipped, a start leaves a file that holds nothing the program wrote. -/
def KeepsEdits (hash : β → String) (m : Profiles β) : Prop :=
  ∀ bs io id c, m.files id = some c → (∀ p ∈ m.written id, p.1 ≠ c) →
    (seedBuiltinProfiles hash m bs io).files id = some c

/-- Whatever follows, a recorded file that is deleted stays so until the user puts
another in its place. -/
def KeepsDeletions (hash : β → String) (m : Profiles β) : Prop :=
  ∀ id, m.recorded id ≠ none → m.files id = none → ∀ ops m', (∀ op ∈ ops, ¬op.Creates id) →
    exec (step hash) m ops = some m' → m'.files id = none

/-- The files can be read and written. -/
def Works (io : Io) (id : String) : Prop :=
  io.mkdir = true ∧ io.reads id = true ∧ io.writes id = true

/-- A start replaces a file that holds what the program wrote and recorded last. -/
def Updates (hash : β → String) (m : Profiles β) : Prop :=
  ∀ (bs : Shipped β) (io : Io), ∀ b ∈ bs.builtins, ∀ c rest, Works io b.id →
    m.written b.id = (c, true) :: rest → m.files b.id = some c →
    (seedBuiltinProfiles hash m bs io).files b.id = some b.content

theorem Recorded.keepsEdits (hinj : Function.Injective hash) (hhash : ∀ c, hash c ≠ "")
    (h : Recorded hash m) : KeepsEdits hash m := by
  intro bs io id c hfile hnew
  cases start_seedBuiltinProfiles hhash m bs io id with
  | kept hkept hrecord hwritten hleft => exact hkept.trans hfile
  | wrote b hb hid hverdict =>
    rcases verdict_eq_none hverdict with ⟨-, hmissing⟩ | ⟨c', hc', hrec, -⟩
    · rw [hfile] at hmissing
      cases hmissing
    · -- the file is the one that was recorded, so the program wrote it
      obtain ⟨p, hp, hhp⟩ := h.written id _ hrec
      have heq : c' = c := Option.some.inj (hc'.symm.trans hfile)
      exact absurd ((hinj hhp).trans heq) (hnew p hp)

/-- A recorded file that is deleted. -/
def Deleted (m : Profiles β) (id : String) : Prop := m.recorded id ≠ none ∧ m.files id = none

theorem deleted_step (hhash : ∀ c, hash c ≠ "") {op : Op β} (h : m.Deleted id)
    (hop : ¬op.Creates id) (hs : step hash m op = some m') : m'.Deleted id := by
  obtain ⟨hrec, hfile⟩ := h
  cases op with
  | edit id' content =>
    cases hs
    refine ⟨hrec, ?_⟩
    show Function.update m.files id' content id = none
    rcases eq_or_ne id id' with rfl | hne
    · rw [Function.update_self]
      by_contra hcontent
      exact hop ⟨rfl, hcontent⟩
    · rw [Function.update_of_ne hne]
      exact hfile
  | start bs io =>
    cases hs
    cases start_seedBuiltinProfiles hhash m bs io id with
    | kept hkept hrecord hwritten hleft =>
      exact ⟨by rw [hrecord]; exact hrec, hkept.trans hfile⟩
    | wrote b hb hid hverdict =>
      rcases verdict_eq_none hverdict with ⟨hnone, -⟩ | ⟨c, hc, -, -⟩
      · exact absurd hnone hrec
      · rw [hfile] at hc
        cases hc

theorem keepsDeletions (hhash : ∀ c, hash c ≠ "") : KeepsDeletions hash m := by
  intro id hrec hfile ops m' hops hr
  have hok := (Meets.trivial (step hash) m ops).and_mem hops
  have hinv : ∀ s op s', s.Deleted id → True ∧ ¬op.Creates id → step hash s op = some s' →
      s'.Deleted id := fun s op s' hi ho hs => deleted_step hhash hi ho.2 hs
  exact (exec_invariant hinv ⟨hrec, hfile⟩ hok hr).2

theorem Recorded.updates (hinj : Function.Injective hash) (hhash : ∀ c, hash c ≠ "")
    (h : Recorded hash m) : Updates hash m := by
  intro bs io b hb c rest hworks hlast hfile
  obtain ⟨hmkdir, hreads, hwrites⟩ := hworks
  have hrec := h.last b.id c rest hlast
  cases start_seedBuiltinProfiles hhash m bs io b.id with
  | kept hkept hrecord hwritten hleft =>
    rcases hleft b hb rfl with hno | hno | hno | ⟨rec, hverdict⟩
    · rw [hmkdir] at hno
      cases hno
    · rw [hreads] at hno
      cases hno
    · rw [hwrites] at hno
      cases hno
    · -- the file is left because it is the shipped one
      rw [hrec, hfile, verdict, if_neg (not_not.2 rfl)] at hverdict
      split at hverdict
      · next hsame => rw [hkept, hfile, hinj hsame]
      · cases hverdict
  | wrote b' hb' hid hverdict hnew =>
    have heq : b' = b := List.inj_on_of_nodup_map bs.nodup hb' hb hid
    rw [hnew, heq]

/-- **Seeding.** After any starts, edits and deletions, a start leaves what the user
wrote, never recreates what the user deleted, and replaces what the user left alone. -/
theorem seeding_safe (hinj : Function.Injective hash) (hhash : ∀ c, hash c ≠ "")
    {files : String → Option β} {ops : List (Op β)}
    (h : exec (step hash) (fresh files) ops = some m) :
    KeepsEdits hash m ∧ KeepsDeletions hash m ∧ Updates hash m :=
  have hrecorded := recorded_run hhash (recorded_fresh files) h
  ⟨hrecorded.keepsEdits hinj hhash, keepsDeletions hhash, hrecorded.updates hinj hhash⟩

/-- A build that ships one profile, when everything works. -/
def ships (content : String) : Op String :=
  .start ⟨[⟨"default", content⟩], List.nodup_singleton _⟩
    ⟨true, fun _ => true, fun _ => true, true⟩

/-- After an update, the next one replaces the file again. -/
theorem seeding_safe_updates :
    ∃ m, exec (step fun c => "#" ++ c) (fresh fun _ => none) [ships "one", ships "two"] = some m ∧
      m.files "default" = some "two" ∧
      (seedBuiltinProfiles (fun c => "#" ++ c) m ⟨[⟨"default", "three"⟩], List.nodup_singleton _⟩
        ⟨true, fun _ => true, fun _ => true, true⟩).files "default" = some "three" := by
  obtain ⟨m, hm⟩ : ∃ m, exec (step fun c => "#" ++ c) (fresh fun _ => none)
      [ships "one", ships "two"] = some m := ⟨_, rfl⟩
  have hfile : m.files "default" = some "two" := by cases hm; decide +kernel
  have hlast : m.written "default" = ("two", true) :: [("one", true)] := by
    cases hm; decide +kernel
  have hinj : Function.Injective fun c : String => "#" ++ c := fun c c' h => by simpa using h
  have hhash : ∀ c : String, "#" ++ c ≠ "" := fun c h => by simp at h
  obtain ⟨-, -, hupdates⟩ := seeding_safe hinj hhash hm
  exact ⟨m, hm, hfile, hupdates ⟨[⟨"default", "three"⟩], List.nodup_singleton _⟩
    ⟨true, fun _ => true, fun _ => true, true⟩ ⟨"default", "three"⟩ List.mem_cons_self "two" _
    ⟨rfl, rfl, rfl⟩ hlast hfile⟩

end Profiles

end VcsClient.Profile
