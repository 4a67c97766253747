import Mathlib.Data.List.Nodup
import Mathlib.Logic.Function.Basic
import Mathlib.Tactic.Common

/-!
# Seeding the shipped profiles

`Seed` of `internal/profile/builtin.go` and `SeedBuiltinProfiles` of
`internal/app/profiles.go`. The shipped profiles have different ids, so what a start
does with one of them depends on that file and that record alone: it is left, with its
record, or written and recorded (`fate_of_start`).

A file is known by its id, and contents by an arbitrary hash.
-/

namespace VcsClient.Profile

variable {β : Type*}

structure Builtin (β : Type*) where
  id : String
  content : β

/-- `Builtins`: the files of one directory. -/
structure Shipped (β : Type*) where
  builtins : List (Builtin β)
  nodup : (builtins.map Builtin.id).Nodup

structure SeedResult where
  id : String
  hash : String
  written : Bool
  deriving DecidableEq

inductive SeedErr where
  /-- `create profiles dir …` -/
  | mkdir
  /-- `read builtin …` -/
  | read (id : String)
  /-- `write builtin …` -/
  | write (id : String)
  deriving DecidableEq

/-- What the file system lets a start do. -/
structure Io where
  mkdir : Bool
  /-- A file can be read, or is seen to be missing. -/
  reads : String → Bool
  writes : String → Bool
  /-- The config is saved. -/
  saves : Bool

/-- The decision about one profile: the record to keep, or none to write the file. -/
def verdict [DecidableEq β] (hash : β → String) (content : β) :
    Option String → Option β → Option String
  -- the first run
  | none, none => none
  -- a file that was never written by this client
  | none, some _ => some ""
  -- deleted
  | some rec, none => some rec
  | some rec, some onDisk =>
    if hash onDisk ≠ rec then some rec
    else if hash onDisk = hash content then some rec
    else none

/-- What `Seed` returns, and the files it leaves. -/
structure Seeded (β : Type*) where
  results : List SeedResult
  err : Option SeedErr
  files : String → Option β

section Seed

variable [DecidableEq β] (hash : β → String) (io : Io) (recorded : String → Option String)

def seedOne (b : Builtin β) (files : String → Option β) :
    SeedResult × Option SeedErr × (String → Option β) :=
  if io.reads b.id = false then (⟨b.id, "", false⟩, some (.read b.id), files)
  else
    match verdict hash b.content (recorded b.id) (files b.id) with
    | some rec => (⟨b.id, rec, false⟩, none, files)
    | none =>
      -- `writeRawAtomic`
      if io.writes b.id then
        (⟨b.id, hash b.content, true⟩, none, Function.update files b.id (some b.content))
      else (⟨b.id, "", false⟩, some (.write b.id), files)

def seedFrom : List (Builtin β) → (String → Option β) → Seeded β
  | [], files => ⟨[], none, files⟩
  | b :: bs, files =>
    let (r, err, files) := seedOne hash io recorded b files
    let rest := seedFrom bs files
    ⟨r :: rest.results, err <|> rest.err, rest.files⟩

/-- `Seed`. -/
def seed (bs : Shipped β) (files : String → Option β) : Seeded β :=
  if io.mkdir then seedFrom hash io recorded bs.builtins files else ⟨[], some .mkdir, files⟩

end Seed

/-- The records after the results, and whether one has changed. -/
def update : List SeedResult → (String → Option String) → Bool → (String → Option String) × Bool
  | [], updated, changed => (updated, changed)
  | r :: rs, updated, changed =>
    if r.hash = "" then update rs updated changed
    else if (updated r.id).getD "" ≠ r.hash then
      update rs (Function.update updated r.id (some r.hash)) true
    else update rs updated changed

/-- The contents that were written, newest first, after the results; `saves` says whether
the records are saved. -/
def note (saves : Bool) : List (Builtin β) → List SeedResult → (String → List (β × Bool)) →
    String → List (β × Bool)
  | b :: bs, r :: rs, written =>
    note saves bs rs
      (if r.written then Function.update written b.id ((b.content, saves) :: written b.id)
      else written)
  | _, _, written => written

structure Profiles (β : Type*) where
  files : String → Option β
  /-- The record, in the config on the disk. -/
  recorded : String → Option String
  /-- What the program wrote to each file, newest first, and whether it saved the record. -/
  written : String → List (β × Bool)

/-- `SeedBuiltinProfiles`, at a start. -/
def seedBuiltinProfiles [DecidableEq β] (hash : β → String) (m : Profiles β) (bs : Shipped β)
    (io : Io) : Profiles β :=
  let out := seed hash io m.recorded bs m.files
  let up := update out.results m.recorded false
  { m with
    files := out.files
    -- the config is saved when a record has changed
    recorded := if up.2 && io.saves then up.1 else m.recorded
    written := note io.saves bs.builtins out.results m.written }

theorem note_nil (saves : Bool) (bs : List (Builtin β)) (written : String → List (β × Bool)) :
    note saves bs [] written = written := by
  cases bs with
  | nil => rfl
  | cons b bs => rfl

/-! ## One profile at a time -/

section Fate

variable [DecidableEq β] {hash : β → String} {io : Io} {recorded : String → Option String}
  {b : Builtin β} {bs : List (Builtin β)} {files : String → Option β} {id : String}

inductive Round (hash : β → String) (io : Io) (recorded : String → Option String)
    (b : Builtin β) (files : String → Option β) :
    SeedResult × Option SeedErr × (String → Option β) → Prop
  | failed (err : SeedErr) (hio : io.reads b.id = false ∨ io.writes b.id = false) :
      Round hash io recorded b files (⟨b.id, "", false⟩, some err, files)
  | left (rec : String) (hverdict : verdict hash b.content (recorded b.id) (files b.id) = some rec) :
      Round hash io recorded b files (⟨b.id, rec, false⟩, none, files)
  | wrote (hverdict : verdict hash b.content (recorded b.id) (files b.id) = none) :
      Round hash io recorded b files
        (⟨b.id, hash b.content, true⟩, none, Function.update files b.id (some b.content))

theorem round_seedOne : Round hash io recorded b files (seedOne hash io recorded b files) := by
  unfold seedOne
  split
  · next hread => exact .failed _ (.inl hread)
  · split
    · next rec hverdict => exact .left rec hverdict
    · next hverdict =>
      split
      · exact .wrote hverdict
      · next hwrite => exact .failed _ (.inr (Bool.not_eq_true _ ▸ hwrite))

/-- A record that is kept is the one there was, or none. -/
theorem verdict_eq_some {content : β} {rec : String} {r : Option String} {onDisk : Option β}
    (h : verdict hash content r onDisk = some rec) : rec = "" ∨ r = some rec := by
  unfold verdict at h
  split at h
  · cases h
  · cases h; exact .inl rfl
  · cases h; exact .inr rfl
  · split at h
    · cases h; exact .inr rfl
    · split at h
      · cases h; exact .inr rfl
      · cases h

/-- A file is written when neither it nor a record is there, or when it is the recorded
one and another is shipped. -/
theorem verdict_eq_none {content : β} {r : Option String} {onDisk : Option β}
    (h : verdict hash content r onDisk = none) :
    (r = none ∧ onDisk = none) ∨
      ∃ c, onDisk = some c ∧ r = some (hash c) ∧ hash c ≠ hash content := by
  unfold verdict at h
  split at h
  · exact .inl ⟨rfl, rfl⟩
  · cases h
  · cases h
  · next rec c =>
    split at h
    · cases h
    · next hrec =>
      split at h
      · cases h
      · next hne => exact .inr ⟨c, rfl, by rw [not_not.1 hrec], hne⟩

theorem update_cons (r : SeedResult) (rs : List SeedResult) (updated : String → Option String)
    (changed : Bool) : update (r :: rs) updated changed =
      if r.hash = "" then update rs updated changed
      else if (updated r.id).getD "" ≠ r.hash then
        update rs (Function.update updated r.id (some r.hash)) true
      else update rs updated changed := rfl

/-- What was decided about a profile that is not written changes no record. -/
theorem update_kept {r : SeedResult} {rs : List SeedResult} {updated : String → Option String}
    {changed : Bool} (h : r.hash = "" ∨ updated r.id = some r.hash) :
    update (r :: rs) updated changed = update rs updated changed := by
  rw [update_cons]
  split
  · rfl
  · next hne =>
    have hrec := h.resolve_left hne
    rw [hrec, if_neg]
    exact not_not.2 rfl

theorem update_wrote {rs : List SeedResult} {updated : String → Option String} {changed : Bool}
    (hhash : ∀ c, hash c ≠ "") (hupdated : updated b.id = recorded b.id)
    (hverdict : verdict hash b.content (recorded b.id) (files b.id) = none) :
    update (⟨b.id, hash b.content, true⟩ :: rs) updated changed =
      update rs (Function.update updated b.id (some (hash b.content))) true := by
  have hnew : (updated b.id).getD "" ≠ hash b.content := by
    rw [hupdated]
    rcases verdict_eq_none hverdict with ⟨hrec, -⟩ | ⟨c, -, hrec, hne⟩
    · rw [hrec]
      exact (hhash _).symm
    · rw [hrec]
      exact hne
  rw [update_cons, if_neg (hhash _), if_pos hnew]

theorem update_changed (rs : List SeedResult) (updated : String → Option String) :
    (update rs updated true).2 = true := by
  induction rs generalizing updated with
  | nil => rfl
  | cons r rs ih =>
    rw [update_cons]
    split
    · exact ih updated
    · split
      · exact ih _
      · exact ih updated

theorem update_id (id : String) : ∀ (rs : List SeedResult) (updated : String → Option String)
    (changed : Bool), (∀ r ∈ rs, r.id ≠ id) → (update rs updated changed).1 id = updated id
  | [], _, _, _ => rfl
  | r :: rs, updated, changed, h => by
    have hrest : ∀ r ∈ rs, r.id ≠ id := fun r hr => h r (List.mem_cons_of_mem _ hr)
    rw [update_cons]
    split
    · exact update_id id rs updated changed hrest
    · split
      · rw [update_id id rs _ true hrest]
        exact Function.update_of_ne (h r List.mem_cons_self).symm _ _
      · exact update_id id rs updated changed hrest

/-- The result of a round is about its profile, and a round touches no other file. -/
theorem Round.id_eq {out : SeedResult × Option SeedErr × (String → Option β)}
    (h : Round hash io recorded b files out) :
    out.1.id = b.id ∧ ∀ id, id ≠ b.id → out.2.2 id = files id := by
  cases h with
  | failed err hio => exact ⟨rfl, fun _ _ => rfl⟩
  | left rec hverdict => exact ⟨rfl, fun _ _ => rfl⟩
  | wrote hverdict => exact ⟨rfl, fun _ hne => Function.update_of_ne hne _ _⟩

/-- **A profile that is not shipped** is not touched. -/
theorem seedFrom_of_not_mem : ∀ (bs : List (Builtin β)) (files : String → Option β)
    (written : String → List (β × Bool)), id ∉ bs.map Builtin.id →
      (seedFrom hash io recorded bs files).files id = files id ∧
      (∀ r ∈ (seedFrom hash io recorded bs files).results, r.id ≠ id) ∧
      note io.saves bs (seedFrom hash io recorded bs files).results written id = written id
  | [], files, written, _ => ⟨rfl, (fun r hr => by cases hr), rfl⟩
  | b :: bs, files, written, hid => by
    rw [List.map_cons, List.mem_cons, not_or] at hid
    have hround : Round hash io recorded b files (seedOne hash io recorded b files) :=
      round_seedOne
    obtain ⟨hone, hother⟩ := hround.id_eq
    obtain ⟨hfiles, hresults, hnote⟩ := seedFrom_of_not_mem bs
      (seedOne hash io recorded b files).2.2
      (if (seedOne hash io recorded b files).1.written then
        Function.update written b.id ((b.content, io.saves) :: written b.id) else written) hid.2
    refine ⟨hfiles.trans (hother id hid.1), fun r hr => ?_, hnote.trans ?_⟩
    · rcases List.mem_cons.1 hr with heq | hr
      · rw [heq]
        exact fun h => hid.1 (h.symm.trans hone)
      · exact hresults r hr
    · split
      · exact Function.update_of_ne hid.1 _ _
      · rfl

/-- What becomes of a profile: its file, its record and what was written to it. -/
structure Trace (β : Type*) where
  file : Option β
  record : Option String
  written : List (β × Bool)

/-- **The outcomes of a start for one id.** -/
inductive Fate (hash : β → String) (io : Io) (bs : List (Builtin β)) (id : String)
    (t : Trace β) : Trace β → Prop
  | kept (hleft : ∀ b ∈ bs, b.id = id → io.reads id = false ∨ io.writes id = false ∨
        ∃ rec, verdict hash b.content t.record t.file = some rec) : Fate hash io bs id t t
  | wrote (b : Builtin β) (hb : b ∈ bs) (hid : b.id = id)
      (hverdict : verdict hash b.content t.record t.file = none) : Fate hash io bs id t
        { file := some b.content
          record := some (hash b.content)
          written := (b.content, io.saves) :: t.written }

/-- What the profile of a round becomes, when no later one has its id. -/
theorem fate_head (hhash : ∀ c, hash c ≠ "") (hid : b.id ∉ bs.map Builtin.id)
    {updated : String → Option String} {changed : Bool} {written : String → List (β × Bool)}
    (hupdated : updated b.id = recorded b.id) :
    Fate hash io (b :: bs) b.id ⟨files b.id, updated b.id, written b.id⟩
      ⟨(seedFrom hash io recorded (b :: bs) files).files b.id,
        (update (seedFrom hash io recorded (b :: bs) files).results updated changed).1 b.id,
        note io.saves (b :: bs) (seedFrom hash io recorded (b :: bs) files).results written b.id⟩ := by
  have hsame : ∀ b' ∈ b :: bs, b'.id = b.id → b' = b := by
    intro b' hb' he
    rcases List.mem_cons.1 hb' with rfl | hb'
    · rfl
    · exact absurd (he ▸ List.mem_map_of_mem hb') hid
  have hround : Round hash io recorded b files (seedOne hash io recorded b files) := round_seedOne
  simp only [seedFrom]
  generalize seedOne hash io recorded b files = out at hround ⊢
  cases hround with
  | failed err hio =>
    obtain ⟨hfiles, hresults, hnote⟩ := seedFrom_of_not_mem bs files written hid
    rw [hfiles, update_kept (.inl rfl), update_id _ _ _ _ hresults]
    show Fate _ _ _ _ _ ⟨_, _, note io.saves bs _ written b.id⟩
    rw [hnote]
    refine .kept fun b' hb' he => ?_
    rcases hio with hio | hio
    · exact .inl hio
    · exact .inr (.inl hio)
  | left rec hverdict =>
    obtain ⟨hfiles, hresults, hnote⟩ := seedFrom_of_not_mem bs files written hid
    have hrec : rec = "" ∨ updated b.id = some rec := by
      rw [hupdated]
      exact verdict_eq_some hverdict
    rw [hfiles, update_kept hrec, update_id _ _ _ _ hresults]
    show Fate _ _ _ _ _ ⟨_, _, note io.saves bs _ written b.id⟩
    rw [hnote]
    refine .kept fun b' hb' he => ?_
    rw [hsame b' hb' he, hupdated]
    exact .inr (.inr ⟨rec, hverdict⟩)
  | wrote hverdict =>
    obtain ⟨hfiles, hresults, hnote⟩ := seedFrom_of_not_mem bs
      (Function.update files b.id (some b.content))
      (Function.update written b.id ((b.content, io.saves) :: written b.id)) hid
    rw [hfiles, update_wrote hhash hupdated hverdict, update_id _ _ _ _ hresults]
    show Fate _ _ _ _ _ ⟨_, _, note io.saves bs _ (Function.update written b.id _) b.id⟩
    rw [hnote, Function.update_self, Function.update_self, Function.update_self]
    exact .wrote b List.mem_cons_self rfl (by rw [hupdated]; exact hverdict)

/-- A fate among the later profiles is one among them all. -/
theorem Fate.cons {t t' : Trace β} (h : Fate hash io bs id t t') (hne : b.id ≠ id) :
    Fate hash io (b :: bs) id t t' := by
  cases h with
  | kept hleft =>
    refine .kept fun b' hb' he => ?_
    rcases List.mem_cons.1 hb' with rfl | hb'
    · exact absurd he hne
    · exact hleft b' hb' he
  | wrote b' hb' hid hverdict => exact .wrote b' (List.mem_cons_of_mem _ hb') hid hverdict

theorem round_other (hhash : ∀ c, hash c ≠ "") (io : Io) (bs : List (Builtin β))
    (files : String → Option β) {updated : String → Option String} (changed : Bool)
    (written : String → List (β × Bool)) (hupdated : updated b.id = recorded b.id) :
    ∃ (files' : String → Option β) (updated' : String → Option String) (changed' : Bool)
      (written' : String → List (β × Bool)),
      (seedFrom hash io recorded (b :: bs) files).files =
        (seedFrom hash io recorded bs files').files ∧
      update (seedFrom hash io recorded (b :: bs) files).results updated changed =
        update (seedFrom hash io recorded bs files').results updated' changed' ∧
      note io.saves (b :: bs) (seedFrom hash io recorded (b :: bs) files).results written =
        note io.saves bs (seedFrom hash io recorded bs files').results written' ∧
      ∀ id, id ≠ b.id → files' id = files id ∧ updated' id = updated id ∧
        written' id = written id := by
  have hround : Round hash io recorded b files (seedOne hash io recorded b files) := round_seedOne
  simp only [seedFrom]
  generalize seedOne hash io recorded b files = out at hround ⊢
  cases hround with
  | failed err hio =>
    exact ⟨files, updated, changed, written, rfl, update_kept (.inl rfl), rfl,
      fun _ _ => ⟨rfl, rfl, rfl⟩⟩
  | left rec hverdict =>
    have hrec : rec = "" ∨ updated b.id = some rec := by
      rw [hupdated]
      exact verdict_eq_some hverdict
    exact ⟨files, updated, changed, written, rfl, update_kept hrec, rfl,
      fun _ _ => ⟨rfl, rfl, rfl⟩⟩
  | wrote hverdict =>
    refine ⟨Function.update files b.id (some b.content),
      Function.update updated b.id (some (hash b.content)), true,
      Function.update written b.id ((b.content, io.saves) :: written b.id), rfl,
      update_wrote hhash hupdated hverdict, rfl, fun id hne => ⟨?_, ?_, ?_⟩⟩
    · exact Function.update_of_ne hne _ _
    · exact Function.update_of_ne hne _ _
    · exact Function.update_of_ne hne _ _

/-- **What becomes of each profile** when the shipped ones have different ids. -/
theorem fate_seedFrom (hhash : ∀ c, hash c ≠ "") (id : String) : ∀ (bs : List (Builtin β))
    (files : String → Option β) (updated : String → Option String) (changed : Bool)
    (written : String → List (β × Bool)), (bs.map Builtin.id).Nodup →
      (∀ b ∈ bs, updated b.id = recorded b.id) →
      Fate hash io bs id ⟨files id, updated id, written id⟩
        ⟨(seedFrom hash io recorded bs files).files id,
          (update (seedFrom hash io recorded bs files).results updated changed).1 id,
          note io.saves bs (seedFrom hash io recorded bs files).results written id⟩
  | [], _, _, _, _, _, _ => .kept fun b hb => by cases hb
  | b :: bs, files, updated, changed, written, hnodup, hupdated => by
    rw [List.map_cons, List.nodup_cons] at hnodup
    rcases eq_or_ne id b.id with rfl | hne
    · exact fate_head hhash hnodup.1 (hupdated b List.mem_cons_self)
    · obtain ⟨files', updated', changed', written', hfiles, hup, hnote, hother⟩ :=
        round_other hhash io bs files changed written (hupdated b List.mem_cons_self)
      obtain ⟨hf, hu, hw⟩ := hother id hne
      have hrest := fate_seedFrom hhash id bs files' updated' changed' written' hnodup.2
        fun b' hb' => by
          have hb'ne : b'.id ≠ b.id := fun he => hnodup.1 (he ▸ List.mem_map_of_mem hb')
          rw [(hother b'.id hb'ne).2.1]
          exact hupdated b' (List.mem_cons_of_mem _ hb')
      rw [hfiles, hup, hnote, ← hf, ← hu, ← hw]
      exact hrest.cons hne.symm

theorem update_unchanged : ∀ (rs : List SeedResult) (updated : String → Option String),
    (update rs updated false).2 = false → (update rs updated false).1 = updated
  | [], _, _ => rfl
  | r :: rs, updated, h => by
    rw [update] at h ⊢
    split at h
    · next hnone => rw [if_pos hnone]; exact update_unchanged rs updated h
    · next hsome =>
      rw [if_neg hsome]
      split at h
      · rw [update_changed] at h
        cases h
      · next hsame => rw [if_neg hsame]; exact update_unchanged rs updated h

/-- The outcomes of a start for one id. -/
inductive Start (hash : β → String) (m : Profiles β) (bs : Shipped β) (io : Io) (id : String)
    (m' : Profiles β) : Prop
  | kept (hfile : m'.files id = m.files id) (hrecord : m'.recorded id = m.recorded id)
      (hwritten : m'.written id = m.written id)
      (hleft : ∀ b ∈ bs.builtins, b.id = id → io.mkdir = false ∨ io.reads id = false ∨
        io.writes id = false ∨ ∃ rec, verdict hash b.content (m.recorded id) (m.files id) = some rec)
  | wrote (b : Builtin β) (hb : b ∈ bs.builtins) (hid : b.id = id)
      (hverdict : verdict hash b.content (m.recorded id) (m.files id) = none)
      (hfile : m'.files id = some b.content)
      (hrecord : m'.recorded id = if io.saves then some (hash b.content) else m.recorded id)
      (hwritten : m'.written id = (b.content, io.saves) :: m.written id)

/-- **A start keeps a profile with its record, or writes and records it.** -/
theorem start_seedBuiltinProfiles (hhash : ∀ c, hash c ≠ "") (m : Profiles β) (bs : Shipped β)
    (io : Io) (id : String) : Start hash m bs io id (seedBuiltinProfiles hash m bs io) := by
  unfold seedBuiltinProfiles seed
  by_cases hdir : io.mkdir = true
  · rw [if_pos hdir]
    have hfate := @fate_seedFrom _ _ hash io m.recorded hhash id bs.builtins m.files m.recorded false
      m.written bs.nodup fun _ _ => rfl
    have hunchanged := update_unchanged
      (seedFrom hash io m.recorded bs.builtins m.files).results m.recorded
    generalize seedFrom hash io m.recorded bs.builtins m.files = out at hfate hunchanged ⊢
    dsimp only at hfate ⊢
    generalize update out.results m.recorded false = up at hfate hunchanged ⊢
    obtain ⟨updated, changed⟩ := up
    dsimp only at hfate hunchanged ⊢
    generalize hold : (⟨m.files id, m.recorded id, m.written id⟩ : Trace β) = old at hfate
    generalize hnew : (⟨out.files id, updated id, note io.saves bs.builtins out.results m.written id⟩ :
      Trace β) = new at hfate
    cases hfate with
    | kept hleft =>
      cases hold
      rw [Trace.mk.injEq] at hnew
      obtain ⟨hfile, hrecord, hwritten⟩ := hnew
      refine .kept hfile ?_ hwritten fun b hb he => .inr (hleft b hb he)
      show (if (changed && io.saves) = true then updated else m.recorded) id = m.recorded id
      split
      · exact hrecord
      · rfl
    | wrote b hb hid hverdict =>
      cases hold
      rw [Trace.mk.injEq] at hnew
      obtain ⟨hfile, hrecord, hwritten⟩ := hnew
      -- the record is another one
      have hchanged : changed = true := by
        by_contra hsame
        rw [Bool.not_eq_true] at hsame
        have hupdated : updated = m.recorded := hunchanged hsame
        rw [hupdated] at hrecord
        rcases verdict_eq_none hverdict with ⟨hrec, -⟩ | ⟨c, -, hrec, hne⟩
        · rw [show m.recorded id = none from hrec] at hrecord
          cases hrecord
        · rw [show m.recorded id = some (hash c) from hrec] at hrecord
          exact hne (Option.some.inj hrecord)
      refine .wrote b hb hid hverdict hfile ?_ hwritten
      show (if (changed && io.saves) = true then updated else m.recorded) id = _
      rw [hchanged, Bool.true_and]
      split
      · exact hrecord
      · rfl
  · rw [if_neg hdir]
    refine .kept rfl ?_ (congrFun (note_nil io.saves bs.builtins m.written) id) fun b hb he =>
      .inl (Bool.not_eq_true _ ▸ hdir)
    show (if (false && io.saves) = true then m.recorded else m.recorded) id = m.recorded id
    rw [ite_self]

end Fate

end VcsClient.Profile
