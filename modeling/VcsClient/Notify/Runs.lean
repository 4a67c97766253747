import VcsClient.Lib.Assoc
import VcsClient.Notify.Invariant

/-!
# Every run of the notifier

The invariant of the list holds in every state of every run, whatever the
goroutines do. Two things more are read off the history: a raise is swallowed
only under a suppression the user made at that content and nothing has lifted
since, and the snapshots published are those of the sections that changed the
list, in the order they were committed.

"Different content" is decided by fingerprints in the code. The result about
swallowed raises is proved for that reading of every run, and for contents
themselves of the runs in which no two contents of a key share a fingerprint;
`swallowed_despite_news` is a run outside them.
-/

namespace VcsClient.Notify

open VcsClient.Lib

variable {δ : Type*}

/-! ## What the history says -/

/-- The entry point takes from the user an unresolved row of `k` at that
fingerprint. -/
def Op.Silences (sha256 : List UInt8 → δ) (k : Key) (fp : δ) (before : List Item) : Op → Prop
  | .dismiss id => ∃ it ∈ before, it.id = id ∧ it.key = k ∧ it.resolved = false ∧
      fingerprint sha256 it = fp
  | .clear => ∃ it ∈ before, it.key = k ∧ it.resolved = false ∧ fingerprint sha256 it = fp
  | _ => False

/-- The entry point resolves `k`, or raises it with different content. -/
def Op.News (k : Key) (different : Item → Prop) : Op → Prop
  | .resolve key => key = k
  | .raise key item => key = k ∧ different { item with key := key }
  | _ => False

/-- The key was silenced at `fp` and has not been news since. -/
def Silenced (sha256 : List UInt8 → δ) (k : Key) (fp : δ) (different : Item → Prop)
    (h : List Record) : Prop :=
  ∃ h₁ r h₂, h = h₁ ++ r :: h₂ ∧ r.op.Silences sha256 k fp r.before ∧
    ∀ r' ∈ h₂, ¬r'.op.News k different

/-- A raise that changed nothing although its condition was not on the list. -/
def Record.Swallows (sha256 : List UInt8 → δ) (k : Key) (item : Item) (r : Record) : Prop :=
  r.op = .raise k item ∧ k ≠ "" ∧ r.after = r.before ∧
    ∀ it ∈ r.before, it.key = k → it.resolved = false →
      fingerprint sha256 it ≠ fingerprint sha256 { item with key := k }

def Record.changes (r : Record) : Bool := decide (r.after ≠ r.before)

/-- An error row that some section put on the list or rewrote. -/
def Heard (h : List Record) (it : Item) : Prop :=
  it.severity = severityError ∧ ∃ r ∈ h, it ∈ r.after ∧ it ∉ r.before ∧
    ((∃ item, r.op = .post item) ∨ ∃ key item, r.op = .raise key item)

theorem Silenced.append {sha256 : List UInt8 → δ} {k : Key} {fp : δ} {different : Item → Prop}
    {h : List Record} {r : Record} (hs : Silenced sha256 k fp different h)
    (hr : ¬r.op.News k different) : Silenced sha256 k fp different (h ++ [r]) := by
  obtain ⟨h₁, d, h₂, rfl, hd, hquiet⟩ := hs
  refine ⟨h₁, d, h₂ ++ [r], by simp, hd, fun r' hr' => ?_⟩
  rcases List.mem_append.1 hr' with hr' | hr'
  · exact hquiet r' hr'
  · rw [List.mem_singleton.1 hr']
    exact hr

theorem Silenced.last {sha256 : List UInt8 → δ} {k : Key} {fp : δ} {different : Item → Prop}
    {h : List Record} {r : Record} (hr : r.op.Silences sha256 k fp r.before) :
    Silenced sha256 k fp different (h ++ [r]) :=
  ⟨h, r, [], rfl, hr, by simp⟩

theorem Silenced.mono {sha256 : List UInt8 → δ} {k : Key} {fp : δ} {d d' : Item → Prop}
    {h : List Record} (hs : Silenced sha256 k fp d h)
    (hd : ∀ r ∈ h, r.op.News k d' → r.op.News k d) : Silenced sha256 k fp d' h := by
  obtain ⟨h₁, r, h₂, rfl, hr, hquiet⟩ := hs
  refine ⟨h₁, r, h₂, rfl, hr, fun r' hr' hn => hquiet r' hr' (hd r' ?_ hn)⟩
  exact List.mem_append_right _ (List.mem_cons_of_mem _ hr')

theorem Heard.append {h : List Record} {it : Item} (hh : Heard h it) (r : Record) :
    Heard (h ++ [r]) it := by
  obtain ⟨hsev, r', hr', hrest⟩ := hh
  exact ⟨hsev, r', List.mem_append_left _ hr', hrest⟩

/-! ## Suppressions are accounted for -/

section
variable [DecidableEq δ] (sha256 : List UInt8 → δ)

/-- **A suppression after a section** was there before and the section is no
news of its key, or the section made it. -/
theorem Op.commit_suppressed {n : Notifier δ} (hk : n.Kept) (now : ℤ) (op : Op) {k : Key} {fp : δ}
    (h : (Op.commit sha256 now n op).n.suppressed.lookup k = some fp) :
    n.suppressed.lookup k = some fp ∧ ¬op.News k (fun it => fingerprint sha256 it ≠ fp) ∨
      op.Silences sha256 k fp n.items := by
  have hk0 : n.suppressed.lookup k = some fp → k ≠ "" := fun hl =>
    (hk.suppressed k (AList.lookup_isSome.1 (by simp [hl]))).1
  cases op with
  | post item => exact .inl ⟨h, id⟩
  | raise key item =>
    simp only [Op.commit, Notifier.raiseReport] at h
    split at h
    · next hkey =>
      have h : n.suppressed.lookup k = some fp := h
      exact .inl ⟨h, fun hn => hk0 h (hn.1 ▸ hkey)⟩
    · next hkey =>
      split at h
      · next hr =>
        have h : n.suppressed.lookup k = some fp := h
        refine .inl ⟨h, ?_⟩
        rintro ⟨rfl, hne⟩
        rcases Notifier.raiseLocked_none sha256 hr with hs | ⟨it, hit, hik, hun, -⟩
        · rw [h, Option.some.injEq] at hs
          exact hne hs.symm
        · have := (hk.suppressed key (AList.lookup_isSome.1 (by simp [h]))).2 it hit hik
          rw [hun] at this
          cases this
      · next r hr =>
        obtain ⟨-, ⟨-, rfl⟩ | ⟨it, hf, hun, -, rfl⟩⟩ := Notifier.raiseLocked_cases sha256 hk hkey hr
        · obtain ⟨hne, h⟩ := lookup_of_erase (m := n.suppressed) h
          exact .inl ⟨h, fun hn => hne hn.1.symm⟩
        · have h : n.suppressed.lookup k = some fp := h
          refine .inl ⟨h, ?_⟩
          rintro ⟨rfl, -⟩
          have hik : it.key = key := by simpa using List.find?_some hf
          have := (hk.suppressed key (AList.lookup_isSome.1 (by simp [h]))).2 it
            (List.mem_of_find?_eq_some hf) hik
          rw [hun] at this
          cases this
  | resolve key =>
    simp only [Op.commit, Notifier.resolveReport] at h
    split at h
    · next hkey =>
      have h : n.suppressed.lookup k = some fp := h
      exact .inl ⟨h, fun hn => hk0 h (hn.symm.trans hkey)⟩
    · have h : (n.suppressed.erase key).lookup k = some fp := by
        split at h
        · exact h
        · split at h <;> exact h
      obtain ⟨hne, h⟩ := lookup_of_erase h
      exact .inl ⟨h, fun hn => hne hn.symm⟩
  | markRead id =>
    rw [Op.commit, (Notifier.markRead_spec hk id).2.1] at h
    exact .inl ⟨h, fun hn => hn⟩
  | markAllRead =>
    rw [Op.commit, (Notifier.markAllRead_spec hk).2.1] at h
    exact .inl ⟨h, fun hn => hn⟩
  | dismiss id =>
    simp only [Op.commit, Notifier.dismiss] at h
    split at h
    · exact .inl ⟨h, fun hn => hn⟩
    · next it hf =>
      rcases n.forget_suppressed sha256 it h with h | ⟨rfl, -, hun, hfp⟩
      · exact .inl ⟨h, fun hn => hn⟩
      · exact .inr ⟨it, List.mem_of_find?_eq_some hf, by simpa using List.find?_some hf, rfl, hun, hfp⟩
  | clear =>
    simp only [Op.commit, Notifier.clear] at h
    split at h
    · exact .inl ⟨h, fun hn => hn⟩
    · rcases n.foldl_forget_suppressed sha256 h with h | ⟨-, it, hit, hik, hun, hfp⟩
      · exact .inl ⟨h, fun hn => hn⟩
      · exact .inr ⟨it, hit, hik, hun, hfp⟩

end

/-! ## Goroutines -/

/-- The goroutine holds `emitMu`. -/
def Pc.emits : Pc → Bool
  | .publish _ _ _ | .sound _ _ => true
  | _ => false

/-- The rows the goroutine will play. -/
def Pc.sounds : Pc → List Item
  | .publish _ heard _ => heard.toList
  | .sound it _ => [it]
  | _ => []

namespace System

@[simp] theorem goto_n (s : System δ) (g : ℕ) (pc : Option Pc) : (s.goto g pc).n = s.n := by
  cases pc <;> rfl

@[simp] theorem goto_emit (s : System δ) (g : ℕ) (pc : Option Pc) :
    (s.goto g pc).emit = s.emit := by
  cases pc <;> rfl

@[simp] theorem goto_now (s : System δ) (g : ℕ) (pc : Option Pc) : (s.goto g pc).now = s.now := by
  cases pc <;> rfl

@[simp] theorem goto_history (s : System δ) (g : ℕ) (pc : Option Pc) :
    (s.goto g pc).history = s.history := by
  cases pc <;> rfl

@[simp] theorem goto_published (s : System δ) (g : ℕ) (pc : Option Pc) :
    (s.goto g pc).published = s.published := by
  cases pc <;> rfl

@[simp] theorem goto_sounded (s : System δ) (g : ℕ) (pc : Option Pc) :
    (s.goto g pc).sounded = s.sounded := by
  cases pc <;> rfl

@[simp] theorem goto_asked (s : System δ) (g : ℕ) (pc : Option Pc) :
    (s.goto g pc).asked = s.asked := by
  cases pc <;> rfl

@[simp] theorem goto_calls (s : System δ) (g : ℕ) (pc : Option Pc) :
    (s.goto g pc).calls = s.calls := by
  cases pc <;> rfl

theorem goto_lookup (s : System δ) (g g' : ℕ) (pc : Option Pc) :
    (s.goto g pc).threads.lookup g' = if g' = g then pc else s.threads.lookup g' := by
  by_cases h : g' = g
  · subst h
    cases pc <;> simp [goto]
  · cases pc <;> simp [goto, h]

section
variable (s : System δ) (op : Op) (stamp : ℕ) (k : After) (r : Outcome δ)

@[simp] theorem recorded_n : (s.recorded op stamp k r).n = r.n := rfl

@[simp] theorem recorded_emit : (s.recorded op stamp k r).emit = s.emit := rfl

@[simp] theorem recorded_threads : (s.recorded op stamp k r).threads = s.threads := rfl

@[simp] theorem recorded_published : (s.recorded op stamp k r).published = s.published := rfl

@[simp] theorem recorded_sounded : (s.recorded op stamp k r).sounded = s.sounded := rfl

@[simp] theorem recorded_history : (s.recorded op stamp k r).history =
    s.history ++ [⟨op, stamp, s.n.items, r.n.items⟩] := rfl

end

/-- Goroutine `g` holds `emitMu`. -/
def Emits (s : System δ) (g : ℕ) : Prop := ∃ pc, s.threads.lookup g = some pc ∧ pc.emits = true

/-- The snapshot committed and not yet published. -/
def owed (s : System δ) : List Snapshot :=
  match s.emit with
  | none => []
  | some g =>
    match s.threads.lookup g with
    | some (.publish snap _ _) => [snap]
    | _ => []

/-- No section of the list, no callback: what every other step is to the list. -/
structure Quiet (s t : System δ) : Prop where
  list : s.n.SameList t.n
  history : t.history = s.history
  published : t.published = s.published
  sounded : t.sounded = s.sounded
  emit : t.emit = s.emit
  threads : ∀ g, t.threads.lookup g = s.threads.lookup g ∨ ¬s.Emits g ∧ ¬t.Emits g

theorem Quiet.goto {s t : System δ} {g : ℕ} {pc : Option Pc} (hlist : s.n.SameList t.n)
    (hhistory : t.history = s.history) (hpublished : t.published = s.published)
    (hsounded : t.sounded = s.sounded) (hemit : t.emit = s.emit)
    (hthreads : t.threads = s.threads) (hs : ¬s.Emits g) (hpc : ∀ p ∈ pc, p.emits = false) :
    s.Quiet (t.goto g pc) where
  list := by simpa using hlist
  history := by simpa using hhistory
  published := by simpa using hpublished
  sounded := by simpa using hsounded
  emit := by simpa using hemit
  threads := by
    intro g'
    rw [goto_lookup]
    split
    · next he =>
      subst he
      refine .inr ⟨hs, ?_⟩
      rintro ⟨p, hp, hem⟩
      rw [goto_lookup, if_pos rfl] at hp
      rw [hpc p hp] at hem
      cases hem
    · exact .inl (by rw [hthreads])

/-! ## The invariant of a run -/

variable (sha256 : List UInt8 → δ)

structure Inv (s : System δ) : Prop where
  kept : s.n.Kept
  silenced : ∀ k fp, s.n.suppressed.lookup k = some fp →
    Silenced sha256 k fp (fun it => fingerprint sha256 it ≠ fp) s.history
  swallowed : ∀ h₁ r h₂, s.history = h₁ ++ r :: h₂ → ∀ k item, r.Swallows sha256 k item →
    Silenced sha256 k (fingerprint sha256 { item with key := k })
      (fun it => fingerprint sha256 it ≠ fingerprint sha256 { item with key := k }) h₁
  emits : ∀ g, s.Emits g ↔ s.emit = some g
  published : s.published ++ s.owed =
    (s.history.filter Record.changes).map fun r => Snapshot.of r.after
  owes : ∀ g pc, s.threads.lookup g = some pc → ∀ it ∈ pc.sounds, Heard s.history it
  heard : ∀ it ∈ s.sounded, Heard s.history it

theorem init_inv (cap now : ℤ) : (init δ cap now).Inv sha256 where
  kept := Notifier.new_kept cap
  silenced := fun k fp h => by simp [init, Notifier.new] at h
  swallowed := fun h₁ r h₂ h => by simp [init] at h
  emits := fun g => ⟨fun ⟨pc, hpc, _⟩ => by simp [init] at hpc, fun h => by cases h⟩
  published := rfl
  owes := fun g pc h => by simp [init] at h
  heard := fun it h => by cases h

theorem not_emits_sounds {pc : Pc} (h : ¬pc.emits = true) : pc.sounds = [] := by
  cases pc with
  | publish | sound => exact absurd rfl h
  | _ => rfl

theorem Quiet.emits_iff {s t : System δ} (h : s.Quiet t) (g : ℕ) : t.Emits g ↔ s.Emits g := by
  rcases h.threads g with he | ⟨hs, ht⟩
  · simp only [Emits, he]
  · exact iff_of_false ht hs

theorem Quiet.inv {s t : System δ} (h : s.Quiet t) (hi : s.Inv sha256) : t.Inv sha256 where
  kept := h.list.kept hi.kept
  silenced := by
    rw [h.list.2.2.2, h.history]
    exact hi.silenced
  swallowed := by
    rw [h.history]
    exact hi.swallowed
  emits := by
    intro g
    rw [h.emits_iff, h.emit]
    exact hi.emits g
  published := by
    have howed : t.owed = s.owed := by
      unfold owed
      rw [h.emit]
      split
      · rfl
      · next g he =>
        rcases h.threads g with hl | ⟨hs, -⟩
        · rw [hl]
        · exact absurd ((hi.emits g).2 he) hs
    rw [h.published, howed, h.history]
    exact hi.published
  owes := by
    intro g pc hl it hit
    rw [h.history]
    rcases h.threads g with hsame | ⟨-, ht⟩
    · exact hi.owes g pc (hsame ▸ hl) it hit
    · rw [not_emits_sounds fun he => ht ⟨pc, hl, he⟩] at hit
      cases hit
  heard := by
    rw [h.sounded, h.history]
    exact hi.heard

/-! ### Callbacks -/

theorem resume_emits (changed : Bool) (k : After) : ∀ pc ∈ k.resume changed, pc.emits = false := by
  intro pc hpc
  cases k with
  | ret => cases hpc
  | lead =>
    simp only [After.resume] at hpc
    split at hpc
    · cases hpc; rfl
    · cases hpc
  | trail => cases hpc; rfl

/-- The goroutine that holds `emitMu` is the one that has just moved. -/
theorem emits_goto {s : System δ} {g : ℕ} (h : ∀ g', s.Emits g' → g' = g) (pc : Option Pc)
    (g' : ℕ) : (s.goto g pc).Emits g' ↔ g' = g ∧ ∃ p, pc = some p ∧ p.emits = true := by
  unfold Emits
  rw [goto_lookup]
  split
  · next he => simp [he]
  · next hne =>
    refine iff_of_false (fun hex => hne (h g' hex)) fun hc => hne hc.1

theorem owes_goto {s : System δ} {g : ℕ} {pc : Option Pc} {h : List Record}
    (hs : ∀ g' p, s.threads.lookup g' = some p → ∀ it ∈ p.sounds, Heard h it)
    (hpc : ∀ p ∈ pc, ∀ it ∈ p.sounds, Heard h it) :
    ∀ g' p, (s.goto g pc).threads.lookup g' = some p → ∀ it ∈ p.sounds, Heard h it := by
  intro g' p hl
  rw [goto_lookup] at hl
  split at hl
  · exact hpc p hl
  · exact hs g' p hl

variable {sha256} in
theorem Inv.publish {s : System δ} (hi : s.Inv sha256) {g : ℕ} {snap : Snapshot}
    {heard : Option Item} {k : After} (hg : s.threads.lookup g = some (.publish snap heard k))
    (emit : Option ℕ) (pc : Option Pc)
    (hpc : emit = none ∧ heard = none ∧ pc = k.resume true ∨
      emit = some g ∧ ∃ it, heard = some it ∧ pc = some (.sound it k)) :
    ({ s with published := s.published ++ [snap], emit := emit }.goto g pc).Inv sha256 := by
  have hem : s.emit = some g := (hi.emits g).1 ⟨_, hg, rfl⟩
  have hall : ∀ g', s.Emits g' → g' = g := fun g' he => by
    have := (hi.emits g').1 he
    rw [hem, Option.some.injEq] at this
    exact this.symm
  have howed : s.owed = [snap] := by simp [owed, hem, hg]
  have hpub := hi.published
  rw [howed] at hpub
  refine ⟨by simpa using hi.kept, by simpa using hi.silenced, by simpa using hi.swallowed, ?_, ?_, ?_,
    by simpa using hi.heard⟩
  · intro g'
    have := emits_goto (s := { s with published := s.published ++ [snap], emit := emit }) hall pc g'
    rw [this, goto_emit]
    rcases hpc with ⟨rfl, -, rfl⟩ | ⟨rfl, it, -, rfl⟩
    · refine iff_of_false (fun hc => ?_) (by simp)
      obtain ⟨-, p, hp, hpe⟩ := hc
      rw [resume_emits true k p hp] at hpe
      cases hpe
    · exact ⟨fun hc => by rw [hc.1], fun hc => ⟨(Option.some.inj hc).symm, _, rfl, rfl⟩⟩
  · rw [goto_published, goto_history, ← hpub]
    rcases hpc with ⟨rfl, -, rfl⟩ | ⟨rfl, it, -, rfl⟩
    · simp [owed]
    · simp [owed, goto_lookup]
  · rw [goto_history]
    refine owes_goto hi.owes fun p hp it hit => ?_
    rcases hpc with ⟨-, -, rfl⟩ | ⟨-, x, rfl, rfl⟩
    · rw [not_emits_sounds (by simp [resume_emits true k p hp])] at hit
      cases hit
    · cases hp
      exact hi.owes g _ hg it (by simpa [Pc.sounds] using hit)

variable {sha256} in
theorem Inv.sound {s : System δ} (hi : s.Inv sha256) {g : ℕ} {it : Item} {k : After}
    (hg : s.threads.lookup g = some (.sound it k)) :
    ({ s with emit := none, sounded := s.sounded ++ [it] }.goto g (k.resume true)).Inv sha256 := by
  have hem : s.emit = some g := (hi.emits g).1 ⟨_, hg, rfl⟩
  have hall : ∀ g', s.Emits g' → g' = g := fun g' he => by
    have := (hi.emits g').1 he
    rw [hem, Option.some.injEq] at this
    exact this.symm
  have howed : s.owed = [] := by simp [owed, hem, hg]
  have hpub := hi.published
  rw [howed] at hpub
  refine ⟨by simpa using hi.kept, by simpa using hi.silenced, by simpa using hi.swallowed, ?_, ?_, ?_,
    ?_⟩
  · intro g'
    have := emits_goto (s := { s with emit := none, sounded := s.sounded ++ [it] }) hall
      (k.resume true) g'
    rw [this, goto_emit]
    refine iff_of_false (fun hc => ?_) (by simp)
    obtain ⟨-, p, hp, hpe⟩ := hc
    rw [resume_emits true k p hp] at hpe
    cases hpe
  · rw [goto_published, goto_history, ← hpub]
    simp [owed]
  · rw [goto_history]
    refine owes_goto hi.owes fun p hp x hx => ?_
    rw [not_emits_sounds (by simp [resume_emits true k p hp])] at hx
    cases hx
  · rw [goto_sounded, goto_history]
    intro x hx
    rcases List.mem_append.1 hx with hx | hx
    · exact hi.heard x hx
    · exact hi.owes g _ hg x hx

/-! ### Sections -/

section
variable [DecidableEq δ]

variable {sha256} in
theorem Inv.swallows {s : System δ} (hi : s.Inv sha256) {now : ℤ} {op : Op} {stamp : ℕ} {k : Key}
    {item : Item}
    (hr : Record.Swallows sha256 k item
      ⟨op, stamp, s.n.items, (Op.commit sha256 now s.n op).n.items⟩) :
    Silenced sha256 k (fingerprint sha256 { item with key := k })
      (fun it => fingerprint sha256 it ≠ fingerprint sha256 { item with key := k }) s.history := by
  obtain ⟨hop, hkey, hsame, hnone⟩ := hr
  simp only at hop hsame hnone
  subst hop
  have hhonest := (Op.commit_spec sha256 hi.kept now (.raise k item)).2
  have hquiet : (Op.commit sha256 now s.n (.raise k item)).snap = none := by
    cases hsnap : (Op.commit sha256 now s.n (.raise k item)).snap with
    | none => rfl
    | some snap => exact absurd hsame (hhonest.news snap hsnap).2
  simp only [Op.commit, Notifier.raiseReport, if_neg hkey] at hquiet
  split at hquiet
  · next hr =>
    rcases Notifier.raiseLocked_none sha256 hr with hs | ⟨it, hit, hik, hun, hfp⟩
    · exact hi.silenced k _ hs
    · exact absurd hfp (hnone it hit hik hun)
  · cases hquiet

variable {sha256} in
theorem Inv.record {s : System δ} (hi : s.Inv sha256) (now : ℤ) (op : Op) (stamp : ℕ) :
    let r := Op.commit sha256 now s.n op
    let h := s.history ++ [⟨op, stamp, s.n.items, r.n.items⟩]
    (∀ k fp, r.n.suppressed.lookup k = some fp →
      Silenced sha256 k fp (fun it => fingerprint sha256 it ≠ fp) h) ∧
    ∀ h₁ rec h₂, h = h₁ ++ rec :: h₂ → ∀ k item, rec.Swallows sha256 k item →
      Silenced sha256 k (fingerprint sha256 { item with key := k })
        (fun it => fingerprint sha256 it ≠ fingerprint sha256 { item with key := k }) h₁ := by
  refine ⟨fun k fp hl => ?_, fun h₁ rec h₂ hsplit k item hsw => ?_⟩
  · rcases Op.commit_suppressed sha256 hi.kept now op hl with ⟨hl, hnews⟩ | hsil
    · exact (hi.silenced k fp hl).append hnews
    · exact .last hsil
  · rcases List.eq_nil_or_concat h₂ with rfl | ⟨h₂', last, rfl⟩
    · obtain ⟨rfl, hrec⟩ := List.append_inj' hsplit rfl
      cases hrec
      exact hi.swallows hsw
    · rw [List.concat_eq_append, ← List.cons_append, ← List.append_assoc] at hsplit
      obtain ⟨hsplit, -⟩ := List.append_inj' hsplit rfl
      exact hi.swallowed h₁ rec h₂' hsplit k item hsw

variable {sha256} in
/-- **A section of a publishing entry point** keeps the invariant. -/
theorem Inv.commit {s t : System δ} (hi : s.Inv sha256) {g : ℕ} {op : Op} {stamp : ℕ} {k : After}
    (h : s.commit sha256 g op stamp k = some t) : t.Inv sha256 := by
  unfold System.commit at h
  split at h
  case isFalse => cases h
  case isTrue hfree =>
    obtain ⟨hkept, hhonest⟩ := Op.commit_spec sha256 hi.kept s.now op
    obtain ⟨hsil, hswal⟩ := hi.record s.now op stamp
    have hnobody : ∀ g', ¬s.Emits g' := fun g' he => by
      have := (hi.emits g').1 he
      rw [hfree] at this
      cases this
    have howed : s.owed = [] := by simp [owed, hfree]
    have hpub := hi.published
    rw [howed, List.append_nil] at hpub
    have howes : ∀ g' p, s.threads.lookup g' = some p → ∀ it ∈ p.sounds,
        Heard (s.history ++ [⟨op, stamp, s.n.items, (Op.commit sha256 s.now s.n op).n.items⟩]) it :=
      fun g' p hl it hit => (hi.owes g' p hl it hit).append _
    have hheard : ∀ it ∈ s.sounded,
        Heard (s.history ++ [⟨op, stamp, s.n.items, (Op.commit sha256 s.now s.n op).n.items⟩]) it :=
      fun it hit => (hi.heard it hit).append _
    simp only at h
    generalize hr : Op.commit sha256 s.now s.n op = r at *
    split at h
    · next hsnap =>
      cases h
      have hsame := (hhonest.quiet hsnap).1
      refine ⟨by simpa using hkept, by simpa using hsil, by simpa using hswal, ?_, ?_, ?_, ?_⟩
      · intro g'
        have hiff := emits_goto (s := s.recorded op stamp k r) (g := g)
          (fun g'' he => absurd he (hnobody g'')) (k.resume false) g'
        rw [hiff, goto_emit]
        refine iff_of_false (fun hc => ?_) (by simp [recorded, hfree])
        obtain ⟨-, p, hp, hpe⟩ := hc
        rw [resume_emits false k p hp] at hpe
        cases hpe
      · simp [owed, recorded, hfree, hpub, Record.changes, hsame]
      · rw [goto_history]
        refine owes_goto howes fun p hp it hit => ?_
        rw [not_emits_sounds (by simp [resume_emits false k p hp])] at hit
        cases hit
      · simpa [recorded] using hheard
    · next snap hsnap =>
      cases h
      obtain ⟨rfl, hne⟩ := hhonest.news snap hsnap
      refine ⟨by simpa using hkept, by simpa using hsil, by simpa using hswal, ?_, ?_, ?_, ?_⟩
      · intro g'
        have hiff := emits_goto (s := { s.recorded op stamp k r with emit := some g }) (g := g)
          (fun g'' he => absurd he (hnobody g'')) (some (.publish (.of r.n.items) r.sound k)) g'
        rw [hiff, goto_emit]
        exact ⟨fun hc => by rw [hc.1], fun hc => ⟨(Option.some.inj hc).symm, _, rfl, rfl⟩⟩
      · simp [owed, goto_lookup, recorded, hpub, Record.changes, hne]
      · rw [goto_history]
        refine owes_goto howes fun p hp it hit => ?_
        cases hp
        obtain ⟨hsev, hmem, hnew, hop⟩ := hhonest.heard it (by simpa [Pc.sounds] using hit)
        exact ⟨hsev, _, List.mem_append_right _ (List.mem_singleton_self _), hmem, hnew, hop⟩
      · simpa [recorded] using hheard

omit [DecidableEq δ] in
theorem coalescer_quiet {s : System δ} {g : ℕ} (hs : ¬s.Emits g) :
    (∀ key window c stamp, s.Quiet (s.coalesce g key window c stamp)) ∧
      (∀ key window gen, s.Quiet (s.arm g key window gen)) ∧
      (∀ key gen, s.Quiet (s.close g key gen)) ∧
      ∀ key gen window changed, s.Quiet (s.rearm g key gen window changed) := by
  have hgone : ∀ n : Notifier δ, s.n.SameList n → s.Quiet ({ s with n := n }.goto g none) :=
    fun n hn => .goto hn rfl rfl rfl rfl rfl hs (by simp)
  have hrefl := hgone s.n (.refl _)
  have hretire := fun key => hgone _ (.retirePendingLocked s.n key)
  have harm := fun key window => hgone _ (.armLocked s.n s.now key window)
  refine ⟨fun key window c stamp => ?_, fun key window gen => ?_, fun key gen => ?_,
    fun key gen window changed => ?_⟩
  · unfold System.coalesce
    split
    · exact .goto (.refl _) rfl rfl rfl rfl rfl hs (by rintro p ⟨⟩; rfl)
    · split
      · exact .goto ⟨rfl, rfl, rfl, rfl⟩ rfl rfl rfl rfl rfl hs (by simp)
      · exact .goto (.refl _) rfl rfl rfl rfl rfl hs (by rintro p ⟨⟩; rfl)
  · unfold System.arm
    split
    · exact hrefl
    · split
      · exact hrefl
      · exact harm key window
  · unfold System.close
    split
    · exact hrefl
    · split
      · exact hrefl
      · split
        · exact hretire key
        · exact .goto ⟨rfl, rfl, rfl, rfl⟩ rfl rfl rfl rfl rfl hs (by rintro p ⟨⟩; rfl)
  · unfold System.rearm
    split
    · exact hrefl
    · split
      · exact hrefl
      · split
        · exact hretire key
        · split
          · exact hretire key
          · exact harm key window

omit [DecidableEq δ] in
theorem not_emits_of_lookup {s : System δ} {g : ℕ} {pc : Pc} (h : s.threads.lookup g = some pc)
    (hpc : pc.emits = false) : ¬s.Emits g := by
  rintro ⟨p, hp, he⟩
  cases h.symm.trans hp
  rw [hpc] at he
  cases he

omit [DecidableEq δ] in
theorem not_emits_of_notMem {s : System δ} {g : ℕ} (h : g ∉ s.threads) : ¬s.Emits g := by
  rintro ⟨p, hp, -⟩
  exact h (AList.lookup_isSome.1 (by simp [hp]))

/-- Every step is quiet, the section of an entry point, or one of its callbacks. -/
theorem step_inv {s t : System δ} {l : Label} (hi : s.Inv sha256)
    (h : step sha256 s l = some t) : t.Inv sha256 := by
  cases l with
  | call g c =>
    simp only [step] at h
    split at h
    · cases h
    · next hg =>
      cases h
      refine Quiet.inv (s := s) sha256 (.goto (.refl _) rfl rfl rfl rfl rfl (not_emits_of_notMem hg) ?_) hi
      intro p hp
      cases c with
      | plain | stopTimers => cases hp; rfl
      | raiseWindowed | resolveWindowed =>
        simp only [Call.entry] at hp
        split at hp <;> cases hp <;> rfl
  | fire id g =>
    simp only [step] at h
    split at h
    · cases h
    · split at h
      · cases h
      · next hg =>
        cases h
        exact Quiet.inv (s := s) sha256 (.goto ⟨rfl, rfl, rfl, rfl⟩ rfl rfl rfl rfl rfl
          (not_emits_of_notMem fun hm => hg (.inl hm)) (by rintro p ⟨⟩; rfl)) hi
  | tick now =>
    simp only [step] at h
    split at h
    · cases h
      exact Quiet.inv (s := s) sha256 ⟨.refl _, rfl, rfl, rfl, rfl, fun _ => .inl rfl⟩ hi
    · cases h
  | run g =>
    simp only [step] at h
    split at h
    · cases h
    · next pc hg =>
      have hq := fun hpc : pc.emits = false =>
        coalescer_quiet (not_emits_of_lookup hg hpc)
      cases pc with
      | commit op stamp k => exact hi.commit h
      | publish snap heard k =>
        simp only [advance] at h
        split at h
        · cases h
          exact hi.publish hg none _ (.inl ⟨rfl, rfl, rfl⟩)
        · next it =>
          cases h
          have hem : s.emit = some g := (hi.emits g).1 ⟨_, hg, rfl⟩
          have := hi.publish hg s.emit (some (.sound it k)) (.inr ⟨hem, it, rfl, rfl⟩)
          exact this
      | sound it k => cases h; exact hi.sound hg
      | coalesce key window c stamp => cases h; exact Quiet.inv sha256 ((hq rfl).1 _ _ _ _) hi
      | arm key window gen => cases h; exact Quiet.inv sha256 ((hq rfl).2.1 _ _ _) hi
      | close key gen => cases h; exact Quiet.inv sha256 ((hq rfl).2.2.1 _ _) hi
      | rearm key gen window changed => cases h; exact Quiet.inv sha256 ((hq rfl).2.2.2 _ _ _ _) hi
      | stop =>
        cases h
        exact Quiet.inv sha256 (.goto (.stopTimers s.n) rfl rfl rfl rfl rfl
          (not_emits_of_lookup hg rfl) (by simp)) hi

end

end System

/-! ## Main results -/

/-- The content an entry point raises under `k`. -/
def Op.raises (k : Key) : Op → Option Item
  | .raise key item => if key = k then some { item with key := k } else none
  | _ => none

def ByFingerprint [DecidableEq δ] (sha256 : List UInt8 → δ) (a b : Item) : Prop :=
  fingerprint sha256 a ≠ fingerprint sha256 b

/-- The user can tell two contents apart. -/
def ByContent (a b : Item) : Prop := ¬a.SameContent b

/-- What is to hold of the list, of what the user silenced and of what was
published, when `different` tells contents apart. -/
structure System.Faithful (sha256 : List UInt8 → δ) (different : Item → Item → Prop)
    (s : System δ) : Prop where
  /-- a row below another of its key is resolved -/
  newest : s.n.items.Pairwise fun a b => a.key = b.key → a.key ≠ "" → b.resolved = true
  suppressed : ∀ k ∈ s.n.suppressed, ∀ it ∈ s.n.items, it.key = k → it.resolved = true
  ids : ∃ seqs : List ℕ, s.n.items.map (·.id) = seqs.map idOf ∧ seqs.Pairwise (· > ·)
  nodup : (s.n.items.map (·.id)).Nodup
  length : s.n.items.length ≤ s.n.cap
  read : ∀ it ∈ s.n.items, it.resolved = true ∨ it.severity = severityInfo → it.unread = false
  swallowed : ∀ h₁ r h₂, s.history = h₁ ++ r :: h₂ → ∀ k item, r.Swallows sha256 k item →
    Silenced sha256 k (fingerprint sha256 { item with key := k })
      (different · { item with key := k }) h₁
  published : s.published ++ s.owed =
    (s.history.filter Record.changes).map fun r => Snapshot.of r.after
  heard : ∀ it ∈ s.sounded, Heard s.history it

section
variable [DecidableEq δ] (sha256 : List UInt8 → δ)

/-- A raise has the fingerprint of no other content that was raised under its
key. -/
def Op.Apart (h : List Record) : Op → Prop
  | .raise key item => ∀ r ∈ h, ∀ x ∈ r.op.raises key,
    fingerprint sha256 x = fingerprint sha256 { item with key := key } →
      x.SameContent { item with key := key }
  | _ => True

instance (h : List Record) : (op : Op) → Decidable (op.Apart sha256 h)
  | .raise key item => List.decidableBAll (fun r : Record => ∀ x ∈ r.op.raises key,
    fingerprint sha256 x = fingerprint sha256 { item with key := key } →
      x.SameContent { item with key := key }) h
  | .post _ | .resolve _ | .markRead _ | .markAllRead | .dismiss _ | .clear => .isTrue trivial

/-- The entry point whose section the goroutine is about to commit. -/
def Pc.section? : Pc → Option Op
  | .commit op _ _ => some op
  | _ => none

/-- The section about to be committed is told apart from those before it. -/
def System.ToldApart (s : System δ) : Label → Prop
  | .run g => ∀ op ∈ (s.threads.lookup g).bind Pc.section?, op.Apart sha256 s.history
  | _ => True

instance (s : System δ) : (l : Label) → Decidable (s.ToldApart sha256 l)
  | .run g => inferInstanceAs
    (Decidable (∀ op ∈ (s.threads.lookup g).bind Pc.section?, op.Apart sha256 s.history))
  | .call _ _ | .fire _ _ | .tick _ => .isTrue trivial

/-- No two contents raised under one key share a fingerprint. -/
def HistoryApart (h : List Record) : Prop :=
  ∀ r ∈ h, ∀ r' ∈ h, ∀ k, ∀ x ∈ r.op.raises k, ∀ y ∈ r'.op.raises k,
    fingerprint sha256 x = fingerprint sha256 y → x.SameContent y

/-- A step adds at most the record of the section it commits. -/
theorem System.step_history {s t : System δ} {l : Label} (h : s.step sha256 l = some t) :
    t.history = s.history ∨ ∃ g op stamp k after, l = .run g ∧
      s.threads.lookup g = some (.commit op stamp k) ∧
      t.history = s.history ++ [⟨op, stamp, s.n.items, after⟩] := by
  cases l with
  | call g c =>
    simp only [System.step] at h
    split at h <;> cases h
    exact .inl (by simp)
  | fire id g =>
    simp only [System.step] at h
    split at h
    · cases h
    · split at h <;> cases h
      exact .inl (by simp)
  | tick now =>
    simp only [System.step] at h
    split at h <;> cases h
    exact .inl rfl
  | run g =>
    simp only [System.step] at h
    split at h
    · cases h
    · next pc hg =>
      cases pc with
      | commit op stamp k =>
        refine .inr ⟨g, op, stamp, k, (Op.commit sha256 s.now s.n op).n.items, rfl, hg, ?_⟩
        simp only [System.advance, System.commit] at h
        split at h
        · split at h <;> cases h <;> simp
        · cases h
      | publish snap heard k =>
        simp only [System.advance] at h
        split at h <;> cases h <;> exact .inl (by simp)
      | sound it k => cases h; exact .inl (by simp)
      | stop => cases h; exact .inl (by simp)
      | coalesce key window c stamp =>
        cases h
        refine .inl ?_
        unfold System.coalesce
        split
        · simp
        · split <;> simp
      | arm key window gen =>
        cases h
        refine .inl ?_
        unfold System.arm
        split
        · simp
        · split <;> simp
      | close key gen =>
        cases h
        refine .inl ?_
        unfold System.close
        split
        · simp
        · split
          · simp
          · split <;> simp
      | rearm key gen window changed =>
        cases h
        refine .inl ?_
        unfold System.rearm
        split
        · simp
        · split
          · simp
          · split
            · simp
            · split <;> simp

theorem System.step_apart {s t : System δ} {l : Label} (hh : HistoryApart sha256 s.history)
    (hok : s.ToldApart sha256 l) (h : s.step sha256 l = some t) :
    HistoryApart sha256 t.history := by
  rcases System.step_history sha256 h with he | ⟨g, op, stamp, k, after, rfl, hg, he⟩
  · rw [he]
    exact hh
  · rw [he]
    have hnew : ∀ r ∈ s.history, ∀ k', ∀ x ∈ r.op.raises k', ∀ y ∈ op.raises k',
        fingerprint sha256 x = fingerprint sha256 y → x.SameContent y := by
      intro r hr k' x hx y hy hfp
      have hok := hok op (by simp [hg, Pc.section?])
      cases op with
      | raise key item =>
        simp only [Op.raises] at hy
        split at hy
        · next hkey =>
          subst hkey
          cases hy
          exact hok r hr x hx hfp
        · cases hy
      | _ => cases hy
    have hself : ∀ k', ∀ x ∈ op.raises k', ∀ y ∈ op.raises k', x.SameContent y := by
      intro k' x hx y hy
      cases hx.symm.trans hy
      exact .refl x
    intro r hr r' hr' k' x hx y hy hfp
    rcases List.mem_append.1 hr with hr | hr <;> rcases List.mem_append.1 hr' with hr' | hr'
    · exact hh r hr r' hr' k' x hx y hy hfp
    · rw [List.mem_singleton.1 hr'] at hy
      exact hnew r hr k' x hx y hy hfp
    · rw [List.mem_singleton.1 hr] at hx
      exact (hnew r' hr' k' y hy x hx hfp.symm).symm
    · rw [List.mem_singleton.1 hr] at hx
      rw [List.mem_singleton.1 hr'] at hy
      exact hself k' x hx y hy

theorem System.Inv.faithful {s : System δ} (hi : s.Inv sha256) :
    s.Faithful sha256 (ByFingerprint sha256) where
  newest := hi.kept.newest
  suppressed := fun k hk => (hi.kept.suppressed k hk).2
  ids := by
    obtain ⟨seqs, hids, hdec, -⟩ := hi.kept.ids
    exact ⟨seqs, hids, hdec⟩
  nodup := hi.kept.nodup_ids
  length := hi.kept.length
  read := by
    intro it hit hr
    cases hun : it.unread with
    | false => rfl
    | true =>
      obtain ⟨hres, hsev⟩ := hi.kept.read it hit hun
      rcases hr with hr | hr
      · rw [hres] at hr
        cases hr
      · exact absurd hr hsev
  swallowed := hi.swallowed
  published := hi.published
  heard := hi.heard

/-- With contents told apart, a key that was not news by fingerprint was not
news at all. -/
theorem System.Faithful.byContent {s : System δ} (hf : s.Faithful sha256 (ByFingerprint sha256))
    (hh : HistoryApart sha256 s.history) : s.Faithful sha256 ByContent where
  newest := hf.newest
  suppressed := hf.suppressed
  ids := hf.ids
  nodup := hf.nodup
  length := hf.length
  read := hf.read
  swallowed := by
    intro h₁ r h₂ hsplit k item hsw
    refine (hf.swallowed h₁ r h₂ hsplit k item hsw).mono fun r' hr' hnews => ?_
    have hr'mem : r' ∈ s.history := hsplit ▸ List.mem_append_left _ hr'
    have hrmem : r ∈ s.history := hsplit ▸ List.mem_append_right _ List.mem_cons_self
    obtain ⟨op, stamp, before, after⟩ := r'
    cases op with
    | raise key item' =>
      obtain ⟨rfl, hne⟩ := hnews
      refine ⟨rfl, fun hfp => hne ?_⟩
      exact hh _ hr'mem r hrmem key _ (by simp [Op.raises]) { item with key := key }
        (by simp [hsw.1, Op.raises]) hfp
    | resolve key => exact hnews
    | _ => exact hnews
  published := hf.published
  heard := hf.heard

/-- **Every run keeps the list faithful**: with contents told apart by
fingerprint in every run, and by what the user sees in the runs in which no
two contents of a key share a fingerprint. -/
theorem list_faithful {cap now : ℤ} {ls : List Label} {t : System δ}
    (h : exec (System.step sha256) (System.init δ cap now) ls = some t) :
    t.Faithful sha256 (ByFingerprint sha256) ∧
      (Meets (System.step sha256) (System.ToldApart sha256) (System.init δ cap now) ls →
        t.Faithful sha256 ByContent) := by
  have hi : t.Inv sha256 := exec_invariant (I := System.Inv sha256)
    (fun s l s' hs _ hstep => System.step_inv sha256 hs hstep)
    (System.init_inv sha256 cap now) (Meets.trivial _ _ _) h
  refine ⟨hi.faithful, fun hmeets => hi.faithful.byContent sha256 ?_⟩
  exact exec_invariant (I := fun s : System δ => HistoryApart sha256 s.history)
    (fun s l s' hs hok hstep => System.step_apart sha256 hs hok hstep)
    (fun r hr => by cases hr) hmeets h

end

/-- A microphone fault with two buttons. -/
def micFault : Item where
  id := ""
  key := ""
  category := "audio"
  severity := severityError
  icon := "mic"
  title := "Microphone failed"
  body := ""
  context := []
  actions := [⟨"Open", "gear", "open-window", "comms", true⟩, ⟨"Help", "book", "navigate", "help", true⟩]
  time := 0
  unread := false
  resolved := false

/-- The same words as ten context entries, which the hash is fed alike. -/
def micDetails : Item :=
  { micFault with
    context := [⟨"Open", "gear"⟩, ⟨"open-window", "comms"⟩, ⟨"true", "Help"⟩, ⟨"book", "navigate"⟩,
      ⟨"help", "true"⟩]
    actions := [] }

/-- The fault is raised and dismissed, its other content raised, and the fault
raised again. -/
def swallowedRun : List Label :=
  [.call 0 (.plain (.raise "mic" micFault)), .run 0, .run 0, .run 0,
    .call 0 (.plain (.dismiss "n1")), .run 0, .run 0,
    .call 0 (.plain (.raise "mic" micDetails)), .run 0,
    .call 0 (.plain (.raise "mic" micFault)), .run 0]

theorem list_faithful_run : ∃ t : System (List UInt8),
    exec (System.step id) (System.init _ 3 0) (swallowedRun.take 7 ++ swallowedRun.drop 9) = some t ∧
      t.Faithful id ByContent := by
  have h : (exec (System.step id) (System.init (List UInt8) 3 0)
      (swallowedRun.take 7 ++ swallowedRun.drop 9)).isSome = true := by
    decide +kernel
  obtain ⟨t, ht⟩ := Option.isSome_iff_exists.1 h
  exact ⟨t, ht, (list_faithful id ht).2 (by decide +kernel)⟩

/-- **A raise swallowed although the condition was news**: its key was raised
with different content after it was dismissed. -/
theorem swallowed_despite_news : ∃ t : System (List UInt8),
    exec (System.step id) (System.init _ 3 0) swallowedRun = some t ∧
      ¬t.Faithful id ByContent := by
  let row : Item := { micFault with key := "mic", id := "n1", unread := true }
  have h : (exec (System.step id) (System.init (List UInt8) 3 0) swallowedRun).map (·.history) =
      some [⟨.raise "mic" micFault, 1, [], [row]⟩, ⟨.dismiss "n1", 2, [row], []⟩,
        ⟨.raise "mic" micDetails, 3, [], []⟩, ⟨.raise "mic" micFault, 4, [], []⟩] := by
    decide +kernel
  obtain ⟨t, ht, hh⟩ := Option.map_eq_some_iff.1 h
  refine ⟨t, ht, fun hf => ?_⟩
  obtain ⟨h₁, d, h₂, hsplit, hd, hquiet⟩ := hf.swallowed
    [⟨.raise "mic" micFault, 1, [], [row]⟩, ⟨.dismiss "n1", 2, [row], []⟩,
      ⟨.raise "mic" micDetails, 3, [], []⟩] _ [] hh "mic" micFault
    ⟨rfl, by decide, rfl, fun it hit => by cases hit⟩
  -- only the dismissal silences the key, and the other content came after it
  match h₁, hsplit with
  | [], hsplit => cases hsplit; exact hd
  | [_], hsplit =>
    cases hsplit
    refine hquiet _ (List.mem_singleton_self _) ⟨rfl, fun hsame => ?_⟩
    have : { micDetails with key := "mic" }.SameContent { micFault with key := "mic" } := hsame
    revert this
    decide
  | [_, _], hsplit => cases hsplit; exact hd
  | _ :: _ :: _ :: h₁, hsplit => simp at hsplit

end VcsClient.Notify
