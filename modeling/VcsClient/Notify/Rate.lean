import VcsClient.Notify.Instant
import VcsClient.Notify.Sections

/-!
# The rate of one key

Windowed calls of one key, made one after the other with any changes at any times, and the
timers of its windows, each of which the runtime runs when it is due. Sections that changed
the list are a window apart, a call takes effect within a window unless a later one takes
its place, and whenever no window is open the list is what the last call made of it.

`Paced` adds to the notifier the log of its sections with their times and of the calls.
-/

namespace VcsClient.Notify

open VcsClient.Lib

variable {δ : Type*}

/-- A windowed call: its number, when it was made and what it asked for. -/
structure Made where
  stamp : ℕ
  time : ℤ
  change : Change
  deriving DecidableEq

structure Paced (δ : Type*) where
  sys : System δ
  /-- ghost: the sections and their times, oldest first -/
  log : List (Record × ℤ)
  /-- ghost: the calls, oldest first -/
  calls : List Made

inductive Moment where
  | call (c : Change)
  | fire (id : ℕ)
  | tick (now : ℤ)
  deriving DecidableEq

/-! ## What a section makes of the list -/

/-- The list a section of the change left: the condition with its content, or the row that
was there with the same fingerprint; or no unresolved row. -/
def Change.Leaves (sha256 : List UInt8 → δ) (key : Key) (before after : List Item) :
    Change → Prop
  | .raise item => ∃ it ∈ after, it.key = key ∧ it.resolved = false ∧
      (it.SameContent { item with key := key } ∨
        it ∈ before ∧ fingerprint sha256 it = fingerprint sha256 { item with key := key })
  | .resolve => ∀ it ∈ after, it.key = key → it.resolved = true

/-- What the section of a change does when the key is not suppressed. -/
structure Change.Lands (sha256 : List UInt8 → δ) (key : Key) (c : Change) (n : Notifier δ)
    (r : Outcome δ) : Prop where
  kept : r.n.Kept
  unsuppressed : key ∉ r.n.suppressed
  windows : n.SameWindows r.n
  leaves : c.Leaves sha256 key n.items r.n.items
  quiet : r.snap = none → r.n.items = n.items

/-- **The section of a change.** -/
theorem Change.lands [DecidableEq δ] (sha256 : List UInt8 → δ) {n : Notifier δ} (hk : n.Kept) {key : Key}
    (hkey : key ≠ "") (hs : key ∉ n.suppressed) (now : ℤ) (c : Change) :
    c.Lands sha256 key n (Op.commit sha256 now n (c.op key)) := by
  obtain ⟨hkept, hhonest⟩ := Op.commit_spec sha256 hk now (c.op key)
  refine ⟨hkept, ?_, commit_windows sha256 now n key c, ?_, fun h => (hhonest.quiet h).1⟩
  · intro hmem
    obtain ⟨fp, hfp⟩ := Option.isSome_iff_exists.1 (AList.lookup_isSome.2 hmem)
    rcases Op.commit_suppressed sha256 hk now (c.op key) hfp with ⟨hold, -⟩ | hsil
    · exact hs (AList.lookup_isSome.1 (by simp [hold]))
    · cases c <;> exact hsil
  · cases c with
    | raise item =>
      simp only [Change.op, Op.commit, Notifier.raiseReport, if_neg hkey]
      split
      · next hr =>
        rcases Notifier.raiseLocked_none sha256 hr with hfp | ⟨it, hit, hik, hun, hfp⟩
        · exact absurd (AList.lookup_isSome.1 (by simp [hfp])) hs
        · exact ⟨it, hit, hik, hun, .inr ⟨hit, hfp⟩⟩
      · next r hr =>
        obtain ⟨-, ⟨-, rfl⟩ | ⟨it, hf, hun, -, rfl⟩⟩ := Notifier.raiseLocked_cases sha256 hk hkey hr
        · have hlift : Notifier.Kept { n with suppressed := n.suppressed.erase key } :=
            hk.congr rfl rfl rfl fun k hk => (AList.mem_erase.1 hk).2
          obtain ⟨hmem, -⟩ := hlift.insertLocked_new now { item with key := key }
          exact ⟨_, hmem, rfl, rfl, .inl (Item.stamped_same _ _ _)⟩
        · have hmem := mem_modifyFirst_self
            (f := fun _ => Item.stamped { item with key := key } it.id now) hf
          exact ⟨_, hmem, rfl, rfl, .inl (Item.stamped_same _ _ _)⟩
    | resolve =>
      have hop : (Op.resolve key).change? = some (key, .resolve) := rfl
      have hdistinct : Change.Distinct sha256 key n .resolve := True.intro
      exact (Op.commit_shows sha256 hk now hkey hop hdistinct).1

namespace Paced

variable (sha256 : List UInt8 → δ) (key : Key) (window : ℤ)

/-- The key's call or callback left the notifier at `t`. -/
def go (s : Paced δ) (t : System δ) (made : List Made) : Paced δ where
  sys := t
  log := s.log ++ (t.history.drop s.sys.history.length).map (·, s.sys.now)
  calls := s.calls ++ made

/-- A call, the callback of a timer of the key, or time going on: past no timer of the key
that is due. -/
def step [DecidableEq δ] (s : Paced δ) : Moment → Option (Paced δ)
  | .call c => (s.sys.instantly sha256 (.call 0 (c.windowed key window))).map fun t =>
      s.go t [⟨t.calls, s.sys.now, c⟩]
  | .fire id =>
    if (s.sys.n.timers.lookup id).any (·.key = key) then
      (s.sys.instantly sha256 (.fire id 0)).map fun t => s.go t []
    else none
  | .tick now =>
    if ∀ e ∈ s.sys.n.timers.entries, e.2.key = key → now ≤ e.2.due then
      (s.sys.step sha256 (.tick now)).map fun t => { s with sys := t }
    else none


def start (s : System δ) : Paced δ := ⟨s, [], []⟩

def changes (s : Paced δ) : List ℤ := (s.log.filter fun e => e.1.changes).map (·.2)

/-- The call took effect, a window after it was made at most. -/
def Took (s : Paced δ) (c : Made) : Prop :=
  ∃ e ∈ s.log, e.1.op = c.change.op key ∧ e.1.stamp = c.stamp ∧ c.time ≤ e.2 ∧
    e.2 ≤ c.time + max window 0

/-- A later call, made a window after it at most, took its place. -/
def Replaced (s : Paced δ) (c : Made) : Prop :=
  ∃ c' ∈ s.calls, c.stamp < c'.stamp ∧ c.time ≤ c'.time ∧ c'.time ≤ c.time + max window 0

/-- The list is what the last section made of it, and that was the call's. -/
def Shown (s : Paced δ) (c : Made) : Prop :=
  ∃ e, s.log.getLast? = some e ∧ e.1.op = c.change.op key ∧ e.1.stamp = c.stamp ∧
    e.1.after = s.sys.n.items ∧ c.change.Leaves sha256 key e.1.before e.1.after

/-- The open window of the key holds the call, the last one. -/
def Waits (s : Paced δ) (c : Made) : Prop :=
  s.calls.getLast? = some c ∧
    ∃ p, s.sys.n.pending.lookup key = some p ∧ p.apply.isSome = true

/-- No window of the key is open. -/
structure Closed (s : Paced δ) : Prop where
  timers : ∀ id tm, s.sys.n.timers.lookup id = some tm → tm.key ≠ key
  past : ∀ t ∈ s.changes, t + window ≤ s.sys.now
  shown : ∀ c, s.calls.getLast? = some c → s.Shown sha256 key c

/-- The window of the key is open until `due`, when the timer `id` closes it. -/
structure Opened (s : Paced δ) (p : PendingChange) (id : ℕ) (due : ℤ) : Prop where
  positive : 0 < window
  period : s.sys.n.windows.lookup key = some window
  timer : s.sys.n.timers.lookup id = some ⟨key, p.gen, due⟩
  only : ∀ id' tm, s.sys.n.timers.lookup id' = some tm → tm.key = key → id' = id
  coming : s.sys.now ≤ due
  soon : due ≤ s.sys.now + window
  past : ∀ t ∈ s.changes, t + window ≤ due
  held : ∀ c, p.apply = some c → ∃ made, s.calls.getLast? = some made ∧ made.change = c ∧
    made.stamp = p.stamp ∧ due ≤ made.time + window
  shown : p.apply = none → ∀ c, s.calls.getLast? = some c → s.Shown sha256 key c

structure Inv (s : Paced δ) : Prop where
  idle : s.sys.Idle
  kept : s.sys.n.Kept
  unsuppressed : key ∉ s.sys.n.suppressed
  made : ∀ c ∈ s.calls, c.stamp ≤ s.sys.calls ∧ c.time ≤ s.sys.now
  rate : s.changes.Pairwise fun a b => a + window ≤ b
  fates : ∀ c ∈ s.calls, s.Took key window c ∨ s.Replaced window c ∨ s.Waits key c
  closed : s.sys.n.pending.lookup key = none → s.Closed sha256 key window
  opened : ∀ p, s.sys.n.pending.lookup key = some p →
    ∃ id due, s.Opened sha256 key window p id due

/-- Nobody is at work, and the key has neither a window nor a suppression. -/
structure Rests (s : System δ) : Prop where
  idle : s.Idle
  kept : s.n.Kept
  unsuppressed : key ∉ s.n.suppressed
  pending : key ∉ s.n.pending
  timers : ∀ id tm, s.n.timers.lookup id = some tm → tm.key ≠ key

theorem init_rests (key : Key) (cap now : ℤ) : Rests key (System.init δ cap now) where
  idle := ⟨rfl, rfl⟩
  kept := Notifier.new_kept cap
  unsuppressed := AList.notMem_empty key
  pending := AList.notMem_empty key
  timers := fun id tm h => by cases h

variable {sha256 key window} {s s' : Paced δ} {c : Made}

theorem start_inv {s : System δ} (h : Rests key s) : (start s).Inv sha256 key window where
  idle := h.idle
  kept := h.kept
  unsuppressed := h.unsuppressed
  made := by simp [start]
  rate := .nil
  fates := by simp [start]
  closed := fun _ => ⟨h.timers, by simp [start, changes], by simp [start]⟩
  opened := by
    intro p hp
    rw [start, AList.lookup_eq_none.2 h.pending] at hp
    cases hp

/-! ## What a call or a callback adds -/

theorem Took.mono (h : s.Took key window c) (hlog : ∀ e ∈ s.log, e ∈ s'.log) :
    s'.Took key window c := by
  obtain ⟨e, he, hrest⟩ := h
  exact ⟨e, hlog e he, hrest⟩

theorem Replaced.mono (h : s.Replaced window c) (hcalls : ∀ c ∈ s.calls, c ∈ s'.calls) :
    s'.Replaced window c := by
  obtain ⟨c', hc', hrest⟩ := h
  exact ⟨c', hcalls c' hc', hrest⟩

/-- The system went on to `n`, by these sections and for this call. -/
structure Follows (s : Paced δ) (n : Notifier δ) (records : List Record) (made : List Made)
    (s' : Paced δ) : Prop where
  idle : s'.sys.Idle
  n : s'.sys.n = n
  now : s'.sys.now = s.sys.now
  log : s'.log = s.log ++ records.map (·, s.sys.now)
  calls : s'.calls = s.calls ++ made

theorem follows {n : Notifier δ} {records : List Record} {calls : ℕ} {t : System δ}
    (h : s.sys.Leaves calls n records t) (made : List Made) :
    s.Follows n records made (s.go t made) where
  idle := h.idle
  n := h.n
  now := h.now
  log := by simp [go, h.history]
  calls := rfl

section
variable {n : Notifier δ} {records : List Record} {made : List Made}

theorem Follows.took (hf : s.Follows n records made s') (h : s.Took key window c) :
    s'.Took key window c :=
  h.mono fun _ he => hf.log ▸ List.mem_append_left _ he

theorem Follows.replaced (hf : s.Follows n records made s') (h : s.Replaced window c) :
    s'.Replaced window c :=
  h.mono fun _ hc => hf.calls ▸ List.mem_append_left _ hc

theorem Follows.changes_nil (hf : s.Follows n [] made s') : s'.changes = s.changes := by
  rw [changes, changes, hf.log, List.map_nil, List.append_nil]

theorem Follows.changes_one {r : Record} (hf : s.Follows n [r] made s') :
    s'.changes = s.changes ++ if r.changes then [s.sys.now] else [] := by
  rw [changes, changes, hf.log, List.filter_append, List.map_append]
  congr 1
  cases h : r.changes <;> simp [h]

theorem Follows.rate {r : Record} (hf : s.Follows n [r] made s')
    (hrate : s.changes.Pairwise fun a b => a + window ≤ b)
    (hpast : ∀ t ∈ s.changes, t + window ≤ s.sys.now) :
    s'.changes.Pairwise fun a b => a + window ≤ b := by
  rw [hf.changes_one]
  refine List.pairwise_append.2 ⟨hrate, by split <;> simp, fun a ha b hb => ?_⟩
  split at hb
  · rw [List.mem_singleton.1 hb]
    exact hpast a ha
  · cases hb

end

/-- No timer of the key: arming its window starts the one it has. -/
theorem armed (n : Notifier δ) (now : ℤ) (window : ℤ)
    (htimers : ∀ id tm, n.timers.lookup id = some tm → tm.key ≠ key)
    (happly : ∀ p, n.pending.lookup key = some p → p.apply = none) :
    ∃ p id, (n.armLocked now key window).pending.lookup key = some p ∧ p.apply = none ∧
      (n.armLocked now key window).windows.lookup key = some window ∧
      (n.armLocked now key window).timers.lookup id = some ⟨key, p.gen, now + window⟩ ∧
      ∀ id' tm, (n.armLocked now key window).timers.lookup id' = some tm → tm.key = key →
        id' = id := by
  have hstart : ∀ (m : Notifier δ) (p : PendingChange),
      (∀ id tm, m.timers.lookup id = some tm → tm.key ≠ key) → p.apply = none →
      ∃ q id, (m.startTimer now key window p).pending.lookup key = some q ∧ q.apply = none ∧
        (m.startTimer now key window p).windows.lookup key = some window ∧
        (m.startTimer now key window p).timers.lookup id = some ⟨key, q.gen, now + window⟩ ∧
        ∀ id' tm, (m.startTimer now key window p).timers.lookup id' = some tm → tm.key = key →
          id' = id := by
    intro m p hm hp
    refine ⟨{ p with timer := some (m.timerSeq + 1) }, m.timerSeq + 1, AList.lookup_insert _, hp,
      AList.lookup_insert _, AList.lookup_insert _, fun id' tm hid hkey => ?_⟩
    by_contra hne
    rw [Notifier.startTimer, AList.lookup_insert_ne hne] at hid
    exact hm id' tm hid hkey
  unfold Notifier.armLocked
  cases hp : n.pending.lookup key with
  | none => exact hstart _ _ htimers rfl
  | some p =>
    refine hstart _ _ (fun id tm hid => ?_) (happly p hp)
    cases htimer : p.timer with
    | none =>
      rw [htimer] at hid
      exact htimers id tm hid
    | some id' =>
      rw [htimer] at hid
      exact htimers id tm (lookup_of_erase hid).2

/-- **The section of the last call**, and what becomes of the key's window with it. -/
theorem Inv.hit (hi : s.Inv sha256 key window) {n n' : Notifier δ} {r : Outcome δ}
    {made : List Made}
    (hf : s.Follows n' [⟨c.change.op key, c.stamp, s.sys.n.items, r.n.items⟩] made s')
    (hland : c.change.Lands sha256 key n r) (hitems : n.items = s.sys.n.items)
    (hlist : r.n.SameList n') (hlast : s'.calls.getLast? = some c)
    (hmade : ∀ c ∈ s'.calls, c.stamp ≤ s'.sys.calls ∧ c.time ≤ s'.sys.now)
    (hsoon : s.sys.now ≤ c.time + max window 0)
    (hfates : ∀ c' ∈ s'.calls, c' = c ∨ s.Took key window c' ∨ s.Replaced window c')
    (hpast : ∀ t ∈ s.changes, t + window ≤ s.sys.now)
    (hclosed : n'.pending.lookup key = none →
      (∀ id tm, n'.timers.lookup id = some tm → tm.key ≠ key) ∧ (r.snap = none ∨ window ≤ 0))
    (hopened : ∀ p, n'.pending.lookup key = some p → p.apply = none ∧ 0 < window ∧
      n'.windows.lookup key = some window ∧
      ∃ id, n'.timers.lookup id = some ⟨key, p.gen, s.sys.now + window⟩ ∧
        ∀ id' tm, n'.timers.lookup id' = some tm → tm.key = key → id' = id) :
    s'.Inv sha256 key window := by
  have hmem : c ∈ s'.calls := List.mem_of_getLast? hlast
  have hcome : c.time ≤ s.sys.now := hf.now ▸ (hmade c hmem).2
  have hitems' : s'.sys.n.items = r.n.items := by rw [hf.n, hlist.2.1]
  have htook : s'.Took key window c :=
    ⟨(⟨c.change.op key, c.stamp, s.sys.n.items, r.n.items⟩, s.sys.now), by simp [hf.log], rfl, rfl,
      hcome, hsoon⟩
  have hshown : ∀ c', s'.calls.getLast? = some c' → s'.Shown sha256 key c' := by
    intro c' hc'
    cases hlast.symm.trans hc'
    exact ⟨(⟨c.change.op key, c.stamp, s.sys.n.items, r.n.items⟩, s.sys.now), by simp [hf.log], rfl,
      rfl, hitems'.symm, hitems ▸ hland.leaves⟩
  have hsup : s'.sys.n.suppressed = r.n.suppressed := by rw [hf.n, hlist.2.2.2]
  refine ⟨hf.idle, hf.n ▸ hlist.kept hland.kept, hsup ▸ hland.unsuppressed, hmade,
    hf.rate hi.rate hpast, fun c' hc' => ?_, fun hp => ?_, fun p hp => ?_⟩
  · rcases hfates c' hc' with rfl | h | h
    · exact .inl htook
    · exact .inl (hf.took h)
    · exact .inr (.inl (hf.replaced h))
  · rw [hf.n] at hp
    obtain ⟨htimers, hquiet⟩ := hclosed hp
    refine ⟨hf.n ▸ htimers, fun t ht => ?_, hshown⟩
    rw [hf.changes_one, List.mem_append] at ht
    rw [hf.now]
    rcases ht with ht | ht
    · exact hpast t ht
    · split at ht
      · next hchanges =>
        rw [List.mem_singleton.1 ht]
        rcases hquiet with hnone | hwindow
        · -- a section that published nothing changed nothing
          have hsame : r.n.items = s.sys.n.items := (hland.quiet hnone).trans hitems
          simp [Record.changes, hsame] at hchanges
        · omega
      · cases ht
  · rw [hf.n] at hp
    obtain ⟨happly, hpos, hperiod, id, htimer, honly⟩ := hopened p hp
    refine ⟨id, s.sys.now + window, hpos, hf.n ▸ hperiod, hf.n ▸ htimer, hf.n ▸ honly, ?_, ?_, ?_, ?_,
      fun _ => hshown⟩
    · rw [hf.now]
      omega
    · rw [hf.now]
    · intro t ht
      rw [hf.changes_one, List.mem_append] at ht
      rcases ht with ht | ht
      · have := hpast t ht
        omega
      · split at ht
        · rw [List.mem_singleton.1 ht]
        · cases ht
    · intro c' hc'
      rw [happly] at hc'
      cases hc'

/-! ## Steps -/

section Step

/-- The numbers and the times of the calls, the new one included. -/
theorem Inv.made_call (hi : s.Inv sha256 key window) {n : Notifier δ} {records : List Record}
    {c : Change} (hf : s.Follows n records [⟨s.sys.calls + 1, s.sys.now, c⟩] s')
    (hcalls : s'.sys.calls = s.sys.calls + 1) :
    ∀ c' ∈ s'.calls, c'.stamp ≤ s'.sys.calls ∧ c'.time ≤ s'.sys.now := by
  intro c' hc'
  rw [hf.calls, List.mem_append] at hc'
  rw [hcalls, hf.now]
  rcases hc' with hc' | hc'
  · have := hi.made c' hc'
    exact ⟨by omega, this.2⟩
  · rw [List.mem_singleton.1 hc']
    exact ⟨le_rfl, le_rfl⟩

theorem Inv.fates_closed (hi : s.Inv sha256 key window)
    (hp : s.sys.n.pending.lookup key = none) {n : Notifier δ} {records : List Record}
    {new : Made} (hf : s.Follows n records [new] s') :
    ∀ c' ∈ s'.calls, c' = new ∨ s.Took key window c' ∨ s.Replaced window c' := by
  intro c' hc'
  rw [hf.calls, List.mem_append] at hc'
  rcases hc' with hc' | hc'
  · rcases hi.fates c' hc' with h | h | ⟨-, p, hsome, -⟩
    · exact .inr (.inl h)
    · exact .inr (.inr h)
    · rw [hp] at hsome
      cases hsome
  · exact .inl (List.mem_singleton.1 hc')

/-- **A call while the window is open** waits, and the one before it no longer does. -/
theorem Inv.hold (hi : s.Inv sha256 key window) {c : Change} {p : PendingChange} {n : Notifier δ}
    (hp : s.sys.n.pending.lookup key = some p)
    (hn : n = { s.sys.n with pending := s.sys.n.pending.insert key { p with
      apply := some c
      stamp := s.sys.calls + 1 } })
    (hf : s.Follows n [] [⟨s.sys.calls + 1, s.sys.now, c⟩] s')
    (hcalls : s'.sys.calls = s.sys.calls + 1) : s'.Inv sha256 key window := by
  obtain ⟨id, due, ho⟩ := hi.opened p hp
  have hlist : s.sys.n.SameList n := by rw [hn]; exact ⟨rfl, rfl, rfl, rfl⟩
  have hpending : n.pending.lookup key = some { p with
      apply := some c
      stamp := s.sys.calls + 1 } := by
    rw [hn]
    exact AList.lookup_insert _
  have hlast : s'.calls.getLast? = some ⟨s.sys.calls + 1, s.sys.now, c⟩ := by
    rw [hf.calls, List.getLast?_concat]
  have hmem := List.mem_of_getLast? hlast
  refine ⟨hf.idle, hf.n ▸ hlist.kept hi.kept, ?_, hi.made_call hf hcalls, ?_, fun c' hc' => ?_,
    fun hnone => ?_, fun q hq => ?_⟩
  · rw [hf.n, hlist.2.2.2]
    exact hi.unsuppressed
  · rw [hf.changes_nil]
    exact hi.rate
  · rw [hf.calls, List.mem_append] at hc'
    rcases hc' with hc' | hc'
    · rcases hi.fates c' hc' with h | h | ⟨hlast', q, hq, hsome⟩
      · exact .inl (hf.took h)
      · exact .inr (.inl (hf.replaced h))
      · -- the call the window held until now
        cases hp.symm.trans hq
        obtain ⟨c₀, hc₀⟩ := Option.isSome_iff_exists.1 hsome
        obtain ⟨made, hmade, -, -, hdue⟩ := ho.held c₀ hc₀
        cases hlast'.symm.trans hmade
        have hold := hi.made c' hc'
        have hcoming := ho.coming
        refine .inr (.inl ⟨_, hmem, ?_, hold.2, ?_⟩)
        · simp only
          omega
        · simp only
          have := le_max_left window 0
          omega
    · rw [List.mem_singleton.1 hc']
      exact .inr (.inr ⟨hlast, _, hf.n ▸ hpending, rfl⟩)
  · rw [hf.n, hpending] at hnone
    cases hnone
  · rw [hf.n, hpending] at hq
    cases hq
    refine ⟨id, due, ho.positive, ?_, ?_, ?_, ?_, ?_, ?_, fun c' hc' => ?_, fun hnone => ?_⟩
    · rw [hf.n, hn]
      exact ho.period
    · rw [hf.n, hn]
      exact ho.timer
    · rw [hf.n, hn]
      exact ho.only
    · rw [hf.now]
      exact ho.coming
    · rw [hf.now]
      exact ho.soon
    · rw [hf.changes_nil]
      exact ho.past
    · cases hc'
      exact ⟨_, hlast, rfl, rfl, ho.soon⟩
    · cases hnone

/-- **A window that held nothing** is over. -/
theorem Inv.retire (hi : s.Inv sha256 key window) {p : PendingChange} {id : ℕ} {due : ℤ}
    (htimers : ∀ id' tm, (s.sys.n.timers.erase id).lookup id' = some tm → tm.key ≠ key)
    (hpast : ∀ t ∈ s.changes, t + window ≤ s.sys.now)
    (hp : s.sys.n.pending.lookup key = some p) (happly : p.apply = none)
    (ho : s.Opened sha256 key window p id due)
    (hf : s.Follows (Notifier.retirePendingLocked
      { s.sys.n with timers := s.sys.n.timers.erase id } key) [] [] s')
    (hcalls : s'.sys.calls = s.sys.calls) : s'.Inv sha256 key window := by
  have hcalls' : s'.calls = s.calls := by rw [hf.calls, List.append_nil]
  have hlog : s'.log = s.log := by rw [hf.log, List.map_nil, List.append_nil]
  have hitems : s'.sys.n.items = s.sys.n.items := by rw [hf.n]; rfl
  have hgone : s'.sys.n.pending.lookup key = none := by
    rw [hf.n]
    exact AList.lookup_erase _ _
  refine ⟨hf.idle, hf.n ▸ hi.kept.congr rfl rfl rfl (fun _ h => h), ?_, ?_, ?_, fun c hc => ?_,
    fun _ => ⟨?_, ?_, ?_⟩, fun q hq => ?_⟩
  · rw [hf.n]
    exact hi.unsuppressed
  · rw [hcalls', hcalls, hf.now]
    exact hi.made
  · rw [hf.changes_nil]
    exact hi.rate
  · rw [hcalls'] at hc
    rcases hi.fates c hc with h | h | ⟨-, q, hq, hsome⟩
    · exact .inl (hf.took h)
    · exact .inr (.inl (hf.replaced h))
    · cases hp.symm.trans hq
      rw [happly] at hsome
      cases hsome
  · rw [hf.n]
    exact htimers
  · rw [hf.changes_nil, hf.now]
    exact hpast
  · rw [hcalls']
    intro c hc
    obtain ⟨e, he, hop, hstamp, hafter, hleaves⟩ := ho.shown happly c hc
    exact ⟨e, hlog ▸ he, hop, hstamp, hafter.trans hitems.symm, hleaves⟩
  · rw [hgone] at hq
    cases hq

theorem Opened.tick {p : PendingChange} {id : ℕ} {due now : ℤ}
    (ho : s.Opened sha256 key window p id due) (hle : s.sys.now ≤ now) (hdue : now ≤ due) :
    Opened sha256 key window { s with sys := { s.sys with now := now } } p id due := by
  refine ⟨ho.positive, ho.period, ho.timer, ho.only, hdue, ?_, ho.past, ho.held, ho.shown⟩
  have := ho.soon
  simp only
  omega

variable [DecidableEq δ]

theorem Inv.call (hi : s.Inv sha256 key window) (hkey : key ≠ "") {c : Change}
    (h : s.step sha256 key window (.call c) = some s') : s'.Inv sha256 key window := by
  obtain ⟨t, ht, rfl⟩ := Option.map_eq_some_iff.1 h
  cases hp : s.sys.n.pending.lookup key with
  | some p =>
    obtain ⟨id, due, ho⟩ := hi.opened p hp
    obtain ⟨u, hu, hleaves⟩ := System.call_open (c := c) hi.idle hkey ho.positive hp
    cases ht.symm.trans hu
    rw [hleaves.calls]
    exact hi.hold hp rfl (follows hleaves _) hleaves.calls
  | none =>
    have hclosed := hi.closed hp
    have hsoon : s.sys.now ≤ s.sys.now + max window 0 := by omega
    by_cases hwindow : window ≤ 0
    · obtain ⟨u, hu, hleaves⟩ := System.call_plain (c := c) hi.idle hkey hwindow
      cases ht.symm.trans hu
      rw [hleaves.calls]
      have hland := c.lands sha256 hi.kept hkey hi.unsuppressed s.sys.now
      have hf := follows hleaves [⟨s.sys.calls + 1, s.sys.now, c⟩]
      refine hi.hit (c := ⟨s.sys.calls + 1, s.sys.now, c⟩) hf hland rfl (.refl _)
        (by rw [hf.calls, List.getLast?_concat]) (hi.made_call hf hleaves.calls)
        hsoon (hi.fates_closed hp hf) hclosed.past (fun _ => ⟨?_, .inr hwindow⟩) fun p hp' => ?_
      · rw [hland.windows.timers]
        exact hclosed.timers
      · rw [hland.windows.pending, hp] at hp'
        cases hp'
    · have hpos : 0 < window := by omega
      obtain ⟨u, hu, hleaves⟩ := System.call_closed (c := c) hi.idle hkey hpos hp rfl
      cases ht.symm.trans hu
      rw [hleaves.calls]
      have hland := c.lands sha256 hi.kept hkey hi.unsuppressed s.sys.now
      have hf := follows hleaves [⟨s.sys.calls + 1, s.sys.now, c⟩]
      generalize Op.commit sha256 s.sys.now s.sys.n (c.op key) = r at hland hf hleaves
      have htimers := hclosed.timers
      rw [← hland.windows.timers] at htimers
      have hpending : r.n.pending.lookup key = none := by rw [hland.windows.pending, hp]
      have harmed := armed r.n s.sys.now window htimers fun p hp' => by
        rw [hpending] at hp'
        cases hp'
      refine hi.hit (c := ⟨s.sys.calls + 1, s.sys.now, c⟩) hf hland rfl ?_
        (by rw [hf.calls, List.getLast?_concat]) (hi.made_call hf hleaves.calls)
        hsoon (hi.fates_closed hp hf) hclosed.past (fun hp' => ?_) fun p hp' => ?_
      · split
        · exact .armLocked _ _ _ _
        · exact .refl _
      · split at hp'
        · obtain ⟨p, id, hp'', -⟩ := harmed
          rw [hp''] at hp'
          cases hp'
        · next hsome =>
          rw [if_neg hsome]
          exact ⟨htimers, .inl (by simpa using hsome)⟩
      · split at hp'
        · next hsome =>
          rw [if_pos hsome]
          obtain ⟨q, id, hq, happly, hperiod, htimer, honly⟩ := harmed
          cases hq.symm.trans hp'
          exact ⟨happly, hpos, hperiod, id, htimer, honly⟩
        · rw [hpending] at hp'
          cases hp'

/-- The callback runs when its timer is due, and no later. -/
theorem Inv.fire (hi : s.Inv sha256 key window) (hkey : key ≠ "") {id : ℕ}
    (h : s.step sha256 key window (.fire id) = some s') : s'.Inv sha256 key window := by
  simp only [step] at h
  split at h
  · next hmine =>
    obtain ⟨t, ht, rfl⟩ := Option.map_eq_some_iff.1 h
    obtain ⟨tm, htm, htmkey⟩ := (Option.any_eq_true _ _).1 hmine
    have htmkey : tm.key = key := by simpa using htmkey
    cases hp : s.sys.n.pending.lookup key with
    | none => exact absurd htmkey ((hi.closed hp).timers id tm htm)
    | some p =>
      obtain ⟨id', due, ho⟩ := hi.opened p hp
      cases ho.only id tm htm htmkey
      have hdue : due ≤ s.sys.now := by
        by_contra hlate
        have hnone : s.sys.step sha256 (.fire id 0) = none := by
          have hwait : (0 : ℕ) ∈ s.sys.threads ∨ s.sys.now < due := .inr (by omega)
          simp only [System.step, ho.timer, if_pos hwait]
        rw [System.instantly, hnone] at ht
        cases ht
      have hnow : s.sys.now = due := le_antisymm ho.coming hdue
      -- its timer was the only one of the key
      have htimers : ∀ id' tm, (s.sys.n.timers.erase id).lookup id' = some tm → tm.key ≠ key := by
        intro id' tm htm hk
        obtain ⟨he, htm⟩ := lookup_of_erase htm
        exact he (ho.only id' tm htm hk)
      have hpast : ∀ t ∈ s.changes, t + window ≤ s.sys.now := hnow ▸ ho.past
      cases happly : p.apply with
      | none =>
        obtain ⟨u, hu, hleaves⟩ := System.fire_idle hi.idle ho.timer hdue hp happly
        cases ht.symm.trans hu
        exact hi.retire htimers hpast hp happly ho (follows hleaves _) hleaves.calls
      | some c =>
        obtain ⟨made, hlast, rfl, hstamp, hsoon⟩ := ho.held c happly
        obtain ⟨n, hn⟩ : ∃ n : Notifier δ, n = { s.sys.n with
          timers := s.sys.n.timers.erase id
          pending := s.sys.n.pending.insert key { p with apply := none } } := ⟨_, rfl⟩
        have hlist : s.sys.n.SameList n := by rw [hn]; exact ⟨rfl, rfl, rfl, rfl⟩
        obtain ⟨u, hu, hleaves⟩ :=
          System.fire_held hi.idle ho.timer hdue hp happly ho.period ho.positive hn rfl
        cases ht.symm.trans hu
        have hland := made.change.lands sha256 (hlist.kept hi.kept) hkey
          (by rw [hlist.2.2.2]; exact hi.unsuppressed) s.sys.now
        have hf := follows hleaves []
        rw [← hstamp] at hf
        generalize Op.commit sha256 s.sys.now n (made.change.op key) = r at hland hf hleaves
        have hnpending : n.pending.lookup key = some { p with apply := none } := by
          rw [hn]
          exact AList.lookup_insert _
        have hrpending : r.n.pending.lookup key = some { p with apply := none } := by
          rw [hland.windows.pending, hnpending]
        have hrtimers : ∀ id tm, r.n.timers.lookup id = some tm → tm.key ≠ key := by
          rw [hland.windows.timers, hn]
          exact htimers
        obtain ⟨q, id', hq, hqapply, hperiod, htimer, honly⟩ :=
          armed r.n s.sys.now window hrtimers fun q hq => by
            cases hrpending.symm.trans hq
            rfl
        refine hi.hit (c := made) hf hland hlist.2.1 ?_ ?_ ?_ ?_ (fun c' hc' => ?_) hpast
          (fun hp' => ?_) fun q' hq' => ?_
        · split
          · exact .armLocked _ _ _ _
          · exact .retirePendingLocked _ _
        · rw [hf.calls, List.append_nil]
          exact hlast
        · have hcount : (s.go t []).sys.calls = s.sys.calls := hleaves.calls
          rw [hf.calls, List.append_nil, hf.now, hcount]
          exact hi.made
        · omega
        · rw [hf.calls, List.append_nil] at hc'
          rcases hi.fates c' hc' with h | h | ⟨hlast', -⟩
          · exact .inr (.inl h)
          · exact .inr (.inr h)
          · exact .inl (Option.some.inj (hlast'.symm.trans hlast))
        · split at hp'
          · rw [hq] at hp'
            cases hp'
          · next hsome =>
            rw [if_neg hsome]
            exact ⟨hrtimers, .inl (by simpa using hsome)⟩
        · split at hq'
          · next hsome =>
            rw [if_pos hsome]
            cases hq.symm.trans hq'
            exact ⟨hqapply, ho.positive, hperiod, id', htimer, honly⟩
          · rw [Notifier.retirePendingLocked, AList.lookup_erase] at hq'
            cases hq'
  · cases h

theorem Inv.tick (hi : s.Inv sha256 key window) {now : ℤ}
    (h : s.step sha256 key window (.tick now) = some s') : s'.Inv sha256 key window := by
  simp only [step] at h
  split at h
  · next hguard =>
    obtain ⟨t, ht, rfl⟩ := Option.map_eq_some_iff.1 h
    simp only [System.step] at ht
    split at ht
    · next hle =>
      cases ht
      refine ⟨hi.idle, hi.kept, hi.unsuppressed, fun c hc => ?_, hi.rate, hi.fates, fun hp => ?_,
        fun p hp => ?_⟩
      · exact ⟨(hi.made c hc).1, (hi.made c hc).2.trans hle⟩
      · have hclosed := hi.closed hp
        exact ⟨hclosed.timers, fun t ht => (hclosed.past t ht).trans hle, hclosed.shown⟩
      · obtain ⟨id, due, ho⟩ := hi.opened p hp
        have hdue : now ≤ due := hguard _ (AList.mem_lookup_iff.1 ho.timer) rfl
        exact ⟨id, due, ho.tick hle hdue⟩
    · cases ht
  · cases h

theorem Inv.step (hkey : key ≠ "") {m : Moment} (hi : s.Inv sha256 key window)
    (h : s.step sha256 key window m = some s') : s'.Inv sha256 key window := by
  cases m with
  | call c => exact hi.call hkey h
  | fire id => exact hi.fire hkey h
  | tick now => exact hi.tick h

end Step

/-! ## Time goes on -/

section Time

theorem Opened.timers {p : PendingChange} {id : ℕ} {due : ℤ}
    (ho : s.Opened sha256 key window p id due) {now : ℤ} (hnow : now ≤ due) :
    ∀ id tm, s.sys.n.timers.lookup id = some tm → tm.key = key → now ≤ tm.due := by
  intro id' tm htm hk
  cases ho.only id' tm htm hk
  cases htm.symm.trans ho.timer
  exact hnow

theorem armLocked_holds (n : Notifier δ) (now : ℤ) {p q : PendingChange}
    (hp : n.pending.lookup key = some p)
    (hq : (n.armLocked now key window).pending.lookup key = some q) : q.apply = p.apply := by
  rw [Notifier.armLocked, hp] at hq
  simp only [Notifier.startTimer, AList.lookup_insert] at hq
  cases hq
  rfl

variable [DecidableEq δ]

/-- Time passes to `now`, without a call. -/
def Passes (sha256 : List UInt8 → δ) (key : Key) (window : ℤ) (s : Paced δ) (now : ℤ) : Prop :=
  ∃ ms s', exec (Paced.step sha256 key window) s ms = some s' ∧ s'.sys.now = now ∧
    s'.calls = s.calls

theorem step_tick {now : ℤ} (hle : s.sys.now ≤ now)
    (htimers : ∀ id tm, s.sys.n.timers.lookup id = some tm → tm.key = key → now ≤ tm.due) :
    s.step sha256 key window (.tick now) = some { s with sys := { s.sys with now := now } } := by
  have hguard : ∀ e ∈ s.sys.n.timers.entries, e.2.key = key → now ≤ e.2.due :=
    fun e he => htimers e.1 e.2 (AList.mem_lookup_iff.2 he)
  simp only [step, if_pos hguard, System.step, if_pos hle, Option.map_some]

theorem passes_tick {now : ℤ} (hle : s.sys.now ≤ now)
    (htimers : ∀ id tm, s.sys.n.timers.lookup id = some tm → tm.key = key → now ≤ tm.due) :
    s.Passes sha256 key window now := by
  refine ⟨[.tick now], { s with sys := { s.sys with now := now } }, ?_, rfl, rfl⟩
  simp only [exec, step_tick hle htimers]

theorem passes_fire {s₁ : Paced δ} {now due : ℤ} {id : ℕ} (hle : s.sys.now ≤ due)
    (htimers : ∀ id tm, s.sys.n.timers.lookup id = some tm → tm.key = key → due ≤ tm.due)
    (hfire : Paced.step sha256 key window { s with sys := { s.sys with now := due } } (.fire id) =
      some s₁) (hcalls : s₁.calls = s.calls) (h : s₁.Passes sha256 key window now) :
    s.Passes sha256 key window now := by
  obtain ⟨ms, s', hms, hnow, hcalls'⟩ := h
  refine ⟨.tick due :: .fire id :: ms, s', ?_, hnow, hcalls'.trans hcalls⟩
  simp only [exec, step_tick hle htimers, hfire]
  exact hms

theorem Closed.passes (hc : s.Closed sha256 key window) {now : ℤ} (hle : s.sys.now ≤ now) :
    s.Passes sha256 key window now :=
  passes_tick hle fun id tm htm hk => absurd hk (hc.timers id tm htm)

/-- The key's timer is due: its callback is what comes next, and what it leaves holds nothing. -/
theorem Inv.fires (hi : s.Inv sha256 key window) {p : PendingChange} {id : ℕ} {due : ℤ}
    (hp : s.sys.n.pending.lookup key = some p) (ho : s.Opened sha256 key window p id due)
    (hdue : s.sys.now = due) :
    ∃ s', s.step sha256 key window (.fire id) = some s' ∧ s'.calls = s.calls ∧
      s'.sys.now = s.sys.now ∧ (∀ q, s'.sys.n.pending.lookup key = some q →
        q.apply = none ∧ p.apply ≠ none) := by
  have hmine : (s.sys.n.timers.lookup id).any (·.key = key) = true := by simp [ho.timer]
  have hfire : s.step sha256 key window (.fire id) =
      (s.sys.instantly sha256 (.fire id 0)).map fun t => s.go t [] := by
    rw [Paced.step, if_pos hmine]
  rw [hfire]
  cases happly : p.apply with
  | none =>
    obtain ⟨u, hu, hleaves⟩ := System.fire_idle hi.idle ho.timer hdue.ge hp happly
    refine ⟨s.go u [], by rw [hu, Option.map_some], List.append_nil _, hleaves.now, fun q hq => ?_⟩
    have hn : (s.go u []).sys.n = _ := hleaves.n
    rw [hn, Notifier.retirePendingLocked, AList.lookup_erase] at hq
    cases hq
  | some c =>
    obtain ⟨u, hu, hleaves⟩ :=
      System.fire_held hi.idle ho.timer hdue.ge hp happly ho.period ho.positive rfl rfl
    refine ⟨s.go u [], by rw [hu, Option.map_some], List.append_nil _, hleaves.now, fun q hq => ?_⟩
    have hn : (s.go u []).sys.n = _ := hleaves.n
    rw [hn] at hq
    refine ⟨?_, by simp⟩
    split at hq
    · refine armLocked_holds (p := { p with apply := none }) _ _ ?_ hq
      rw [(commit_windows sha256 _ _ key c).pending]
      exact AList.lookup_insert _
    · rw [Notifier.retirePendingLocked, AList.lookup_erase] at hq
      cases hq

/-- Time passes to when the key's timer is due, and its callback runs. -/
theorem Inv.due (hi : s.Inv sha256 key window) (hkey : key ≠ "") {p : PendingChange} {id : ℕ}
    {due : ℤ} (hp : s.sys.n.pending.lookup key = some p)
    (ho : s.Opened sha256 key window p id due) :
    ∃ s₁ : Paced δ, s₁.Inv sha256 key window ∧
      Paced.step sha256 key window { s with sys := { s.sys with now := due } } (.fire id) =
        some s₁ ∧ s₁.calls = s.calls ∧ s₁.sys.now = due ∧
      ∀ q, s₁.sys.n.pending.lookup key = some q → q.apply = none ∧ p.apply ≠ none := by
  have hi' := hi.tick (step_tick ho.coming (ho.timers le_rfl))
  obtain ⟨s₁, hfire, hcalls, hnow, hq⟩ := hi'.fires hp (ho.tick ho.coming le_rfl) rfl
  exact ⟨s₁, hi'.fire hkey hfire, hfire, hcalls, hnow, hq⟩

/-- **Time goes on**, whatever the window holds. -/
theorem Inv.passes (hi : s.Inv sha256 key window) (hkey : key ≠ "") {now : ℤ}
    (hle : s.sys.now ≤ now) : s.Passes sha256 key window now := by
  -- a window that holds nothing needs one callback at most
  have hidle : ∀ {s : Paced δ}, s.Inv sha256 key window → s.sys.now ≤ now →
      (∀ p, s.sys.n.pending.lookup key = some p → p.apply = none) →
      s.Passes sha256 key window now := by
    intro s hi hle hholds
    cases hp : s.sys.n.pending.lookup key with
    | none => exact (hi.closed hp).passes hle
    | some p =>
      obtain ⟨id, due, ho⟩ := hi.opened p hp
      by_cases hnow : now ≤ due
      · exact passes_tick hle (ho.timers hnow)
      · obtain ⟨s₁, hi₁, hfire, hcalls, hnow₁, hq⟩ := hi.due hkey hp ho
        have hnone : s₁.sys.n.pending.lookup key = none := by
          by_contra hsome
          obtain ⟨q, hq'⟩ := Option.ne_none_iff_exists'.1 hsome
          exact (hq q hq').2 (hholds p hp)
        exact passes_fire ho.coming (ho.timers le_rfl) hfire hcalls
          ((hi₁.closed hnone).passes (by omega))
  cases hp : s.sys.n.pending.lookup key with
  | none => exact (hi.closed hp).passes hle
  | some p =>
    obtain ⟨id, due, ho⟩ := hi.opened p hp
    by_cases hnow : now ≤ due
    · exact passes_tick hle (ho.timers hnow)
    · obtain ⟨s₁, hi₁, hfire, hcalls, hnow₁, hq⟩ := hi.due hkey hp ho
      exact passes_fire ho.coming (ho.timers le_rfl) hfire hcalls
        (hidle hi₁ (by omega) fun q hq' => (hq q hq').1)

end Time

/-! ## Runs -/

section Run
variable [DecidableEq δ]

theorem reaches_inv {s : System δ} (hs : Rests key s) (hkey : key ≠ "") {ms : List Moment}
    {t : Paced δ} (h : exec (Paced.step sha256 key window) (start s) ms = some t) :
    t.Inv sha256 key window :=
  exec_invariant (fun _ _ _ hi _ hm => Inv.step hkey hi hm) (start_inv hs) (Meets.trivial _ _ _) h

/-- **The rate of a key.** Whatever is asked of the key and when: sections that changed the
list are a window apart; a call takes effect, or a later one takes its place, a window after
it was made at most, and that time comes; and when no window is open the list is what the
last call made of it. -/
theorem coalesced {s : System δ} (hs : Rests key s) (hkey : key ≠ "") {ms : List Moment}
    {t : Paced δ} (h : exec (Paced.step sha256 key window) (start s) ms = some t) :
    (t.changes.Pairwise fun a b => a + window ≤ b) ∧
    (∀ c ∈ t.calls, t.Took key window c ∨ t.Replaced window c ∨
      t.Waits key c ∧ t.sys.now ≤ c.time + max window 0) ∧
    (∀ now, t.sys.now ≤ now → t.Passes sha256 key window now) ∧
    (key ∉ t.sys.n.pending → ∀ c, t.calls.getLast? = some c → t.Shown sha256 key c) := by
  have hi := reaches_inv hs hkey h
  refine ⟨hi.rate, fun c hc => ?_, fun now hle => hi.passes hkey hle,
    fun hp => (hi.closed (AList.lookup_eq_none.2 hp)).shown⟩
  rcases hi.fates c hc with htook | hreplaced | hwaits
  · exact .inl htook
  · exact .inr (.inl hreplaced)
  · obtain ⟨hlast, p, hp, hsome⟩ := id hwaits
    obtain ⟨id, due, ho⟩ := hi.opened p hp
    obtain ⟨c', hc'⟩ := Option.isSome_iff_exists.1 hsome
    obtain ⟨made, hmade, -, -, hsoon⟩ := ho.held c' hc'
    cases hlast.symm.trans hmade
    have hcoming := ho.coming
    exact .inr (.inr ⟨hwaits, by omega⟩)

/-- A condition that comes, goes and comes again within its window. -/
def flapping : List Moment :=
  [.call (.raise micFault), .tick 3, .call .resolve, .tick 4,
    .call (.raise { micFault with body := "Unplugged" }), .tick 10, .fire 1, .tick 20, .fire 2]

theorem coalesced_flapping : ∃ t : Paced (List UInt8),
    exec (Paced.step id "mic" 10) (start (System.init _ 3 0)) flapping = some t ∧
      t.changes = [0, 10] ∧ "mic" ∉ t.sys.n.pending ∧
      t.Shown id "mic" ⟨3, 4, .raise { micFault with body := "Unplugged" }⟩ := by
  have h : (exec (Paced.step id "mic" 10) (start (System.init (List UInt8) 3 0)) flapping).map
      (fun t => (t.changes, t.sys.n.pending.lookup "mic", t.calls.getLast?)) =
      some ([0, 10], none, some ⟨3, 4, .raise { micFault with body := "Unplugged" }⟩) := by
    decide +kernel
  obtain ⟨t, ht, hfacts⟩ := Option.map_eq_some_iff.1 h
  simp only [Prod.mk.injEq] at hfacts
  have hclosed : "mic" ∉ t.sys.n.pending := AList.lookup_eq_none.1 hfacts.2.1
  exact ⟨t, ht, hfacts.1, hclosed,
    (coalesced (init_rests "mic" 3 0) (by decide) ht).2.2.2 hclosed _ hfacts.2.2⟩

end Run

end Paced

end VcsClient.Notify
