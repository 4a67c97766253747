import VcsClient.App.Receiving
import VcsClient.Lib.Machine

/-!
# The live session follows the configuration

A session is owed a reading while what it was written from is older than the configuration
or the server settings. Every change that a refresh follows leaves a call that is to write
the newest reading, and when no write is older than what the session holds, such a call
pays what is owed. What is left at rest is what a profile load or a settings save changed
(`receive_stale`).
-/

namespace VcsClient.App

open VcsClient.Lib VcsClient.Config VcsClient.Voice

theorem resolveTXTarget_mem {radios : List Radio} {radioID : UInt32} {target : TXTarget}
    (h : resolveTXTarget radios radioID = some target) : target.freq ∈ acceptOf radios := by
  obtain ⟨r, hr, rfl⟩ := Option.map_eq_some_iff.1 h
  obtain ⟨hmem, hp⟩ := And.intro (List.mem_of_find?_eq_some hr) (List.find?_some hr)
  simp only [Bool.and_eq_true] at hp
  exact List.mem_map.2 ⟨r, List.mem_filter.2 ⟨hmem, hp.2⟩, rfl⟩

/-- Every frequency accepted can be transmitted on, where no two radios share an id. -/
theorem transmits_of_mem {radios : List Radio} (hids : (radios.map (·.id)).Nodup) {f : KHz}
    (hf : f ∈ acceptOf radios) : Receiving.Transmits radios f := by
  obtain ⟨r, hr, rfl⟩ := List.mem_map.1 hf
  obtain ⟨hmem, hen⟩ := List.mem_filter.1 hr
  cases hfind : radios.find? fun r' => r'.id == r.id && r'.enabled with
  | none =>
    have := List.find?_eq_none.1 hfind r hmem
    simp [hen] at this
  | some r' =>
    have hr' := List.find?_some hfind
    simp only [Bool.and_eq_true, beq_iff_eq] at hr'
    obtain rfl : r' = r := List.inj_on_of_nodup_map hids (List.mem_of_find?_eq_some hfind) hmem hr'.1
    exact ⟨r'.id, ⟨r'.frequencyKHz, r'.isIntercom⟩, by simp [resolveTXTarget, hfind], rfl⟩

/-- The three things a session holds. -/
inductive Aspect where
  | filter
  | shared
  | effects
  deriving DecidableEq

/-- After how many changes what the session holds was read; 0 before the first write. -/
def Held.version (h : Held) : Aspect → ℕ
  | .filter => (h.filter.map (·.1.version)).getD 0
  | .shared => (h.filter.map (·.2.version)).getD 0
  | .effects => (h.fx.map (·.version)).getD 0

/-- The call is still to write a reading of version `v` to the session. -/
def RxCall.Brings (a : Aspect) (sess v : ℕ) : RxCall → Prop
  | .refresh _ => True
  | .found _ sess' => sess' = sess
  | .tuned _ sess' t => sess' = sess ∧ (a ≠ .shared → t.version = v)
  | .ready _ sess' t srv => sess' = sess ∧ (if a = .shared then srv.version else t.version) = v
  | .filtered _ sess' t => sess' = sess ∧ a = .effects ∧ t.version = v
  | .pushing => False

namespace Receiving

variable {F : Type} {khz : F → KHz}

def version (s : Receiving F) : Aspect → ℕ
  | .shared => s.shares
  | .filter | .effects => s.tunings

/-- A reading of the configuration: of the newest version it is what is there. -/
structure Reads (s : Receiving F) (t : Tuning) : Prop where
  le : t.version ≤ s.tunings
  accept : t.version = s.tunings → t.accept.toFinset = (acceptOf s.cfg.radios).toFinset
  effects : t.version = s.tunings → t.effects = effectsOf s.cfg.audio

/-- A reading of the server settings. -/
structure ReadsShared (khz : F → KHz) (s : Receiving F) (srv : Shared) : Prop where
  le : srv.version ≤ s.shares
  eq : srv.version = s.shares → srv = s.shared khz

/-- The readings a call has made. -/
def Sound (khz : F → KHz) (s : Receiving F) : RxCall → Prop
  | .tuned _ _ t | .filtered _ _ t => s.Reads t
  | .ready _ _ t srv => s.Reads t ∧ s.ReadsShared khz srv
  | .refresh _ | .found _ _ | .pushing => True

structure SoundHeld (khz : F → KHz) (s : Receiving F) (h : Held) : Prop where
  filter : ∀ p ∈ h.filter, s.Reads p.1 ∧ s.ReadsShared khz p.2
  fx : ∀ t ∈ h.fx, s.Reads t

/-- A call is still to write the newest reading to the session. -/
def Pending (s : Receiving F) (a : Aspect) (sess : ℕ) : Prop :=
  ∃ c pc, s.calls.lookup c = some pc ∧ pc.Brings a sess (s.version a)

/-- What the session holds is the newest reading, or is still to be. -/
def Paid (s : Receiving F) (a : Aspect) (l : ℕ × Held) : Prop :=
  l.2.version a = s.version a ∨ s.Pending a l.1 ∨ a ≠ .shared ∧ s.unread = true

/-- All readings made are readings of what was there. -/
structure Readings (khz : F → KHz) (s : Receiving F) : Prop where
  tunings : 0 < s.tunings
  shares : 0 < s.shares
  calls : ∀ c pc, s.calls.lookup c = some pc → s.Sound khz pc
  held : ∀ l ∈ s.live, s.SoundHeld khz l.2

structure Inv (khz : F → KHz) (s : Receiving F) : Prop extends s.Readings khz where
  paid : ∀ a, ∀ l ∈ s.live, s.Paid a l

theorem init_inv (cfg : Config) (settings : Option (ServerSettings F)) :
    (init cfg settings).Inv khz where
  tunings := Nat.one_pos
  shares := Nat.one_pos
  calls _ _ h := by simp [init] at h
  held := nofun
  paid _ := nofun

variable {s s' : Receiving F} {op : RxOp F} {c : ℕ} {pc pc' : RxCall}

/-! ## Readings -/

theorem reads_shared (s : Receiving F) : s.ReadsShared khz (s.shared khz) := ⟨le_rfl, fun _ => rfl⟩

/-- The inputs of a refresh are the same. -/
structure SameInputs (s s' : Receiving F) : Prop where
  cfg : s'.cfg = s.cfg
  tunings : s'.tunings = s.tunings
  settings : s'.settings = s.settings
  shares : s'.shares = s.shares

theorem SameInputs.reads {t : Tuning} (hs : s.SameInputs s') (h : s.Reads t) : s'.Reads t := by
  refine ⟨hs.tunings ▸ h.le, ?_, ?_⟩
  · rw [hs.tunings, hs.cfg]
    exact h.accept
  · rw [hs.tunings, hs.cfg]
    exact h.effects

theorem ReadsShared.same {srv : Shared} (h : s.ReadsShared khz srv)
    (hset : s'.settings = s.settings) (hn : s'.shares = s.shares) : s'.ReadsShared khz srv := by
  refine ⟨hn ▸ h.le, ?_⟩
  rw [hn, show s'.shared khz = s.shared khz by simp [shared, hset, hn]]
  exact h.eq

theorem SameInputs.sound (hs : s.SameInputs s') (h : s.Sound khz pc) : s'.Sound khz pc := by
  cases pc with
  | refresh | found | pushing => trivial
  | tuned | filtered => exact hs.reads h
  | ready => exact ⟨hs.reads h.1, h.2.same hs.settings hs.shares⟩

theorem SameInputs.held {held : Held} (hs : s.SameInputs s') (h : s.SoundHeld khz held) :
    s'.SoundHeld khz held :=
  ⟨fun p hp => ⟨hs.reads (h.filter p hp).1, (h.filter p hp).2.same hs.settings hs.shares⟩,
    fun t ht => hs.reads (h.fx t ht)⟩

/-- A commit that changes what a refresh reads makes every reading an older one. -/
theorem Reads.commit {t : Tuning} (h : s.Reads t) (tx : CfgTxn) : (s.commit tx).Reads t := by
  by_cases hsame : SameTuning s.cfg (tx.mutate s.cfg)
  · have hn : (s.commit tx).tunings = s.tunings := by simp [Receiving.commit, hsame]
    refine ⟨hn ▸ h.le, fun hv => ?_, fun hv => ?_⟩
    · exact (h.accept (hv.trans hn)).trans hsame.1
    · exact (h.effects (hv.trans hn)).trans hsame.2
  · have hn : (s.commit tx).tunings = s.tunings + 1 := by simp [Receiving.commit, hsame]
    have := h.le
    exact ⟨by omega, fun hv => by omega, fun hv => by omega⟩

theorem Sound.commit (h : s.Sound khz pc) (tx : CfgTxn) : (s.commit tx).Sound khz pc := by
  cases pc with
  | refresh | found | pushing => trivial
  | tuned | filtered => exact Reads.commit h tx
  | ready => exact ⟨h.1.commit tx, h.2.same rfl rfl⟩

theorem SoundHeld.commit {held : Held} (h : s.SoundHeld khz held) (tx : CfgTxn) :
    (s.commit tx).SoundHeld khz held :=
  ⟨fun p hp => ⟨(h.filter p hp).1.commit tx, (h.filter p hp).2.same rfl rfl⟩,
    fun t ht => (h.fx t ht).commit tx⟩

theorem ReadsShared.renew {srv : Shared} (h : s.ReadsShared khz srv)
    (settings : Option (ServerSettings F)) :
    ReadsShared khz { s with settings := settings, shares := s.shares + 1 } srv := by
  have := h.le
  exact ⟨Nat.le_succ_of_le this, fun hv => by simp only at hv; omega⟩

/-! ## The readings of a step -/

theorem Readings.commit (hr : s.Readings khz) (tx : CfgTxn) : (s.commit tx).Readings khz where
  tunings := by
    have := hr.tunings
    simp only [Receiving.commit]
    split <;> omega
  shares := hr.shares
  calls c pc h := (hr.calls c pc h).commit tx
  held l hl := (hr.held l hl).commit tx

/-- A step that leaves the inputs alone makes no reading but sound ones. -/
theorem Readings.same (hr : s.Readings khz) (hs : s.SameInputs s')
    (hcalls : ∀ c pc, s'.calls.lookup c = some pc → s.Sound khz pc)
    (hheld : ∀ l ∈ s'.live, s.SoundHeld khz l.2) : s'.Readings khz where
  tunings := hs.tunings ▸ hr.tunings
  shares := hs.shares ▸ hr.shares
  calls c pc h := hs.sound (hcalls c pc h)
  held l hl := hs.held (hheld l hl)

theorem Readings.commitOnly (hr : s.Readings khz) (tx : CfgTxn) :
    (s.commitOnly tx).Readings khz :=
  (hr.commit tx).same ⟨rfl, rfl, rfl, rfl⟩ (hr.commit tx).calls (hr.commit tx).held

theorem Readings.serverSettings (hr : s.Readings khz) (settings : Option (ServerSettings F)) :
    Readings khz { s with settings := settings, shares := s.shares + 1 } where
  tunings := hr.tunings
  shares := Nat.succ_pos _
  calls c pc h := by
    have hs := hr.calls c pc h
    cases pc with
    | refresh | found | pushing => trivial
    | tuned | filtered => exact ⟨hs.le, hs.accept, hs.effects⟩
    | ready => exact ⟨⟨hs.1.le, hs.1.accept, hs.1.effects⟩, hs.2.renew settings⟩
  held l hl := by
    obtain ⟨hfilter, hfx⟩ := hr.held l hl
    refine ⟨fun p hp => ⟨?_, (hfilter p hp).2.renew settings⟩, fun t ht => ?_⟩
    · exact ⟨(hfilter p hp).1.le, (hfilter p hp).1.accept, (hfilter p hp).1.effects⟩
    · exact ⟨(hfx t ht).le, (hfx t ht).accept, (hfx t ht).effects⟩

theorem Readings.install (hr : s.Readings khz) (n m : ℕ) :
    Readings khz { s with live := some (n, .dialled), sessions := m } :=
  hr.same ⟨rfl, rfl, rfl, rfl⟩ hr.calls fun l hl => by
    cases hl
    exact ⟨nofun, nofun⟩

theorem Readings.goto (hr : s.Readings khz) (hpc : s.Sound khz pc) (c : ℕ) :
    (s.goto c pc).Readings khz := by
  refine hr.same ⟨rfl, rfl, rfl, rfl⟩ (fun c' pc' h => ?_) hr.held
  simp only [Receiving.goto] at h
  rcases eq_or_ne c' c with rfl | hne
  · rw [AList.lookup_insert] at h
    cases h
    exact hpc
  · rw [AList.lookup_insert_ne hne] at h
    exact hr.calls c' pc' h

theorem Readings.erase (hr : s.Readings khz) (c : ℕ) :
    Readings khz { s with calls := s.calls.erase c } := by
  refine hr.same ⟨rfl, rfl, rfl, rfl⟩ (fun c' pc' h => ?_) hr.held
  rcases eq_or_ne c' c with rfl | hne
  · simp at h
  · exact hr.calls c' pc' (by simpa [AList.lookup_erase_ne hne] using h)

theorem Readings.leave (hr : s.Readings khz) (c : ℕ) (push : Bool) :
    (s.leave c push).Readings khz := by
  cases push with
  | true =>
    have hpc : s.Sound khz .pushing := True.intro
    exact hr.goto hpc c
  | false => exact hr.erase c

theorem mem_write {sess : ℕ} {f : Held → Held} {l : ℕ × Held} (h : l ∈ (s.write sess f).live) :
    ∃ held, (l.1, held) ∈ s.live ∧ (l.1 = sess ∧ l.2 = f held ∨ l.1 ≠ sess ∧ l.2 = held) := by
  obtain ⟨l', hl', rfl⟩ := Option.map_eq_some_iff.1 h
  split
  · next heq => exact ⟨l'.2, hl', .inl ⟨heq, rfl⟩⟩
  · next hne => exact ⟨l'.2, hl', .inr ⟨hne, rfl⟩⟩

theorem Readings.write (hr : s.Readings khz) (sess : ℕ) {f : Held → Held}
    (hf : ∀ h, s.SoundHeld khz h → s.SoundHeld khz (f h)) : (s.write sess f).Readings khz := by
  refine hr.same ⟨rfl, rfl, rfl, rfl⟩ hr.calls fun l hl => ?_
  obtain ⟨held, hmem, ⟨-, heq⟩ | ⟨-, heq⟩⟩ := mem_write hl
  · rw [heq]
    exact hf held (hr.held _ hmem)
  · rw [heq]
    exact hr.held _ hmem

/-! ## What a step leaves owed -/

@[simp] theorem version_goto (s : Receiving F) (c : ℕ) (pc : RxCall) (a : Aspect) :
    (s.goto c pc).version a = s.version a := by
  cases a <;> rfl

@[simp] theorem version_erase (s : Receiving F) (c : ℕ) (a : Aspect) :
    version { s with calls := s.calls.erase c } a = s.version a := by
  cases a <;> rfl

@[simp] theorem version_write (s : Receiving F) (sess : ℕ) (f : Held → Held) (a : Aspect) :
    (s.write sess f).version a = s.version a := by
  cases a <;> rfl

theorem Readings.refresh (hr : s.Readings khz) (c : ℕ) (push : Bool) :
    (s.goto c (.refresh push)).Inv khz where
  toReadings :=
    have hpc : s.Sound khz (.refresh push) := True.intro
    hr.goto hpc c
  paid _ _ _ := .inr (.inl ⟨c, .refresh push, AList.lookup_insert _, True.intro⟩)

variable {a : Aspect} {l : ℕ × Held}

theorem Paid.goto (h : s.Paid a l) (hkeep : ∀ pc', s.calls.lookup c = some pc' →
    pc'.Brings a l.1 (s.version a) → pc.Brings a l.1 (s.version a)) :
    (s.goto c pc).Paid a l := by
  obtain h | ⟨c', pc', hc', hb⟩ | h := h
  · exact .inl (by rw [version_goto, h])
  · refine .inr (.inl ?_)
    rcases eq_or_ne c' c with rfl | hne
    · exact ⟨c', pc, AList.lookup_insert _, by rw [version_goto]; exact hkeep pc' hc' hb⟩
    · exact ⟨c', pc', by rw [Receiving.goto, AList.lookup_insert_ne hne, hc'],
        by rwa [version_goto]⟩
  · exact .inr (.inr h)

theorem Paid.erase (h : s.Paid a l) (hkeep : ∀ pc', s.calls.lookup c = some pc' →
    ¬ pc'.Brings a l.1 (s.version a)) : Paid { s with calls := s.calls.erase c } a l := by
  obtain h | ⟨c', pc', hc', hb⟩ | h := h
  · exact .inl (by rw [version_erase, h])
  · refine .inr (.inl ?_)
    have hne : c' ≠ c := by
      rintro rfl
      exact hkeep pc' hc' hb
    exact ⟨c', pc', by simp [AList.lookup_erase_ne hne, hc'], by rwa [version_erase]⟩
  · exact .inr (.inr h)

/-- A transaction that no refresh follows leaves the session owed what it changed. -/
theorem Paid.commitOnly (h : s.Paid a l) (tx : CfgTxn) : (s.commitOnly tx).Paid a l := by
  by_cases hsame : SameTuning s.cfg (tx.mutate s.cfg)
  · have hn : (s.commitOnly tx).tunings = s.tunings := by
      simp [Receiving.commitOnly, Receiving.commit, hsame]
    have hv : (s.commitOnly tx).version a = s.version a := by
      cases a with
      | shared => rfl
      | filter | effects => exact hn
    obtain h | ⟨c, pc, hc, hb⟩ | ⟨hne, h⟩ := h
    · exact .inl (by rw [hv, h])
    · exact .inr (.inl ⟨c, pc, hc, by rwa [hv]⟩)
    · exact .inr (.inr ⟨hne, by simp [Receiving.commitOnly, h]⟩)
  · cases a with
    | shared =>
      obtain h | ⟨c, pc, hc, hb⟩ | ⟨hne, -⟩ := h
      · exact .inl h
      · exact .inr (.inl ⟨c, pc, hc, hb⟩)
      · exact absurd rfl hne
    | filter | effects => exact .inr (.inr ⟨nofun, by simp [Receiving.commitOnly, hsame]⟩)

theorem Inv.commitOnly (hi : s.Inv khz) (tx : CfgTxn) : (s.commitOnly tx).Inv khz where
  toReadings := hi.toReadings.commitOnly tx
  paid a l hl := (hi.paid a l hl).commitOnly tx

/-- A call that does not refresh changes nothing that is owed. -/
theorem Inv.goto_new (hi : s.Inv khz) (hc : c ∉ s.calls) : (s.goto c .pushing).Inv khz where
  toReadings :=
    have hpc : s.Sound khz .pushing := True.intro
    hi.toReadings.goto hpc c
  paid a l hl := (hi.paid a l hl).goto fun pc' hc' _ => by
    rw [AList.lookup_eq_none.2 hc] at hc'
    cases hc'

/-! ## The steps of a refresh -/

theorem Inv.run_refresh (hi : s.Inv khz) (c : ℕ) (push : Bool) :
    (s.runCall khz c (.refresh push)).Inv khz := by
  simp only [runCall]
  split
  · next hlive =>
    refine ⟨hi.toReadings.leave c push, fun a l hl => ?_⟩
    have hl : l ∈ s.live := hl
    rw [hlive] at hl
    cases hl
  · next l₀ hlive =>
    have hpc : s.Sound khz (.found push l₀.1) := True.intro
    refine ⟨hi.toReadings.goto hpc c, fun a l hl => (hi.paid a l hl).goto fun _ _ _ => ?_⟩
    have hl : l ∈ s.live := hl
    rw [hlive] at hl
    cases hl
    rfl

theorem Inv.run_found (hi : s.Inv khz) {push : Bool} {sess : ℕ}
    (hc : s.calls.lookup c = some (.found push sess)) :
    (s.runCall khz c (.found push sess)).Inv khz := by
  have hread : Readings khz
      { s with unread := s.unread && decide (s.live.map Prod.fst ≠ some sess) } :=
    hi.toReadings.same ⟨rfl, rfl, rfl, rfl⟩ hi.calls hi.held
  have hpc : Sound khz { s with unread := s.unread && decide (s.live.map Prod.fst ≠ some sess) }
      (.tuned push sess s.tuning) := ⟨le_rfl, fun _ => rfl, fun _ => rfl⟩
  refine ⟨hread.goto hpc c, fun a l hl => ?_⟩
  have hl : l ∈ s.live := hl
  by_cases hsess : l.1 = sess
  · -- this call is to write what it has just read
    refine .inr (.inl ⟨c, _, AList.lookup_insert _, hsess.symm, fun hne => ?_⟩)
    cases a with
    | shared => exact absurd rfl hne
    | filter | effects => rfl
  · have hun : (s.unread && decide (s.live.map Prod.fst ≠ some sess)) = s.unread := by
      have : s.live = some l := hl
      simp [this, hsess]
    rw [runCall, hun]
    refine (hi.paid a l hl).goto fun pc' hc' hb => ?_
    rw [hc] at hc'
    cases hc'
    exact absurd hb.symm hsess

theorem Inv.run_tuned (hi : s.Inv khz) {push : Bool} {sess : ℕ} {t : Tuning}
    (hc : s.calls.lookup c = some (.tuned push sess t)) :
    (s.runCall khz c (.tuned push sess t)).Inv khz := by
  have hpc : s.Sound khz (.ready push sess t (s.shared khz)) := ⟨hi.calls c _ hc, reads_shared s⟩
  refine ⟨hi.toReadings.goto hpc c, fun a l hl => (hi.paid a l hl).goto fun pc' hc' hb => ?_⟩
  rw [hc] at hc'
  cases hc'
  refine ⟨hb.1, ?_⟩
  cases a with
  | shared => rfl
  | filter | effects => exact hb.2 nofun

/-- What the session holds of an aspect is no newer than what is there. -/
theorem SoundHeld.version_le {held : Held} (h : s.SoundHeld khz held) (a : Aspect) :
    held.version a ≤ s.version a := by
  cases a with
  | filter =>
    cases hf : held.filter with
    | none => simp [Held.version, hf]
    | some p => simpa [Held.version, version, hf] using (h.filter p hf).1.le
  | shared =>
    cases hf : held.filter with
    | none => simp [Held.version, hf]
    | some p => simpa [Held.version, version, hf] using (h.filter p hf).2.le
  | effects =>
    cases hf : held.fx with
    | none => simp [Held.version, hf]
    | some t => simpa [Held.version, version, hf] using (h.fx t hf).le

/-- A write of nothing older pays what was owed, or leaves it to a call that is to. -/
theorem Paid.overwrite {sess : ℕ} {held held' : Held} (h : s.Paid a (sess, held))
    (hv : s'.version a = s.version a) (hun : s'.unread = s.unread)
    (hcalls : ∀ c', c' ≠ c → s'.calls.lookup c' = s.calls.lookup c')
    (hle : held.version a ≤ held'.version a) (hle' : held'.version a ≤ s.version a)
    (hb : ∀ pc, s.calls.lookup c = some pc → pc.Brings a sess (s.version a) →
      held'.version a = s.version a ∨ s'.Pending a sess) : s'.Paid a (sess, held') := by
  obtain h | ⟨c', pc, hc, hpc⟩ | h := h
  · refine .inl (Eq.trans ?_ hv.symm)
    exact le_antisymm hle' (h ▸ hle)
  · rcases eq_or_ne c' c with rfl | hne
    · rcases hb pc hc hpc with h | h
      · exact .inl (h.trans hv.symm)
      · exact .inr (.inl h)
    · exact .inr (.inl ⟨c', pc, by rw [hcalls c' hne, hc], by rwa [hv]⟩)
  · exact .inr (.inr ⟨h.1, hun.trans h.2⟩)

theorem Inv.run_ready (hi : s.Inv khz) {push : Bool} {sess : ℕ} {t : Tuning} {srv : Shared}
    (hc : s.calls.lookup c = some (.ready push sess t srv)) (hok : s.InOrder (.run c)) :
    (s.runCall khz c (.ready push sess t srv)).Inv khz := by
  obtain ⟨ht, hsrv⟩ : s.Reads t ∧ s.ReadsShared khz srv := hi.calls c _ hc
  have hsound : ∀ h, s.SoundHeld khz h → s.SoundHeld khz { h with filter := some (t, srv) } :=
    fun h hh => ⟨fun p hp => by cases hp; exact ⟨ht, hsrv⟩, hh.fx⟩
  have hpc : Sound khz (s.write sess fun h => { h with filter := some (t, srv) })
      (.filtered push sess t) := ⟨ht.le, ht.accept, ht.effects⟩
  refine ⟨(hi.toReadings.write sess hsound).goto hpc c, fun a l hl => ?_⟩
  obtain ⟨sess', held'⟩ := l
  obtain ⟨held, hmem, ⟨heq, hf⟩ | ⟨hne, hf⟩⟩ :=
    mem_write (s := s) (f := fun h => { h with filter := some (t, srv) }) hl
  · dsimp only at heq hf hmem
    subst heq hf
    have hp := hi.paid a _ hmem
    refine hp.overwrite (c := c) (by cases a <;> rfl) rfl (fun c' hne => AList.lookup_insert_ne hne)
      ?_ ((hsound held (hi.held _ hmem)).version_le a) fun pc' hc' hb => ?_
    · -- no newer reading was written before
      cases hfilter : held.filter with
      | none => cases a <;> simp [Held.version, hfilter]
      | some p =>
        obtain ⟨htp, hsp⟩ := hok _ hc _ hmem rfl p hfilter
        cases a with
        | filter => simpa [Held.version, hfilter] using htp
        | shared => simpa [Held.version, hfilter] using hsp
        | effects => exact le_rfl
    · rw [hc] at hc'
      cases hc'
      cases a with
      | filter | shared => exact .inl hb.2
      | effects => exact .inr ⟨c, .filtered push sess' t, AList.lookup_insert _, rfl, rfl, hb.2⟩
  · dsimp only at hne hf hmem
    subst hf
    refine (hi.paid a _ hmem).overwrite (c := c) (by cases a <;> rfl) rfl
      (fun c' hne => AList.lookup_insert_ne hne) le_rfl ((hi.held _ hmem).version_le a)
      fun pc' hc' hb => ?_
    rw [hc] at hc'
    cases hc'
    exact absurd hb.1.symm hne

theorem lookup_leave (s : Receiving F) (push : Bool) {c' : ℕ} (hne : c' ≠ c) :
    (s.leave c push).calls.lookup c' = s.calls.lookup c' := by
  cases push with
  | true => exact AList.lookup_insert_ne hne
  | false => exact AList.lookup_erase_ne hne

theorem Inv.run_filtered (hi : s.Inv khz) {push : Bool} {sess : ℕ} {t : Tuning}
    (hc : s.calls.lookup c = some (.filtered push sess t)) (hok : s.InOrder (.run c)) :
    (s.runCall khz c (.filtered push sess t)).Inv khz := by
  have ht : s.Reads t := hi.calls c _ hc
  have hsound : ∀ h, s.SoundHeld khz h → s.SoundHeld khz { h with fx := some t } :=
    fun h hh => ⟨hh.filter, fun t' ht' => by cases ht'; exact ht⟩
  refine ⟨(hi.toReadings.write sess hsound).leave c push, fun a l hl => ?_⟩
  obtain ⟨sess', held'⟩ := l
  obtain ⟨held, hmem, ⟨heq, hf⟩ | ⟨hne, hf⟩⟩ :=
    mem_write (s := s) (f := fun h => { h with fx := some t }) hl
  · dsimp only at heq hf hmem
    subst heq hf
    refine (hi.paid a _ hmem).overwrite (c := c) (by cases a <;> rfl) rfl
      (fun c' hne => lookup_leave _ push hne) ?_ ((hsound held (hi.held _ hmem)).version_le a)
      fun pc' hc' hb => ?_
    · cases hfx : held.fx with
      | none => cases a <;> simp [Held.version, hfx]
      | some t' =>
        cases a with
        | filter | shared => exact le_rfl
        | effects => simpa [Held.version, hfx] using hok _ hc _ hmem rfl t' hfx
    · rw [hc] at hc'
      cases hc'
      obtain ⟨-, rfl, hv⟩ := hb
      exact .inl hv
  · dsimp only at hne hf hmem
    subst hf
    refine (hi.paid a _ hmem).overwrite (c := c) (by cases a <;> rfl) rfl
      (fun c' hne => lookup_leave _ push hne) le_rfl ((hi.held _ hmem).version_le a)
      fun pc' hc' hb => ?_
    rw [hc] at hc'
    cases hc'
    exact absurd hb.1.symm hne

theorem Inv.run_pushing (hi : s.Inv khz) (hc : s.calls.lookup c = some .pushing) :
    (s.runCall khz c .pushing).Inv khz where
  toReadings := hi.toReadings.erase c
  paid a l hl := (hi.paid a l hl).erase fun pc' hc' hb => by
    rw [hc] at hc'
    cases hc'
    exact hb

theorem Inv.step (hi : s.Inv khz) (hok : s.InOrder op) (h : s.step khz op = some s') :
    s'.Inv khz := by
  cases op with
  | updateRadioInfo c radios saved =>
    simp only [Receiving.step] at h
    split at h
    · cases h
    · split at h
      · cases h; exact (hi.toReadings.commit _).refresh c true
      · cases h; exact hi
  | applyProfile c d path saved =>
    simp only [Receiving.step] at h
    split at h
    · cases h
    · next hc =>
      split at h
      · cases h; exact (hi.commitOnly _).goto_new hc
      · cases h; exact hi
  | setSettings general audio saved =>
    simp only [Receiving.step] at h
    split at h
    · cases h; exact hi.commitOnly _
    · cases h; exact hi
  | serverSettings c settings =>
    simp only [Receiving.step] at h
    split at h
    · cases h
    · cases h; exact (hi.toReadings.serverSettings settings).refresh c false
  | echo c =>
    simp only [Receiving.step] at h
    split at h
    · cases h
    · cases h; exact hi.toReadings.refresh c false
  | install c accepted =>
    simp only [Receiving.step] at h
    split at h
    · cases h
    · split at h
      · cases h; exact (hi.toReadings.install _ _).refresh c false
      · cases h; exact hi.toReadings.refresh c false
  | stopVoiceSession =>
    cases h
    exact ⟨hi.toReadings.same ⟨rfl, rfl, rfl, rfl⟩ hi.calls nofun, fun _ => nofun⟩
  | run c =>
    obtain ⟨pc, hc, rfl⟩ := Option.map_eq_some_iff.1 h
    cases pc with
    | refresh push => exact hi.run_refresh c push
    | found push sess => exact hi.run_found hc
    | tuned push sess t => exact hi.run_tuned hc
    | ready push sess t srv => exact hi.run_ready hc hok
    | filtered push sess t => exact hi.run_filtered hc hok
    | pushing => exact hi.run_pushing hc

/-! ## At rest -/

/-- At rest the session holds the newest reading, but for what no refresh followed. -/
theorem Inv.version_eq (hi : s.Inv khz) (hq : s.Quiet) (hl : l ∈ s.live)
    (hread : a = .shared ∨ s.unread = false) : l.2.version a = s.version a := by
  obtain h | ⟨c, pc, hc, hb⟩ | ⟨hne, hun⟩ := hi.paid a l hl
  · exact h
  · obtain rfl : pc = .pushing := hq _ (AList.mem_lookup_iff.1 hc)
    exact hb.elim
  · rcases hread with rfl | h
    · exact absurd rfl hne
    · rw [h] at hun
      cases hun

theorem Inv.followsServer (hi : s.Inv khz) (hq : s.Quiet) : s.FollowsServer khz := by
  intro sess held hl
  have hv : held.version .shared = s.shares := hi.version_eq hq hl (.inl rfl)
  cases hf : held.filter with
  | none =>
    have := hi.shares
    simp [Held.version, hf] at hv
    omega
  | some p =>
    have hp := ((hi.held _ hl).filter p hf).2.eq (by simpa [Held.version, hf] using hv)
    exact ⟨⟨p.1.accept, p.2.global, p.2.test⟩, by simp [Held.ctx, hf], by rw [hp], by rw [hp]⟩

theorem Inv.followsConfig (hi : s.Inv khz) (hq : s.Quiet) (hread : s.unread = false) :
    s.FollowsConfig := by
  intro sess held hl
  have hfilter : held.version .filter = s.tunings := hi.version_eq hq hl (.inr hread)
  have hfx : held.version .effects = s.tunings := hi.version_eq hq hl (.inr hread)
  have hpos := hi.tunings
  obtain ⟨p, hp⟩ : ∃ p, held.filter = some p := by
    cases hf : held.filter with
    | none => simp [Held.version, hf] at hfilter; omega
    | some p => exact ⟨p, rfl⟩
  obtain ⟨t, ht⟩ : ∃ t, held.fx = some t := by
    cases hf : held.fx with
    | none => simp [Held.version, hf] at hfx; omega
    | some t => exact ⟨t, rfl⟩
  have haccept := ((hi.held _ hl).filter p hp).1.accept (by simpa [Held.version, hp] using hfilter)
  have heffects := ((hi.held _ hl).fx t ht).effects (by simpa [Held.version, ht] using hfx)
  have hmem : ∀ f, f ∈ p.1.accept ↔ f ∈ acceptOf s.cfg.radios := fun f => by
    rw [← List.mem_toFinset, haccept, List.mem_toFinset]
  refine ⟨⟨⟨p.1.accept, p.2.global, p.2.test⟩, by simp [Held.ctx, hp], hmem,
    fun f h => ?_, fun hids f hf => transmits_of_mem hids ((hmem f).1 hf)⟩, ?_⟩
  · obtain ⟨radioID, target, hres, rfl⟩ := h
    exact (hmem _).2 (resolveTXTarget_mem hres)
  · simp [Held.effects, ht, heffects]

/-- At rest the live session follows the server settings, and the configuration when a
refresh has read what a profile load or a settings save changed last. -/
theorem receive_follows {cfg : Config} {settings : Option (ServerSettings F)}
    {ops : List (RxOp F)} {t : Receiving F}
    (h : exec (step khz) (init cfg settings) ops = some t)
    (hok : Meets (step khz) InOrder (init cfg settings) ops) (hq : t.Quiet) :
    t.FollowsServer khz ∧ (t.unread = false → t.FollowsConfig) := by
  have hi : t.Inv khz :=
    exec_invariant (fun _ _ _ hi hok hs => hi.step hok hs) (init_inv cfg settings) hok h
  exact ⟨hi.followsServer hq, hi.followsConfig hq⟩

def radioOn (f : KHz) : List Radio := [⟨1, "R1", f, true, false⟩]

/-- A session is installed and refreshed. -/
def installRun : List (RxOp KHz) := .install 0 true :: List.replicate 5 (.run 0)

/-- A profile is loaded, and the server's echo of its radios comes back while the radios are
changed once more. -/
def followedRun : List (RxOp KHz) :=
  installRun ++ [.applyProfile 1 ⟨radioOn 30000, ⟨0, 0, []⟩⟩ "" true, .run 1, .echo 2, .run 2,
    .run 2, .updateRadioInfo 3 (radioOn 40000) true, .run 2, .run 2, .run 2] ++
    List.replicate 5 (.run 3)

theorem receive_follows_echoed : ∃ t, exec (step id) (init emptyConfig none) followedRun = some t ∧
    t.FollowsServer id ∧ t.FollowsConfig := by
  refine ⟨_, rfl, ?_⟩
  obtain ⟨hserver, hconfig⟩ :=
    @receive_follows _ id emptyConfig none followedRun _ rfl (by decide +kernel) (by decide +kernel)
  exact ⟨hserver, hconfig rfl⟩

/-- A profile is loaded whose push hangs. -/
def loadedRun : List (RxOp KHz) :=
  installRun ++ [.applyProfile 1 ⟨radioOn 30000, ⟨0, 0, []⟩⟩ "" true]

/-- The voice effect is chosen in the settings. -/
def effectRun : List (RxOp KHz) :=
  installRun ++ [.setSettings emptyConfig.general { emptyConfig.audio with voiceEffect := "am" } true]

/-- A refresh reads the configuration before the radios are changed and writes after the
refresh of that change. -/
def overtakenRefresh : List (RxOp KHz) :=
  installRun ++ [.echo 1, .run 1, .run 1, .updateRadioInfo 2 (radioOn 30000) true] ++
    List.replicate 6 (.run 2) ++ List.replicate 3 (.run 1)

theorem receive_stale :
    (∃ t, exec (step id) (init emptyConfig none) loadedRun = some t ∧ t.Quiet ∧
      ¬ t.FollowsConfig) ∧
    (∃ t, exec (step id) (init emptyConfig none) effectRun = some t ∧ t.Quiet ∧
      ¬ t.FollowsConfig) ∧
    (∃ t, exec (step id) (init emptyConfig none) overtakenRefresh = some t ∧ t.Quiet ∧
      ¬ t.FollowsConfig) := by
  refine ⟨⟨_, rfl, by decide +kernel, fun h => ?_⟩, ⟨_, rfl, by decide +kernel, fun h => ?_⟩,
    ⟨_, rfl, by decide +kernel, fun h => ?_⟩⟩
  · obtain ⟨⟨ctx, hctx, hmem, -, -⟩, -⟩ := h _ _ rfl
    cases hctx
    exact absurd ((hmem 30000).2 (by decide)) (by decide)
  · obtain ⟨-, hfx⟩ := h _ _ rfl
    exact absurd hfx (by decide)
  · obtain ⟨⟨ctx, hctx, hmem, -, -⟩, -⟩ := h _ _ rfl
    cases hctx
    exact absurd ((hmem 30000).2 (by decide)) (by decide)

end Receiving

end VcsClient.App
