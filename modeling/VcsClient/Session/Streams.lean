import VcsClient.Lib.Slots
import VcsClient.Session.Life

/-!
# The update streams of a run

A stream is opened by one goroutine, which alone installs it, gives it up or
releases it. Generations are handed out once and in order; only a released
stream of a generation starts a resync.
-/

namespace VcsClient.Session

open VcsClient.Control VcsClient.Lib

/-- The stream a goroutine has opened and has not yet released. -/
def Pc.owns : Pc → Option ℕ
  | .stillCurrent _ _ p | .syncClient _ p | .hydrate _ p _ _ | .finalCheck _ _ _ p
  | .setSelf _ _ _ p | .install _ p | .release _ p _ | .replay _ p _ _ => some p
  | _ => none

namespace Stream

/-- Opened for the session of a token. -/
structure Waiting (token : Token) (q : Stream) : Prop where
  token : q.token = token
  gen : q.gen = none
  abandoned : q.abandoned = false
  released : q.held.released = false
  replaying : q.replaying = false

/-- Installed, and `Release` has yet to be called. -/
structure Opening (q : Stream) : Prop where
  gen : q.gen.isSome = true
  released : q.held.released = false
  replaying : q.replaying = false

/-- `Release` is replaying. -/
structure Replaying (q : Stream) : Prop where
  gen : q.gen.isSome = true
  released : q.held.released = false
  replaying : q.replaying = true

/-- Installed under a generation and released. -/
structure Flowing (gen : ℕ) (q : Stream) : Prop where
  gen : q.gen = some gen
  released : q.held.released = true

structure Le (q q' : Stream) : Prop where
  token : q'.token = q.token
  owner : q'.owner = q.owner
  gen : ∀ g, q.gen = some g → q'.gen = some g
  abandoned : q.abandoned = true → q'.abandoned = true
  released : q.held.released = true → q'.held.released = true

/-- What only the goroutine that opened the stream changes. -/
structure Same (q q' : Stream) : Prop where
  token : q'.token = q.token
  owner : q'.owner = q.owner
  gen : q'.gen = q.gen
  abandoned : q'.abandoned = q.abandoned
  released : q'.held.released = q.held.released
  replaying : q'.replaying = q.replaying

theorem Same.refl (q : Stream) : q.Same q := ⟨rfl, rfl, rfl, rfl, rfl, rfl⟩

theorem Same.le {q q' : Stream} (h : q.Same q') : q.Le q' :=
  ⟨h.token, h.owner, fun _ hg => h.gen.trans hg, fun ha => h.abandoned.trans ha,
    fun hr => h.released.trans hr⟩

theorem Waiting.same {q q' : Stream} {token : Token} (h : q.Waiting token) (hs : q.Same q') :
    q'.Waiting token :=
  ⟨hs.token.trans h.token, hs.gen.trans h.gen, hs.abandoned.trans h.abandoned,
    hs.released.trans h.released, hs.replaying.trans h.replaying⟩

theorem Opening.same {q q' : Stream} (h : q.Opening) (hs : q.Same q') : q'.Opening :=
  ⟨by rw [hs.gen]; exact h.gen, hs.released.trans h.released, hs.replaying.trans h.replaying⟩

theorem Replaying.same {q q' : Stream} (h : q.Replaying) (hs : q.Same q') : q'.Replaying :=
  ⟨by rw [hs.gen]; exact h.gen, hs.released.trans h.released, hs.replaying.trans h.replaying⟩

theorem Flowing.le {q q' : Stream} {gen : ℕ} (h : q.Flowing gen) (hl : q.Le q') :
    q'.Flowing gen := ⟨hl.gen gen h.gen, hl.released h.released⟩

end Stream

namespace Manager

/-- `P` holds of the stream `p`, which there is. -/
def At (m : Manager) (p : ℕ) (P : Stream → Prop) : Prop := ∃ q, m.streams.lookup p = some q ∧ P q

/-- The goroutine `t` of a resync is the one of the stream it replaces. -/
def Runs (m : Manager) (t : ℕ) : Job → Prop
  | .resync gen _ => m.At t (·.Flowing gen)
  | _ => True

/-- A resync is of the generation in place. -/
def Current (m : Manager) : Job → Prop
  | .resync gen _ => gen = m.streamGen
  | _ => True

/-- What the place of goroutine `t` says of the streams. -/
def Place (m : Manager) (t : ℕ) : Pc → Prop
  | .subscribe job => m.Runs t job
  | .stillCurrent gen token p => m.At p (·.Waiting token) ∧ m.At t (·.Flowing gen)
  | .syncClient job p | .hydrate job p _ _ | .install job p =>
    m.At p (·.Waiting job.token) ∧ m.Runs t job
  | .finalCheck token _ _ p | .setSelf token _ _ p => m.At p (·.Waiting token)
  | .release _ p _ => m.At p (·.Opening)
  | .replay _ p _ _ => m.At p (·.Replaying)
  | .select _ => m.At t fun q => q.held.released = true ∨ m.StreamDone q
  | .streamEnd gen _ =>
    m.At t fun q => q.gen = some gen ∧ (q.held.released = true ∨ q.owner ∈ m.ctxDone)
  | .streamCurrent gen _ | .resync gen | .resyncFailed gen _ _ => m.At t (·.Flowing gen)
  | _ => True

/-- What a move does to the streams and their generations. -/
inductive Pours (m : Manager) (t : ℕ) : Pc → Move → Prop
  | still {pc mv} (hstreams : mv.m.streams = m.streams) (hgen : m.streamGen ≤ mv.m.streamGen)
      (hinstalled : mv.m.installedGen = m.installedGen)
      (howns : Leads mv.pc fun pc' => pc'.owns = pc.owns ∨ pc'.owns = none)
      (hspawn : mv.spawn = false) : m.Pours t pc mv
  | opens {pc mv} (q : Stream) (hq : q.gen = none ∧ q.abandoned = false)
      (hstreams : mv.m.streams = m.streams.insert m.next q)
      (hgen : mv.m.streamGen = m.streamGen) (hinstalled : mv.m.installedGen = m.installedGen)
      (howns : Leads mv.pc fun pc' => pc'.owns = some m.next) (hspawn : mv.spawn = true) :
      m.Pours t pc mv
  | gives {pc mv} (p : ℕ) (token : Token) (hpc : pc.owns = some p)
      (hwait : m.Place t pc → m.At p (·.Waiting token))
      (hstreams : mv.m.streams = (m.abandon p).streams) (hgen : mv.m.streamGen = m.streamGen)
      (hinstalled : mv.m.installedGen = m.installedGen)
      (howns : Leads mv.pc fun pc' => pc'.owns = none) (hspawn : mv.spawn = false) : m.Pours t pc mv
  | installs {pc mv} (p : ℕ) (token : Token) (hpc : pc.owns = some p)
      (hjob : ∃ job, pc = .install job p ∧ m.Current job)
      (hwait : m.Place t pc → m.At p (·.Waiting token))
      (hstreams : mv.m.streams =
        (m.withStream p fun q => { q with gen := some (m.streamGen + 1) }).streams)
      (hgen : mv.m.streamGen = m.streamGen + 1) (hinstalled : mv.m.installedGen = m.streamGen + 1)
      (howns : Leads mv.pc fun pc' => pc'.owns = some p) (hspawn : mv.spawn = false) :
      m.Pours t pc mv
  | locks {pc mv} (p : ℕ) (hpc : pc.owns = some p)
      (hstreams : mv.m.streams = (m.withStream p fun q => { q with replaying := true }).streams)
      (hgen : mv.m.streamGen = m.streamGen) (hinstalled : mv.m.installedGen = m.installedGen)
      (howns : Leads mv.pc fun pc' => pc'.owns = some p) (hspawn : mv.spawn = false) :
      m.Pours t pc mv
  | frees {pc mv} (p : ℕ) (hpc : pc.owns = some p)
      (hstreams : mv.m.streams =
        (m.withStream p fun q => { q with held := q.held.opened, replaying := false }).streams)
      (hgen : mv.m.streamGen = m.streamGen) (hinstalled : mv.m.installedGen = m.installedGen)
      (howns : Leads mv.pc fun pc' => pc'.owns = none) (hspawn : mv.spawn = false) :
      m.Pours t pc mv
  | holds {pc mv} (h : Control.Held)
      (hh : ∀ q, m.streams.lookup t = some q → h.released = q.held.released)
      (hstreams : mv.m.streams = (m.withStream t fun q => { q with held := h }).streams)
      (hgen : mv.m.streamGen = m.streamGen) (hinstalled : mv.m.installedGen = m.installedGen)
      (howns : Leads mv.pc fun pc' => pc'.owns = none) (hspawn : mv.spawn = false) : m.Pours t pc mv

variable {cap : ℕ} {m : Manager} {t : ℕ} {pc : Pc} {a : Answer} {mv : Move}

theorem lookup_withStream (m : Manager) (p : ℕ) (f : Stream → Stream) (u : ℕ) :
    (m.withStream p f).streams.lookup u =
      if u = p then (m.streams.lookup p).map f else m.streams.lookup u := by
  unfold withStream
  cases hp : m.streams.lookup p with
  | none =>
    by_cases hu : u = p
    · subst hu
      simpa using hp
    · simp [hu]
  | some q =>
    by_cases hu : u = p
    · subst hu
      simp
    · simp [hu, AList.lookup_insert_ne hu]

theorem hold_released {h h' : Control.Held} {upd : ServerUpdate} (he : h.receive upd = .hold h') :
    h'.released = h.released := by
  unfold Held.receive at he
  split at he
  · cases he
  · split at he
    · cases he
    · cases he
      rfl

theorem advance_pours (h : m.advance cap t pc a = some mv) : m.Pours t pc mv := by
  replace h := advance_moves h
  induction h
  case openConnect | openReconnect | openResync =>
    exact .opens _ ⟨rfl, rfl⟩ rfl rfl rfl (leads_some rfl) rfl
  case resyncMoot | installMoot =>
    exact .gives _ _ rfl (fun hp => hp.1) rfl rfl rfl leads_none rfl
  case syncResyncFails => exact .gives _ _ rfl (fun hp => hp.1) rfl rfl rfl (leads_some rfl) rfl
  case installConnect | installReconnect =>
    exact .installs _ _ rfl ⟨_, rfl, trivial⟩ (fun hp => hp.1) rfl rfl rfl (leads_some rfl) rfl
  case installResync gen token p hcur =>
    exact .installs _ _ rfl ⟨_, rfl, not_not.1 fun hne => hcur (.inl hne)⟩ (fun hp => hp.1) rfl rfl
      rfl (leads_some rfl) rfl
  case holdUpdate upd q' h hq' hhold =>
    refine .holds _ (fun q hq => ?_) rfl rfl rfl (leads_some rfl) rfl
    rw [hq'] at hq
    cases hq
    exact hold_released hhold
  case release => exact .locks _ rfl rfl rfl rfl (leads_some rfl) rfl
  case openHold => exact .frees _ rfl rfl rfl rfl (leads_some rfl) rfl
  case teardownLive | endSession | disconnect | controlLost =>
    exact .still rfl (Nat.le_succ _) rfl (leads_some (.inr rfl)) rfl
  -- the rest leaves the streams alone
  all_goals first
    | exact .still rfl le_rfl rfl (leads_some (.inr rfl)) rfl
    | exact .still rfl le_rfl rfl (leads_some (.inl rfl)) rfl
    | exact .still rfl le_rfl rfl leads_none rfl

/-- Nobody takes back what a stream was. -/
def Keeps (m m' : Manager) : Prop :=
  ∀ p q, m.streams.lookup p = some q → ∃ q', m'.streams.lookup p = some q' ∧ q.Le q'

/-- Only the stream `o` changes in what its opener governs. -/
def Spares (m m' : Manager) (o : Option ℕ) : Prop :=
  ∀ p q, o ≠ some p → m.streams.lookup p = some q →
    ∃ q', m'.streams.lookup p = some q' ∧ q.Same q'

theorem At.keeps {m' : Manager} {p : ℕ} {P Q : Stream → Prop} (h : m.At p P) (hm : m.Keeps m')
    (hPQ : ∀ q q', q.Le q' → P q → Q q') : m'.At p Q := by
  obtain ⟨q, hq, hP⟩ := h
  obtain ⟨q', hq', hle⟩ := hm p q hq
  exact ⟨q', hq', hPQ q q' hle hP⟩

theorem At.spares {m' : Manager} {o : Option ℕ} {p : ℕ} {P : Stream → Prop} (h : m.At p P)
    (hm : m.Spares m' o) (ho : o ≠ some p) (hP : ∀ q q', q.Same q' → P q → P q') : m'.At p P := by
  obtain ⟨q, hq, hp⟩ := h
  obtain ⟨q', hq', hs⟩ := hm p q ho hq
  exact ⟨q', hq', hP q q' hs hp⟩

theorem keeps_of_withStream {m' : Manager} {p : ℕ} {f : Stream → Stream}
    (hm : m'.streams = (m.withStream p f).streams)
    (hf : ∀ q, m.streams.lookup p = some q → q.Le (f q)) : m.Keeps m' := by
  intro u q hq
  rw [hm, lookup_withStream]
  by_cases hu : u = p
  · subst hu
    exact ⟨f q, by simp [hq], hf q hq⟩
  · exact ⟨q, by simp [hu, hq], (Stream.Same.refl q).le⟩

theorem spares_of_withStream {m' : Manager} {p : ℕ} {f : Stream → Stream}
    (hm : m'.streams = (m.withStream p f).streams) : m.Spares m' (some p) := by
  intro u q hu hq
  have hne : u ≠ p := fun he => hu (by rw [he])
  rw [hm, lookup_withStream]
  exact ⟨q, by simp [hne, hq], Stream.Same.refl q⟩

/-- Streams carry numbers that were given out. -/
def StreamsNumbered (m : Manager) : Prop := ∀ p q, m.streams.lookup p = some q → p < m.next

theorem keeps_of_insert {m' : Manager} {q : Stream} (hnum : m.StreamsNumbered)
    (hm : m'.streams = m.streams.insert m.next q) : m.Keeps m' := by
  intro u q' hq'
  have hne : u ≠ m.next := (hnum u q' hq').ne
  exact ⟨q', by rw [hm, AList.lookup_insert_ne hne, hq'], (Stream.Same.refl q').le⟩

theorem pours_keeps (hnum : m.StreamsNumbered) (hplace : m.Place t pc) (h : m.Pours t pc mv) :
    m.Keeps mv.m := by
  cases h with
  | still hstreams _ _ _ _ =>
    intro u q hq
    exact ⟨q, by rw [hstreams, hq], (Stream.Same.refl q).le⟩
  | opens q _ hstreams _ _ _ _ => exact keeps_of_insert hnum hstreams
  | gives p token _ _ hstreams _ _ _ _ =>
    exact keeps_of_withStream hstreams fun q _ => ⟨rfl, rfl, fun _ hg => hg, fun _ => rfl, fun hr => hr⟩
  | installs p token _ _ hwait hstreams _ _ _ _ =>
    refine keeps_of_withStream hstreams fun q hq => ⟨rfl, rfl, fun g hg => ?_, fun ha => ha, fun hr => hr⟩
    obtain ⟨q', hq', hw⟩ := hwait hplace
    rw [hq] at hq'
    cases hq'
    rw [hw.gen] at hg
    cases hg
  | locks p _ hstreams _ _ _ _ =>
    exact keeps_of_withStream hstreams fun q _ => ⟨rfl, rfl, fun _ hg => hg, fun ha => ha, fun hr => hr⟩
  | frees p _ hstreams _ _ _ _ =>
    exact keeps_of_withStream hstreams fun q _ => ⟨rfl, rfl, fun _ hg => hg, fun ha => ha, fun _ => rfl⟩
  | holds h hh hstreams _ _ _ _ =>
    refine keeps_of_withStream hstreams fun q hq => ⟨rfl, rfl, fun _ hg => hg, fun ha => ha, fun hr => ?_⟩
    exact (hh q hq).trans hr

theorem pours_spares (hnum : m.StreamsNumbered) (h : m.Pours t pc mv) : m.Spares mv.m pc.owns := by
  cases h with
  | still hstreams _ _ _ _ =>
    intro u q _ hq
    exact ⟨q, by rw [hstreams, hq], Stream.Same.refl q⟩
  | opens q _ hstreams _ _ _ _ =>
    intro u q' _ hq'
    have hne : u ≠ m.next := (hnum u q' hq').ne
    exact ⟨q', by rw [hstreams, AList.lookup_insert_ne hne, hq'], Stream.Same.refl q'⟩
  | gives p token hpc _ hstreams _ _ _ _ | installs p token hpc _ _ hstreams _ _ _ _ =>
    rw [hpc]
    exact spares_of_withStream hstreams
  | locks p hpc hstreams _ _ _ _ | frees p hpc hstreams _ _ _ _ =>
    rw [hpc]
    exact spares_of_withStream hstreams
  | holds h hh hstreams _ _ _ _ =>
    intro u q _ hq
    rw [hstreams, lookup_withStream]
    by_cases hu : u = t
    · subst hu
      exact ⟨{ q with held := h }, by simp [hq], rfl, rfl, rfl, rfl, hh q hq, rfl⟩
    · exact ⟨q, by simp [hu, hq], Stream.Same.refl q⟩

theorem released_of_stop {h : Control.Held} {err err' : Option Status}
    (he : h.finish err = .stop err') : h.released = true := by
  unfold Held.finish at he
  split at he
  · assumption
  · cases he

theorem at_withStream {m' : Manager} {p : ℕ} {f : Stream → Stream} {P Q : Stream → Prop}
    (hm : m'.streams = (m.withStream p f).streams) (h : m.At p P) (hf : ∀ q, P q → Q (f q)) :
    m'.At p Q := by
  obtain ⟨q, hq, hp⟩ := h
  exact ⟨f q, by rw [hm, lookup_withStream, if_pos rfl, hq, Option.map_some], hf q hp⟩

theorem at_insert {m' : Manager} {p : ℕ} {q : Stream} {P : Stream → Prop}
    (hm : m'.streams = m.streams.insert p q) (hq : P q) : m'.At p P :=
  ⟨q, by rw [hm, AList.lookup_insert], hq⟩

/-- No stream that was given up is installed. -/
def AbandonedClean (m : Manager) : Prop :=
  ∀ p q, m.streams.lookup p = some q → q.abandoned = true → q.gen = none

theorem advance_place (hnum : m.StreamsNumbered) (hab : m.AbandonedClean) (hpc : m.Place t pc)
    (h : m.advance cap t pc a = some mv) : Leads mv.pc (mv.m.Place t) := by
  replace h := advance_moves h
  induction h
  all_goals first
    | exact leads_none
    | exact leads_some trivial
    | exact leads_some hpc
    | exact leads_some hpc.1
    | exact leads_some hpc.2
    | exact leads_some ⟨hpc, trivial⟩
    | skip
  case openConnect | openReconnect => exact leads_some ⟨at_insert rfl ⟨rfl, rfl, rfl, rfl, rfl⟩, trivial⟩
  case openResync gen token owner howner =>
    refine leads_some ⟨at_insert rfl ⟨rfl, rfl, rfl, rfl, rfl⟩, ?_⟩
    exact At.keeps hpc (keeps_of_insert hnum rfl) fun q q' hle hf => hf.le hle
  case syncResyncFails gen token p err =>
    refine leads_some (At.keeps hpc.2 (keeps_of_withStream rfl fun q _ => ?_) fun q q' hle hf => hf.le hle)
    exact ⟨rfl, rfl, fun _ hg => hg, fun _ => rfl, fun hr => hr⟩
  case installConnect | installReconnect | installResync =>
    exact leads_some (at_withStream rfl hpc.1 fun q hq => ⟨rfl, hq.released, hq.replaying⟩)
  case release job p stamp q hq hfree hheld =>
    exact leads_some (at_withStream rfl hpc fun q hq => ⟨hq.gen, hq.released, rfl⟩)
  case recvEnd err err' q hq hstop => exact leads_some ⟨_, hq, .inl (released_of_stop hstop)⟩
  case waitRelease err q hq hreleased => exact leads_some ⟨_, hq, .inl hreleased⟩
  case waitDone err err' q hq hdone => exact leads_some ⟨_, hq, .inr hdone⟩
  case select gen err q hq hgen =>
    refine leads_some ⟨_, hq, hgen, ?_⟩
    obtain ⟨q', hq', hdone⟩ := hpc
    cases hq.symm.trans hq'
    rcases hdone with hr | ha | ho
    · exact .inl hr
    · have := hab _ _ hq ha
      rw [hgen] at this
      cases this
    · exact .inr ho
  case streamEnd gen err q hq hctx =>
    obtain ⟨q', hq', hg, hdone⟩ := hpc
    cases hq.symm.trans hq'
    exact leads_some ⟨_, hq, hg, hdone.resolve_right hctx⟩

end Manager

end VcsClient.Session
