import VcsClient.Connhealth.Monitor
import VcsClient.Lib.Machine

/-!
# Health samples

Where no probe crosses into another connected period and no voice round trip
outlives its link, every snapshot tells of the current period, and a loss is
declared at most once in it.
-/

namespace VcsClient.Connhealth

open VcsClient.Lib

/-! ## Logs of the monitor -/

section Log

variable {log : List Event} {e : Event} {p : Probe}

theorem periods_cons (e : Event) (log : List Event) :
    periods (e :: log) = periods log + if e.isConnect then 1 else 0 := List.countP_cons

theorem period_cons (e : Event) (log : List Event) :
    period (e :: log) = if e.isConnect then [] else e :: period log := since_cons _ _ _

theorem periods_connect {state : String} (h : state = stateConnected) :
    periods (.control state :: log) = periods log + 1 := by
  rw [periods_cons, if_pos (by simpa [Event.isConnect] using h)]

theorem period_connect {state : String} (h : state = stateConnected) :
    period (.control state :: log) = [] := by
  rw [period_cons, if_pos (by simpa [Event.isConnect] using h)]

theorem periods_disconnect {state : String} (h : state ≠ stateConnected) :
    periods (.control state :: log) = periods log := by
  rw [periods_cons, if_neg (by simpa [Event.isConnect] using h), Nat.add_zero]

theorem honest_disconnect {state : String} {threshold : ℕ} (h : state ≠ stateConnected) :
    Honest threshold (.control state :: log) .loss ↔ Honest threshold log .loss := by
  have hper : period (.control state :: log) = .control state :: period log := by
    rw [period_cons, if_neg (by simpa [Event.isConnect] using h)]
  have hprobes : probes (.control state :: period log) = probes (period log) := rfl
  simp only [Honest, hper, periods_disconnect h, hprobes, List.mem_cons, reduceCtorEq, false_or]

theorem honest_delivered {s : Snapshot} {failures threshold : ℕ} :
    Honest threshold (.delivered s failures :: log) .loss ↔ Honest threshold log .loss := by
  have hper : period (.delivered s failures :: log) = .delivered s failures :: period log := rfl
  have hprobes : probes (.delivered s failures :: period log) = probes (period log) := rfl
  have hcount : periods (.delivered s failures :: log) = periods log := rfl
  simp only [Honest, hper, hcount, hprobes, List.mem_cons, reduceCtorEq, false_or]

theorem honest_applied {threshold : ℕ} (h : Honest threshold log .loss) :
    Honest threshold (.applied p :: log) .loss := by
  obtain ⟨hnone, hinf⟩ := h
  refine ⟨fun hmem => ?_, hinf.trans (List.suffix_cons p _).isInfix⟩
  rcases List.mem_cons.1 hmem with he | hmem
  · cases he
  · exact hnone hmem

theorem vitals_applied {control : Link} {failures : ℕ}
    (h : vitals (current log) = ⟨control.rttMs, control.healthy, failures⟩) :
    vitals (current (.applied p :: log)) =
      ⟨(Monitor.applyProbe control p.rtt).rttMs, (Monitor.applyProbe control p.rtt).healthy,
        if p.rtt.isSome then 0 else failures + 1⟩ := by
  obtain ⟨startedIn, rtt⟩ := p
  cases rtt with
  | some rtt => rfl
  | none =>
    show (⟨(vitals (current log)).rttMs, false, (vitals (current log)).failures + 1⟩ : Vitals) = _
    rw [h]
    rfl

/-- The link is connected no longer than its period has lasted. -/
theorem current_isPrefix (log : List Event) : current log <+: probes (period log) := by
  refine (since_prefix_since (fun e he => ?_) log).filterMap _
  cases e with
  | control state => rfl
  | applied p => cases he
  | delivered s failures => cases he
  | loss => cases he

theorem replicate_isPrefix {l : List Probe} {n : ℕ} (h : ∀ p ∈ l, p.startedIn = some n) :
    List.replicate (vitals l).failures ⟨some n, none⟩ <+: l := by
  induction l with
  | nil => exact List.prefix_rfl
  | cons p l ih =>
    obtain ⟨startedIn, rtt⟩ := p
    cases rtt with
    | some rtt => exact List.nil_prefix
    | none =>
      have hp : startedIn = some n := h _ List.mem_cons_self
      subst hp
      exact List.cons_prefix_cons.2 ⟨rfl, ih fun p hp => h p (List.mem_cons_of_mem _ hp)⟩

theorem replicate_isInfix {k n : ℕ} (h : ∀ p ∈ current log, p.startedIn = some n)
    (hk : k ≤ (vitals (current log)).failures) :
    List.replicate k ⟨some n, none⟩ <:+: probes (period log) := by
  have hpre : List.replicate k (⟨some n, none⟩ : Probe) <+:
      List.replicate (vitals (current log)).failures ⟨some n, none⟩ := by
    rw [← Nat.add_sub_cancel' hk, List.replicate_add]
    exact List.prefix_append _ _
  exact (hpre.trans ((replicate_isPrefix h).trans (current_isPrefix log))).isInfix

end Log

namespace Monitor

/-! ## What a step does -/

inductive Moves (m : Monitor) : MonitorOp → Monitor → Prop
  | keep {op} : m.Moves op m
  | server {op server} (he : m.emit = none) :
      m.Moves op (m.set { m.snap with server := server })
  | control {op state control} (he : m.emit = none) (hstate : control.state = state)
      (hvitals : control.rttMs = rttUnknown ∧ control.healthy = false) :
      m.Moves op { m.set { m.snap with control := control } with
        failures := 0
        lossFired := false
        log := .control state :: m.log }
  | voice {op voice} (he : m.emit = none)
      (hrtt : voice.rttMs ≠ rttUnknown → voice.state = stateConnected ∧ voice.available = true) :
      m.Moves op (m.set { m.snap with voice := voice })
  | goto {op n o k} (ho : ∀ period, o ≠ some (.losing period)) :
      m.Moves op { m with ticks := assign m.ticks n o, started := k }
  | apply {n p voiceRTT snap fireLoss o emit} (hl : m.ticks.lookup n = some (.measured p voiceRTT))
      (hstate : m.snap.control.state = stateConnected)
      (hsnap : snap =
        { m.snap with
          control := applyProbe m.snap.control p.rtt
          voice := { m.snap.voice with rttMs := voiceRTT } })
      (hfire : fireLoss = true → p.rtt = none ∧ m.failureThreshold ≤ m.failures + 1 ∧
        m.lossFired = false)
      (ho : o = if fireLoss then some (.losing (periods m.log)) else none)
      (hemit : ∀ e ∈ emit, e.snap = snap) :
      m.Moves (.commit n)
        { m with
          snap := snap
          failures := if p.rtt.isSome then 0 else m.failures + 1
          lossFired := m.lossFired || fireLoss
          emit := emit
          ticks := assign m.ticks n o
          log := .applied p :: m.log }
  | publish {op e} (he : m.emit = some e) :
      m.Moves op { m with emit := none, log := .delivered e.snap m.failures :: m.log }
  | loss {n period} (hl : m.ticks.lookup n = some (.losing period)) :
      m.Moves (.onLoss n) { m with ticks := assign m.ticks n none, log := .loss :: m.log }

variable {m m' : Monitor} {op : MonitorOp}

theorem step_moves (hs : m.step op = some m') : m.Moves op m' := by
  have hfree : ¬ m.emit.isSome = true → m.emit = none := fun h => by simpa using h
  cases op with
  | setServer server =>
    simp only [step] at hs
    split at hs
    · cases hs
    · next he =>
      cases hs
      unfold setServer
      split
      · exact .keep
      · exact .server (hfree he)
  | setControlState state =>
    simp only [step] at hs
    split at hs
    · cases hs
    · next he =>
      cases hs
      unfold setControlState
      split
      · exact .keep
      · exact .control (hfree he) rfl ⟨rfl, rfl⟩
  | setVoiceState state errMsg available =>
    simp only [step] at hs
    split at hs
    · cases hs
    · next he =>
      cases hs
      have hlink : ∀ state : String, ∀ rttMs : ℤ,
          (if available && state == stateConnected then rttMs else rttUnknown) ≠ rttUnknown →
            state = stateConnected ∧ available = true := by
        intro state rttMs hrtt
        by_cases hlive : (available && state == stateConnected) = true
        · rw [Bool.and_eq_true, beq_iff_eq] at hlive
          exact hlive.symm
        · exact absurd (if_neg hlive) hrtt
      unfold setVoiceState
      extract_lets state healthy next
      by_cases hsame : m.snap.voice = next
      · rw [if_pos hsame]
        exact .keep
      · rw [if_neg hsame]
        exact .voice (hfree he) (hlink state m.snap.voice.rttMs)
  | tick =>
    cases hs
    unfold tick
    split
    · exact .keep
    · extract_lets voiceConnected lastRTT
      exact .goto (o := some (.started lastRTT voiceConnected)) fun _ h => by cases h
  | ping n =>
    simp only [step] at hs
    split at hs
    · cases hs
      exact .goto fun _ h => by cases h
    · cases hs
  | answer n rtt =>
    simp only [step] at hs
    split at hs
    · cases hs
      exact .goto fun _ h => by cases h
    · cases hs
  | voiceRTT n d =>
    simp only [step] at hs
    split at hs
    · cases hs
      exact .goto fun _ h => by cases h
    · cases hs
  | commit n =>
    simp only [step] at hs
    split at hs
    · cases hs
    · split at hs
      · next p voiceRTT hl =>
        cases hs
        unfold commit
        split
        · exact .goto (o := none) fun _ h => by cases h
        · next hstate =>
          refine .apply hl (not_not.1 hstate) rfl (fun hfire => ?_) rfl fun e he => ?_
          · rw [Bool.and_eq_true, Bool.and_eq_true, Option.isNone_iff_eq_none,
              decide_eq_true_eq, Bool.not_eq_true'] at hfire
            obtain ⟨⟨hp, hle⟩, hlf⟩ := hfire
            rw [hp] at hle
            exact ⟨hp, hle, hlf⟩
          · split at he
            · cases he
              rfl
            · cases he
      · cases hs
  | publish =>
    obtain ⟨e, he, rfl⟩ := Option.map_eq_some_iff.1 hs
    exact .publish he
  | onLoss n =>
    simp only [step] at hs
    split at hs
    · cases hs
    · split at hs
      · next hl =>
        cases hs
        exact .loss hl
      · cases hs

/-! ## The current period -/

/-- What is told of the control link is of the current period, a round trip only
of a voice link that is connected, and a loss is yet to be declared. -/
structure Sound (m : Monitor) : Prop where
  vitals : vitals (current m.log) = ⟨m.snap.control.rttMs, m.snap.control.healthy, m.failures⟩
  fresh : ∀ p ∈ current m.log, p.startedIn = some (periods m.log)
  voice : m.snap.voice.rttMs ≠ rttUnknown →
    m.snap.voice.state = stateConnected ∧ m.snap.voice.available = true
  emit : ∀ e ∈ m.emit, e.snap = m.snap
  losing : ∀ n k, m.ticks.lookup n = some (.losing k) → k ≤ periods m.log ∧
    (k = periods m.log →
      Honest m.failureThreshold m.log .loss ∧
        ∀ n', m.ticks.lookup n' = some (.losing k) → n' = n)
  armed : m.snap.control.state = stateConnected → m.lossFired = false →
    .loss ∉ period m.log ∧ ∀ n, m.ticks.lookup n ≠ some (.losing (periods m.log))
  honest : Each (Honest m.failureThreshold) m.log

theorem sound_new (failureThreshold : ℤ) : (new failureThreshold).Sound where
  vitals := rfl
  fresh p hp := by cases hp
  voice h := absurd rfl h
  emit e he := by cases he
  losing n k h := by cases h
  armed h := absurd (show stateDisconnected = stateConnected from h) (by decide)
  honest := each_nil

theorem Sound.set (h : m.Sound) {snap : Snapshot} (hc : snap.control = m.snap.control)
    (hv : snap.voice.rttMs ≠ rttUnknown →
      snap.voice.state = stateConnected ∧ snap.voice.available = true) :
    (m.set snap).Sound where
  vitals := by
    show Connhealth.vitals (current m.log) = _
    rw [h.vitals, ← hc]
    rfl
  fresh := h.fresh
  voice := hv
  emit e he := by cases he; rfl
  losing := h.losing
  armed hs := h.armed (hc ▸ hs)
  honest := h.honest

/-- Only a threshold that is reached adds to the calls that are to declare a loss. -/
theorem lookup_losing {c : AList fun _ : ℕ => TickPc} {n i k : ℕ} {o : Option TickPc}
    (ho : ∀ period, o ≠ some (.losing period))
    (hl : (assign c n o).lookup i = some (.losing k)) : c.lookup i = some (.losing k) := by
  rw [lookup_assign] at hl
  split at hl
  · exact absurd hl (ho k)
  · exact hl

theorem Sound.moves (h : m.Sound) (hok : m.InPeriod op) (hm : m.Moves op m') : m'.Sound := by
  cases hm with
  | keep => exact h
  | server he => exact h.set rfl h.voice
  | voice he hrtt => exact h.set rfl hrtt
  | @control _ state control he hstate hvitals =>
    obtain ⟨hrtt, hhealthy⟩ := hvitals
    refine ⟨?_, (fun p hp => by cases hp), h.voice, (fun e he => by cases he; rfl),
      fun n k hl => ?_, fun hs _ => ?_, each_cons.2 ⟨trivial, h.honest⟩⟩
    · show (⟨rttUnknown, false, 0⟩ : Vitals) = ⟨control.rttMs, control.healthy, 0⟩
      rw [hrtt, hhealthy]
    · obtain ⟨hle, hcur⟩ := h.losing n k hl
      show k ≤ periods (.control state :: m.log) ∧ (k = periods (.control state :: m.log) →
        Honest m.failureThreshold (.control state :: m.log) .loss ∧ _)
      by_cases hst : state = stateConnected
      · rw [periods_connect hst]
        exact ⟨by omega, fun hk => by omega⟩
      · rw [periods_disconnect hst, honest_disconnect hst]
        exact ⟨hle, hcur⟩
    · -- connected anew: no loss of the period is under way
      have hst : state = stateConnected := hstate.symm.trans hs
      show .loss ∉ period (.control state :: m.log) ∧
        ∀ n, m.ticks.lookup n ≠ some (.losing (periods (.control state :: m.log)))
      rw [periods_connect hst, period_connect hst]
      refine ⟨List.not_mem_nil, fun n hl => ?_⟩
      have := (h.losing n _ hl).1
      omega
  | goto ho =>
    exact { h with
      losing := fun n k hl => by
        obtain ⟨hle, hcur⟩ := h.losing n k (lookup_losing ho hl)
        exact ⟨hle, fun hk => ⟨(hcur hk).1, fun n' hl' => (hcur hk).2 n' (lookup_losing ho hl')⟩⟩
      armed := fun hs hf => ⟨(h.armed hs hf).1, fun n hl =>
        (h.armed hs hf).2 n (lookup_losing ho hl)⟩ }
  | @apply n p voiceRTT snap fireLoss o emit hl hstate hsnap hfire ho hemit =>
    obtain ⟨hp, hvoice⟩ := hok hstate _ hl
    have hfresh : ∀ p' ∈ current (.applied p :: m.log), p'.startedIn = some (periods m.log) :=
      List.forall_mem_cons.2 ⟨hp, h.fresh⟩
    have hvitals : Connhealth.vitals (current (.applied p :: m.log)) =
        ⟨snap.control.rttMs, snap.control.healthy,
          if p.rtt.isSome then 0 else m.failures + 1⟩ := by
      rw [hsnap]
      exact vitals_applied h.vitals
    subst hsnap
    refine ⟨hvitals, hfresh, hvoice, hemit, fun i k hi => ?_, fun hs hf => ?_,
      each_cons.2 ⟨trivial, h.honest⟩⟩
    · rw [lookup_assign] at hi
      split at hi
      · next hin =>
        -- the threshold is reached
        rw [ho] at hi
        split at hi
        · next hf =>
          cases hi
          obtain ⟨hnone, hle, hlf⟩ := hfire hf
          obtain ⟨hloss, hno⟩ := h.armed hstate hlf
          refine ⟨le_rfl, fun _ => ⟨⟨?_, ?_⟩, fun n' hn' => ?_⟩⟩
          · rintro (_ | ⟨_, hmem⟩)
            exact hloss hmem
          · refine @replicate_isInfix (.applied p :: m.log) _ _ hfresh ?_
            rw [hvitals, hnone]
            exact hle
          · rw [lookup_assign] at hn'
            split at hn'
            · next hnn => exact hnn.trans hin.symm
            · exact absurd hn' (hno n')
        · cases hi
      · obtain ⟨hle, hcur⟩ := h.losing i k hi
        refine ⟨hle, fun hk => ⟨honest_applied (hcur hk).1, fun n' hn' => ?_⟩⟩
        rw [lookup_assign] at hn'
        split at hn'
        · -- no other call may be about to declare the loss
          rw [ho] at hn'
          split at hn'
          · next hf => exact absurd (hk ▸ hi) ((h.armed hstate (hfire hf).2.2).2 i)
          · cases hn'
        · exact (hcur hk).2 n' hn'
    · rw [Bool.or_eq_false_iff] at hf
      obtain ⟨hloss, hno⟩ := h.armed hstate hf.1
      refine ⟨?_, fun i hi => ?_⟩
      · rintro (_ | ⟨_, hmem⟩)
        exact hloss hmem
      · rw [ho, hf.2] at hi
        exact hno i (lookup_losing (fun _ hc => by cases hc) hi)
  | @publish _ e he =>
    refine ⟨h.vitals, h.fresh, h.voice, (fun e he => by cases he), fun n k hl => ?_,
      fun hs hf => ?_, each_cons.2 ⟨?_, h.honest⟩⟩
    · obtain ⟨hle, hcur⟩ := h.losing n k hl
      exact ⟨hle, fun hk => ⟨honest_delivered.2 (hcur hk).1, (hcur hk).2⟩⟩
    · obtain ⟨hloss, hno⟩ := h.armed hs hf
      refine ⟨?_, hno⟩
      rintro (_ | ⟨_, hmem⟩)
      exact hloss hmem
    · rw [h.emit e he]
      exact ⟨h.vitals, h.fresh, h.voice⟩
  | @loss n k hl =>
    have hk : k = periods m.log := hok _ hl
    have hcur := (h.losing n k hl).2 hk
    refine ⟨h.vitals, h.fresh, h.voice, h.emit, fun i k' hi => ?_, fun hs hf => ?_,
      each_cons.2 ⟨hcur.1, h.honest⟩⟩
    · have hold := lookup_losing (fun _ hc => by cases hc) hi
      obtain ⟨hle, -⟩ := h.losing i k' hold
      refine ⟨hle, fun hk' => ?_⟩
      -- the other call would be the same
      have hin : i = n := hcur.2 i (by rw [hold]; exact congrArg _ (congrArg _ (hk'.trans hk.symm)))
      rw [hin, lookup_assign, if_pos rfl] at hi
      cases hi
    · exact absurd (hk ▸ hl) ((h.armed hs hf).2 n)

end Monitor

end VcsClient.Connhealth
