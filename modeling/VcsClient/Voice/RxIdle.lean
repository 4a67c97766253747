import VcsClient.Voice.Rx

/-!
# How long a stream lives

`Reception` runs the receive path on a clock that does not go back and logs the
packets that reached a stream, each with what its jitter buffer answered. A
stream is open as long as its last packet is recent (`Tracks`): also a packet
the jitter buffer refused. So a stream that accepts nothing is torn down
exactly when it is not being refused packets either (`idle_teardown_iff`), and
a talker who restarts its numbering keeps a deaf stream alive
(`refused_keep_alive`).
-/

namespace VcsClient.Voice

open VcsClient.Lib

/-- A packet that reached its stream. -/
structure Routed where
  key : StreamKey
  at_ : ℤ
  accepted : Bool
  deriving DecidableEq

structure Reception where
  rx : Rx
  clock : ℤ
  log : List Routed

inductive RxOp where
  | setRXContext (accept global test : List KHz)
  | rxVoice (it : ℕ → IterOrder UInt32) (decoder : Bool) (pkt : Packet) (at_ : ℤ)
  | rxService (o : IterOrder StreamKey) (turns : StreamKey → List (IterOrder UInt32)) (now : ℤ)

/-- The log entry of a datagram, if it reached a stream. -/
def routed (pkt : Packet) (at_ : ℤ) : RxOutcome → List Routed
  | .pushed => [⟨pkt.streamKey, at_, true⟩]
  | .dropJitter => [⟨pkt.streamKey, at_, false⟩]
  | _ => []

namespace Reception

def init (self : UUID) (jitterTarget jitterMax historyIdle : ℤ) (clock : ℤ) : Reception :=
  ⟨.init self jitterTarget jitterMax historyIdle, clock, []⟩

def step (p : Reception) : RxOp → Option Reception
  | .setRXContext accept global test => some { p with rx := p.rx.setRXContext accept global test }
  | .rxVoice it decoder pkt at_ =>
    if at_ < p.clock then none
    else
      let r := p.rx.rxVoice it decoder pkt at_
      some ⟨r.2, at_, p.log ++ routed pkt at_ r.1⟩
  | .rxService o turns now =>
    if now < p.clock then none
    else some ⟨(p.rx.rxService o turns now).2, now, p.log⟩

end Reception

/-- An `rxService` at `now` removes the stream, and the next packet that gets
through opens a fresh one, whose fresh jitter buffer takes it. -/
def TornDown (rx : Rx) (key : StreamKey) (now : ℤ) : Prop :=
  ∀ o turns, let rx' := (rx.rxService o turns now).2
    key ∉ rx'.streams ∧
    ∀ it pkt at_, pkt.streamKey = key → rx'.filtered pkt = none →
      rx'.streams.keys.length < maxRXStreams →
      rx'.rxVoice it true pkt at_ =
        (.pushed, { rx' with streams := rx'.streams.insert key
                              (Rx.deliver it (rx'.newStream key at_) pkt at_).2 })

/-- The jitter buffer of the stream accepted a packet within the idle timeout. -/
def AcceptedWithin (log : List Routed) (key : StreamKey) (now : ℤ) : Prop :=
  ∃ e ∈ log, e.key = key ∧ e.accepted = true ∧ now - rxIdleTimeout ≤ e.at_ ∧ e.at_ ≤ now

/-- The jitter buffer of the stream refused a packet within the idle timeout. -/
def RefusedWithin (log : List Routed) (key : StreamKey) (now : ℤ) : Prop :=
  ∃ e ∈ log, e.key = key ∧ e.accepted = false ∧ now - rxIdleTimeout < e.at_

/-- `lastSeen` is the time of the last packet that reached the stream. -/
structure Tracks (p : Reception) : Prop where
  log_le : ∀ e ∈ p.log, e.at_ ≤ p.clock
  last : ∀ key st, p.rx.streams.lookup key = some st →
    (∃ e ∈ p.log, e.key = key ∧ e.at_ = st.lastSeen) ∧
    ∀ e ∈ p.log, e.key = key → e.at_ ≤ st.lastSeen

namespace Rx

variable {rx : Rx} {key : StreamKey} {it : ℕ → IterOrder UInt32} {decoder : Bool} {pkt : Packet}
  {at_ now : ℤ}

/-- A datagram is dropped on the way, or reaches the stream it finds or opens. -/
theorem rxVoice_cases (it : ℕ → IterOrder UInt32) (decoder : Bool) (rx : Rx) (pkt : Packet)
    (at_ : ℤ) :
    (∃ outcome, rx.rxVoice it decoder pkt at_ = (outcome, rx) ∧ routed pkt at_ outcome = []) ∨
    ∃ st, ∃ streams : AList fun _ : StreamKey => RxStream,
      (rx.streams.lookup pkt.streamKey = some st ∨
        rx.streams.lookup pkt.streamKey = none ∧ st = rx.newStream pkt.streamKey at_) ∧
      (∀ key, key ≠ pkt.streamKey → streams.lookup key = rx.streams.lookup key) ∧
      rx.rxVoice it decoder pkt at_ =
        (if (deliver it st pkt at_).1 then .pushed else .dropJitter,
          { rx with streams := streams.insert pkt.streamKey (deliver it st pkt at_).2 }) := by
  unfold rxVoice
  cases hf : rx.filtered pkt with
  | some outcome =>
    refine .inl ⟨outcome, rfl, ?_⟩
    unfold filtered at hf
    split at hf
    · cases hf; rfl
    · simp only at hf
      split_ifs at hf <;> cases hf <;> rfl
  | none =>
    unfold rxStreamFor
    cases hl : rx.streams.lookup pkt.streamKey with
    | some st => exact .inr ⟨st, rx.streams, .inl rfl, fun _ _ => rfl, rfl⟩
    | none =>
      simp only
      by_cases hcap : maxRXStreams ≤ rx.streams.keys.length
      · rw [if_pos hcap]; exact .inl ⟨_, rfl, rfl⟩
      · rw [if_neg hcap]
        cases decoder with
        | false => exact .inl ⟨_, rfl, rfl⟩
        | true =>
          exact .inr ⟨rx.newStream pkt.streamKey at_,
            rx.streams.insert pkt.streamKey (rx.newStream pkt.streamKey at_), .inr ⟨trivial, rfl⟩,
            fun key hne => AList.lookup_insert_ne hne, rfl⟩

theorem push_new (it : ℕ → IterOrder UInt32) (target max frameDur : ℤ) (seq : UInt32)
    (payload : List UInt8) :
    ((newJitter (List UInt8) target max frameDur).push it seq payload now).1 = true := by
  have hnone : (newJitter (List UInt8) target max frameDur).oldestSeqLocked (it 0) = none := by
    rw [Jitter.oldestSeqLocked_eq_none]
    rfl
  have hout : (newJitter (List UInt8) target max frameDur).outOfRange (it 0) (seq &&& wireMask24) =
      false := by
    simp only [Jitter.outOfRange, hnone]
    rfl
  have hmem : seq &&& wireMask24 ∉ (newJitter (List UInt8) target max frameDur).frames :=
    AList.notMem_empty _
  simp only [Jitter.push, hout, hmem, if_false, Bool.false_eq_true]

theorem rxVoice_fresh (hkey : key ∉ rx.streams) (hpkt : pkt.streamKey = key)
    (hf : rx.filtered pkt = none) (hcap : rx.streams.keys.length < maxRXStreams) :
    rx.rxVoice it true pkt at_ =
      (.pushed, { rx with streams := rx.streams.insert key
                            (deliver it (rx.newStream key at_) pkt at_).2 }) := by
  subst hpkt
  have hl : rx.streams.lookup pkt.streamKey = none := AList.lookup_eq_none.2 hkey
  have hpush : (deliver it (rx.newStream pkt.streamKey at_) pkt at_).1 = true :=
    push_new it rx.jitterTarget rx.jitterMax rxFrameDuration pkt.sequence pkt.payload
  simp only [rxVoice, hf, rxStreamFor, hl, if_neg (not_le.2 hcap), hpush, Bool.not_true,
    Bool.false_eq_true, if_false, if_true, AList.insert_insert]

theorem tornDown_iff (st : RxStream) (hl : rx.streams.lookup key = some st) :
    TornDown rx key now ↔ st.lastSeen ≤ now - rxIdleTimeout := by
  constructor
  · intro h
    have hgone := (h (.stored StreamKey) fun _ => []).1
    by_contra hlt
    refine hgone (AList.lookup_isSome.1 ?_)
    rw [lookup_rxService, hl]
    have : ¬ rxIdleTimeout ≤ now - st.lastSeen := by omega
    simp [this]
  · intro h o turns
    have hgone : key ∉ (rx.rxService o turns now).2.streams := by
      rw [← AList.lookup_eq_none, lookup_rxService, hl]
      have : rxIdleTimeout ≤ now - st.lastSeen := by omega
      simp [this]
    exact ⟨hgone, fun it pkt at_ hpkt hf hcap => rxVoice_fresh hgone hpkt hf hcap⟩

end Rx

namespace Tracks

theorem init (self : UUID) (jitterTarget jitterMax historyIdle clock : ℤ) :
    Tracks (.init self jitterTarget jitterMax historyIdle clock) :=
  ⟨fun e he => absurd he List.not_mem_nil, fun key st hl => by
    simp [Reception.init, Rx.init] at hl⟩

theorem rxVoice {p : Reception} (h : Tracks p) (it : ℕ → IterOrder UInt32) (decoder : Bool)
    (pkt : Packet) {at_ : ℤ} (hle : p.clock ≤ at_) :
    Tracks ⟨(p.rx.rxVoice it decoder pkt at_).2, at_,
      p.log ++ routed pkt at_ (p.rx.rxVoice it decoder pkt at_).1⟩ := by
  rcases Rx.rxVoice_cases it decoder p.rx pkt at_ with
    ⟨outcome, he, hnil⟩ | ⟨st, streams, -, hother, he⟩
  · rw [he]
    simp only [hnil, List.append_nil]
    exact ⟨fun e hm => (h.log_le e hm).trans hle, h.last⟩
  · obtain ⟨e₀, hrouted, hkey, hat⟩ :
        ∃ e₀, routed pkt at_ (p.rx.rxVoice it decoder pkt at_).1 = [e₀] ∧
        e₀.key = pkt.streamKey ∧ e₀.at_ = at_ := by
      rw [he]
      cases (Rx.deliver it st pkt at_).1
      · exact ⟨_, rfl, rfl, rfl⟩
      · exact ⟨_, rfl, rfl, rfl⟩
    have hle' : ∀ e ∈ p.log ++ [e₀], e.at_ ≤ at_ := by
      intro e hm
      rcases List.mem_append.1 hm with hm | hm
      · exact (h.log_le e hm).trans hle
      · rw [List.mem_singleton.1 hm, hat]
    rw [hrouted, he]
    refine ⟨hle', fun key st' hl => ?_⟩
    simp only at hl
    by_cases hk : key = pkt.streamKey
    · subst hk
      rw [AList.lookup_insert, Option.some.injEq] at hl
      subst hl
      exact ⟨⟨e₀, by simp, hkey, hat⟩, fun e hm _ => hle' e hm⟩
    · rw [AList.lookup_insert_ne hk, hother key hk] at hl
      obtain ⟨⟨e, hm, hek, heat⟩, hall⟩ := h.last key st' hl
      refine ⟨⟨e, by simp [hm], hek, heat⟩, fun e' hm' hk' => ?_⟩
      rcases List.mem_append.1 hm' with hm' | hm'
      · exact hall e' hm' hk'
      · rw [List.mem_singleton.1 hm', hkey] at hk'
        exact absurd hk'.symm hk

theorem rxService {p : Reception} (h : Tracks p) (o : IterOrder StreamKey)
    (turns : StreamKey → List (IterOrder UInt32)) {now : ℤ} (hle : p.clock ≤ now) :
    Tracks ⟨(p.rx.rxService o turns now).2, now, p.log⟩ := by
  refine ⟨fun e hm => (h.log_le e hm).trans hle, fun key st hl => ?_⟩
  simp only [Rx.lookup_rxService] at hl
  split at hl
  · cases hl
  · obtain ⟨st₀, hl₀, rfl⟩ := Option.map_eq_some_iff.1 hl
    simpa only [Rx.serve_lastSeen] using h.last key st₀ hl₀

theorem step {p p' : Reception} {op : RxOp} (h : Tracks p) (hs : p.step op = some p') :
    Tracks p' := by
  cases op with
  | setRXContext accept global test => cases hs; exact ⟨h.log_le, h.last⟩
  | rxVoice it decoder pkt at_ =>
    simp only [Reception.step] at hs
    split at hs
    · cases hs
    · cases hs
      exact h.rxVoice it decoder pkt (by omega)
  | rxService o turns now =>
    simp only [Reception.step] at hs
    split at hs
    · cases hs
    · cases hs
      exact h.rxService o turns (by omega)

end Tracks

/-- **Teardown of an idle stream.** A stream that has accepted nothing within
the idle timeout is torn down if and only if it has refused nothing either. -/
theorem idle_teardown_iff (self : UUID) (jitterTarget jitterMax historyIdle clock : ℤ)
    (ops : List RxOp) (p : Reception) (key : StreamKey) (now : ℤ)
    (hrun : exec Reception.step (.init self jitterTarget jitterMax historyIdle clock) ops = some p)
    (hopen : key ∈ p.rx.streams) (hnow : p.clock ≤ now) :
    (¬ AcceptedWithin p.log key now → TornDown p.rx key now) ↔
      AcceptedWithin p.log key now ∨ ¬ RefusedWithin p.log key now := by
  have h : Tracks p := exec_invariant (fun _ _ _ h _ hs => h.step hs)
    (.init self jitterTarget jitterMax historyIdle clock) (Meets.trivial ..) hrun
  obtain ⟨st, hl⟩ := Option.isSome_iff_exists.1 (AList.lookup_isSome.2 hopen)
  obtain ⟨⟨e₀, hm₀, hk₀, hat₀⟩, hall⟩ := h.last key st hl
  rw [Rx.tornDown_iff st hl]
  constructor
  · intro hclaim
    by_cases hacc : AcceptedWithin p.log key now
    · exact .inl hacc
    · refine .inr fun ⟨e, hm, hk, _, hlt⟩ => ?_
      have := hall e hm hk
      have := hclaim hacc
      omega
  · rintro (hacc | href) hno
    · exact absurd hacc hno
    · rw [← hat₀]
      have hle := h.log_le e₀ hm₀
      by_contra hlt
      cases hac : e₀.accepted with
      | true => exact hno ⟨e₀, hm₀, hk₀, hac, by omega, by omega⟩
      | false => exact href ⟨e₀, hm₀, hk₀, hac, by omega⟩

section Examples

/-- A VOICE packet of the talker on 30 MHz. -/
def voicePacket (sequence : UInt32) : Packet := ⟨packetTypeVoice, 0, sequence, 30000, talkerID, [1]⟩

/-- The talker starts at 1000, playout begins, and its numbering restarts at 0. -/
def restartRun : List RxOp :=
  [.setRXContext [30000] [] [], .rxVoice (always stored) true (voicePacket 1000) 0,
    .rxService (.stored StreamKey) (fun _ => [stored]) (ms 60),
    .rxVoice (always stored) true (voicePacket 0) (ms 3000)]

/-- One packet, and nothing after it: the stream is torn down. -/
theorem idle_teardown_silent :
    ∃ p, exec Reception.step (.init .nil (ms 60) (ms 500) (ms 500) 0)
        [.setRXContext [30000] [] [], .rxVoice (always stored) true (voicePacket 1000) 0] = some p ∧
      TornDown p.rx (voicePacket 0).streamKey (ms 5001) := by
  refine ⟨_, rfl, (idle_teardown_iff .nil (ms 60) (ms 500) (ms 500) 0
    [.setRXContext [30000] [] [], .rxVoice (always stored) true (voicePacket 1000) 0] _
    (voicePacket 0).streamKey (ms 5001) rfl (by decide) (by decide)).2 (.inr ?_) ?_⟩
  · unfold RefusedWithin; decide
  · unfold AcceptedWithin; decide

/-- **Refused packets keep a stream alive.** At 6 s nothing has been accepted
since 0, but the packet refused at 3 s keeps the stream. -/
theorem refused_keep_alive :
    ∃ p, exec Reception.step (.init .nil (ms 60) (ms 500) (ms 500) 0) restartRun = some p ∧
      (voicePacket 0).streamKey ∈ p.rx.streams ∧ p.clock ≤ ms 6000 ∧
      ¬ (¬ AcceptedWithin p.log (voicePacket 0).streamKey (ms 6000) →
        TornDown p.rx (voicePacket 0).streamKey (ms 6000)) := by
  refine ⟨_, rfl, by decide, by decide, fun h => ?_⟩
  have hgone := (h (by unfold AcceptedWithin; decide) (.stored StreamKey) fun _ => []).1
  exact absurd hgone (by decide)

end Examples

end VcsClient.Voice
