import VcsClient.Lib.Machine
import VcsClient.Voice.Packet

/-!
# Keepalives and their round trips

`recordKeepalive`, `noteKeepaliveSentLocked`, `sendKeepalive`,
`resetBindingLocked` and the schedule of `serve` in
`internal/voice/session.go`, on one socket. Replies carry nothing the session
matches on: each takes the oldest pending send time, of at most eight.

`KeepaliveRun` numbers the keepalives that went out; a reply names the one it
answers, replies come in order and any of them may be missing. A reply is in
step when the replies handled since the last rebind are those to every
keepalive sent since then before its own (`KeepaliveRun.InStep`). A reply in
step is measured against its own keepalive (`replies_measured`).
-/

namespace VcsClient.Voice

open VcsClient.Lib

def maxPendingKA : ℕ := 8

def bindingLossThreshold : ℕ := 3

/-- The interval of the schedule, in nanoseconds. -/
def defaultKeepalive : ℤ := 5 * 1000000000

def microsecond : ℤ := 1000

/-- A keepalive reply, stamped when it was read off the socket. -/
structure Event where
  /-- The keepalive it answers; no code reads it. -/
  id : ℕ
  at_ : ℤ
  serverTS : Int64
  deriving DecidableEq

/-- The fields of `Session` that keepalives touch. -/
structure Binding where
  rtt : ℤ
  lastServerTS : Int64
  pendingKA : List ℤ
  deriving DecidableEq

namespace Binding

def resetBindingLocked : Binding := ⟨0, 0, []⟩

/-- The round trip `recordKeepalive` stores, if any: nothing pending carries no
timing, and a negative difference is a clock step. -/
def measured (b : Binding) (ev : Event) : Option ℤ :=
  match b.pendingKA with
  | [] => none
  | sent :: _ =>
    let rtt := ev.at_ - sent
    if rtt ≥ 0 then some (if rtt = 0 then microsecond else rtt) else none

def recordKeepalive (b : Binding) (ev : Event) : Binding where
  rtt := (b.measured ev).getD b.rtt
  lastServerTS := if ev.serverTS ≠ 0 then ev.serverTS else b.lastServerTS
  pendingKA := b.pendingKA.tail

def noteKeepaliveSentLocked (b : Binding) (at_ : ℤ) : Binding :=
  let pending := if b.pendingKA.length ≥ maxPendingKA then b.pendingKA.tail else b.pendingKA
  { b with pendingKA := pending ++ [at_] }

end Binding

structure KeepaliveSent where
  at_ : ℤ
  packet : Packet

/-- A reply that was handled: what it answers, what was stored for it, and the
round trip on record before and after. -/
structure KeepaliveReply where
  id : ℕ
  at_ : ℤ
  rtt : Option ℤ
  inStep : Bool
  before : ℤ
  after : ℤ
  deriving DecidableEq

structure KeepaliveRun where
  self : UUID
  b : Binding
  now : ℤ
  /-- In `serve`, as opposed to the HELLO ladder. -/
  serving : Bool
  unanswered : ℕ
  deadline : ℤ
  events : List Event
  sends : List KeepaliveSent
  /-- Replies to earlier keepalives have come or are lost. -/
  nextReply : ℕ
  /-- How many keepalives went out before the last rebind. -/
  base : ℕ
  /-- The keepalives whose replies took a pending send time since then. -/
  answered : List ℕ
  /-- A keepalive went out with eight pending since then. -/
  crowded : Bool
  replies : List KeepaliveReply

inductive KeepaliveOp where
  | tick (d : ℤ)
  /-- A HELLO_ACK ends the ladder; `ok` is whether the first keepalive went out. -/
  | ack (ok : Bool)
  /-- `serve` wakes at its deadline. -/
  | wake (ok : Bool)
  /-- A reply is read off the socket. -/
  | arrive (id : ℕ) (serverTS : Int64)
  | handle

namespace KeepaliveRun

def init (self : UUID) (now : ℤ) : KeepaliveRun :=
  ⟨self, .resetBindingLocked, now, false, 0, 0, [], [], 0, 0, [], false, []⟩

/-- The replies handled since the last rebind answer exactly the keepalives sent
since then before `id`, and no send time was pushed out. -/
def InStep (s : KeepaliveRun) (id : ℕ) : Prop :=
  s.crowded = false ∧ s.base ≤ id ∧ s.answered = List.range' s.base (id - s.base)

instance (s : KeepaliveRun) (id : ℕ) : Decidable (s.InStep id) :=
  inferInstanceAs (Decidable (_ ∧ _ ∧ _))

def sendKeepalive (s : KeepaliveRun) (ok : Bool) : KeepaliveRun :=
  if ok then
    { s with
      b := s.b.noteKeepaliveSentLocked s.now
      sends := s.sends ++ [⟨s.now, newKeepalive s.self s.b.lastServerTS⟩]
      crowded := s.crowded || decide (s.b.pendingKA.length ≥ maxPendingKA) }
  else s

/-- One turn of the schedule: send and wait another interval. -/
def send (s : KeepaliveRun) (ok : Bool) : KeepaliveRun :=
  { s.sendKeepalive ok with unanswered := s.unanswered + 1, deadline := s.now + defaultKeepalive }

/-- `recordKeepalive`, and the log of what it stored. -/
def record (s : KeepaliveRun) (ev : Event) : KeepaliveRun :=
  { s with
    b := s.b.recordKeepalive ev
    answered := if s.b.pendingKA = [] then s.answered else s.answered ++ [ev.id]
    replies := s.replies ++ [⟨ev.id, ev.at_, s.b.measured ev, decide (s.InStep ev.id),
      s.b.rtt, (s.b.recordKeepalive ev).rtt⟩] }

def step (s : KeepaliveRun) : KeepaliveOp → Option KeepaliveRun
  | .tick d => some { s with now := s.now + d }
  | .ack ok =>
    if s.serving = false then some ({ s with serving := true, unanswered := 0 }.send ok) else none
  | .wake ok =>
    if s.serving ∧ s.deadline ≤ s.now then
      if s.unanswered ≥ bindingLossThreshold then
        some { s with
          serving := false, b := .resetBindingLocked
          base := s.sends.length, answered := [], crowded := false }
      else some (s.send ok)
    else none
  | .arrive id serverTS =>
    if s.nextReply ≤ id ∧ id < s.sends.length then
      some { s with events := s.events ++ [⟨id, s.now, serverTS⟩], nextReply := id + 1 }
    else none
  | .handle =>
    match s.events with
    | [] => none
    | ev :: events =>
      let s := { s with events := events }.record ev
      some (if s.serving then { s with unanswered := 0 } else s)

end KeepaliveRun

/-- What a round trip is recorded as: nothing when the clock stepped back, the
smallest positive value when it did not move. -/
def roundTrip (sent at_ : ℤ) : Option ℤ :=
  if at_ < sent then none else if at_ = sent then some microsecond else some (at_ - sent)

theorem Binding.measured_cons {b : Binding} {sent : ℤ} {rest : List ℤ} (ev : Event)
    (h : b.pendingKA = sent :: rest) : b.measured ev = roundTrip sent ev.at_ := by
  simp only [Binding.measured, h, roundTrip]
  rcases lt_trichotomy ev.at_ sent with hlt | heq | hgt
  · have hneg : ¬ ev.at_ - sent ≥ 0 := by omega
    rw [if_neg hneg, if_pos hlt]
  · subst heq
    simp
  · have hpos : ev.at_ - sent ≥ 0 := by omega
    have hne : ¬ ev.at_ - sent = 0 := by omega
    rw [if_pos hpos, if_neg hne, if_neg hgt.not_gt, if_neg hgt.ne']

/-! ## Pending send times and the keepalives they belong to -/

/-- Unless one was pushed out, the pending send times are those of the
keepalives after the answered ones, and replies in step are measured right. -/
structure Paired (s : KeepaliveRun) : Prop where
  base : s.base ≤ s.sends.length
  pending : s.crowded = false → s.base + s.answered.length ≤ s.sends.length ∧
    s.b.pendingKA = (s.sends.drop (s.base + s.answered.length)).map (·.at_)
  events : ∀ ev ∈ s.events, ev.id < s.sends.length
  replies : ∀ r ∈ s.replies, r.inStep = true →
    ∃ sent, s.sends[r.id]? = some sent ∧ r.rtt = roundTrip sent.at_ r.at_
  stored : ∀ r ∈ s.replies, r.after = r.rtt.getD r.before

namespace Paired

variable {s s' : KeepaliveRun}

theorem init (self : UUID) (now : ℤ) : Paired (.init self now) where
  base := le_rfl
  pending _ := ⟨le_rfl, rfl⟩
  events _ hev := absurd hev List.not_mem_nil
  replies _ hr := absurd hr List.not_mem_nil
  stored _ hr := absurd hr List.not_mem_nil

theorem sendKeepalive (h : Paired s) (ok : Bool) : Paired (s.sendKeepalive ok) := by
  unfold KeepaliveRun.sendKeepalive
  split
  · refine ⟨?_, fun hcr => ?_, fun ev hev => ?_, fun r hr hin => ?_, h.stored⟩
    · have := h.base
      simp only [List.length_append]
      omega
    · obtain ⟨hold, hroom⟩ := Bool.or_eq_false_iff.1 hcr
      obtain ⟨hle, hpend⟩ := h.pending hold
      have hroom : ¬ s.b.pendingKA.length ≥ maxPendingKA := of_decide_eq_false hroom
      refine ⟨?_, ?_⟩
      · simp only [List.length_append]
        omega
      · rw [Binding.noteKeepaliveSentLocked, if_neg hroom]
        simp only [hpend, List.drop_append_of_le_length hle, List.map_append, List.map_cons,
          List.map_nil]
    · have := h.events ev hev
      simp only [List.length_append]
      omega
    · obtain ⟨sent, hsent, hrtt⟩ := h.replies r hr hin
      exact ⟨sent, by rw [List.getElem?_append_left (List.getElem?_eq_some_iff.1 hsent).1, hsent],
        hrtt⟩
  · exact h

theorem send (h : Paired s) (ok : Bool) : Paired (s.send ok) := by
  obtain ⟨hbase, hpend, hev, hrep, hstored⟩ := h.sendKeepalive ok
  exact ⟨hbase, hpend, hev, hrep, hstored⟩

theorem pending_record (h : Paired s) (ev : Event) (hcr : s.crowded = false) :
    s.base + (s.record ev).answered.length ≤ s.sends.length ∧
      (s.record ev).b.pendingKA =
        (s.sends.drop (s.base + (s.record ev).answered.length)).map (·.at_) := by
  obtain ⟨hle, hpend⟩ := h.pending hcr
  simp only [KeepaliveRun.record, Binding.recordKeepalive]
  split
  · next hnil => exact ⟨hle, by rw [hnil] at hpend ⊢; exact hpend⟩
  · next hne =>
    have hlt : s.base + s.answered.length < s.sends.length := by
      rw [hpend, List.map_eq_nil_iff, List.drop_eq_nil_iff] at hne
      omega
    rw [hpend, List.drop_eq_getElem_cons hlt]
    simp only [List.length_append, List.length_cons, List.length_nil, List.map_cons, List.tail_cons]
    exact ⟨by omega, rfl⟩

/-- **A reply in step** takes the send time of its own keepalive. -/
theorem measured_inStep (h : Paired s) {ev : Event} (hev : ev.id < s.sends.length)
    (hin : s.InStep ev.id) :
    ∃ sent, s.sends[ev.id]? = some sent ∧ s.b.measured ev = roundTrip sent.at_ ev.at_ := by
  obtain ⟨hcr, hbase, hans⟩ := hin
  obtain ⟨-, hpend⟩ := h.pending hcr
  have hid : s.base + s.answered.length = ev.id := by
    rw [hans, List.length_range']
    omega
  rw [hid, List.drop_eq_getElem_cons hev] at hpend
  exact ⟨_, List.getElem?_eq_getElem hev, Binding.measured_cons ev hpend⟩

theorem record (h : Paired s) {ev : Event} (hev : ev.id < s.sends.length) :
    Paired (s.record ev) := by
  refine ⟨h.base, fun hcr => h.pending_record ev hcr, h.events, fun r hr hin => ?_, fun r hr => ?_⟩
  · rcases List.mem_append.1 hr with hr | hr
    · exact h.replies r hr hin
    · rw [List.mem_singleton.1 hr] at hin ⊢
      exact h.measured_inStep hev (of_decide_eq_true hin)
  · rcases List.mem_append.1 hr with hr | hr
    · exact h.stored r hr
    · rw [List.mem_singleton.1 hr]
      rfl

theorem step {op : KeepaliveOp} (h : Paired s) (hs : s.step op = some s') : Paired s' := by
  cases op with
  | tick d => cases hs; exact ⟨h.base, h.pending, h.events, h.replies, h.stored⟩
  | ack ok =>
    simp only [KeepaliveRun.step] at hs
    split at hs
    · cases hs
      have hstart : Paired { s with serving := true, unanswered := 0 } :=
        ⟨h.base, h.pending, h.events, h.replies, h.stored⟩
      exact hstart.send ok
    · cases hs
  | wake ok =>
    simp only [KeepaliveRun.step] at hs
    split at hs
    · split at hs
      · cases hs
        exact ⟨le_rfl, fun _ => ⟨le_rfl, by simp [Binding.resetBindingLocked]⟩, h.events, h.replies,
          h.stored⟩
      · cases hs
        exact h.send ok
    · cases hs
  | arrive id serverTS =>
    simp only [KeepaliveRun.step] at hs
    split at hs
    · next hid =>
      cases hs
      refine ⟨h.base, h.pending, fun ev hev => ?_, h.replies, h.stored⟩
      rcases List.mem_append.1 hev with hev | hev
      · exact h.events ev hev
      · rw [List.mem_singleton.1 hev]
        exact hid.2
    · cases hs
  | handle =>
    simp only [KeepaliveRun.step] at hs
    split at hs
    · cases hs
    · next ev events hevents =>
      have hrest : Paired { s with events := events } :=
        ⟨h.base, h.pending, fun e he => h.events e (hevents ▸ List.mem_cons_of_mem _ he), h.replies,
          h.stored⟩
      have hrec := hrest.record (h.events ev (hevents ▸ List.mem_cons_self))
      split at hs
      · cases hs; exact ⟨hrec.base, hrec.pending, hrec.events, hrec.replies, hrec.stored⟩
      · cases hs; exact hrec

end Paired

/-- **Replies in step are measured right**, in every run: the round trip stored
is arrival minus the send time of the keepalive answered, and the session's own
is that or stays. -/
theorem replies_measured (self : UUID) (now : ℤ) (ops : List KeepaliveOp) (s : KeepaliveRun)
    (hrun : exec KeepaliveRun.step (.init self now) ops = some s) :
    ∀ r ∈ s.replies, r.inStep = true →
      ∃ sent, s.sends[r.id]? = some sent ∧ r.rtt = roundTrip sent.at_ r.at_ ∧
        r.after = (roundTrip sent.at_ r.at_).getD r.before := by
  have h : Paired s := exec_invariant (fun _ _ _ h _ hs => h.step hs) (Paired.init self now)
    (Meets.trivial _ _ _) hrun
  intro r hr hin
  obtain ⟨sent, hsent, hrtt⟩ := h.replies r hr hin
  exact ⟨sent, hsent, hrtt, hrtt ▸ h.stored r hr⟩

section Examples

/-- The first reply comes after the second keepalive went out. -/
def slowRun : List KeepaliveOp :=
  [.ack true, .tick 5000000000, .wake true, .tick 1000000000, .arrive 0 42, .handle,
    .tick 500000000, .arrive 1 43, .handle]

theorem replies_measured_slow :
    ∃ s, exec KeepaliveRun.step (.init .nil 0) slowRun = some s ∧
      s.replies.map (fun r => (r.after, r.inStep)) =
        [(6000000000, true), (1500000000, true)] ∧
      ∀ r ∈ s.replies, r.inStep = true →
        ∃ sent, s.sends[r.id]? = some sent ∧ r.rtt = roundTrip sent.at_ r.at_ ∧
          r.after = (roundTrip sent.at_ r.at_).getD r.before :=
  ⟨_, rfl, by decide, replies_measured .nil 0 slowRun _ rfl⟩

/-- Every round trip stored is arrival minus the send time of the keepalive
answered. -/
def Exact (s : KeepaliveRun) : Prop :=
  ∀ r ∈ s.replies, ∀ rtt, r.rtt = some rtt →
    ∃ sent, s.sends[r.id]? = some sent ∧ rtt = r.at_ - sent.at_

/-- A reply within one tick of the clock. -/
def tickRun : List KeepaliveOp := [.ack true, .arrive 0 42, .handle]

/-- The first reply is lost, and two more keepalives are answered at once. -/
def lostRun : List KeepaliveOp :=
  [.ack true, .tick 5000000000, .wake true, .tick 100000000, .arrive 1 42, .handle,
    .tick 4900000000, .wake true, .tick 50000000, .arrive 2 43, .handle]

/-- **Two runs that are not exact.** A difference of zero is stored as a
microsecond, and after one lost reply every round trip is an interval too long. -/
theorem round_trips_inexact :
    (∃ s, exec KeepaliveRun.step (.init .nil 0) tickRun = some s ∧
      s.sends.map (·.at_) = [0] ∧ s.replies = [⟨0, 0, some 1000, true, 0, 1000⟩] ∧ ¬ Exact s) ∧
    (∃ s, exec KeepaliveRun.step (.init .nil 0) lostRun = some s ∧
      s.sends.map (·.at_) = [0, 5000000000, 10000000000] ∧
      s.replies = [⟨1, 5100000000, some 5100000000, false, 0, 5100000000⟩,
        ⟨2, 10050000000, some 5050000000, false, 5100000000, 5050000000⟩] ∧ ¬ Exact s) := by
  refine ⟨⟨_, rfl, by decide, by decide, fun h => ?_⟩, ⟨_, rfl, by decide, by decide, fun h => ?_⟩⟩
  · obtain ⟨sent, hsent, hrtt⟩ := h ⟨0, 0, some 1000, true, 0, 1000⟩ (by decide) 1000 rfl
    cases hsent
    exact absurd hrtt (by decide)
  · obtain ⟨sent, hsent, hrtt⟩ :=
      h ⟨1, 5100000000, some 5100000000, false, 0, 5100000000⟩ (by decide) 5100000000 rfl
    cases hsent
    exact absurd hrtt (by decide)

end Examples

end VcsClient.Voice
