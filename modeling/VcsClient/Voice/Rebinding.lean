import Mathlib.Data.List.Chain
import VcsClient.Voice.Lifecycle

/-!
# Losing a binding and finding another

What the loop goes through is a chain of phases (`Phase.Next`), and where it
stands says which phase came last (`Position`): a lost binding gets one ladder
on its socket and then, with no pause, a new socket; a failed first ladder waits.
The keepalives of a row are counted by the marks at the head of the record
(`Trailing`), so a binding is lost after exactly three.

What the loop takes from the queue carries the generation of its socket, not the
binding. An ACK of an earlier handshake ends a ladder it does not answer, and a
late reply is recorded on a binding it was not read on. `Fresh` leaves these
events out; without them every number visible in Connected is of that binding
(`binding_rules`).
-/

namespace VcsClient.Voice

open VcsClient.Lib

/-- What may follow what. An attempt to open a socket that fails is repeated
after a pause. -/
def Phase.Next : Phase → Phase → Prop
  | .opening g, .opened g' => g' = g + 1
  | .opening g, .failed g' _ => g' = g
  | .failed g t, .paused g' u => g' = g ∧ t + retryInterval ≤ u
  | .paused g _, .opening g' => g' = g
  | .opened g, .ladder g' rebinding => g' = g ∧ rebinding = false
  | .ladder g _, .connected g' => g' = g
  | .ladder g rebinding, .exhausted g' rebinding' _ => g' = g ∧ rebinding' = rebinding
  | .connected g, .lost g' => g' = g
  | .lost g, .ladder g' rebinding => g' = g ∧ rebinding = true
  | .exhausted g true _, .opening g' => g' = g
  | .exhausted g false t, .paused g' u => g' = g ∧ t + retryInterval ≤ u
  | _, _ => False

/-- What the loop is parked for. -/
def LifecyclePc.wait : LifecyclePc → Option Wait
  | .parked w _ => some w
  | _ => none

namespace Life

/-- The last three marks are keepalives attempted on this socket, and one more
interval has passed. -/
def Unanswered (p : Life) : Prop :=
  ∃ t₁ t₂ t₃ rest, p.marks = .attempt p.gen t₃ :: .attempt p.gen t₂ :: .attempt p.gen t₁ :: rest ∧
    t₃ + p.keepalive ≤ p.now

structure BindingRules (p : Life) : Prop where
  /-- The state becomes Connected on a HELLO_ACK of the current socket, received
  since the first HELLO of the ladder. -/
  acked : ∀ op p', p.step op = some p' → p.state ≠ .connected → p'.state = .connected →
    ∃ ev t, p.loop = .acked ev ∧ ev.kind = .helloAck ∧ ev.gen = p.gen ∧
      p.ladderStart = some t ∧ t ≤ ev.at_
  /-- The binding is declared lost when three keepalives went unanswered, -/
  lost : ∀ op p', p.step op = some p' → p.loop ≠ .lost → p'.loop = .lost → p.Unanswered
  /-- and then always. -/
  unanswered : ∀ gen n deadline, p.loop = .check (.keepalive gen n) deadline →
    p.Unanswered → ∀ p', p.step (.loop .go) = some p' → p'.loop = .lost
  phases : p.phases.IsChain Phase.Next
  /-- What is visible in Connected was read on this binding. -/
  measured : p.state = .connected → (p.b.rtt ≠ 0 → p.rttOf = p.binding) ∧
    (p.b.lastServerTS ≠ 0 → p.tsOf = p.binding)

/-- The event is no leftover of an earlier handshake or binding, or leaves no
trace. -/
def FreshEvent (p : Life) (ev : ControlEvent) : Wait → Prop
  | .rung gen _ => ev.gen = gen →
    (ev.kind = .helloAck → p.ladderStart.any (decide <| · ≤ ev.at_) = true) ∧
      (ev.kind = .keepaliveReply → ev.serverTS = 0)
  | .keepalive gen _ => ev.gen = gen → ev.kind = .keepaliveReply →
    ev.binding = p.binding ∨ ev.serverTS = 0 ∧ p.b.measured ev.reply = none
  | .retry => True

instance (p : Life) (ev : ControlEvent) : ∀ w, Decidable (p.FreshEvent ev w)
  | .rung gen _ => inferInstanceAs (Decidable (ev.gen = gen → _ ∧ _))
  | .keepalive gen _ => inferInstanceAs (Decidable (ev.gen = gen → _ → _ ∨ _ ∧ _))
  | .retry => .isTrue trivial

/-- The event the loop would take from the queue is fresh. -/
def FreshTake (p : Life) : Prop :=
  ∀ w ∈ p.loop.wait, ∀ ev ∈ p.events.head?, p.FreshEvent ev w

instance (p : Life) : Decidable p.FreshTake :=
  inferInstanceAs (Decidable (∀ w ∈ p.loop.wait, ∀ ev ∈ p.events.head?, p.FreshEvent ev w))

/-- What the loop takes from the queue is fresh. -/
def Fresh (p : Life) : LifeOp → Prop
  | .loop .take => p.FreshTake
  | _ => True

instance (p : Life) : ∀ op, Decidable (p.Fresh op)
  | .loop .take => inferInstanceAs (Decidable p.FreshTake)
  | .loop .go | .loop .signal | .loop (.fail _) | .loop (.write _) | .loop .done | .loop .timer
  | .tick _ | .voice .. | .txExit | .recv .. | .emit _ | .rxExit _ | .close _ | .closing
  | .deliver => .isTrue trivial

/-! ## Keepalives in a row -/

/-- The last `n` marks are keepalives attempted on this socket, and no more. -/
def Trailing (gen : ℕ) (marks : List KeepaliveMark) (n : ℕ) : Prop :=
  ∃ (ts : List ℤ) (rest : List KeepaliveMark), marks = ts.map (.attempt gen) ++ rest ∧
    ts.length = n ∧ ∀ g t r, rest ≠ .attempt g t :: r

section Trailing

variable {gen n : ℕ} {marks : List KeepaliveMark} {t : ℤ}

theorem trailing_zero {m : KeepaliveMark} (hm : ∀ g t, m ≠ .attempt g t) :
    Trailing gen (m :: marks) 0 :=
  ⟨[], m :: marks, rfl, rfl, fun g t _ he => hm g t (List.cons.inj he).1⟩

theorem Trailing.attempt (h : Trailing gen marks n) :
    Trailing gen (.attempt gen t :: marks) (n + 1) := by
  obtain ⟨ts, rest, rfl, rfl, hrest⟩ := h
  exact ⟨t :: ts, rest, rfl, rfl, hrest⟩

theorem Trailing.three (h : Trailing gen marks n) :
    3 ≤ n ↔ ∃ t₁ t₂ t₃ rest,
      marks = .attempt gen t₃ :: .attempt gen t₂ :: .attempt gen t₁ :: rest := by
  obtain ⟨ts, rest, rfl, rfl, hrest⟩ := h
  constructor
  · intro hn
    match ts, hn with
    | t₃ :: t₂ :: t₁ :: ts, _ => exact ⟨t₁, t₂, t₃, ts.map (.attempt gen) ++ rest, rfl⟩
  · rintro ⟨t₁, t₂, t₃, rest', he⟩
    match ts, he with
    | [], he => exact absurd he (hrest _ _ _)
    | [_], he => exact absurd (List.cons.inj he).2 (hrest _ _ _)
    | [_, _], he => exact absurd (List.cons.inj (List.cons.inj he).2).2 (hrest _ _ _)
    | _ :: _ :: _ :: ts, _ => simp

end Trailing

/-! ## Where the loop stands -/

/-- In the ladder of this socket. -/
def InLadder (p : Life) (last : Option Phase) (gen : ℕ) : Prop :=
  gen = p.gen ∧ last = some (.ladder p.gen p.rebinding)

/-- Serving, with `n` keepalives in a row. -/
def Serving (p : Life) (last : Option Phase) (gen n : ℕ) : Prop :=
  gen = p.gen ∧ last = some (.connected p.gen) ∧ p.rebinding = false ∧ Trailing p.gen p.marks n

/-- Something failed at `t`, and a pause follows. -/
def Pausing (p : Life) (last : Option Phase) (t : ℤ) : Prop :=
  (last = some (.exhausted p.gen false t) ∨ last = some (.failed p.gen t)) ∧ p.rebinding = false

def Waiting (p : Life) (last : Option Phase) (deadline : ℤ) : Wait → Prop
  | .rung gen _ => p.InLadder last gen
  | .keepalive gen n => p.Serving last gen n ∧
    ∀ g t rest, p.marks = .attempt g t :: rest → t + p.keepalive = deadline
  | .retry => ∃ t, p.Pausing last t ∧ t + retryInterval ≤ deadline

def Position (p : Life) (last : Option Phase) : LifecyclePc → Prop
  | .start => last = none ∧ p.rebinding = false
  | .opening | .dialed _ | .refused _ => last = some (.opening p.gen) ∧ p.rebinding = false
  | .replaced _ _ _ | .spawn _ _ => last = some (.opened p.gen) ∧ p.rebinding = false
  | .dialFailed _ => True
  | .reopenFailed _ => ∃ t ≤ p.now, last = some (.failed p.gen t) ∧ p.rebinding = false
  | .ladder | .currentGen => last = some (.opened p.gen) ∧ p.rebinding = false ∨
    last = some (.lost p.gen) ∧ p.rebinding = true
  | .hello gen _ => p.InLadder last gen
  | .enter (.rung gen _) => p.InLadder last gen
  | .enter (.keepalive gen n) => ∃ m, n = m + 1 ∧ p.Serving last gen m
  | .enter .retry => ∃ t ≤ p.now, p.Pausing last t
  | .check w deadline | .parked w deadline => p.Waiting last deadline w
  | .acked ev => ev.kind = .helloAck ∧ p.InLadder last ev.gen
  | .serve => p.Serving last p.gen 0
  | .keepalive gen n => p.Serving last gen n
  | .lost | .rebind => last = some (.lost p.gen) ∧ p.rebinding = false
  | .exhausted => ∃ t ≤ p.now, last = some (.exhausted p.gen false t) ∧ p.rebinding = false
  | .reopen => ((∃ t, last = some (.exhausted p.gen true t)) ∨ ∃ u, last = some (.paused p.gen u)) ∧
    p.rebinding = false
  | .stopped => True

structure Routed (p : Life) : Prop where
  chain : p.phases.IsChain Phase.Next
  position : p.Position p.phases.getLast? p.loop

theorem routed_init (self : UUID) (secret : List UInt8) (keepalive now : ℤ) :
    (init self secret keepalive now).Routed where
  chain := .nil
  position := ⟨rfl, rfl⟩

section Routed

variable {p p' : Life}

theorem Routed.append (h : p.Routed) (phase : Phase)
    (hphases : p'.phases = p.phases ++ [phase])
    (hnext : ∀ last, p.phases.getLast? = some last → last.Next phase)
    (hpos : p'.Position (some phase) p'.loop) : p'.Routed := by
  refine ⟨?_, ?_⟩
  · rw [hphases]
    refine List.isChain_append.2 ⟨h.chain, List.isChain_singleton _, fun x hx y hy => ?_⟩
    cases hy
    exact hnext x hx
  · rw [hphases, List.getLast?_concat]
    exact hpos

theorem Routed.stay (h : p.Routed) (hphases : p'.phases = p.phases)
    (hpos : p'.Position p.phases.getLast? p'.loop) : p'.Routed :=
  ⟨hphases ▸ h.chain, hphases ▸ hpos⟩

theorem Routed.expired {w : Wait} {deadline : ℤ} (h : p.Routed)
    (hw : p.Waiting p.phases.getLast? deadline w) (hd : deadline ≤ p.now) : (p.expired w).Routed := by
  cases w with
  | rung gen attempt =>
    obtain ⟨hgen, hlast⟩ := hw
    unfold Life.expired
    dsimp only
    split
    · exact h.stay rfl ⟨hgen, hlast⟩
    · have hnext : ∀ last, p.phases.getLast? = some last →
          last.Next (.exhausted p.gen p.rebinding p.now) := by
        intro last he
        rw [hlast] at he
        cases he
        exact ⟨rfl, rfl⟩
      split
      · next hr =>
        rw [hr] at hnext
        refine h.append (.exhausted p.gen true p.now) (by rw [hr]) hnext ?_
        exact ⟨.inl ⟨_, rfl⟩, rfl⟩
      · next hr =>
        have hr' : p.rebinding = false := by simpa using hr
        rw [hr'] at hnext
        refine h.append (.exhausted p.gen false p.now) (by rw [hr']) hnext ?_
        exact ⟨p.now, le_rfl, rfl, hr'⟩
  | keepalive gen n =>
    obtain ⟨⟨hgen, hlast, hr, htrail⟩, hdead⟩ := hw
    unfold Life.expired
    dsimp only
    split
    · refine h.append (.lost p.gen) rfl (fun last he => ?_) ⟨rfl, hr⟩
      rw [hlast] at he
      cases he
      rfl
    · exact h.stay rfl ⟨hgen, hlast, hr, htrail⟩
  | retry =>
    obtain ⟨t, ⟨hlast, hr⟩, hle⟩ := hw
    refine h.append (.paused p.gen p.now) rfl (fun last he => ?_) ⟨.inr ⟨_, rfl⟩, hr⟩
    rcases hlast with hlast | hlast
    · rw [hlast] at he
      cases he
      exact ⟨rfl, hle.trans hd⟩
    · rw [hlast] at he
      cases he
      exact ⟨rfl, hle.trans hd⟩

theorem Routed.onEvent {w : Wait} {deadline : ℤ} (h : p.Routed) (hl : p.loop = .parked w deadline)
    (ev : ControlEvent) (events : List ControlEvent) :
    ({ p with events := events }.onEvent deadline ev w).Routed := by
  have hw : p.Waiting p.phases.getLast? deadline w := by
    have := h.position
    rw [hl] at this
    exact this
  cases w with
  | rung gen attempt =>
    obtain ⟨hgen, hlast⟩ := hw
    unfold Life.onEvent
    dsimp only
    split
    · exact h.stay rfl ⟨hgen, hlast⟩
    · next hev =>
      split
      · next hk => exact h.stay rfl ⟨hk, (not_not.1 hev).trans hgen, hlast⟩
      · exact h.stay rfl ⟨hgen, hlast⟩
  | keepalive gen n =>
    obtain ⟨⟨hgen, hlast, hr, htrail⟩, hdead⟩ := hw
    unfold Life.onEvent
    dsimp only
    split
    · refine h.stay rfl ⟨⟨hgen, hlast, hr, trailing_zero (by simp)⟩, fun g t rest he => ?_⟩
      cases he
    · exact h.stay rfl ⟨⟨hgen, hlast, hr, htrail⟩, hdead⟩
  | retry => exact h.stay rfl hw

theorem Routed.loop {c : Choice} (h : p.Routed) (hm : p.LoopMoves c p') : p'.Routed := by
  obtain ⟨hchain, hpos⟩ := h
  have h : p.Routed := ⟨hchain, hpos⟩
  cases hm with
  | start hl =>
    rw [hl] at hpos
    obtain ⟨hlast, hr⟩ := hpos
    simp only [transition_eq]
    refine h.append _ rfl (fun last he => ?_) ⟨rfl, hr⟩
    rw [hlast] at he
    cases he
  | failed hl err =>
    rw [hl] at hpos
    obtain ⟨hlast, hr⟩ := hpos
    refine h.append _ rfl (fun last he => ?_) ?_
    · rw [hlast] at he
      cases he
      rfl
    · dsimp only
      split
      · exact ⟨p.now, le_rfl, rfl, hr⟩
      · trivial
  | gaveUp hl hd => exact h.stay rfl trivial
  | dialed hl | refused hl hc =>
    rw [hl] at hpos
    exact h.stay rfl hpos
  | installed hl hc =>
    rw [hl] at hpos
    obtain ⟨hlast, hr⟩ := hpos
    refine h.append _ rfl (fun last he => ?_) ⟨rfl, hr⟩
    rw [hlast] at he
    cases he
    rfl
  | closedOwn hl => exact h.stay rfl trivial
  | closedOld hl =>
    rw [hl] at hpos
    exact h.stay rfl hpos
  | spawned hl =>
    rw [hl] at hpos
    exact h.stay rfl (.inl hpos)
  | dialFailed hl =>
    rw [transition_eq]
    exact h.stay rfl trivial
  | reopenFailed hl =>
    rw [hl] at hpos
    obtain ⟨t, ht, hlast, hr⟩ := hpos
    rw [transition_eq]
    exact h.stay rfl ⟨t, ht, .inr hlast, hr⟩
  | ladder hl =>
    rw [hl] at hpos
    rw [transition_eq]
    exact h.stay rfl hpos
  | currentGen hl =>
    rw [hl] at hpos
    refine h.append _ rfl (fun last he => ?_) ⟨rfl, rfl⟩
    rcases hpos with ⟨hlast, hr⟩ | ⟨hlast, hr⟩
    · rw [hlast] at he
      cases he
      exact ⟨rfl, hr⟩
    · rw [hlast] at he
      cases he
      exact ⟨rfl, hr⟩
  | hello hl ok =>
    rw [hl] at hpos
    rw [sendLocked_eq]
    exact h.stay rfl hpos
  | interval hl =>
    rw [hl] at hpos
    obtain ⟨m, rfl, rfl, hlast, hr, htrail⟩ := hpos
    refine h.stay rfl ⟨⟨rfl, hlast, hr, htrail.attempt⟩, fun g t rest he => ?_⟩
    cases he
    rfl
  | @entered w hl hw =>
    rw [hl] at hpos
    cases w with
    | rung gen attempt => exact h.stay rfl hpos
    | keepalive gen n => exact absurd rfl (hw gen n)
    | retry =>
      obtain ⟨t, ht, hpause⟩ := hpos
      refine h.stay rfl ⟨t, hpause, ?_⟩
      have := Int.add_le_add_right ht retryInterval
      exact this
  | expired hl hd =>
    rw [hl] at hpos
    exact h.expired hpos hd
  | parked hl hd =>
    rw [hl] at hpos
    exact h.stay rfl hpos
  | ended hl hd => exact h.stay rfl trivial
  | took hl he => exact h.onEvent hl _ _
  | woke hl =>
    rw [hl] at hpos
    exact h.stay rfl hpos
  | connected hl =>
    rw [hl] at hpos
    obtain ⟨-, hgen, hlast⟩ := hpos
    simp only [transition_eq]
    refine h.append _ rfl (fun last he => ?_) ⟨rfl, rfl, rfl, trailing_zero (by simp)⟩
    rw [hlast] at he
    cases he
    rfl
  | serve hl =>
    rw [hl] at hpos
    exact h.stay rfl hpos
  | @keepalive gen n hl ok =>
    rw [hl] at hpos
    rw [sendKeepalive_eq]
    exact h.stay rfl ⟨n, rfl, hpos⟩
  | lost hl =>
    rw [hl] at hpos
    exact h.stay rfl hpos
  | rebind hl =>
    rw [hl] at hpos
    simp only [transition_eq]
    exact h.stay rfl (.inr ⟨hpos.1, rfl⟩)
  | exhausted hl =>
    rw [hl] at hpos
    obtain ⟨t, ht, hlast, hr⟩ := hpos
    rw [transition_eq]
    exact h.stay rfl ⟨t, ht, .inl hlast, hr⟩
  | reopen hl =>
    rw [hl] at hpos
    obtain ⟨hlast, hr⟩ := hpos
    simp only [transition_eq]
    refine h.append _ rfl (fun last he => ?_) ⟨rfl, hr⟩
    rcases hlast with ⟨t, hlast⟩ | ⟨u, hlast⟩
    · rw [hlast] at he
      cases he
      rfl
    · rw [hlast] at he
      cases he
      rfl

theorem Position.tick {last : Option Phase} {pc : LifecyclePc} {d : ℕ} (h : p.Position last pc) :
    Position { p with now := p.now + d } last pc := by
  have hle : ∀ t ≤ p.now, t ≤ p.now + d := fun t ht => by omega
  cases pc with
  | reopenFailed err =>
    obtain ⟨t, ht, h⟩ := h
    exact ⟨t, hle t ht, h⟩
  | exhausted =>
    obtain ⟨t, ht, h⟩ := h
    exact ⟨t, hle t ht, h⟩
  | enter w =>
    cases w with
    | retry =>
      obtain ⟨t, ht, h⟩ := h
      exact ⟨t, hle t ht, h⟩
    | rung gen attempt => exact h
    | keepalive gen n => exact h
  | check w deadline => cases w <;> exact h
  | parked w deadline => cases w <;> exact h
  | _ => exact h

theorem Routed.moves {op : LifeOp} (h : p.Routed) (hm : p.Moves op p') : p'.Routed := by
  cases hm with
  | loop ho hm => exact h.loop hm
  | tick d => exact ⟨h.chain, h.position.tick⟩
  | published hc => rw [setState_eq]; exact { h with }
  | _ => exact { h with }

end Routed

/-! ## Connected and lost -/

section Verdicts

variable {p p' : Life} {op : LifeOp}

theorem loop_connected {c : Choice} (hm : p.LoopMoves c p') (hne : p.state ≠ .connected)
    (hc : p'.state = .connected) : ∃ ev, p.loop = .acked ev := by
  cases hm with
  | connected hl => exact ⟨_, hl⟩
  | start hl | dialFailed hl | reopenFailed hl | ladder hl | rebind hl | exhausted hl | reopen hl =>
    simp only [transition_eq] at hc
    split at hc
    · exact absurd hc hne
    · cases hc
  | hello hl ok =>
    rw [sendLocked_eq] at hc
    exact absurd hc hne
  | keepalive hl ok =>
    rw [sendKeepalive_eq] at hc
    exact absurd hc hne
  | @expired w deadline hl hd =>
    obtain ⟨pc, rebinding, phases, he⟩ := p.expired_frame w
    rw [he] at hc
    exact absurd hc hne
  | @took w deadline hl ev events he =>
    obtain ⟨pc, b, r, t, m, he⟩ := { p with events := events }.onEvent_frame deadline ev w
    rw [he] at hc
    exact absurd hc hne
  | _ => exact absurd hc hne

theorem becomes_connected (hm : p.Moves op p') (hne : p.state ≠ .connected)
    (hc : p'.state = .connected) : ∃ ev, p.loop = .acked ev := by
  cases hm with
  | loop ho hm => exact loop_connected hm hne hc
  | published hcl =>
    rw [setState_eq] at hc
    dsimp only at hc
    split at hc
    · exact absurd hc hne
    · cases hc
  | _ => exact absurd hc hne

/-- Only a serving loop whose interval is over declares the binding lost. -/
theorem loop_lost {c : Choice} (hm : p.LoopMoves c p') (hc : p'.loop = .lost) :
    ∃ gen n deadline, p.loop = .check (.keepalive gen n) deadline ∧ deadline ≤ p.now ∧ 3 ≤ n := by
  cases hm with
  | @expired w deadline hl hd =>
    cases w with
    | rung gen attempt =>
      unfold Life.expired at hc
      dsimp only at hc
      split at hc
      · cases hc
      · split at hc <;> cases hc
    | keepalive gen n =>
      unfold Life.expired at hc
      dsimp only at hc
      split at hc
      · next hn => exact ⟨gen, n, deadline, hl, hd, hn⟩
      · cases hc
    | retry => cases hc
  | @took w deadline hl ev events he =>
    cases w with
    | rung gen attempt =>
      unfold Life.onEvent at hc
      dsimp only at hc
      split at hc
      · cases hc
      · split at hc <;> cases hc
    | keepalive gen n =>
      unfold Life.onEvent at hc
      dsimp only at hc
      split at hc <;> cases hc
    | retry => cases hc
  | failed hl err =>
    dsimp only at hc
    split at hc <;> cases hc
  | start | dialFailed | reopenFailed | ladder | connected | rebind | exhausted | reopen =>
    simp only [transition_eq] at hc
    cases hc
  | hello hl ok =>
    rw [sendLocked_eq] at hc
    cases hc
  | keepalive hl ok =>
    rw [sendKeepalive_eq] at hc
    cases hc
  | _ => cases hc

theorem becomes_lost (hm : p.Moves op p') (hne : p.loop ≠ .lost) (hc : p'.loop = .lost) :
    ∃ gen n deadline, p.loop = .check (.keepalive gen n) deadline ∧ deadline ≤ p.now ∧ 3 ≤ n := by
  cases hm with
  | loop ho hm => exact loop_lost hm hc
  | published hcl =>
    rw [setState_eq] at hc
    exact absurd hc hne
  | _ => exact absurd hc hne

/-- At the end of an interval three in a row are unanswered. -/
theorem Routed.unanswered_iff {gen n : ℕ} {deadline : ℤ} (h : p.Routed)
    (hl : p.loop = .check (.keepalive gen n) deadline) :
    p.Unanswered ↔ 3 ≤ n ∧ deadline ≤ p.now := by
  have hpos := h.position
  rw [hl] at hpos
  obtain ⟨⟨-, -, -, htrail⟩, hdead⟩ := hpos
  constructor
  · rintro ⟨t₁, t₂, t₃, rest, hmarks, hle⟩
    exact ⟨htrail.three.2 ⟨t₁, t₂, t₃, rest, hmarks⟩, hdead _ _ _ hmarks ▸ hle⟩
  · rintro ⟨hn, hle⟩
    obtain ⟨t₁, t₂, t₃, rest, hmarks⟩ := htrail.three.1 hn
    exact ⟨t₁, t₂, t₃, rest, hmarks, hdead _ _ _ hmarks ▸ hle⟩

theorem Routed.declares {gen n : ℕ} {deadline : ℤ} (h : p.Routed)
    (hl : p.loop = .check (.keepalive gen n) deadline) (hu : p.Unanswered)
    (hs : p.step (.loop .go) = some p') : p'.loop = .lost := by
  obtain ⟨hn, hd⟩ := (h.unanswered_iff hl).1 hu
  rcases step_loop hs with ⟨hc, -, -⟩ | ⟨ho, -⟩
  · cases hc
  rw [step_eq_loopStep (c := .go) ho nofun, hl] at hs
  change (if deadline ≤ p.now then some _ else some _) = some p' at hs
  rw [if_pos hd] at hs
  cases hs
  unfold Life.expired
  simp only [bindingLossThreshold, ge_iff_le, if_pos hn]

end Verdicts

/-! ## What is measured on a binding -/

end Life

/-- The binding was reset, and is not established again. -/
def LifecyclePc.unbound : LifecyclePc → Bool
  | .replaced _ _ _ | .spawn _ _ | .ladder | .currentGen | .hello _ _ | .enter (.rung _ _)
  | .check (.rung _ _) _ | .parked (.rung _ _) _ | .acked _ | .rebind => true
  | _ => false

namespace Life

/-- The round trip and the timestamp were read on this binding. -/
def Current (p : Life) : Prop :=
  (p.b.rtt ≠ 0 → p.rttOf = p.binding) ∧ (p.b.lastServerTS ≠ 0 → p.tsOf = p.binding)

structure Unmixed (p : Life) : Prop where
  clean : p.loop.unbound = true → p.b = .resetBindingLocked
  current : p.Current
  acked : ∀ ev, p.loop = .acked ev → ∃ t, p.ladderStart = some t ∧ t ≤ ev.at_

theorem unmixed_init (self : UUID) (secret : List UInt8) (keepalive now : ℤ) :
    (init self secret keepalive now).Unmixed where
  clean hu := by cases hu
  current := ⟨fun h => absurd rfl h, fun h => absurd rfl h⟩
  acked ev he := by cases he

section Unmixed

variable {p p' : Life} {op : LifeOp}

theorem Current.of_reset (hb : p.b = .resetBindingLocked) : p.Current := by
  unfold Current
  rw [hb]
  exact ⟨fun h => absurd rfl h, fun h => absurd rfl h⟩

/-- A reply without a timestamp leaves a reset binding as it is. -/
theorem record_reset {ev : Event} (hts : ev.serverTS = 0) :
    Binding.recordKeepalive .resetBindingLocked ev = .resetBindingLocked := by
  simp [Binding.recordKeepalive, Binding.resetBindingLocked, Binding.measured, hts]

theorem Current.record {ev : ControlEvent} (h : p.Current)
    (hfresh : ev.binding = p.binding ∨ ev.serverTS = 0 ∧ p.b.measured ev.reply = none) :
    (p.record ev).Current := by
  obtain ⟨hrtt, hts⟩ := h
  refine ⟨fun hne => ?_, fun hne => ?_⟩
  · change (if p.b.measured ev.reply = none then p.rttOf else ev.binding) = p.binding
    change (p.b.measured ev.reply).getD p.b.rtt ≠ 0 at hne
    split
    · next hm =>
      rw [hm] at hne
      exact hrtt hne
    · next hm => exact hfresh.resolve_right fun hf => hm hf.2
  · change (if ev.serverTS = 0 then p.tsOf else ev.binding) = p.binding
    change (if ev.serverTS ≠ 0 then ev.serverTS else p.b.lastServerTS) ≠ 0 at hne
    split
    · next hz =>
      rw [if_neg (by simpa using hz)] at hne
      exact hts hne
    · next hz => exact hfresh.resolve_right fun hf => hz hf.1

theorem Unmixed.onEvent {w : Wait} {deadline : ℤ} {ev : ControlEvent} (h : p.Unmixed)
    (hl : p.loop = .parked w deadline) (hf : p.FreshEvent ev w) (events : List ControlEvent) :
    ({ p with events := events }.onEvent deadline ev w).Unmixed := by
  cases w with
  | rung gen attempt =>
    have hb : p.b = .resetBindingLocked := h.clean (by rw [hl]; rfl)
    unfold Life.onEvent
    dsimp only
    split
    · exact ⟨fun _ => hb, h.current, nofun⟩
    · next hgen =>
      obtain ⟨hack, hreply⟩ := hf (not_not.1 hgen)
      split
      · next hk =>
        refine ⟨fun _ => hb, h.current, fun ev' he => ?_⟩
        cases he
        obtain ⟨t, ht, hle⟩ := (Option.any_eq_true _ _).1 (hack hk)
        exact ⟨t, ht, of_decide_eq_true hle⟩
      · next hk =>
        have hrec : p.b.recordKeepalive ev.reply = .resetBindingLocked := by
          rw [hb]
          exact record_reset (hreply hk)
        exact ⟨fun _ => hrec, Current.of_reset hrec, nofun⟩
  | keepalive gen n =>
    unfold Life.onEvent
    dsimp only
    split
    · next hmatch =>
      exact ⟨nofun, h.current.record (hf hmatch.1 hmatch.2), nofun⟩
    · exact ⟨nofun, h.current, nofun⟩
  | retry => exact ⟨nofun, h.current, nofun⟩

theorem Unmixed.expired {w : Wait} {deadline : ℤ} (h : p.Unmixed)
    (hl : p.loop = .check w deadline) : (p.expired w).Unmixed := by
  cases w with
  | rung gen attempt =>
    have hb : p.b = .resetBindingLocked := h.clean (by rw [hl]; rfl)
    unfold Life.expired
    dsimp only
    split
    · exact ⟨fun _ => hb, h.current, nofun⟩
    · split
      · exact ⟨nofun, h.current, nofun⟩
      · exact ⟨nofun, h.current, nofun⟩
  | keepalive gen n =>
    unfold Life.expired
    dsimp only
    split
    · exact ⟨nofun, h.current, nofun⟩
    · exact ⟨nofun, h.current, nofun⟩
  | retry => exact ⟨nofun, h.current, nofun⟩

theorem Unmixed.loop {c : Choice} (h : p.Unmixed) (hf : p.Fresh (.loop c))
    (hm : p.LoopMoves c p') : p'.Unmixed := by
  cases hm with
  | installed hl hc => exact ⟨fun _ => rfl, Current.of_reset rfl, nofun⟩
  | lost hl => exact ⟨fun _ => rfl, Current.of_reset rfl, nofun⟩
  | connected hl =>
    have hb : p.b = .resetBindingLocked := h.clean (by rw [hl]; rfl)
    simp only [transition_eq]
    exact ⟨nofun, Current.of_reset hb, nofun⟩
  | closedOld hl | spawned hl | currentGen hl =>
    exact ⟨fun _ => h.clean (by rw [hl]; rfl), h.current, nofun⟩
  | ladder hl =>
    rw [transition_eq]
    exact ⟨fun _ => h.clean (by rw [hl]; rfl), h.current, nofun⟩
  | rebind hl =>
    simp only [transition_eq]
    exact ⟨fun _ => h.clean (by rw [hl]; rfl), h.current, nofun⟩
  | hello hl ok =>
    rw [sendLocked_eq]
    exact ⟨fun _ => h.clean (by rw [hl]; rfl), h.current, nofun⟩
  | keepalive hl ok =>
    rw [sendKeepalive_eq]
    refine ⟨nofun, ?_, nofun⟩
    unfold Current
    dsimp only
    split <;> exact h.current
  | @entered w hl hw =>
    refine ⟨fun hu => ?_, h.current, nofun⟩
    cases w with
    | rung gen attempt => exact h.clean (by rw [hl]; rfl)
    | keepalive gen n => cases hu
    | retry => cases hu
  | @parked w deadline hl hd =>
    refine ⟨fun hu => ?_, h.current, nofun⟩
    cases w with
    | rung gen attempt => exact h.clean (by rw [hl]; rfl)
    | keepalive gen n => cases hu
    | retry => cases hu
  | @woke w deadline hl =>
    refine ⟨fun hu => ?_, h.current, nofun⟩
    cases w with
    | rung gen attempt => exact h.clean (by rw [hl]; rfl)
    | keepalive gen n => cases hu
    | retry => cases hu
  | expired hl hd => exact h.expired hl
  | @took w deadline hl ev events he =>
    refine h.onEvent hl ?_ events
    exact hf w (by rw [hl]; rfl) ev (by rw [he]; rfl)
  | failed hl err =>
    refine ⟨fun hu => ?_, h.current, fun ev he => ?_⟩
    · dsimp only at hu
      split at hu <;> cases hu
    · dsimp only at he
      split at he <;> cases he
  | start hl | dialFailed hl | reopenFailed hl | exhausted hl | reopen hl =>
    simp only [transition_eq]
    exact ⟨nofun, h.current, nofun⟩
  | gaveUp | dialed | refused | closedOwn | interval | ended | serve =>
    exact ⟨nofun, h.current, nofun⟩

theorem Unmixed.moves (h : p.Unmixed) (hf : p.Fresh op) (hm : p.Moves op p') : p'.Unmixed := by
  cases hm with
  | loop ho hm => exact h.loop hf hm
  | published hc => rw [setState_eq]; exact { h with }
  | _ => exact { h with }

end Unmixed

/-! ## The rules -/

theorem binding_rules_of {p : Life} (hR : p.Routed) (hU : p.Unmixed) : p.BindingRules where
  acked op p' hs hne hc := by
    obtain ⟨ev, hl⟩ := becomes_connected (step_moves hs) hne hc
    have hpos := hR.position
    rw [hl] at hpos
    obtain ⟨t, ht, hle⟩ := hU.acked ev hl
    exact ⟨ev, t, hl, hpos.1, hpos.2.1, ht, hle⟩
  lost op p' hs hne hc := by
    obtain ⟨gen, n, deadline, hl, hd, hn⟩ := becomes_lost (step_moves hs) hne hc
    exact (hR.unanswered_iff hl).2 ⟨hn, hd⟩
  unanswered gen n deadline hl hu p' hs := hR.declares hl hu hs
  phases := hR.chain
  measured _ := hU.current

end Life

/-- **The binding rules** hold along every run in which the loop takes no
leftover of an earlier handshake or binding from its queue. -/
theorem binding_rules (self : UUID) (secret : List UInt8) (keepalive now : ℤ)
    (ops : List LifeOp) (p : Life)
    (hfresh : Meets Life.step Life.Fresh (.init self secret keepalive now) ops)
    (hrun : exec Life.step (.init self secret keepalive now) ops = some p) : p.BindingRules := by
  have h : p.Routed ∧ p.Unmixed := exec_invariant
    (I := fun p : Life => p.Routed ∧ p.Unmixed)
    (fun _ _ _ h hf hs =>
      ⟨h.1.moves (Life.step_moves hs), h.2.moves hf (Life.step_moves hs)⟩)
    ⟨Life.routed_init self secret keepalive now, Life.unmixed_init self secret keepalive now⟩
    hfresh hrun
  exact Life.binding_rules_of h.1 h.2

/-- `Dial` and the first HELLO. -/
def firstHello : List LifeOp :=
  [.loop .go, .loop .signal, .loop .go, .loop .go, .loop .go, .loop .go,
    .loop .go, .loop .signal, .loop .go, .loop (.write true), .loop .go, .loop .go]

def helloAcked : List LifeOp := [.recv 1 .helloAck 0, .emit 1, .loop .take]

/-- An interval in which nothing is taken from the queue. -/
def silentInterval : List LifeOp :=
  [.loop (.write true), .loop .go, .tick 5000000000, .loop .go]

/-- Three intervals go by, and the binding is lost and bound anew up to the HELLO. -/
def lostBinding : List LifeOp :=
  [.loop .go, .loop .signal, .loop .go] ++ silentInterval ++ silentInterval ++ silentInterval ++
    [.loop .go, .loop .go, .loop .signal, .loop .go, .loop .signal, .loop .go, .loop (.write true),
      .loop .go, .loop .go]

theorem binding_rules_rebound : ∃ p, exec Life.step (.init .nil [] defaultKeepalive 0)
    (firstHello ++ helloAcked ++ lostBinding ++ helloAcked ++ [.loop .go]) = some p ∧
      p.state = .connected ∧ p.binding = 2 ∧ p.BindingRules := by
  have hrun : (exec Life.step (.init .nil [] defaultKeepalive 0)
      (firstHello ++ helloAcked ++ lostBinding ++ helloAcked ++ [.loop .go])).map
        (fun p => (p.state, p.binding)) = some (.connected, 2) := by decide +kernel
  obtain ⟨p, hp, hv⟩ := Option.map_eq_some_iff.1 hrun
  exact ⟨p, hp, congrArg Prod.fst hv, congrArg Prod.snd hv,
    binding_rules .nil [] defaultKeepalive 0 _ p (by decide +kernel) hp⟩

/-- **A second ACK of the first handshake** waits in the queue while the binding
is lost, and ends the ladder after it. -/
theorem stale_ack_connects : ∃ p, exec Life.step (.init .nil [] defaultKeepalive 0)
    (firstHello ++ helloAcked ++ [.recv 1 .helloAck 0, .emit 1] ++ lostBinding ++
      [.loop .take]) = some p ∧ ¬p.BindingRules := by
  have hrun : (exec Life.step (.init .nil [] defaultKeepalive 0)
      (firstHello ++ helloAcked ++ [.recv 1 .helloAck 0, .emit 1] ++ lostBinding ++
        [.loop .take])).map (fun p => (p.loop, p.ladderStart, p.state, p.loopOwes, p.cbFinal)) =
      some (.acked ⟨.helloAck, 1, 0, 0, 0⟩, some 15000000000, .handshaking, false, false) := by
    decide +kernel
  obtain ⟨p, hp, hv⟩ := Option.map_eq_some_iff.1 hrun
  simp only [Prod.mk.injEq] at hv
  obtain ⟨hl, hstart, hstate, howes, hfinal⟩ := hv
  refine ⟨p, hp, fun h => ?_⟩
  have hstep : ∃ p', p.step (.loop .go) = some p' ∧ p'.state = .connected := by
    rw [Life.step_eq_loopStep (c := .go) howes nofun, hl]
    refine ⟨_, rfl, ?_⟩
    simp [Life.transition_eq, hfinal]
  obtain ⟨p', hs, hc⟩ := hstep
  obtain ⟨ev, t, hl', -, -, ht, hle⟩ := h.acked _ p' hs (by rw [hstate]; simp) hc
  rw [hl] at hl'
  cases hl'
  rw [hstart] at ht
  cases ht
  exact absurd hle (by decide)

end VcsClient.Voice
