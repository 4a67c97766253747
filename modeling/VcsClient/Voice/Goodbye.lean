import VcsClient.Lib.Listing
import VcsClient.Voice.Lifecycle

/-!
# Nothing after goodbye

`Close` writes its BYE and marks the session closed in one locked section, and
every other write checks the mark in its own (`Wired`). A socket that is not
closed is the session's or in the hands of the goroutine about to close it
(`Sockets`). Transitions are queued under the lock and delivered in order, and
the wake-up that is dropped on a full channel finds the delivery goroutine awake
or about to be (`Published`).
-/

namespace VcsClient.Voice

open VcsClient.Lib

/-- The socket the loop is about to close or to install. -/
def LifecyclePc.holds : LifecyclePc → List ℕ
  | .dialed sock | .refused sock => [sock]
  | .replaced old _ _ => old.toList
  | _ => []

def ShutdownPc.holds : ShutdownPc → List ℕ
  | .closed conn | .stopping conn => conn.toList
  | _ => []

/-- The other goroutines have been joined. -/
def ShutdownPc.joinedAll : ShutdownPc → Bool
  | .joined | .signalling | .returned => true
  | _ => false

def CallbackPc.inHand : CallbackPc → List StateChange
  | .calling c => [c]
  | _ => []

namespace Life

def IsBye (e : ℕ × Packet) : Prop := e.2.type = packetTypeBye

def IsClosed (c : StateChange) : Prop := c.st = .closed

instance : DecidablePred IsClosed := fun c => inferInstanceAs (Decidable (c.st = .closed))

/-- What holds of every run, and once the session is closed. -/
structure Goodbye (p : Life) : Prop where
  /-- After the BYE nothing is written on any socket. -/
  byeLast : OnlyLast IsBye p.wire
  closedLast : OnlyLast IsClosed p.committed
  delivered : p.delivered <+: p.committed
  /-- The delivery goroutine goes to sleep only when all is delivered. -/
  caughtUp : p.deliver = .waiting → p.cbSignal = false → p.owes = false →
    p.delivered = p.committed
  /-- `Close` has returned: every socket is closed, and so is the state, once. -/
  sockets : p.closer = .returned → ∀ sock < p.opened, sock ∈ p.shut
  closedOnce : p.closer = .returned → p.committed.countP (decide <| IsClosed ·) = 1
  /-- Once `Close` is called nothing is left undone. -/
  finishes : p.closer ≠ .idle → p.Quiescent → p.closer = .returned ∧ p.delivered = p.committed

/-! ## The wire -/

structure Wired (p : Life) : Prop where
  last : OnlyLast IsBye p.wire
  none : p.closed = false → ∀ e ∈ p.wire, ¬IsBye e

section Wired

variable {p p' : Life} {packet : Packet} {ok : Bool}

theorem mem_puts {e : ℕ × Packet} (he : e ∈ p.puts packet ok) : e.2 = packet := by
  unfold puts at he
  split at he
  · obtain ⟨sock, -, rfl⟩ := List.mem_map.1 he
    rfl
  · cases he

/-- A packet that is no BYE goes out before the BYE, or not at all. -/
theorem Wired.write (h : p.Wired) (hp : packet.type ≠ packetTypeBye)
    (hwire : p'.wire = p.wire ++ p.puts packet ok) (hclosed : p'.closed = p.closed) :
    p'.Wired := by
  cases hc : p.closed with
  | true =>
    rw [puts_closed hc, List.append_nil] at hwire
    exact ⟨hwire ▸ h.last, fun hopen => by rw [hclosed, hc] at hopen; cases hopen⟩
  | false =>
    have hnone : ∀ e ∈ p'.wire, ¬IsBye e := by
      intro e he
      rw [hwire, List.mem_append] at he
      rcases he with he | he
      · exact h.none hc e he
      · exact fun hb => hp (mem_puts he ▸ hb)
    exact ⟨.of_none hnone, fun _ => hnone⟩

theorem Wired.bye (h : p.Wired) (hwire : p'.wire = p.wire ++ p.puts (newBye p.self) ok)
    (hclosed : p'.closed = true) : p'.Wired := by
  refine ⟨?_, fun hopen => by rw [hclosed] at hopen; cases hopen⟩
  rw [hwire]
  cases hc : p.closed with
  | true =>
    rw [puts_closed hc, List.append_nil]
    exact h.last
  | false =>
    unfold puts
    split
    · cases p.conn with
      | none => simpa using h.last
      | some sock => exact .concat (h.none hc)
    · simpa using h.last

theorem Wired.loop (h : p.Wired) {c : Choice} (hm : p.LoopMoves c p') : p'.Wired := by
  cases hm with
  | hello hl ok =>
    rw [sendLocked_eq]
    exact h.write (show packetTypeHello ≠ packetTypeBye by decide) rfl rfl
  | keepalive hl ok =>
    rw [sendKeepalive_eq]
    exact h.write (show packetTypeKeepalive ≠ packetTypeBye by decide) rfl rfl
  | @expired w deadline hl hd =>
    obtain ⟨pc, rebinding, phases, he⟩ := p.expired_frame w
    rw [he]
    exact { h with }
  | @took w deadline hl ev events he =>
    obtain ⟨pc, b, r, t, m, he⟩ := { p with events := events }.onEvent_frame deadline ev w
    rw [he]
    exact { h with }
  | start | dialFailed | reopenFailed | ladder | connected | rebind | exhausted | reopen =>
    simp only [transition_eq]
    exact { h with }
  | _ => exact { h with }

theorem Wired.moves (h : p.Wired) {op : LifeOp} (hm : p.Moves op p') : p'.Wired := by
  cases hm with
  | loop ho hm => exact h.loop hm
  | voice => exact h.write (show packetTypeVoice ≠ packetTypeBye by decide) rfl rfl
  | close hs hc ok => exact h.bye rfl rfl
  | published hc => rw [setState_eq]; exact { h with }
  | _ => exact { h with }

end Wired

/-! ## The sockets -/

/-- A socket that is not closed has someone to close it. -/
structure Sockets (p : Life) : Prop where
  held : ∀ sock < p.opened, sock ∈ p.shut ∨ p.conn = some sock ∨ sock ∈ p.loop.holds ∨
    sock ∈ p.closer.holds
  unbound : p.closed = true → p.conn = none

/-- How far the closing goroutine has come. -/
structure Closing (p : Life) : Prop where
  closed : p.closer = .idle ↔ p.closed = false
  started : p.closer ≠ .idle → p.started = true
  done : p.closer ≠ .idle → (∀ conn, p.closer ≠ .closed conn) → p.done = true
  stopped : p.closer.joinedAll = true → p.loop = .stopped ∧ p.loopOwes = false
  final : p.closer = .signalling ∨ p.closer = .returned → p.cbFinal = true

section Sockets

variable {p p' : Life}

theorem Sockets.of_eq (h : p.Sockets) (hopened : p'.opened = p.opened) (hconn : p'.conn = p.conn)
    (hclosed : p'.closed = p.closed) (hshut : ∀ sock ∈ p.shut, sock ∈ p'.shut)
    (hloop : ∀ sock ∈ p.loop.holds, sock ∈ p'.loop.holds ∨ sock ∈ p'.shut)
    (hcloser : ∀ sock ∈ p.closer.holds, sock ∈ p'.closer.holds ∨ sock ∈ p'.shut) :
    p'.Sockets := by
  refine ⟨fun sock hlt => ?_, fun hc => ?_⟩
  · rw [hconn]
    rcases h.held sock (hopened ▸ hlt) with hs | hs | hs | hs
    · exact .inl (hshut sock hs)
    · exact .inr (.inl hs)
    · exact (hloop sock hs).elim (fun hs => .inr (.inr (.inl hs))) .inl
    · exact (hcloser sock hs).elim (fun hs => .inr (.inr (.inr hs))) .inl
  · rw [hconn]
    exact h.unbound (hclosed ▸ hc)

theorem Sockets.keep (h : p.Sockets) (hopened : p'.opened = p.opened) (hconn : p'.conn = p.conn)
    (hclosed : p'.closed = p.closed) (hshut : p'.shut = p.shut) (hcloser : p'.closer = p.closer)
    (hloop : p.loop.holds = []) : p'.Sockets :=
  h.of_eq hopened hconn hclosed (fun _ hs => hshut ▸ hs) (fun _ hs => by rw [hloop] at hs; cases hs)
    fun _ hs => .inl (hcloser ▸ hs)

theorem Sockets.loop (h : p.Sockets) {c : Choice} (hm : p.LoopMoves c p') : p'.Sockets := by
  cases hm with
  | dialed hl =>
    refine ⟨fun sock hlt => ?_, h.unbound⟩
    rcases Nat.lt_succ_iff_lt_or_eq.1 hlt with hlt | rfl
    · rcases h.held sock hlt with hs | hs | hs | hs
      · exact .inl hs
      · exact .inr (.inl hs)
      · rw [hl] at hs
        cases hs
      · exact .inr (.inr (.inr hs))
    · exact .inr (.inr (.inl List.mem_cons_self))
  | @refused sock hl hc =>
    refine h.of_eq rfl rfl rfl (fun _ hs => hs) (fun s hs => ?_) fun _ hs => .inl hs
    rw [hl] at hs
    exact .inl hs
  | @installed sock hl hc =>
    refine ⟨fun s hlt => ?_, fun hc' => by rw [hc] at hc'; cases hc'⟩
    rcases h.held s hlt with hs | hs | hs | hs
    · exact .inl hs
    · exact .inr (.inr (.inl (by simp [LifecyclePc.holds, hs])))
    · rw [hl] at hs
      exact .inr (.inl (congrArg some (List.mem_singleton.1 hs).symm))
    · exact .inr (.inr (.inr hs))
  | @closedOwn sock hl =>
    refine h.of_eq rfl rfl rfl (fun _ hs => List.mem_append_left _ hs) (fun s hs => ?_)
      fun _ hs => .inl hs
    rw [hl] at hs
    exact .inr (List.mem_append_right _ hs)
  | @closedOld old sock gen hl =>
    refine h.of_eq rfl rfl rfl (fun _ hs => List.mem_append_left _ hs) (fun s hs => ?_)
      fun _ hs => .inl hs
    rw [hl] at hs
    exact .inr (List.mem_append_right _ hs)
  | hello hl ok =>
    rw [sendLocked_eq]
    exact h.keep rfl rfl rfl rfl rfl (by rw [hl]; rfl)
  | keepalive hl ok =>
    rw [sendKeepalive_eq]
    exact h.keep rfl rfl rfl rfl rfl (by rw [hl]; rfl)
  | @expired w deadline hl hd =>
    obtain ⟨pc, rebinding, phases, he⟩ := p.expired_frame w
    rw [he]
    exact h.keep rfl rfl rfl rfl rfl (by rw [hl]; rfl)
  | @took w deadline hl ev events he =>
    obtain ⟨pc, b, r, t, m, he⟩ := { p with events := events }.onEvent_frame deadline ev w
    rw [he]
    exact h.keep rfl rfl rfl rfl rfl (by rw [hl]; rfl)
  | start hl | dialFailed hl | reopenFailed hl | ladder hl | connected hl | rebind hl
  | exhausted hl | reopen hl =>
    simp only [transition_eq]
    exact h.keep rfl rfl rfl rfl rfl (by rw [hl]; rfl)
  | failed hl | gaveUp hl | spawned hl | currentGen hl | interval hl | entered hl | parked hl
  | ended hl | woke hl | serve hl | lost hl =>
    exact h.keep rfl rfl rfl rfl rfl (by rw [hl]; rfl)

theorem Sockets.moves (h : p.Sockets) {op : LifeOp} (hm : p.Moves op p') : p'.Sockets := by
  cases hm with
  | loop ho hm => exact h.loop hm
  | close hs hc ok =>
    refine ⟨fun sock hlt => ?_, fun _ => rfl⟩
    rcases h.held sock hlt with hs | hs | hs | hs
    · exact .inl hs
    · exact .inr (.inr (.inr (by simp [ShutdownPc.holds, hs])))
    · exact .inr (.inr (.inl hs))
    · rw [hc] at hs
      cases hs
  | @done conn hc =>
    refine h.of_eq rfl rfl rfl (fun _ hs => hs) (fun _ hs => .inl hs) fun s hs => .inl ?_
    rw [hc] at hs
    exact hs
  | @shut conn hc =>
    refine h.of_eq rfl rfl rfl (fun _ hs => List.mem_append_left _ hs) (fun _ hs => .inl hs)
      fun s hs => .inr (List.mem_append_right _ ?_)
    rw [hc] at hs
    exact hs
  | joined hc =>
    refine h.of_eq rfl rfl rfl (fun _ hs => hs) (fun _ hs => .inl hs) fun s hs => ?_
    rw [hc] at hs
    cases hs
  | published hc =>
    rw [setState_eq]
    refine h.of_eq rfl rfl rfl (fun _ hs => hs) (fun _ hs => .inl hs) fun s hs => ?_
    rw [hc] at hs
    cases hs
  | returned hc =>
    refine h.of_eq rfl rfl rfl (fun _ hs => hs) (fun _ hs => .inl hs) fun s hs => ?_
    rw [hc] at hs
    cases hs
  | _ => exact { h with }

end Sockets

/-! ## The closing goroutine -/

section Closing

variable {p p' : Life}

/-- Nothing happened to the closing goroutine, and the loop had not stopped. -/
theorem Closing.keep (h : p.Closing) (hcloser : p'.closer = p.closer)
    (hclosed : p'.closed = p.closed) (hdone : p'.done = p.done)
    (hstarted : p.started = true → p'.started = true)
    (hfinal : p.cbFinal = true → p'.cbFinal = true) (hloop : p.loop ≠ .stopped) : p'.Closing := by
  refine ⟨?_, ?_, ?_, ?_, ?_⟩
  · rw [hcloser, hclosed]
    exact h.closed
  · rw [hcloser]
    exact fun hc => hstarted (h.started hc)
  · rw [hcloser, hdone]
    exact h.done
  · rw [hcloser]
    exact fun hj => absurd (h.stopped hj).1 hloop
  · rw [hcloser]
    exact fun hc => hfinal (h.final hc)

theorem Closing.loop (h : p.Closing) {c : Choice} (hm : p.LoopMoves c p') : p'.Closing := by
  cases hm with
  | hello hl ok =>
    rw [sendLocked_eq]
    exact h.keep rfl rfl rfl id id (by rw [hl]; simp)
  | keepalive hl ok =>
    rw [sendKeepalive_eq]
    exact h.keep rfl rfl rfl id id (by rw [hl]; simp)
  | @expired w deadline hl hd =>
    obtain ⟨pc, rebinding, phases, he⟩ := p.expired_frame w
    rw [he]
    exact h.keep rfl rfl rfl id id (by rw [hl]; simp)
  | @took w deadline hl ev events he =>
    obtain ⟨pc, b, r, t, m, he⟩ := { p with events := events }.onEvent_frame deadline ev w
    rw [he]
    exact h.keep rfl rfl rfl id id (by rw [hl]; simp)
  | start hl | dialFailed hl | reopenFailed hl | ladder hl | connected hl | rebind hl
  | exhausted hl | reopen hl =>
    simp only [transition_eq]
    exact h.keep rfl rfl rfl id (fun hf => by rw [hf]; rfl) (by rw [hl]; simp)
  | spawned hl => exact h.keep rfl rfl rfl (fun _ => rfl) id (by rw [hl]; simp)
  | dialed hl | refused hl | installed hl | closedOwn hl | closedOld hl | failed hl | gaveUp hl
  | currentGen hl | interval hl | entered hl | parked hl | ended hl | woke hl | serve hl
  | lost hl =>
    exact h.keep rfl rfl rfl id id (by rw [hl]; simp)

theorem Closing.moves (h : p.Closing) {op : LifeOp} (hm : p.Moves op p') : p'.Closing := by
  cases hm with
  | loop ho hm => exact h.loop hm
  | signal ho =>
    refine ⟨h.closed, h.started, h.done, fun hj => ⟨(h.stopped hj).1, rfl⟩, h.final⟩
  | close hs hc ok =>
    refine ⟨by simp, fun _ => hs, fun _ hne => absurd rfl (hne p.conn), nofun, by simp⟩
  | done hc =>
    have hclosed : p.closed = true := by
      by_contra hn
      have := h.closed.2 (by simpa using hn)
      rw [hc] at this
      cases this
    refine ⟨by simp [hclosed], fun _ => h.started (by rw [hc]; simp), fun _ _ => rfl, nofun, by simp⟩
  | shut hc =>
    have hne : p.closer ≠ .idle := by rw [hc]; simp
    have hclosed := mt h.closed.2 hne
    exact ⟨by simpa using hclosed, fun _ => h.started hne,
      fun _ _ => h.done hne (by rw [hc]; simp), nofun, by simp⟩
  | joined hc hl ho =>
    have hne : p.closer ≠ .idle := by rw [hc]; simp
    have hclosed := mt h.closed.2 hne
    exact ⟨by simpa using hclosed, fun _ => h.started hne,
      fun _ _ => h.done hne (by rw [hc]; simp), fun _ => ⟨hl, ho⟩, by simp⟩
  | published hc =>
    have hne : p.closer ≠ .idle := by rw [hc]; simp
    have hclosed := mt h.closed.2 hne
    rw [setState_eq]
    refine ⟨?_, fun _ => h.started hne, fun _ _ => h.done hne (by rw [hc]; simp),
      fun _ => h.stopped (by rw [hc]; rfl), fun _ => by simp⟩
    dsimp only
    split <;> simpa using hclosed
  | returned hc =>
    have hne : p.closer ≠ .idle := by rw [hc]; simp
    have hclosed := mt h.closed.2 hne
    exact ⟨by simpa using hclosed, fun _ => h.started hne,
      fun _ _ => h.done hne (by rw [hc]; simp), fun _ => h.stopped (by rw [hc]; rfl),
      fun _ => h.final (.inl hc)⟩
  | _ => exact { h with }

end Closing

/-! ## The transitions -/

structure Published (p : Life) : Prop where
  last : OnlyLast IsClosed p.committed
  final : p.cbFinal = true ↔ ∃ c ∈ p.committed, IsClosed c
  flow : p.delivered ++ p.deliver.inHand ++ p.cbQueue = p.committed
  ended : p.deliver = .returned → ∃ c ∈ p.delivered, IsClosed c
  awake : p.cbQueue ≠ [] → p.deliver = .waiting → p.cbSignal = true ∨ p.owes = true

section Published

variable {p p' : Life} {st : SessionState} {err : Option Cause}

/-- A transition is committed and queued, unless the last one has been. -/
theorem Published.commit (h : p.Published) (hfinal : p'.cbFinal = (p.cbFinal || decide (st = .closed)))
    (hqueue : p'.cbQueue = p.cbQueue ++ p.publishes st err)
    (hcommitted : p'.committed = p.committed ++ p.publishes st err)
    (hdelivered : p'.delivered = p.delivered) (hdeliver : p'.deliver = p.deliver)
    (hsignal : p'.cbSignal = p.cbSignal) (howes : p.owes = true → p'.owes = true)
    (howes' : p.cbFinal = false → p'.owes = true) : p'.Published := by
  have hflow : p'.delivered ++ p'.deliver.inHand ++ p'.cbQueue = p'.committed := by
    rw [hdelivered, hdeliver, hqueue, hcommitted, ← h.flow, List.append_assoc _ p.cbQueue]
  cases hf : p.cbFinal with
  | true =>
    have hnil : p.publishes st err = [] := by unfold publishes; rw [if_pos hf]
    rw [hnil, List.append_nil] at hqueue hcommitted
    refine ⟨hcommitted ▸ h.last, ?_, hflow, ?_, ?_⟩
    · rw [hfinal, hcommitted, hf, ← h.final, hf]
      simp
    · rw [hdeliver, hdelivered]
      exact h.ended
    · rw [hdeliver, hqueue, hsignal]
      exact fun hq hd => (h.awake hq hd).imp_right howes
  | false =>
    have hone : p.publishes st err = [⟨st, err⟩] := by
      unfold publishes
      rw [if_neg (by simp [hf])]
    have hnone : ∀ c ∈ p.committed, ¬IsClosed c := fun c hc hcl => by
      rw [h.final.2 ⟨c, hc, hcl⟩] at hf
      cases hf
    rw [hone] at hcommitted
    refine ⟨hcommitted ▸ .concat hnone, ?_, hflow, ?_, ?_⟩
    · rw [hfinal, hcommitted, hf, Bool.false_or, decide_eq_true_iff]
      constructor
      · exact fun hst => ⟨_, List.mem_append_right _ List.mem_cons_self, hst⟩
      · rintro ⟨c, hc, hcl⟩
        rcases List.mem_append.1 hc with hc | hc
        · exact absurd hcl (hnone c hc)
        · rw [List.mem_singleton.1 hc] at hcl
          exact hcl
    · rw [hdeliver, hdelivered]
      exact h.ended
    · exact fun _ _ => .inr (howes' hf)

theorem Published.loop (h : p.Published) (ho : p.loopOwes = false) {c : Choice} (hm : p.LoopMoves c p') :
    p'.Published := by
  have howes : ∀ {q : Life}, q.closer = p.closer → p.owes = true → q.owes = true := by
    intro q hq hp
    simp only [owes, ho, Bool.false_or, decide_eq_true_iff] at hp
    simp [owes, hq, hp]
  cases hm with
  | start hl | dialFailed hl | reopenFailed hl | ladder hl | connected hl | rebind hl
  | exhausted hl | reopen hl =>
    simp only [transition_eq]
    exact h.commit rfl rfl rfl rfl rfl rfl (howes rfl) fun hf => by simp [owes, hf]
  | hello hl ok =>
    rw [sendLocked_eq]
    exact { h with }
  | keepalive hl ok =>
    rw [sendKeepalive_eq]
    exact { h with }
  | @expired w deadline hl hd =>
    obtain ⟨pc, rebinding, phases, he⟩ := p.expired_frame w
    rw [he]
    exact { h with }
  | @took w deadline hl ev events he =>
    obtain ⟨pc, b, r, t, m, he⟩ := { p with events := events }.onEvent_frame deadline ev w
    rw [he]
    exact { h with }
  | _ => exact { h with }

theorem Published.moves (h : p.Published) {op : LifeOp} (hm : p.Moves op p') : p'.Published := by
  cases hm with
  | loop ho hm => exact h.loop ho hm
  | signal ho =>
    exact ⟨h.last, h.final, h.flow, h.ended, fun _ _ => .inl rfl⟩
  | close hs hc ok =>
    refine ⟨h.last, h.final, h.flow, h.ended, fun hq hd => (h.awake hq hd).imp_right fun ho => ?_⟩
    simpa [owes, hc] using ho
  | done hc | shut hc | joined hc =>
    refine ⟨h.last, h.final, h.flow, h.ended, fun hq hd => (h.awake hq hd).imp_right fun ho => ?_⟩
    simpa [owes, hc] using ho
  | published hc =>
    rw [setState_eq]
    refine h.commit rfl rfl rfl rfl rfl rfl (fun ho => ?_) fun hf => by simp [owes, hf]
    simp only [owes, hc] at ho ⊢
    simp at ho
    simp [ho]
  | returned hc => exact ⟨h.last, h.final, h.flow, h.ended, fun _ _ => .inl rfl⟩
  | woken hd hc =>
    refine ⟨h.last, h.final, ?_, nofun, nofun⟩
    have := h.flow
    rw [hd] at this
    exact this
  | drained hd hq =>
    refine ⟨h.last, h.final, ?_, nofun, fun hne => absurd hq hne⟩
    have := h.flow
    rw [hd] at this
    exact this
  | @popped hd c rest hq =>
    refine ⟨h.last, h.final, ?_, nofun, nofun⟩
    have := h.flow
    rw [hd, hq] at this
    simpa [CallbackPc.inHand] using this
  | @called c hd =>
    have hflow := h.flow
    rw [hd] at hflow
    refine ⟨h.last, h.final, ?_, fun hr => ?_, fun _ hw => ?_⟩
    · dsimp only
      split <;> simpa [CallbackPc.inHand] using hflow
    · dsimp only at hr
      split at hr
      · next hcl => exact ⟨c, List.mem_append_right _ List.mem_cons_self, hcl⟩
      · cases hr
    · dsimp only at hw
      split at hw <;> cases hw
  | _ => exact { h with }

end Published

/-! ## The end of a run -/

section Quiescent

variable {p : Life}

theorem loop_can_move (ho : p.loopOwes = false) (hl : p.loop ≠ .stopped) :
    ∃ c, p.step (.loop c) ≠ none := by
  have hmove : ∀ c, c ≠ .signal → p.loopStep p.loop c ≠ none → ∃ c, p.step (.loop c) ≠ none := by
    intro c hc hs
    exact ⟨c, by rwa [step_eq_loopStep ho hc]⟩
  cases hpc : p.loop with
  | stopped => exact absurd hpc hl
  | hello gen attempt =>
    refine hmove (.write true) nofun ?_
    rw [hpc]
    exact Option.some_ne_none _
  | keepalive gen unanswered =>
    refine hmove (.write true) nofun ?_
    rw [hpc]
    exact Option.some_ne_none _
  | parked w deadline =>
    refine hmove .timer nofun ?_
    rw [hpc]
    exact Option.some_ne_none _
  | dialed sock =>
    refine hmove .go nofun ?_
    rw [hpc]
    change (if p.closed = true then some _ else some _) ≠ none
    split <;> exact Option.some_ne_none _
  | check w deadline =>
    refine hmove .go nofun ?_
    rw [hpc]
    change (if deadline ≤ p.now then some _ else some _) ≠ none
    split <;> exact Option.some_ne_none _
  | enter w =>
    refine hmove .go nofun ?_
    rw [hpc]
    cases w <;> exact Option.some_ne_none _
  | _ =>
    refine hmove .go nofun ?_
    rw [hpc]
    exact Option.some_ne_none _

theorem Quiescent.loop (h : p.Quiescent) : p.loopOwes = false ∧ p.loop = .stopped := by
  have ho : p.loopOwes = false := by
    by_contra hn
    have := h.1 .signal
    simp [step, hn] at this
  refine ⟨ho, ?_⟩
  by_contra hl
  obtain ⟨c, hc⟩ := loop_can_move ho hl
  exact hc (h.1 c)

theorem Closing.returned (h : p.Closing) (hne : p.closer ≠ .idle) (hq : p.Quiescent) :
    p.closer = .returned := by
  obtain ⟨ho, hstopped⟩ := hq.loop
  obtain ⟨-, htx, hrx, hclosing, -⟩ := hq
  have hstarted := h.started hne
  cases hc : p.closer with
  | idle => exact absurd hc hne
  | returned => rfl
  | closed conn => simp [step, closeStep, hc] at hclosing
  | stopping conn => simp [step, closeStep, hc] at hclosing
  | joined => simp [step, closeStep, hc] at hclosing
  | signalling => simp [step, closeStep, hc] at hclosing
  | joining =>
    have hdone : p.done = true := h.done hne (by rw [hc]; simp)
    have hexit : p.txExited = true := by
      by_contra hn
      simp [step, hstarted, hdone, hn] at htx
    have hall : ∀ e ∈ p.rx.entries, e.2.pc = .exited := by
      rintro ⟨gen, sock, pc⟩ he
      have hl : p.rx.lookup gen = some ⟨sock, pc⟩ := AList.mem_lookup_iff.2 he
      obtain ⟨hemit, hrxExit⟩ := hrx gen
      cases pc with
      | reading => simp [step, hl] at hrxExit
      | holding ev => simp [step, hl] at hemit
      | exited => rfl
    simp only [step, closeStep, hc] at hclosing
    rw [if_pos ⟨hstopped, ho, hexit, hall⟩] at hclosing
    cases hclosing

theorem Published.caughtUp (h : p.Published) (hd : p.deliver = .waiting) (hs : p.cbSignal = false)
    (ho : p.owes = false) : p.delivered = p.committed := by
  have hq : p.cbQueue = [] := by
    by_contra hne
    rcases h.awake hne hd with hs' | ho'
    · rw [hs] at hs'
      cases hs'
    · rw [ho] at ho'
      cases ho'
  have hflow := h.flow
  rw [hd, hq] at hflow
  simpa [CallbackPc.inHand] using hflow

/-- The delivery goroutine has nothing left, even when Closed made it return. -/
theorem Published.delivered_eq (h : p.Published) (hq : p.Quiescent) (ho : p.owes = false) :
    p.delivered = p.committed := by
  obtain ⟨-, -, -, -, hdeliver⟩ := hq
  cases hd : p.deliver with
  | waiting =>
    refine h.caughtUp hd ?_ ho
    by_contra hs
    simp [step, deliverStep, hd, hs] at hdeliver
  | draining =>
    simp only [step, deliverStep, hd] at hdeliver
    split at hdeliver <;> cases hdeliver
  | calling c => simp [step, deliverStep, hd] at hdeliver
  | returned =>
    obtain ⟨c, hc, hcl⟩ := h.ended hd
    have hflow := h.flow
    rw [hd] at hflow
    have hlast := h.last
    rw [← hflow, List.append_assoc] at hlast
    have hnil := hlast.nil_of_append hc hcl
    rw [← hflow, List.append_assoc, hnil, List.append_nil]

end Quiescent

structure Farewell (p : Life) : Prop where
  wired : p.Wired
  sockets : p.Sockets
  closing : p.Closing
  published : p.Published

theorem farewell_init (self : UUID) (secret : List UInt8) (keepalive now : ℤ) :
    (init self secret keepalive now).Farewell where
  wired := ⟨.of_none (by simp [init]), by simp [init]⟩
  sockets := ⟨fun sock hlt => absurd hlt (Nat.not_lt_zero _), fun _ => rfl⟩
  closing := ⟨by simp [init], by simp [init], by simp [init], nofun, by simp [init]⟩
  published := ⟨.of_none (by simp [init]), by simp [init], rfl, nofun, by simp [init]⟩

theorem Farewell.moves {p p' : Life} (h : p.Farewell) {op : LifeOp} (hm : p.Moves op p') : p'.Farewell :=
  ⟨h.wired.moves hm, h.sockets.moves hm, h.closing.moves hm, h.published.moves hm⟩

theorem Farewell.goodbye {p : Life} (h : p.Farewell) : p.Goodbye := by
  obtain ⟨hW, hS, hC, hP⟩ := h
  refine
    { byeLast := hW.last
      closedLast := hP.last
      delivered := ⟨p.deliver.inHand ++ p.cbQueue, by rw [← List.append_assoc, hP.flow]⟩
      caughtUp := hP.caughtUp
      sockets := fun hr sock hlt => ?_
      closedOnce := fun hr => ?_
      finishes := fun hne hq => ?_ }
  · have hclosed : p.closed = true := by
      by_contra hn
      have := hC.closed.2 (by simpa using hn)
      rw [hr] at this
      cases this
    have hstopped := (hC.stopped (by rw [hr]; rfl)).1
    have hheld := hS.held sock hlt
    rw [hS.unbound hclosed, hstopped, hr] at hheld
    simpa [LifecyclePc.holds, ShutdownPc.holds] using hheld
  · obtain ⟨c, hc, hcl⟩ := hP.final.1 (hC.final (.inr hr))
    exact hP.last.countP_eq_one hc hcl
  · have hr := hC.returned hne hq
    refine ⟨hr, hP.delivered_eq hq ?_⟩
    simp [owes, hq.loop.1, hr]

end Life

/-- **Nothing after goodbye**, along every interleaving. -/
theorem nothing_after_goodbye (self : UUID) (secret : List UInt8) (keepalive now : ℤ)
    (ops : List LifeOp) (p : Life)
    (hrun : exec Life.step (.init self secret keepalive now) ops = some p) : p.Goodbye :=
  (exec_invariant (I := Life.Farewell) (fun _ _ _ h _ hs => h.moves (Life.step_moves hs))
    (Life.farewell_init self secret keepalive now) (Meets.trivial _ _ _) hrun).goodbye

/-- `Close` overtakes the first ladder. -/
def closedEarly : List LifeOp :=
  [.loop .go, .loop .signal, .loop .go, .loop .go, .loop .go, .loop .go, .loop .go, .close true,
    .deliver, .deliver, .deliver, .closing, .closing, .loop .signal, .loop .go,
    .loop (.write true), .voice 0 251000 [1] false true, .loop .go, .loop .go, .loop .done,
    .txExit, .rxExit 1, .closing, .closing, .closing, .deliver, .deliver, .deliver, .deliver]

theorem nothing_after_goodbye_early : ∃ p,
    exec Life.step (.init .nil [] defaultKeepalive 0) closedEarly = some p ∧
      p.closer = .returned ∧ p.deliver = .returned ∧ p.Goodbye := by
  have hrun : (exec Life.step (.init .nil [] defaultKeepalive 0) closedEarly).map
      (fun p => (p.closer, p.deliver)) = some (.returned, .returned) := by decide +kernel
  obtain ⟨p, hp, hv⟩ := Option.map_eq_some_iff.1 hrun
  exact ⟨p, hp, congrArg Prod.fst hv, congrArg Prod.snd hv,
    nothing_after_goodbye .nil [] defaultKeepalive 0 closedEarly p hp⟩

end VcsClient.Voice
