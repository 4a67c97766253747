import VcsClient.Session.Life

/-!
# The course of an attempt

A `Connect` or `Reconnect` waits for `lifeMu`, begins, looks at its context
between its calls, and comes to an end: it has installed, it has given up for
its context, or it fails for a reason of its own. Past its last look at the
context a cancellation no longer reaches it.
-/

namespace VcsClient.Session

open VcsClient.Lib

/-- How far an attempt has come. -/
inductive Stage where
  | queued (ticket : ℕ)
  /-- it will look at its context again before it installs -/
  | begun
  /-- it will not, or it fails for a reason of its own -/
  | past
  /-- it returns `ErrConnectCancelled` -/
  | gaveUp
  | installed
  deriving DecidableEq

/-- The stage of an attempt that returns `r`. -/
def Stage.returning : Option ConnectError → Stage
  | none => .installed
  | some .cancelled => .gaveUp
  | some _ => .past

def After.stage : After → Option Stage
  | .exit => none
  | .reconnect _ => some .past

def Teardown.stage (td : Teardown) : Option Stage := td.k.bind After.stage

/-- The stage of the attempt a goroutine makes. -/
def Pc.stage : Pc → Option Stage
  | .lockLife _ ticket | .beginAttempt _ ticket => some (.queued ticket)
  | .announce _ | .teardownLive | .teardownClose _ | .forget | .dialerFor | .lastSession
  | .dialConnect | .dialReconnect _ | .initAuth | .guestLogin _ | .finalCheck _ _ _ _
  | .attemptError _ _ _ _ _ => some .begun
  | .setSelf _ _ _ _ => some .past
  | .subscribe job | .syncClient job _ => if job.life = true then some .begun else none
  | .hydrate job _ _ _ =>
    if job.life = true then some (if job.isConnect = true then .begun else .past) else none
  | .install job _ => if job.life = true then some .past else none
  | .release job _ _ | .replay job _ _ _ | .publishConnected job _ =>
    if job.life = true then some .installed else none
  | .goodbye r | .publishFailed r => some (.returning (some r))
  | .endAttempt r | .unlockLife r => some (.returning r)
  | .endSession _ _ _ k => k.stage
  | .closeEnded _ td | .resetRoster td | .clearVoice td | .clearSelf td | .publishEnded td
  | .sessionEnded td => td.stage
  | _ => none

theorem Pc.life_of_begun {pc : Pc} (h : pc.stage = some .begun) : pc.life = true := by
  have hjob : ∀ {job : Job} {st : Option Stage}, (if job.life = true then st else none) = some .begun →
      job.life = true := by
    intro job st he
    by_contra hl
    rw [if_neg hl] at he
    cases he
  have hafter : ∀ {k : After}, k.stage = some .begun → False := by
    intro k he
    cases k <;> cases he
  have htd : ∀ {td : Teardown}, td.stage = some .begun → False := by
    intro td he
    obtain ⟨k, -, hk⟩ := Option.bind_eq_some_iff.1 he
    exact hafter hk
  cases pc with
  | subscribe | syncClient | hydrate | install | release | replay | publishConnected => exact hjob h
  | endSession => exact (hafter h).elim
  | closeEnded | resetRoster | clearVoice | clearSelf | publishEnded | sessionEnded =>
    exact (htd h).elim
  | _ => first | rfl | cases h

/-- The error an attempt fails with unless its context is cancelled. -/
def Pc.cause : Pc → Option ConnectError
  | .attemptError _ _ cause _ _ => some cause
  | _ => none

/-- The goroutine neither queues an attempt next nor cancels one. -/
def Pc.plain : Pc → Bool
  | .queueAttempt _ | .cancelCall _ _ _ => false
  | _ => true

/-- The step fails an attempt that has not dialled, whatever its context says. -/
def Manager.failsUnasked (m : Manager) : Pc → Answer → Bool
  | .dialerFor, .fail _ => true
  | .lastSession, .go => !m.lastDialer
  | _, _ => false

/-- What a move does to the attempts. -/
inductive Manager.Course (m : Manager) (t : ℕ) (a : Answer) : Pc → Move → Prop
  /-- It is not an attempt's. -/
  | apart {pc mv} (hpc : pc.stage = none)
      (hnext : Leads mv.pc fun pc' => pc'.stage = none ∧ pc'.plain = true)
      (hattempts : mv.m.attempts = m.attempts) (hcancelled : mv.m.cancelled = m.cancelled)
      (hseq : mv.m.cancelSeq = m.cancelSeq) (hcur : mv.m.attemptCancel = m.attemptCancel) :
      m.Course t a pc mv
  | queues {mv} (k : Kind) (hnext : mv.pc = some (.lockLife k m.cancelSeq))
      (hattempts : mv.m.attempts = m.attempts.insert t ⟨m.cancelSeq, false, false, false, none⟩)
      (hcancelled : mv.m.cancelled = m.cancelled) (hseq : mv.m.cancelSeq = m.cancelSeq)
      (hcur : mv.m.attemptCancel = m.attemptCancel) : m.Course t a (.queueAttempt k) mv
  /-- It stays in its stage, or ends it by giving up or past its last look. -/
  | goes {pc mv} (st st' : Stage) (hpc : pc.stage = some st)
      (hnext : ∃ pc', mv.pc = some pc' ∧ pc'.stage = some st')
      (hst : st' = st ∨ st = .begun ∧ (st' = .gaveUp ∧ t ∈ m.cancelled ∨
        st' = .past ∧ (t ∉ m.cancelled ∨ m.failsUnasked pc a = true)))
      (hattempts : mv.m.attempts = m.attempts) (hcancelled : mv.m.cancelled = m.cancelled)
      (hseq : mv.m.cancelSeq = m.cancelSeq)
      (hcur : mv.m.attemptCancel = m.attemptCancel ∨
        st ≠ .begun ∧ pc.life = true ∧ mv.m.attemptCancel = none) :
      m.Course t a pc mv
  | begins {mv} (k : Kind) (ticket : ℕ) (hnext : mv.pc = some (.announce k))
      (hattempts : mv.m.attempts = m.attempts)
      (hcancelled : mv.m.cancelled = if m.cancelSeq ≠ ticket then t :: m.cancelled else m.cancelled)
      (hseq : mv.m.cancelSeq = m.cancelSeq) (hcur : mv.m.attemptCancel = some t) :
      m.Course t a (.beginAttempt k ticket) mv
  | installs {pc mv} (hpc : pc.stage = some .past)
      (hnext : ∃ pc', mv.pc = some pc' ∧ pc'.stage = some .installed)
      (hattempts : mv.m.attempts = (m.markInstalled t).attempts)
      (hcancelled : mv.m.cancelled = m.cancelled) (hseq : mv.m.cancelSeq = m.cancelSeq)
      (hcur : mv.m.attemptCancel = m.attemptCancel) : m.Course t a pc mv
  | returns {mv} (r : Option ConnectError) (hnext : mv.pc = none)
      (hattempts : mv.m.attempts = (m.markReturned t r).attempts)
      (hcancelled : mv.m.cancelled = m.cancelled) (hseq : mv.m.cancelSeq = m.cancelSeq)
      (hcur : mv.m.attemptCancel = m.attemptCancel) : m.Course t a (.unlockLife r) mv
  | takes {mv} (k : Canceller)
      (hnext : mv.pc = some (.cancelCall m.attemptCancel (m.cancelSeq + 1) k))
      (hattempts : mv.m.attempts = (m.withAttempts fun _ x =>
        if x.Open then { x with touched := true } else x).attempts)
      (hcancelled : mv.m.cancelled = m.cancelled) (hseq : mv.m.cancelSeq = m.cancelSeq + 1)
      (hcur : mv.m.attemptCancel = m.attemptCancel) : m.Course t a (.cancelConnect k) mv
  | cancels {mv} (b : Option ℕ) (seq : ℕ) (k : Canceller)
      (hnext : Leads mv.pc fun pc' => pc' = .lockDisconnect)
      (hattempts : mv.m.attempts = (m.withAttempts fun _ x =>
        if x.Open ∧ x.ticket < seq then { x with covered := true } else x).attempts)
      (hcancelled : mv.m.cancelled = b.toList ++ m.cancelled)
      (hseq : mv.m.cancelSeq = m.cancelSeq) (hcur : mv.m.attemptCancel = m.attemptCancel) :
      m.Course t a (.cancelCall b seq k) mv

namespace Manager

variable {cap : ℕ} {m : Manager} {t : ℕ} {pc : Pc} {a : Answer} {mv : Move}

theorem advance_cause (h : m.advance cap t pc a = some mv) :
    Leads mv.pc fun pc' => pc'.cause ≠ some .cancelled := by
  replace h := advance_moves h
  induction h
  all_goals first
    | exact leads_none
    | exact leads_some fun he => by cases he

theorem Course.along {pc pc' : Pc} (hnext : mv.pc = some pc') (hst : pc'.stage = pc.stage)
    (hplain : pc'.plain = true) (hattempts : mv.m.attempts = m.attempts)
    (hcancelled : mv.m.cancelled = m.cancelled) (hseq : mv.m.cancelSeq = m.cancelSeq)
    (hcur : mv.m.attemptCancel = m.attemptCancel) : m.Course t a pc mv := by
  cases hs : pc.stage with
  | none =>
    refine .apart hs ?_ hattempts hcancelled hseq hcur
    rw [hnext]
    exact leads_some ⟨hst.trans hs, hplain⟩
  | some st =>
    exact .goes st st hs ⟨pc', hnext, hst.trans hs⟩ (.inl rfl) hattempts hcancelled hseq (.inl hcur)

theorem returning_of_ne {r : ConnectError} (h : r ≠ .cancelled) :
    Stage.returning (some r) = .past := by
  cases r <;> first | rfl | exact absurd rfl h

theorem returning_ne_begun (r : Option ConnectError) : Stage.returning r ≠ .begun := by
  rcases r with _ | r
  · nofun
  · cases r <;> nofun

/-- A failed attempt gives up, or fails for a cause of its own. -/
theorem Course.fails {k : Kind} {token : Token} {cause : ConnectError} {dialled : Bool} {v : Verdict}
    {pc' : Pc} {st' : Stage} (hst : pc'.stage = some st')
    (hpast : st' = .gaveUp ∧ t ∈ m.cancelled ∨ st' = .past ∧ t ∉ m.cancelled) :
    m.Course t a (.attemptError k token cause dialled v) ⟨m.endCtx (some t), some pc', false⟩ :=
  .goes .begun st' rfl ⟨pc', rfl, hst⟩
    (.inr ⟨rfl, hpast.imp_right fun hp => ⟨hp.1, .inl hp.2⟩⟩) rfl rfl rfl (.inl rfl)

theorem advance_course (hcause : pc.cause ≠ some .cancelled) (h : m.advance cap t pc a = some mv) :
    m.Course t a pc mv := by
  replace h := advance_moves h
  induction h
  case queueAttempt => exact .queues _ rfl rfl rfl rfl rfl
  case beginAttempt => exact .begins _ _ rfl rfl rfl rfl rfl
  case badAddress =>
    exact .goes _ _ rfl ⟨_, rfl, rfl⟩ (.inr ⟨rfl, .inr ⟨rfl, .inr rfl⟩⟩) rfl rfl rfl (.inl rfl)
  case neverConnected hdialer =>
    refine .goes _ _ rfl ⟨_, rfl, rfl⟩ (.inr ⟨rfl, .inr ⟨rfl, .inr ?_⟩⟩) rfl rfl rfl (.inl rfl)
    simp [failsUnasked, hdialer]
  case syncClient job p data hctx =>
    cases job with
    | connect => exact .along rfl rfl rfl rfl rfl rfl rfl
    | resync => exact .along rfl rfl rfl rfl rfl rfl rfl
    | reconnect token =>
      refine .goes _ _ rfl ⟨_, rfl, rfl⟩ (.inr ⟨rfl, .inr ⟨rfl, .inl ?_⟩⟩) rfl rfl rfl (.inl rfl)
      exact fun ht => hctx (decide_eq_true ht)
  case finalCheck token guid self p hctx =>
    exact .goes _ _ rfl ⟨_, rfl, rfl⟩ (.inr ⟨rfl, .inr ⟨rfl, .inl hctx⟩⟩) rfl rfl rfl (.inl rfl)
  case cancelledGoodbye hctx htoken => exact .fails rfl (.inl ⟨rfl, hctx⟩)
  case cancelled hctx hk => exact .fails rfl (.inl ⟨rfl, hctx⟩)
  case lateGoodbye hctx htoken => exact .fails rfl (.inr ⟨rfl, hctx⟩)
  case late hctx hk => exact .fails rfl (.inr ⟨rfl, hctx⟩)
  case refused hctx => exact .fails rfl (.inr ⟨rfl, hctx⟩)
  case attemptError k token cause dialled v hctx hv =>
    have hne : cause ≠ .cancelled := fun he => hcause (congrArg some he)
    exact .fails (congrArg some (returning_of_ne hne)) (.inr ⟨rfl, hctx⟩)
  case installConnect | installReconnect =>
    exact .installs rfl ⟨_, rfl, rfl⟩ rfl rfl rfl rfl
  case unlockLife => exact .returns _ rfl rfl rfl rfl rfl
  case endAttempt r =>
    exact .goes _ _ rfl ⟨_, rfl, rfl⟩ (.inl rfl) rfl rfl rfl (.inr ⟨returning_ne_begun _, rfl, rfl⟩)
  case publishDisconnect td hk =>
    have hstage : td.stage = none := by simp [Teardown.stage, hk]
    exact .apart hstage (leads_some ⟨rfl, rfl⟩) rfl rfl rfl rfl
  case sessionEnded td hk =>
    have hstage : td.stage = none := by
      rcases hk with hk | hk <;> simp [Teardown.stage, hk, After.stage]
    exact .apart hstage leads_none rfl rfl rfl rfl
  case reconnectEnded td why hk =>
    have hstage : td.stage = some .past := by simp [Teardown.stage, hk, After.stage]
    exact .along rfl hstage.symm rfl rfl rfl rfl rfl
  case cancelConnect => exact .takes _ rfl rfl rfl rfl rfl
  case cancelReturns => exact .cancels _ _ _ leads_none rfl rfl rfl rfl
  case cancelDisconnect => exact .cancels _ _ _ (leads_some rfl) rfl rfl rfl rfl
  -- the rest keeps to its stage
  all_goals first
    | exact .along rfl rfl rfl rfl rfl rfl rfl
    | exact .apart rfl leads_none rfl rfl rfl rfl

end Manager

end VcsClient.Session
