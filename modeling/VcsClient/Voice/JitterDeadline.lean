import VcsClient.Voice.JitterDelivery

/-!
# The playout deadline

The `k`-th slot from the primed one is due at
`bufferStartAt + target + k * frameDur`, the depth the buffer was configured
with. `Playout` carries a buffer together with the slot it primed at and the
number of slots handed out since, so that the due time of the next slot is
`Playout.schedule`.

After an underrun `resyncLocked` takes the base from the clock. When frames
were handed out ahead of the schedule that base is earlier than the old one,
and a slot is conceded before it is due (`resync_early`). Where no resync comes
more than a frame ahead of the schedule, no slot is (`deadline_kept`).
-/

namespace VcsClient.Voice

open VcsClient.Lib

variable {α : Type}

structure Playout (α : Type) where
  jitter : Jitter α
  /-- The slot playout started at. -/
  n₀ : Option UInt32
  /-- The slots handed out since. -/
  popped : ℕ

def JitterOp.now : JitterOp α → Option ℤ
  | .push _ _ _ now => some now
  | .pop _ now => some now
  | .reset => none

namespace Playout

def new (α : Type) (target max frameDur : ℤ) : Playout α :=
  ⟨newJitter α target max frameDur, none, 0⟩

/-- When the next slot is due. -/
def schedule (p : Playout α) : ℤ :=
  p.jitter.bufferStartAt + p.jitter.target + p.popped * p.jitter.frameDur

/-- Pushes and pops; a reset starts another playout. -/
def step (p : Playout α) : JitterOp α → Option (Playout α)
  | .push it seq payload now => some { p with jitter := (p.jitter.push it seq payload now).2 }
  | .pop o now =>
    let r := p.jitter.pop o now
    some
      { jitter := r.2
        n₀ := if p.jitter.primed then p.n₀ else (p.jitter.prime o now).map (·.nextExpected)
        popped := p.popped + r.1.ok.toNat }
  | .reset => none

/-- A pop that resyncs comes at most one frame ahead of the schedule. -/
def OnSchedule (p : Playout α) : JitterOp α → Prop
  | .pop _ now => p.jitter.primed = true → p.jitter.underrun = true → p.jitter.depth ≠ 0 →
      p.schedule ≤ now + p.jitter.frameDur
  | .push .. => True
  | .reset => True

instance (p : Playout α) : (op : JitterOp α) → Decidable (OnSchedule p op)
  | .pop .. => inferInstanceAs (Decidable (_ → _ → _ → _))
  | .push .. => .isTrue trivial
  | .reset => .isTrue trivial

/-- The base is never before the schedule. -/
structure Timely (p : Playout α) : Prop where
  bounded : p.jitter.Bounded
  waiting : p.jitter.primed = false → p.n₀ = none ∧ p.popped = 0 ∧ p.jitter.underrun = false
  playing : p.jitter.primed = true → p.jitter.hasFirstPush = true ∧
    (∃ n₀, p.n₀ = some n₀ ∧ p.jitter.nextExpected = Ledger.slot n₀ p.popped) ∧
    p.schedule ≤ p.jitter.playoutBase

theorem Timely.new (target max frameDur : ℤ) : (new α target max frameDur).Timely :=
  ⟨.new target max frameDur, fun _ => ⟨rfl, rfl, rfl⟩, fun h => by
    simp [Playout.new, newJitter] at h⟩

/-- The two buffers differ in their frames only, once the first push is in. -/
structure SameClock (j j' : Jitter α) : Prop where
  primed : j'.primed = j.primed
  underrun : j'.underrun = j.underrun
  nextExpected : j'.nextExpected = j.nextExpected
  playoutBase : j'.playoutBase = j.playoutBase
  target : j'.target = j.target
  frameDur : j'.frameDur = j.frameDur
  started : j.hasFirstPush = true →
    j'.hasFirstPush = true ∧ j'.bufferStartAt = j.bufferStartAt

theorem sameClock_push {j : Jitter α} (hd : j.depth ≤ j.maxFrames) (it : ℕ → IterOrder UInt32)
    (seq : UInt32) (payload : α) (now : ℤ) : SameClock j (j.push it seq payload now).2 := by
  have hfirst : j.hasFirstPush = true →
      true = true ∧ (if j.hasFirstPush then j.bufferStartAt else now) = j.bufferStartAt :=
    fun h => ⟨rfl, if_pos h⟩
  rcases Jitter.push_cases it seq payload now hd with he | ⟨-, -, ⟨-, he⟩ | ⟨-, o, oldest, -, he⟩⟩
  · rw [he]; exact ⟨rfl, rfl, rfl, rfl, rfl, rfl, fun h => ⟨h, rfl⟩⟩
  · rw [he]; exact ⟨rfl, rfl, rfl, rfl, rfl, rfl, hfirst⟩
  · rw [he]; exact ⟨rfl, rfl, rfl, rfl, rfl, rfl, hfirst⟩

theorem Timely.congr {j j' : Jitter α} {n₀ : Option UInt32} {k : ℕ} (h : Timely ⟨j, n₀, k⟩)
    (hsame : SameClock j j') (hb : j'.Bounded) : Timely ⟨j', n₀, k⟩ := by
  refine ⟨hb, fun hpr => ?_, fun hpr => ?_⟩
  · obtain ⟨h₁, h₂, h₃⟩ := h.waiting (hsame.primed ▸ hpr)
    exact ⟨h₁, h₂, hsame.underrun.trans h₃⟩
  · obtain ⟨hfirst, ⟨n, hn, hs⟩, hsched⟩ := h.playing (hsame.primed ▸ hpr)
    obtain ⟨hfirst', hstart⟩ := hsame.started hfirst
    refine ⟨hfirst', ⟨n, hn, hsame.nextExpected.trans hs⟩, ?_⟩
    simp only [schedule] at hsched ⊢
    rwa [hstart, hsame.target, hsame.frameDur, hsame.playoutBase]

/-- Handing out a slot moves the base and the schedule by one frame. -/
theorem Timely.advance {p : Playout α} (h : p.Timely) (hpr : p.jitter.primed = true) :
    Timely ⟨p.jitter.advanceLocked, p.n₀, p.popped + 1⟩ := by
  obtain ⟨hfirst, ⟨n₀, hn, hs⟩, hsched⟩ := h.playing hpr
  refine ⟨h.bounded.advance, fun hc => ?_, fun _ => ⟨hfirst, ⟨n₀, hn, ?_⟩, ?_⟩⟩
  · simp [Jitter.advanceLocked, hpr] at hc
  · show (p.jitter.nextExpected + 1) &&& wireMask24 = _
    rw [hs, Ledger.slot_succ]
  · simp only [schedule, Jitter.advanceLocked] at hsched ⊢
    push_cast
    linarith [add_mul (p.popped : ℤ) 1 p.jitter.frameDur]

theorem Timely.prime {p : Playout α} {o : IterOrder UInt32} {now : ℤ} {j' : Jitter α}
    (h : p.Timely) (hp : p.jitter.prime o now = some j') :
    Timely ⟨j', if p.jitter.primed then p.n₀ else some j'.nextExpected, p.popped⟩ ∧
      j'.primed = true ∧ (j'.underrun = true → p.jitter.primed = true ∧ j' = p.jitter) := by
  have hbound := h.bounded.prime hp
  rcases Jitter.prime_cases hp with ⟨hpr, rfl⟩ | ⟨hpr, hfirst, -, seq, ho, rfl⟩
  · rw [if_pos hpr]
    exact ⟨h, hpr, fun _ => ⟨hpr, rfl⟩⟩
  · obtain ⟨-, hpop, hun⟩ := h.waiting hpr
    have hseq := h.bounded.key_lt seq (Jitter.oldestSeqLocked_mem ho)
    rw [hpr, hpop]
    refine ⟨⟨hbound, fun hc => by simp at hc, fun _ => ⟨hfirst, ⟨seq, rfl, ?_⟩, ?_⟩⟩, rfl,
      fun hc => by simp [hun] at hc⟩
    · rw [Ledger.slot_zero hseq]
    · simp [schedule]

theorem schedule_prime {p : Playout α} {o : IterOrder UInt32} {now : ℤ} {j' : Jitter α}
    {n₀ : Option UInt32} (hp : p.jitter.prime o now = some j') :
    schedule ⟨j', n₀, p.popped⟩ = p.schedule := by
  rcases Jitter.prime_cases hp with ⟨-, rfl⟩ | ⟨-, -, -, seq, -, rfl⟩ <;> rfl

theorem Timely.resync {p : Playout α} {now : ℤ} (h : p.Timely) (hpr : p.jitter.primed = true)
    (hle : p.schedule ≤ now + p.jitter.frameDur) :
    Timely ⟨p.jitter.resyncLocked now, p.n₀, p.popped⟩ := by
  obtain ⟨hfirst, hslot, -⟩ := h.playing hpr
  refine ⟨⟨h.bounded.key_lt, h.bounded.next_lt, h.bounded.depth_le⟩, fun hc => ?_,
    fun _ => ⟨hfirst, hslot, hle⟩⟩
  simp [Jitter.resyncLocked, hpr] at hc

theorem Timely.underrun {p : Playout α} (h : p.Timely) (hpr : p.jitter.primed = true) :
    Timely ⟨{ p.jitter with underrun := true }, p.n₀, p.popped⟩ :=
  ⟨⟨h.bounded.key_lt, h.bounded.next_lt, h.bounded.depth_le⟩,
    fun hc => by simp [hpr] at hc, fun _ => h.playing hpr⟩

/-- The next slot is played, awaited or, from the base on, conceded. -/
theorem Timely.popNext {p : Playout α} (now : ℤ) (h : p.Timely) (hpr : p.jitter.primed = true) :
    Timely ⟨(p.jitter.popNext now).2, p.n₀, p.popped + (p.jitter.popNext now).1.ok.toNat⟩ ∧
      ((p.jitter.popNext now).1.lost = true → p.schedule ≤ now) := by
  obtain ⟨-, -, hsched⟩ := h.playing hpr
  rcases Jitter.popNext_cases p.jitter now with ⟨frame, hl, he⟩ | ⟨-, -, he⟩ | ⟨-, hle, he⟩
  · have hm : p.jitter.nextExpected ∈ p.jitter.frames := AList.lookup_isSome.1 (by rw [hl]; rfl)
    have hdrop : Timely ⟨p.jitter.drop p.jitter.nextExpected, p.n₀, p.popped⟩ :=
      h.congr ⟨rfl, rfl, rfl, rfl, rfl, rfl, fun hf => ⟨hf, rfl⟩⟩ (h.bounded.drop hm)
    rw [he]
    exact ⟨hdrop.advance hpr, fun hc => by simp at hc⟩
  · rw [he]
    exact ⟨h, fun hc => by simp [Jitter.nothing] at hc⟩
  · rw [he]
    exact ⟨h.advance hpr, fun _ => hsched.trans hle⟩

/-- **A pop keeps the base after the schedule**, and concedes no slot early,
where a resync does not come too far ahead. -/
theorem Timely.pop {p p' : Playout α} {o : IterOrder UInt32} {now : ℤ} (h : p.Timely)
    (hok : OnSchedule p (.pop o now)) (hs : p.step (.pop o now) = some p') :
    p'.Timely ∧ ((p.jitter.pop o now).1.lost = true → p.schedule ≤ now) := by
  simp only [Playout.step, Option.some.injEq] at hs
  unfold Jitter.pop at hs ⊢
  cases hp : p.jitter.prime o now with
  | none =>
    have hpr : p.jitter.primed = false := by
      by_contra hc
      rw [Jitter.prime, if_pos (by simpa using hc)] at hp
      cases hp
    simp only [hp, Option.map_none, hpr] at hs
    subst hs
    refine ⟨⟨h.bounded, fun _ => ⟨rfl, (h.waiting hpr).2⟩, fun hc => by simp [hpr] at hc⟩, ?_⟩
    simp [Jitter.nothing]
  | some j' =>
    obtain ⟨h', hpr, hresync⟩ := h.prime hp
    simp only [hp, Option.map_some] at hs ⊢
    by_cases hd : j'.depth = 0
    · simp only [if_pos hd] at hs ⊢
      subst hs
      exact ⟨h'.underrun hpr, fun hc => by simp [Jitter.nothing] at hc⟩
    · simp only [if_neg hd] at hs ⊢
      by_cases hun : j'.underrun = true
      · obtain ⟨hpr₀, rfl⟩ := hresync hun
        simp only [hun, if_true] at hs ⊢
        subst hs
        exact (h'.resync hpr (hok hpr₀ hun hd)).popNext now hpr
      · simp only [hun, Bool.false_eq_true, if_false] at hs ⊢
        subst hs
        obtain ⟨hnext, hlost⟩ := h'.popNext now hpr
        exact ⟨hnext, fun hc => (schedule_prime hp).symm.trans_le (hlost hc)⟩

theorem Timely.step {p p' : Playout α} {op : JitterOp α} (h : p.Timely) (hok : OnSchedule p op)
    (hs : p.step op = some p') : p'.Timely := by
  cases op with
  | push it seq payload now =>
    cases hs
    exact h.congr (sameClock_push h.bounded.depth_le ..) h.bounded.push
  | pop o now => exact (h.pop hok hs).1
  | reset => cases hs

end Playout

theorem primed_of_lost {j : Jitter α} {o : IterOrder UInt32} {now : ℤ}
    (h : (j.pop o now).1.lost = true) : j.primed = true := by
  unfold Jitter.pop at h
  cases hp : j.prime o now with
  | none => simp [hp, Jitter.nothing] at h
  | some j' =>
    rcases Jitter.prime_cases hp with ⟨hpr, -⟩ | ⟨-, -, -, seq, ho, hj'⟩
    · exact hpr
    · have hm : j'.nextExpected ∈ j'.frames := by
        subst hj'
        exact Jitter.oldestSeqLocked_mem ho
      simp only [hp] at h
      split at h
      · simp [Jitter.nothing] at h
      · generalize hq : (if j'.underrun then j'.resyncLocked now else j') = q at h
        have hmq : q.nextExpected ∈ q.frames := by
          rw [← hq]
          split <;> exact hm
        rcases Jitter.popNext_cases q now with ⟨frame, -, he⟩ | ⟨hc, -, -⟩ | ⟨hc, -, -⟩
        · simp [he] at h
        · exact absurd hmq hc
        · exact absurd hmq hc

/-- **A deadline is kept** in every run whose resyncs are on schedule: the slot
a pop concedes is the `popped`-th after the primed one, and it is due. -/
theorem deadline_kept (target max frameDur : ℤ) (ops : List (JitterOp α)) (p : Playout α)
    (o : IterOrder UInt32) (now : ℤ)
    (hok : Meets Playout.step Playout.OnSchedule (.new α target max frameDur)
      (ops ++ [.pop o now]))
    (hrun : exec Playout.step (.new α target max frameDur) ops = some p)
    (hlost : (p.jitter.pop o now).1.lost = true) :
    ∃ n₀, p.n₀ = some n₀ ∧ p.jitter.nextExpected = Ledger.slot n₀ p.popped ∧ p.schedule ≤ now := by
  obtain ⟨hops, hpop⟩ := hok.split hrun
  have h : p.Timely :=
    exec_invariant (fun _ _ _ h hok hs => h.step hok hs) (.new target max frameDur) hops hrun
  obtain ⟨-, ⟨n₀, hn, hslot⟩, -⟩ := h.playing (primed_of_lost hlost)
  exact ⟨n₀, hn, hslot, (h.pop hpop.head rfl).2 hlost⟩

/-- Frame 1 is missing and conceded when it is due, 20 ms after frame 0. -/
theorem deadline_kept_gap :
    ∃ p, exec Playout.step (.new Unit (ms 60) (ms 500) (ms 20))
        [.push (always stored) 0 () 0, .push (always stored) 2 () 0, .pop stored (ms 60)] = some p ∧
      ∃ n₀, p.n₀ = some n₀ ∧ p.jitter.nextExpected = Ledger.slot n₀ p.popped ∧
        p.schedule ≤ ms 80 :=
  ⟨_, rfl, deadline_kept (ms 60) (ms 500) (ms 20)
    [.push (always stored) 0 () 0, .push (always stored) 2 () 0, .pop stored (ms 60)] _ stored
    (ms 80) (by decide) rfl (by decide)⟩

/-- **A resync moves a deadline earlier.** Slots 0 to 2 are popped at 60 ms, the
refill at 61 ms resyncs the base to 81 ms, and slot 3 is conceded then instead of
at 120 ms. -/
theorem resync_early :
    ∃ ops : List (JitterOp Unit), (ops.filterMap JitterOp.now ++ [ms 81]).Pairwise (· ≤ ·) ∧
      ∃ p, exec Playout.step (.new Unit (ms 60) (ms 500) (ms 20)) ops = some p ∧
        (p.jitter.pop stored (ms 81)).1.lost = true ∧
        p.n₀ = some 0 ∧ p.jitter.nextExpected = Ledger.slot 0 3 ∧ ms 81 < p.schedule :=
  ⟨[.push (always stored) 0 () 0, .push (always stored) 1 () 0, .push (always stored) 2 () 0,
      .pop stored (ms 60), .pop stored (ms 60), .pop stored (ms 60), .pop stored (ms 60),
      .push (always stored) 4 () (ms 61), .pop stored (ms 61)],
    by decide, _, rfl, by decide, by decide, by decide, by decide⟩

end VcsClient.Voice
