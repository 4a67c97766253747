import VcsClient.Voice.Tx

/-!
# A press is heard only where it was keyed

A frame is queued without its generation and the target set is loaded when the
frame is sent, so what decides is whether audio of an older generation is still
on its way when targets are installed. `carried` lists the generations of that
audio: calls past their load of `gen`, queued frames, and the frame `txLoop`
holds without targets. The accumulator is not in it, a new generation resets it.

When every set installed is one each carried generation knows already, or the
generation is the current one (`Drained`), every sample is heard only on
frequencies that were targets during its own generation (`heard_where_keyed`).
-/

namespace VcsClient.Voice

open VcsClient.Lib

variable {α : Type}

/-- The generation of a call that has loaded it. -/
def WriteFrame.gens : WriteFrame α → List UInt64
  | .targetsLoaded _ => []
  | .genLoaded gen _ | .locked gen _ | .full gen _ _ | .filled gen _ _ => [gen]

/-- The frame that will be sent to targets still to be loaded. -/
def TxLoop.hand : TxLoop α → List (Sample α)
  | .received pcm => pcm
  | _ => []

namespace TxRun

/-- The generations of the audio on its way to a target load. -/
def carried (s : TxRun α) : List UInt64 :=
  s.calls.keys.flatMap (fun w => ((s.calls.lookup w).map WriteFrame.gens).getD []) ++
    s.t.pcm.flatMap (·.map (·.gen)) ++ s.loop.hand.map (·.gen)

/-- New targets meet no audio of a generation they were not targets of, but the
current one. -/
def Drained (s : TxRun α) : TxOp α → Prop
  | .setTXFrequencies targets =>
    ∀ gen ∈ s.carried, gen = s.t.gen ∨ ∀ target ∈ targets, (gen, target.freq) ∈ s.seen
  | _ => True

instance (s : TxRun α) (op : TxOp α) : Decidable (s.Drained op) :=
  match op with
  | .setTXFrequencies targets =>
    -- not over all of `UInt64`, which is a finite type
    List.decidableBAll
      (fun gen => gen = s.t.gen ∨ ∀ target ∈ targets, (gen, target.freq) ∈ s.seen) s.carried
  | .writeFrame .. | .loadGen _ | .lock _ | .copy _ | .takeFree _ | .queue _ | .unlock _
  | .endTransmission | .receive | .load _ | .send _ | .recycle => .isTrue trivial

/-- `f` was a target at some moment of the run at which the generation was `gen`. -/
def TargetDuring (self : UUID) (ops : List (TxOp α)) (gen : UInt64) (f : KHz) : Prop :=
  ∃ ops₁ s₁, ops₁ <+: ops ∧ exec step (.init self) ops₁ = some s₁ ∧
    s₁.t.gen = gen ∧ f ∈ s₁.t.freqs

/-! ## The log of targets -/

section Seen

variable {s s' : TxRun α} {gen : UInt64} {f : KHz}

theorem mem_observe : (gen, f) ∈ s.observe.seen ↔
    (gen, f) ∈ s.seen ∨ (s.t.gen = gen ∧ f ∈ s.t.freqs) := by
  simp [observe, and_comm, eq_comm]

/-- Only two operations touch the targets, the generation or their log. -/
theorem step_frame {op : TxOp α} (hs : s.step op = some s') :
    (∃ t : TxState α, s' = { s with t := t }.observe) ∨
      (s'.t.targets = s.t.targets ∧ s'.t.gen = s.t.gen ∧ s'.seen = s.seen) := by
  cases op with
  | setTXFrequencies targets => cases hs; exact .inl ⟨_, rfl⟩
  | endTransmission => cases hs; exact .inl ⟨_, rfl⟩
  | writeFrame w frame =>
    simp only [step] at hs
    split at hs
    · cases hs
    · split at hs <;> cases hs <;> exact .inr ⟨rfl, rfl, rfl⟩
  | loadGen w =>
    simp only [step] at hs
    split at hs
    · cases hs; exact .inr ⟨rfl, rfl, rfl⟩
    · cases hs
  | lock w =>
    simp only [step] at hs
    split at hs
    · split at hs
      · cases hs
        unfold TxState.enter
        split <;> exact .inr ⟨rfl, rfl, rfl⟩
      · cases hs
    · cases hs
  | copy w =>
    simp only [step] at hs
    split at hs
    · split at hs <;> cases hs <;> exact .inr ⟨rfl, rfl, rfl⟩
    · cases hs
  | takeFree w =>
    simp only [step] at hs
    split at hs
    · split at hs <;> cases hs <;> exact .inr ⟨rfl, rfl, rfl⟩
    · cases hs
  | queue w =>
    simp only [step] at hs
    split at hs
    · cases hs
      unfold TxState.queue TxState.recycle
      split
      · exact .inr ⟨rfl, rfl, rfl⟩
      · split <;> exact .inr ⟨rfl, rfl, rfl⟩
    · cases hs
  | unlock w =>
    simp only [step] at hs
    split at hs
    · cases hs; exact .inr ⟨rfl, rfl, rfl⟩
    · cases hs
  | receive =>
    simp only [step] at hs
    split at hs
    · cases hs; exact .inr ⟨rfl, rfl, rfl⟩
    · cases hs
  | load encoded =>
    simp only [step] at hs
    split at hs
    · split at hs <;> cases hs <;> exact .inr ⟨rfl, rfl, rfl⟩
    · cases hs
  | send ok =>
    simp only [step] at hs
    split at hs
    · cases hs; exact .inr ⟨rfl, rfl, rfl⟩
    · cases hs
  | recycle =>
    simp only [step] at hs
    split at hs
    · cases hs
      unfold TxState.recycle
      split <;> exact .inr ⟨rfl, rfl, rfl⟩
    · cases hs

/-- The log gains the targets of the moment, and those only. -/
theorem mem_seen_step {op : TxOp α} (hs : s.step op = some s')
    (h : (gen, f) ∈ s'.seen) : (gen, f) ∈ s.seen ∨ (s'.t.gen = gen ∧ f ∈ s'.t.freqs) := by
  obtain ⟨t, rfl⟩ | ⟨-, -, hseen⟩ := step_frame hs
  · exact mem_observe.1 h
  · exact .inl (hseen ▸ h)

theorem seen_mono {op : TxOp α} (hs : s.step op = some s') (h : (gen, f) ∈ s.seen) :
    (gen, f) ∈ s'.seen := by
  obtain ⟨t, rfl⟩ | ⟨-, -, hseen⟩ := step_frame hs
  · exact mem_observe.2 (.inl h)
  · exact hseen ▸ h

/-- The targets of the moment are in the log. -/
def Logged (s : TxRun α) : Prop := ∀ f ∈ s.t.freqs, (s.t.gen, f) ∈ s.seen

theorem Logged.step {op : TxOp α} (h : s.Logged) (hs : s.step op = some s') : s'.Logged := by
  obtain ⟨t, rfl⟩ | ⟨htargets, hgen, hseen⟩ := step_frame hs
  · exact fun f hf => mem_observe.2 (.inr ⟨rfl, hf⟩)
  · intro f hf
    rw [hgen, hseen]
    refine h f ?_
    unfold TxState.freqs at hf ⊢
    rwa [htargets] at hf

theorem logged_init (self : UUID) : (init (α := α) self).Logged :=
  fun f hf => by simp [init, TxState.init, TxState.freqs] at hf

/-- **The log is right**: it holds what were targets during each generation. -/
theorem mem_seen {self : UUID} {ops : List (TxOp α)} (hrun : exec step (.init self) ops = some s) :
    (gen, f) ∈ s.seen ↔ TargetDuring self ops gen f := by
  constructor
  · intro h
    induction ops using List.reverseRecOn generalizing s with
    | nil => cases hrun; simp [init] at h
    | append_singleton ops op ih =>
      obtain ⟨s₁, hrun₁, hop⟩ := exec_append.1 hrun
      obtain ⟨s₂, hs, hnil⟩ := exec_cons.1 hop
      cases hnil
      rcases mem_seen_step hs h with hseen | ⟨hgen, hf⟩
      · obtain ⟨ops₁, t, hpre, ht⟩ := ih hrun₁ hseen
        exact ⟨ops₁, t, hpre.trans (List.prefix_append _ _), ht⟩
      · exact ⟨_, s, List.prefix_rfl, hrun, hgen, hf⟩
  · rintro ⟨ops₁, s₁, ⟨ops₂, rfl⟩, hrun₁, hgen, hf⟩
    obtain ⟨s₂, hrun₂, hrest⟩ := exec_append.1 hrun
    rw [hrun₁] at hrun₂
    cases hrun₂
    have hlog : s₁.Logged := exec_invariant (I := Logged) (fun _ _ _ h _ hs => h.step hs)
      (logged_init self) (Meets.trivial _ _ _) hrun₁
    exact exec_invariant (I := fun s : TxRun α => (gen, f) ∈ s.seen)
      (fun _ _ _ h _ hs => seen_mono hs h) (hgen ▸ hlog f hf) (Meets.trivial _ _ _) hrest

end Seen

/-! ## The invariant of a run -/

end TxRun

/-- In the locked section: the call holds the lock, and the accumulator is of
its generation, also while it is flushed. -/
def WriteFrame.Held (t : TxState α) (w : ℕ) : WriteFrame α → Prop
  | .targetsLoaded _ | .genLoaded _ _ => True
  | .locked gen _ => t.mu = some w ∧ t.accGen = gen
  | .full gen acc _ | .filled gen acc _ =>
    t.mu = some w ∧ t.accGen = gen ∧ ∀ x ∈ acc, x.gen = gen

/-- A call outside the locked section does not depend on the state. -/
theorem WriteFrame.Held.of_mu {t t' : TxState α} {w : ℕ} {c : WriteFrame α} (h : c.Held t w)
    (hmu : t.mu ≠ some w) : c.Held t' w := by
  cases c with
  | targetsLoaded frame => trivial
  | genLoaded gen frame => trivial
  | locked gen frame => exact absurd h.1 hmu
  | full gen acc frame => exact absurd h.1 hmu
  | filled gen buf frame => exact absurd h.1 hmu

theorem WriteFrame.Held.of_eq {t t' : TxState α} {w : ℕ} {c : WriteFrame α} (h : c.Held t w)
    (hmu : t'.mu = t.mu) (hgen : t'.accGen = t.accGen) : c.Held t' w := by
  cases c with
  | targetsLoaded frame => trivial
  | genLoaded gen frame => trivial
  | locked gen frame => exact ⟨hmu.trans h.1, hgen.trans h.2⟩
  | full gen acc frame => exact ⟨hmu.trans h.1, hgen.trans h.2.1, h.2.2⟩
  | filled gen buf frame => exact ⟨hmu.trans h.1, hgen.trans h.2.1, h.2.2⟩

namespace TxRun

structure Kept (s : TxRun α) : Prop where
  logged : s.Logged
  held : ∀ w c, s.calls.lookup w = some c → c.Held s.t w
  acc : ∀ x ∈ s.t.acc, x.gen = s.t.accGen
  /-- Audio on its way may be sent to the targets of the moment. -/
  carried : ∀ gen ∈ s.carried, ∀ f ∈ s.t.freqs, (gen, f) ∈ s.seen
  loop : ∀ pcm payload targets, s.loop = .sending pcm payload targets →
    ∀ x ∈ pcm, ∀ target ∈ targets, (x.gen, target.freq) ∈ s.seen
  sent : ∀ p ∈ s.sent, ∀ x ∈ p.samples, (x.gen, p.packet.frequency) ∈ s.seen

section Steps

variable {s s' : TxRun α} {w : ℕ} {gen : UInt64} {frame : List α}

theorem mem_carried : gen ∈ s.carried ↔
    (∃ w c, s.calls.lookup w = some c ∧ gen ∈ c.gens) ∨
      (∃ pcm ∈ s.t.pcm, ∃ x ∈ pcm, x.gen = gen) ∨ ∃ x ∈ s.loop.hand, x.gen = gen := by
  have hcalls : (∃ w ∈ s.calls.keys, gen ∈ ((s.calls.lookup w).map WriteFrame.gens).getD []) ↔
      ∃ w c, s.calls.lookup w = some c ∧ gen ∈ c.gens := by
    constructor
    · rintro ⟨w, -, hw⟩
      cases hl : s.calls.lookup w with
      | none => simp [hl] at hw
      | some c => exact ⟨w, c, hl, by simpa [hl] using hw⟩
    · rintro ⟨w, c, hl, hc⟩
      exact ⟨w, AList.mem_keys.2 (AList.lookup_isSome.1 (by rw [hl]; rfl)), by simpa [hl] using hc⟩
  simp only [TxRun.carried, List.mem_append, List.mem_flatMap, List.mem_map, hcalls, or_assoc]

/-- **A step of a call**: it moves to `c`, with what it queues and the
accumulator of its own generation, and disturbs no other call. -/
theorem Kept.call {t : TxState α} {c : WriteFrame α} (h : s.Kept)
    (htargets : t.targets = s.t.targets) (hgen : t.gen = s.t.gen)
    (hother : ∀ w' (c' : WriteFrame α), w' ≠ w → c'.Held s.t w' → c'.Held t w') (hc : c.Held t w)
    (hacc : ∀ x ∈ t.acc, x.gen = t.accGen) (hgens : ∀ g ∈ c.gens, g ∈ s.carried ∨ g = s.t.gen)
    (hpcm : ∀ pcm ∈ t.pcm, pcm ∈ s.t.pcm ∨ ∀ x ∈ pcm, x.gen ∈ s.carried) :
    Kept { s with t := t, calls := s.calls.insert w c } := by
  have hfreqs : t.freqs = s.t.freqs := by unfold TxState.freqs; rw [htargets]
  refine ⟨?_, fun w' c' hl => ?_, hacc, fun g hg f hf => ?_, h.loop, h.sent⟩
  · intro f hf
    simp only [hfreqs, hgen] at hf ⊢
    exact h.logged f hf
  · by_cases hw : w' = w
    · subst hw
      simp only [AList.lookup_insert, Option.some.injEq] at hl
      exact hl ▸ hc
    · simp only [AList.lookup_insert_ne hw] at hl
      exact hother w' c' hw (h.held w' c' hl)
  · simp only [hfreqs] at hf
    have hg' : g ∈ s.carried ∨ g = s.t.gen := by
      rcases mem_carried.1 hg with ⟨w', c', hl, hgc⟩ | ⟨pcm, hin, x, hx, rfl⟩ | hhand
      · by_cases hw : w' = w
        · subst hw
          simp only [AList.lookup_insert, Option.some.injEq] at hl
          exact hgens g (hl ▸ hgc)
        · simp only [AList.lookup_insert_ne hw] at hl
          exact .inl (mem_carried.2 (.inl ⟨w', c', hl, hgc⟩))
      · rcases hpcm pcm hin with hold | hnew
        · exact .inl (mem_carried.2 (.inr (.inl ⟨pcm, hold, x, hx, rfl⟩)))
        · exact .inl (hnew x hx)
      · exact .inl (mem_carried.2 (.inr (.inr hhand)))
    rcases hg' with hcar | rfl
    · exact h.carried g hcar f hf
    · exact h.logged f hf

theorem gens_carried {c : WriteFrame α} (hl : s.calls.lookup w = some c) (hg : gen ∈ c.gens) :
    gen ∈ s.carried :=
  mem_carried.2 (.inl ⟨w, c, hl, hg⟩)

theorem Kept.writeFrame (h : s.Kept) (hs : s.step (.writeFrame w frame) = some s') : s'.Kept := by
  simp only [TxRun.step] at hs
  split at hs
  · cases hs
  · split at hs
    · cases hs; exact h
    · cases hs; exact h
    · cases hs
      exact h.call rfl rfl (fun _ _ _ hc => hc) trivial h.acc (by simp [WriteFrame.gens])
        fun pcm hp => .inl hp

theorem Kept.loadGen (h : s.Kept) (hs : s.step (.loadGen w) = some s') : s'.Kept := by
  simp only [TxRun.step] at hs
  split at hs
  · cases hs
    exact h.call rfl rfl (fun _ _ _ hc => hc) trivial h.acc
      (fun g hg => .inr (List.mem_singleton.1 hg)) fun pcm hp => .inl hp
  · cases hs

/-- The call that takes the lock makes the accumulator its own. -/
theorem Kept.lock (h : s.Kept) (hs : s.step (.lock w) = some s') : s'.Kept := by
  simp only [TxRun.step] at hs
  split at hs
  · next gen frame hl =>
    split at hs
    · next hmu =>
      cases hs
      have hgens : ∀ g ∈ (WriteFrame.locked gen frame).gens, g ∈ s.carried ∨ g = s.t.gen :=
        fun g hg => .inl (gens_carried hl hg)
      have hother : ∀ (t : TxState α) w' (c' : WriteFrame α), w' ≠ w → c'.Held s.t w' →
          c'.Held t w' := fun t w' c' _ hc => hc.of_mu (by simp [hmu])
      unfold TxState.enter
      split
      · exact h.call rfl rfl (hother _) ⟨rfl, rfl⟩ (by simp) hgens fun pcm hp => .inl hp
      · next he =>
        exact h.call rfl rfl (hother _) ⟨rfl, (not_not.1 he).symm⟩ h.acc hgens
          fun pcm hp => .inl hp
    · cases hs
  · cases hs

/-- What the call adds to the accumulator is of its generation, which is the
accumulator's. -/
theorem Kept.copy (h : s.Kept) (hs : s.step (.copy w) = some s') : s'.Kept := by
  simp only [TxRun.step] at hs
  split at hs
  · next gen x frame hl =>
    obtain ⟨hmu, hgen⟩ := h.held w _ hl
    have hacc : ∀ y ∈ (s.t.copy gen (x :: frame)).1.acc, y.gen = gen := by
      intro y hy
      rcases List.mem_append.1 hy with hy | hy
      · exact (h.acc y hy).trans hgen
      · obtain ⟨v, -, rfl⟩ := List.mem_map.1 hy
        rfl
    have hgens : ∀ g ∈ [gen], g ∈ s.carried ∨ g = s.t.gen := fun g hg => .inl (gens_carried hl hg)
    split at hs
    · cases hs
      exact h.call rfl rfl (fun _ _ _ hc => hc.of_eq rfl rfl) ⟨hmu, hgen⟩
        (fun y hy => (hacc y hy).trans hgen.symm) hgens fun pcm hp => .inl hp
    · cases hs
      exact h.call rfl rfl (fun _ _ _ hc => hc.of_eq rfl rfl) ⟨hmu, hgen, hacc⟩ (by simp) hgens
        fun pcm hp => .inl hp
  · cases hs

theorem Kept.takeFree (h : s.Kept) (hs : s.step (.takeFree w) = some s') : s'.Kept := by
  simp only [TxRun.step] at hs
  split at hs
  · next gen acc frame hl =>
    obtain ⟨hmu, hgen, hacc⟩ := h.held w _ hl
    have hgens : ∀ g ∈ [gen], g ∈ s.carried ∨ g = s.t.gen := fun g hg => .inl (gens_carried hl hg)
    split at hs
    · cases hs
      exact h.call rfl rfl (fun _ _ _ hc => hc) ⟨hmu, hgen⟩ h.acc hgens fun pcm hp => .inl hp
    · cases hs
      exact h.call rfl rfl (fun _ _ _ hc => hc.of_eq rfl rfl) ⟨hmu, hgen, hacc⟩ h.acc hgens
        fun pcm hp => .inl hp
  · cases hs

theorem recycle_rest (t : TxState α) : t.recycle.targets = t.targets ∧
    t.recycle.gen = t.gen ∧ t.recycle.mu = t.mu ∧ t.recycle.acc = t.acc ∧
    t.recycle.accGen = t.accGen ∧ t.recycle.pcm = t.pcm := by
  unfold TxState.recycle
  split <;> exact ⟨rfl, rfl, rfl, rfl, rfl, rfl⟩

theorem Kept.queue (h : s.Kept) (hs : s.step (.queue w) = some s') : s'.Kept := by
  simp only [TxRun.step] at hs
  split at hs
  · next gen buf frame hl =>
    cases hs
    obtain ⟨hmu, hgen, hbuf⟩ := h.held w _ hl
    have hcar : gen ∈ s.carried := gens_carried hl List.mem_cons_self
    have hgens : ∀ g ∈ [gen], g ∈ s.carried ∨ g = s.t.gen := fun g hg => .inl (gens_carried hl hg)
    unfold TxState.queue
    split
    · refine h.call rfl rfl (fun _ _ _ hc => hc.of_eq rfl rfl) ⟨hmu, hgen⟩ h.acc hgens
        fun pcm hp => ?_
      rcases List.mem_append.1 hp with hp | hp
      · exact .inl hp
      · rw [List.mem_singleton.1 hp]
        exact .inr fun x hx => hbuf x hx ▸ hcar
    · obtain ⟨htargets, hg, hm, ha, hag, hp⟩ := recycle_rest s.t
      exact h.call htargets hg (fun _ _ _ hc => hc.of_eq hm hag)
        ⟨hm.trans hmu, hag.trans hgen⟩ (ha ▸ hag ▸ h.acc) hgens fun pcm hin => .inl (hp ▸ hin)
  · cases hs

theorem Kept.unlock (h : s.Kept) (hs : s.step (.unlock w) = some s') : s'.Kept := by
  simp only [TxRun.step] at hs
  split at hs
  · next gen hl =>
    cases hs
    obtain ⟨hmu, -⟩ := h.held w _ hl
    have hsub : ∀ w' c', (s.calls.erase w).lookup w' = some c' →
        w' ≠ w ∧ s.calls.lookup w' = some c' := by
      intro w' c' hl'
      by_cases hw : w' = w
      · subst hw; simp at hl'
      · exact ⟨hw, by rwa [AList.lookup_erase_ne hw] at hl'⟩
    refine ⟨h.logged, fun w' c' hl' => ?_, h.acc, fun g hg f hf => ?_, h.loop, h.sent⟩
    · obtain ⟨hw, hl'⟩ := hsub w' c' hl'
      exact (h.held w' c' hl').of_mu fun he => hw (Option.some.inj (he.symm.trans hmu))
    · refine h.carried g (mem_carried.2 ?_) f hf
      rcases mem_carried.1 hg with ⟨w', c', hl', hgc⟩ | hrest
      · exact .inl ⟨w', c', (hsub w' c' hl').2, hgc⟩
      · exact .inr hrest
  · cases hs

/-- **A step of `txLoop`**: it sends what it holds to targets it may, and brings
no new audio on the way. -/
theorem Kept.txLoop {t : TxState α} {loop : TxLoop α} {seqs : AList fun _ : KHz => UInt32}
    {sent : List (Sent α)} (h : s.Kept) (htargets : t.targets = s.t.targets)
    (hgen : t.gen = s.t.gen) (hmu : t.mu = s.t.mu) (hacc : t.acc = s.t.acc)
    (haccGen : t.accGen = s.t.accGen)
    (hcar : ∀ g, ((∃ pcm ∈ t.pcm, ∃ x ∈ pcm, x.gen = g) ∨ ∃ x ∈ loop.hand, x.gen = g) →
      g ∈ s.carried)
    (hloop : ∀ pcm payload targets, loop = .sending pcm payload targets →
      ∀ x ∈ pcm, ∀ target ∈ targets, (x.gen, target.freq) ∈ s.seen)
    (hsent : ∀ p ∈ sent, ∀ x ∈ p.samples, (x.gen, p.packet.frequency) ∈ s.seen) :
    Kept { s with t := t, loop := loop, seqs := seqs, sent := sent } := by
  have hfreqs : t.freqs = s.t.freqs := by unfold TxState.freqs; rw [htargets]
  refine ⟨?_, fun w c hl => (h.held w c hl).of_eq hmu haccGen, ?_, fun g hg f hf => ?_, hloop,
    hsent⟩
  · intro f hf
    simp only [hfreqs, hgen] at hf ⊢
    exact h.logged f hf
  · simp only [hacc, haccGen]
    exact h.acc
  · simp only [hfreqs] at hf
    refine h.carried g ?_ f hf
    rcases mem_carried.1 hg with hcall | hrest
    · exact mem_carried.2 (.inl hcall)
    · exact hcar g hrest

theorem Kept.receive (h : s.Kept) (hs : s.step .receive = some s') : s'.Kept := by
  simp only [TxRun.step] at hs
  split at hs
  · next pcm rest hloop hpcm =>
    cases hs
    refine h.txLoop rfl rfl rfl rfl rfl (fun g hg => mem_carried.2 (.inr (.inl ?_))) nofun h.sent
    rw [hpcm]
    rcases hg with ⟨b, hb, hx⟩ | hx
    · exact ⟨b, List.mem_cons_of_mem _ hb, hx⟩
    · exact ⟨pcm, List.mem_cons_self, hx⟩
  · cases hs

/-- The targets are loaded for audio that may be sent to them. -/
theorem Kept.load {encoded : Encoded} (h : s.Kept) (hs : s.step (.load encoded) = some s') :
    s'.Kept := by
  simp only [TxRun.step] at hs
  split at hs
  · next pcm hloop =>
    have hcar : ∀ g, ((∃ b ∈ s.t.pcm, ∃ x ∈ b, x.gen = g) ∨
        ∃ x ∈ ([] : List (Sample α)), x.gen = g) → g ∈ s.carried := by
      rintro g (hg | ⟨x, hx, -⟩)
      · exact mem_carried.2 (.inr (.inl hg))
      · cases hx
    split at hs
    · cases hs
      refine h.txLoop rfl rfl rfl rfl rfl hcar (fun b p targets hb x hx target ht => ?_) h.sent
      cases hb
      cases ht
    · cases hs
      refine h.txLoop rfl rfl rfl rfl rfl hcar (fun b p targets hb x hx target ht => ?_) h.sent
      cases hb
      have hx' : x.gen ∈ s.carried := by
        refine mem_carried.2 (.inr (.inr ⟨x, ?_, rfl⟩))
        rw [hloop]
        exact hx
      exact h.carried x.gen hx' target.freq (List.mem_map_of_mem ht)
  · cases hs

theorem Kept.send {ok : Bool} (h : s.Kept) (hs : s.step (.send ok) = some s') : s'.Kept := by
  simp only [TxRun.step] at hs
  split at hs
  · next pcm payload target targets hloop =>
    cases hs
    have hmay := h.loop _ _ _ hloop
    refine h.txLoop rfl rfl rfl rfl rfl ?_ (fun b p ts hb x hx t ht => ?_) fun p hp x hx => ?_
    · rintro g (hg | ⟨x, hx, -⟩)
      · exact mem_carried.2 (.inr (.inl hg))
      · cases hx
    · cases hb
      exact hmay x hx t (List.mem_cons_of_mem _ ht)
    · split at hp
      · rcases List.mem_append.1 hp with hp | hp
        · exact h.sent p hp x hx
        · rw [List.mem_singleton.1 hp] at hx ⊢
          exact hmay x hx target List.mem_cons_self
      · exact h.sent p hp x hx
  · cases hs

theorem Kept.recycle (h : s.Kept) (hs : s.step .recycle = some s') : s'.Kept := by
  simp only [TxRun.step] at hs
  split at hs
  · cases hs
    obtain ⟨htargets, hg, hm, ha, hag, hp⟩ := recycle_rest s.t
    refine h.txLoop htargets hg hm ha hag (fun g hcar => ?_) nofun h.sent
    rw [hp] at hcar
    rcases hcar with hcar | ⟨x, hx, -⟩
    · exact mem_carried.2 (.inr (.inl hcar))
    · cases hx
  · cases hs

/-- **New targets or a new generation**: what is carried must know the targets. -/
theorem Kept.observe {targets : Option (List TXTarget)} {g : UInt64} (h : s.Kept)
    (hcar : ∀ gen ∈ s.carried, gen = g ∨
      ∀ f ∈ (targets.getD []).map TXTarget.freq, (gen, f) ∈ s.seen) :
    Kept { s with t := { s.t with targets := targets, gen := g } }.observe := by
  refine ⟨fun f hf => mem_observe.2 (.inr ⟨rfl, hf⟩),
    fun w c hl => (h.held w c hl).of_eq rfl rfl, h.acc, fun gen hgen f hf => ?_,
    fun pcm payload ts hl x hx target ht => ?_, fun p hp x hx => ?_⟩
  · rcases hcar gen hgen with rfl | hseen
    · exact mem_observe.2 (.inr ⟨rfl, hf⟩)
    · exact mem_observe.2 (.inl (hseen f hf))
  · exact mem_observe.2 (.inl (h.loop pcm payload ts hl x hx target ht))
  · exact mem_observe.2 (.inl (h.sent p hp x hx))

theorem Kept.step {op : TxOp α} (h : s.Kept) (hok : s.Drained op) (hs : s.step op = some s') :
    s'.Kept := by
  cases op with
  | writeFrame w frame => exact h.writeFrame hs
  | loadGen w => exact h.loadGen hs
  | lock w => exact h.lock hs
  | copy w => exact h.copy hs
  | takeFree w => exact h.takeFree hs
  | queue w => exact h.queue hs
  | unlock w => exact h.unlock hs
  | setTXFrequencies targets =>
    cases hs
    show Kept { s with t := { s.t with targets := some targets, gen := s.t.gen } }.observe
    refine h.observe fun gen hgen => ?_
    exact (hok gen hgen).imp_right fun hseen f hf => by
      obtain ⟨target, ht, rfl⟩ := List.mem_map.1 hf
      exact hseen target ht
  | endTransmission =>
    cases hs
    exact h.observe fun gen hgen => .inr fun f hf => h.carried gen hgen f hf
  | receive => exact h.receive hs
  | load encoded => exact h.load hs
  | send ok => exact h.send hs
  | recycle => exact h.recycle hs

theorem kept_init (self : UUID) : (init (α := α) self).Kept := by
  refine ⟨logged_init self, fun w c hl => ?_, ?_, fun g hg => ?_, nofun, ?_⟩
  · simp [init] at hl
  · simp [init, TxState.init]
  · simp [init, TxState.init, TxState.freqs]
  · simp [init]

end Steps

/-- **A press is heard only where it was keyed**, in every drained run: each
sample on the wire went to a frequency that was a target during the generation
the sample was accepted under. -/
theorem heard_where_keyed (self : UUID) (ops : List (TxOp α)) (s : TxRun α)
    (hok : Meets step Drained (.init self) ops) (hrun : exec step (.init self) ops = some s) :
    ∀ p ∈ s.sent, ∀ x ∈ p.samples, TargetDuring self ops x.gen p.packet.frequency := by
  have h : s.Kept :=
    exec_invariant (fun _ _ _ h hok hs => h.step hok hs) (kept_init self) hok hrun
  exact fun p hp x hx => (mem_seen hrun).1 (h.sent p hp x hx)

section Examples

/-- Call `w` hands a whole frame to the queue. -/
def queueFrame (w : ℕ) : List (TxOp ℕ) :=
  [.writeFrame w (List.replicate frameSamples 0), .loadGen w, .lock w, .copy w, .takeFree w,
    .queue w, .unlock w]

/-- `txLoop` sends a frame to one target. -/
def sendFrame : List (TxOp ℕ) := [.receive, .load (.bytes [1]), .send true, .recycle]

/-- The frequency and the first generation of each packet sent. -/
def sentGens (s : TxRun ℕ) : List (KHz × Option UInt64) :=
  s.sent.map fun p => (p.packet.frequency, p.samples.head?.map (·.gen))

/-- A frame on one frequency, sent before the next press changes it. -/
def drainedRun : List (TxOp ℕ) :=
  [.setTXFrequencies [⟨30000, false⟩]] ++ queueFrame 0 ++ sendFrame ++
    [.endTransmission, .setTXFrequencies [⟨31000, false⟩]]

theorem heard_where_keyed_frame :
    ∃ s, exec step (.init .nil) drainedRun = some s ∧ sentGens s = [(30000, some 0)] ∧
      ∀ p ∈ s.sent, ∀ x ∈ p.samples, TargetDuring .nil drainedRun x.gen p.packet.frequency := by
  have hend : (exec step (.init .nil) drainedRun).map sentGens = some [(30000, some 0)] := by
    decide +kernel
  obtain ⟨s, hrun, hsent⟩ := Option.map_eq_some_iff.1 hend
  exact ⟨s, hrun, hsent, heard_where_keyed .nil drainedRun s (by decide +kernel) hrun⟩

/-- The next press changes the frequency while a frame is queued. -/
def repressRun : List (TxOp ℕ) :=
  [.setTXFrequencies [⟨30000, false⟩]] ++ queueFrame 0 ++
    [.endTransmission, .setTXFrequencies [⟨31000, false⟩]] ++ sendFrame

/-- **Audio of the first press on the frequency of the second**: the queued
frame is of generation 0, during which the frequency was no target. -/
theorem queued_frame_leaks :
    ∃ s, exec step (.init .nil) repressRun = some s ∧ sentGens s = [(31000, some 0)] ∧
      ¬ ∀ p ∈ s.sent, ∀ x ∈ p.samples, TargetDuring .nil repressRun x.gen p.packet.frequency := by
  have hend : (exec step (.init .nil) repressRun).map (fun s => (sentGens s, s.seen)) =
      some ([(31000, some 0)], [(0, 30000), (1, 30000), (1, 31000)]) := by decide +kernel
  obtain ⟨s, hrun, hs⟩ := Option.map_eq_some_iff.1 hend
  obtain ⟨hsent, hseen⟩ := Prod.mk.inj hs
  refine ⟨s, hrun, hsent, fun h => ?_⟩
  have hmem : ((31000 : KHz), some (0 : UInt64)) ∈ sentGens s := hsent ▸ List.mem_cons_self
  obtain ⟨p, hp, hfreq⟩ := List.mem_map.1 hmem
  obtain ⟨hf, hhead⟩ := Prod.mk.inj hfreq
  obtain ⟨x, hx, hgen⟩ := Option.map_eq_some_iff.1 hhead
  have hkeyed := (mem_seen hrun).2 (h p hp x (List.mem_of_mem_head? hx))
  rw [hseen, hf, hgen] at hkeyed
  exact absurd hkeyed (by decide)

end Examples

end TxRun

end VcsClient.Voice
