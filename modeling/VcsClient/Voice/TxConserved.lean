import VcsClient.Voice.TxKeyed
import VcsClient.Voice.TxPipeline

/-!
# The transmit path loses no frame

`Moves` lists what one operation can do to the pipeline. Only the call that
holds the lock has a frame or a buffer in its hands, so the buffers and the
frames are accounted for by the pool, the queue, `txLoop` and `holder` (`Flow`).

The samples of the frames filled so far, of the accumulator and of what is left
of the holder's frame form one stream (`Streamed`): filling a frame moves the
cut and leaves the stream as it is. It runs in the order the calls took the
lock, so no frame mixes calls out of order and no two frames are equal.
-/

namespace VcsClient.Voice

open VcsClient.Lib

variable {α : Type}

namespace Pipeline

/-- The call moves on to `c`, and the transmit state to `t`. -/
def put (p : Pipeline α) (t : TxState (Tagged α)) (w : ℕ) (c : WriteFrame (Tagged α)) :
    Pipeline α :=
  { p with run := { p.run with t := t, calls := p.run.calls.insert w c } }

inductive Moves (p : Pipeline α) : TxOp α → Pipeline α → Prop where
  | refused {w : ℕ} {frame : List α} (hw : w ∉ p.run.calls) :
    Moves p (.writeFrame w frame) { p with
      numbers := Function.update p.numbers w p.started
      started := p.started + 1
      events := p.events ++ [.started p.started] ++ [.returned p.started] }
  | began {w : ℕ} {frame : List α} (hw : w ∉ p.run.calls) :
    Moves p (.writeFrame w frame) { p.put p.run.t w (.targetsLoaded (tagFrame p.started frame)) with
      numbers := Function.update p.numbers w p.started
      started := p.started + 1
      events := p.events ++ [.started p.started] }
  | loadGen {w : ℕ} {frame : List (Tagged α)} (hl : p.run.calls.lookup w = some (.targetsLoaded frame)) :
    Moves p (.loadGen w) (p.put p.run.t w (.genLoaded p.run.t.gen frame))
  | lock {w : ℕ} {gen : UInt64} {frame : List (Tagged α)}
    (hl : p.run.calls.lookup w = some (.genLoaded gen frame)) (hmu : p.run.t.mu = none) :
    Moves p (.lock w) { p.put (p.run.t.enter w gen) w (.locked gen frame) with
      order := p.order ++ [p.numbers w] }
  | copied {w : ℕ} {gen : UInt64} {frame : List (Tagged α)}
    (hl : p.run.calls.lookup w = some (.locked gen frame)) {acc : List (Sample (Tagged α))}
    (hacc : acc = p.run.t.acc ++ frame.map (⟨·, gen⟩)) (hshort : acc.length < frameSamples) :
    Moves p (.copy w) (p.put { p.run.t with acc := acc } w (.locked gen []))
  | filled {w : ℕ} {gen : UInt64} {frame taken rest : List (Tagged α)}
    (hl : p.run.calls.lookup w = some (.locked gen frame)) (hframe : frame = taken ++ rest)
    {acc : List (Sample (Tagged α))} (hacc : acc = p.run.t.acc ++ taken.map (⟨·, gen⟩))
    (hfull : acc.length = frameSamples) :
    Moves p (.copy w) { p.put { p.run.t with acc := [] } w (.full gen acc rest) with
      filled := p.filled ++ [acc] }
  | noFree {w : ℕ} {gen : UInt64} {acc : List (Sample (Tagged α))} {frame : List (Tagged α)}
    (hl : p.run.calls.lookup w = some (.full gen acc frame)) (hfree : p.run.t.free = 0) :
    Moves p (.takeFree w) ((p.drop (some acc)).put p.run.t w (.locked gen frame))
  | tookFree {w : ℕ} {gen : UInt64} {acc : List (Sample (Tagged α))} {frame : List (Tagged α)}
    (hl : p.run.calls.lookup w = some (.full gen acc frame)) (hfree : 0 < p.run.t.free) :
    Moves p (.takeFree w)
      (p.put { p.run.t with free := p.run.t.free - 1 } w (.filled gen acc frame))
  | queued {w : ℕ} {gen : UInt64} {buf : List (Sample (Tagged α))} {frame : List (Tagged α)}
    (hl : p.run.calls.lookup w = some (.filled gen buf frame)) :
    Moves p (.queue w) (p.put { p.run.t with pcm := p.run.t.pcm ++ [buf] } w (.locked gen frame))
  | queueFull {w : ℕ} {gen : UInt64} {buf : List (Sample (Tagged α))} {frame : List (Tagged α)}
    (hl : p.run.calls.lookup w = some (.filled gen buf frame)) :
    Moves p (.queue w) ((p.drop (some buf)).put p.run.t.recycle w (.locked gen frame))
  | unlock {w : ℕ} {gen : UInt64} (hl : p.run.calls.lookup w = some (.locked gen [])) :
    Moves p (.unlock w) { p with
      run := { p.run with t := { p.run.t with mu := none }, calls := p.run.calls.erase w }
      events := p.events ++ [.returned (p.numbers w)] }
  | receive {frame : Frame α} {rest : List (Frame α)} (hloop : p.run.loop = .waiting)
    (hpcm : p.run.t.pcm = frame :: rest) :
    Moves p .receive { p with
      run := { p.run with t := { p.run.t with pcm := rest }, loop := .received frame }
      txSend := p.txSend ++ [frame] }
  | recycle {frame : Frame α} {payload : List UInt8}
    (hloop : p.run.loop = .sending frame payload []) :
    Moves p .recycle { p with run := { p.run with t := p.run.t.recycle, loop := .waiting } }
  /-- The targets, the generation and what `txSend` makes of its frame. -/
  | quiet {op : TxOp α} {run : TxRun (Tagged α)} (hcalls : run.calls = p.run.calls)
    (hpcm : run.t.pcm = p.run.t.pcm) (hfree : run.t.free = p.run.t.free)
    (hmu : run.t.mu = p.run.t.mu) (hacc : run.t.acc = p.run.t.acc)
    (haccGen : run.t.accGen = p.run.t.accGen) (hloop : run.loop.hasBuffer = p.run.loop.hasBuffer) :
    Moves p op { p with run := run }

/-- What a copy puts in the accumulator, and what it leaves of the frame. -/
theorem copy_eq (t : TxState α) (gen : UInt64) (frame : List α) :
    ∃ taken, frame = taken ++ (t.copy gen frame).2 ∧
      (t.copy gen frame).1 = { t with acc := t.acc ++ taken.map (⟨·, gen⟩) } ∧
      taken.length = min (frameSamples - t.acc.length) frame.length :=
  ⟨_, (List.take_append_drop _ _).symm, rfl, by simp⟩

theorem step_moves {p p' : Pipeline α} {op : TxOp α} (hacc : p.run.t.acc.length < frameSamples)
    (hs : p.step (.tx op) = some p') : Moves p op p' := by
  have hs' : ∃ run, p.run.step (op.tag p.started) = some run ∧ p' = p.note run op := by
    simp only [step] at hs
    split at hs
    · split at hs
      · cases hs
      · obtain ⟨run, h, rfl⟩ := Option.map_eq_some_iff.1 hs
        exact ⟨run, h, rfl⟩
    · obtain ⟨run, h, rfl⟩ := Option.map_eq_some_iff.1 hs
      exact ⟨run, h, rfl⟩
  obtain ⟨run, h, rfl⟩ := hs'
  cases op with
  | writeFrame w frame =>
    simp only [TxOp.tag, TxRun.step] at h
    split at h
    · cases h
    · next hw =>
      split at h
      · cases h; simp only [note, if_neg hw]; exact .refused hw
      · cases h; simp only [note, if_neg hw]; exact .refused hw
      · cases h
        simp only [note, AList.mem_insert, true_or, if_true]
        exact .began hw
  | loadGen w =>
    simp only [TxOp.tag, TxRun.step] at h
    split at h
    · next frame hl => cases h; exact .loadGen hl
    · cases h
  | lock w =>
    simp only [TxOp.tag, TxRun.step] at h
    split at h
    · next gen frame hl =>
      split at h
      · next hmu => cases h; exact .lock hl hmu
      · cases h
    · cases h
  | copy w =>
    simp only [TxOp.tag, TxRun.step] at h
    split at h
    · next gen x frame hl =>
      obtain ⟨taken, hframe, hcopy, hlen⟩ := copy_eq p.run.t gen (x :: frame)
      split at h
      · next hshort =>
        cases h
        have hrest : (p.run.t.copy gen (x :: frame)).2 = [] := by
          rw [hcopy] at hshort
          have hframe' := congrArg List.length hframe
          simp only [List.length_append, List.length_map] at hshort hframe'
          exact List.length_eq_zero_iff.1 (by omega)
        rw [hrest, List.append_nil] at hframe
        rw [hcopy, ← hframe] at hshort ⊢
        simp only [note, carried, AList.lookup_insert, Option.bind_some, WriteFrame.carrying,
          Option.toList_none, List.append_nil]
        exact .copied hl rfl hshort
      · next hfull =>
        cases h
        rw [hcopy] at hfull ⊢
        simp only [note, carried, AList.lookup_insert, Option.bind_some, WriteFrame.carrying,
          Option.toList_some]
        refine .filled hl hframe rfl ?_
        simp only [List.length_append, List.length_map] at hfull ⊢
        omega
    · cases h
  | takeFree w =>
    simp only [TxOp.tag, TxRun.step] at h
    split at h
    · next gen acc frame hl =>
      have hcar : p.carried w = some acc := by simp [carried, hl, WriteFrame.carrying]
      split at h
      · next hfree =>
        cases h
        simp only [note, if_pos hfree, hcar]
        exact .noFree hl hfree
      · next hfree =>
        cases h
        simp only [note, if_neg hfree]
        exact .tookFree hl (Nat.pos_of_ne_zero hfree)
    · cases h
  | queue w =>
    simp only [TxOp.tag, TxRun.step] at h
    split at h
    · next gen buf frame hl =>
      have hcar : p.carried w = some buf := by simp [carried, hl, WriteFrame.carrying]
      cases h
      unfold TxState.queue
      simp only [note, hcar]
      split
      · exact .queued hl
      · exact .queueFull hl
    · cases h
  | unlock w =>
    simp only [TxOp.tag, TxRun.step] at h
    split at h
    · next gen hl => cases h; exact .unlock hl
    · cases h
  | setTXFrequencies targets => cases h; exact .quiet rfl rfl rfl rfl rfl rfl rfl
  | endTransmission => cases h; exact .quiet rfl rfl rfl rfl rfl rfl rfl
  | receive =>
    simp only [TxOp.tag, TxRun.step] at h
    split at h
    · next frame rest hloop hpcm =>
      cases h
      simp only [note, hpcm, List.head?_cons, Option.toList_some]
      exact .receive hloop hpcm
    · cases h
  | load encoded =>
    simp only [TxOp.tag, TxRun.step] at h
    split at h
    · next frame hloop =>
      split at h <;> cases h <;> exact .quiet rfl rfl rfl rfl rfl rfl (by rw [hloop]; rfl)
    · cases h
  | send ok =>
    simp only [TxOp.tag, TxRun.step] at h
    split at h
    · next frame payload target targets hloop =>
      cases h
      exact .quiet rfl rfl rfl rfl rfl rfl (by rw [hloop]; rfl)
    · cases h
  | recycle =>
    simp only [TxOp.tag, TxRun.step] at h
    split at h
    · next frame payload hloop => cases h; exact .recycle hloop
    · cases h

end Pipeline

/-! ## The call that holds the lock -/

/-- The call is in the locked section. -/
def WriteFrame.inside : WriteFrame α → Bool
  | .targetsLoaded _ | .genLoaded _ _ => false
  | .locked _ _ | .full _ _ _ | .filled _ _ _ => true

theorem WriteFrame.Held.mu {t : TxState α} {w : ℕ} {c : WriteFrame α} (h : c.Held t w)
    (hin : c.inside = true) : t.mu = some w := by
  cases c with
  | targetsLoaded frame => cases hin
  | genLoaded gen frame => cases hin
  | locked gen frame => exact h.1
  | full gen acc frame => exact h.1
  | filled gen buf frame => exact h.1

theorem WriteFrame.outside {c : WriteFrame α} (h : c.inside = false) :
    c.carrying = none ∧ c.hasBuffer = false := by
  cases c with
  | targetsLoaded frame => exact ⟨rfl, rfl⟩
  | genLoaded gen frame => exact ⟨rfl, rfl⟩
  | locked gen frame => cases h
  | full gen acc frame => cases h
  | filled gen buf frame => cases h

namespace Pipeline

/-- Who holds the lock is in the locked section, and its samples and the
accumulator's are of one generation. -/
structure Locked (p : Pipeline α) : Prop where
  held : ∀ w c, p.run.calls.lookup w = some c → c.Held p.run.t w
  inside : ∀ w, p.run.t.mu = some w → ∃ c, p.run.calls.lookup w = some c ∧ c.inside = true
  acc : ∀ x ∈ p.run.t.acc, x.gen = p.run.t.accGen

/-- The call that holds the lock. -/
def holder (p : Pipeline α) : Option (WriteFrame (Tagged α)) :=
  p.run.t.mu.bind fun w => p.run.calls.lookup w

def hand (p : Pipeline α) : List (Frame α) := (p.holder.bind WriteFrame.carrying).toList

def handBuffers (p : Pipeline α) : ℕ := (p.holder.any WriteFrame.hasBuffer).toNat

section Holder

variable {p : Pipeline α} {t : TxState (Tagged α)} {w : ℕ} {c : WriteFrame (Tagged α)}

theorem hand_of_holder (h : p.holder = some c) : p.hand = c.carrying.toList := by
  simp [hand, h]

theorem handBuffers_of_holder (h : p.holder = some c) : p.handBuffers = c.hasBuffer.toNat := by
  simp [handBuffers, h]

theorem Locked.holder_eq (h : p.Locked) (hl : p.run.calls.lookup w = some c)
    (hin : c.inside = true) : p.holder = some c := by
  simp [holder, (h.held w c hl).mu hin, hl]

theorem holder_put (hmu : t.mu = some w) : (p.put t w c).holder = some c := by
  simp [holder, put, hmu]

/-- A call outside the locked section does not hold the lock. -/
theorem Locked.mu_ne (h : p.Locked) (hout : ∀ c, p.run.calls.lookup w = some c → c.inside = false) :
    p.run.t.mu ≠ some w := by
  intro hmu
  obtain ⟨c, hl, hin⟩ := h.inside w hmu
  rw [hout c hl] at hin
  cases hin

theorem holder_put_outside (hne : p.run.t.mu ≠ some w) : (p.put p.run.t w c).holder = p.holder := by
  unfold holder put
  cases hmu : p.run.t.mu with
  | none => rfl
  | some w' =>
    have hw : w' ≠ w := fun he => hne (by rw [hmu, he])
    simp [AList.lookup_insert_ne hw]

/-- No other call than the holder has anything in its hands. -/
theorem Locked.others (h : p.Locked) (hmu : p.run.t.mu = some w) :
    ∀ e ∈ (p.run.calls.erase w).entries, e.2.inside = false := by
  intro e he
  obtain ⟨hne, hl⟩ := mem_erase_entries he
  by_contra hin
  have hmu' := (h.held _ _ hl).mu (by simpa using hin)
  exact hne (Option.some.inj (hmu'.symm.trans hmu))

/-- What the calls have in their hands is what the holder has. -/
theorem Locked.calls_eq (h : p.Locked) : p.inCalls = p.hand ∧ p.callBuffers = p.handBuffers := by
  have hnone : ∀ l : List (Sigma fun _ : ℕ => WriteFrame (Tagged α)),
      (∀ e ∈ l, e.2.inside = false) → l.filterMap (fun e => e.2.carrying) = [] ∧
        l.countP (fun e => e.2.hasBuffer) = 0 := by
    intro l hl
    refine ⟨List.filterMap_eq_nil_iff.2 fun e he => (WriteFrame.outside (hl e he)).1, ?_⟩
    exact List.countP_eq_zero.2 fun e he => by simp [(WriteFrame.outside (hl e he)).2]
  unfold inCalls callBuffers
  cases hmu : p.run.t.mu with
  | none =>
    obtain ⟨h₁, h₂⟩ := hnone p.run.calls.entries fun e he => by
      by_contra hin
      have hl : p.run.calls.lookup e.1 = some e.2 := AList.mem_lookup_iff.2 he
      have hmu' := (h.held _ _ hl).mu (by simpa using hin)
      rw [hmu] at hmu'
      cases hmu'
    simp [h₁, h₂, hand, handBuffers, holder, hmu]
  | some w =>
    obtain ⟨c, hl, hin⟩ := h.inside w hmu
    obtain ⟨h₁, h₂⟩ := hnone _ (h.others hmu)
    have hperm := perm_erase_of_lookup hl
    have hholder := h.holder_eq hl hin
    rw [hand_of_holder hholder, handBuffers_of_holder hholder]
    constructor
    · have hp := hperm.filterMap fun e : Sigma fun _ : ℕ => WriteFrame (Tagged α) => e.2.carrying
      cases hc : c.carrying with
      | none => simpa [hc, h₁] using hp
      | some frame => simpa [hc, h₁] using hp
    · rw [hperm.countP_eq]
      cases hc : c.hasBuffer <;> simp [hc, h₂]

end Holder

/-! ### Generations -/

theorem enter_rest (t : TxState α) (w : ℕ) (gen : UInt64) : (t.enter w gen).mu = some w ∧
    (t.enter w gen).accGen = gen ∧ (t.enter w gen).pcm = t.pcm ∧ (t.enter w gen).free = t.free ∧
    ((t.enter w gen).acc = [] ∨ (t.enter w gen).acc = t.acc ∧ gen = t.accGen) := by
  unfold TxState.enter
  split
  · exact ⟨rfl, rfl, rfl, rfl, .inl rfl⟩
  · next he => exact ⟨rfl, (not_not.1 he).symm, rfl, rfl, .inr ⟨rfl, not_not.1 he⟩⟩

theorem mem_append_tagged {acc : List (Sample α)} {taken : List α} {gen : UInt64}
    (hacc : ∀ x ∈ acc, x.gen = gen) : ∀ x ∈ acc ++ taken.map (⟨·, gen⟩), x.gen = gen := by
  intro x hx
  rcases List.mem_append.1 hx with hx | hx
  · exact hacc x hx
  · obtain ⟨v, -, rfl⟩ := List.mem_map.1 hx
    rfl

theorem locked_init (self : UUID) : (init (α := α) self).Locked where
  held w c hl := by cases hl
  inside w hmu := by cases hmu
  acc x hx := by cases hx

section Locked

variable {p p' : Pipeline α} {t : TxState (Tagged α)} {w : ℕ} {c d : WriteFrame (Tagged α)}

theorem Locked.put (h : p.Locked) (hl : p.run.calls.lookup w = some c) (hin : c.inside = true)
    (hmu : t.mu = p.run.t.mu) (hc : d.Held t w) (hin' : d.inside = true)
    (hacc : ∀ x ∈ t.acc, x.gen = t.accGen) : (p.put t w d).Locked where
  held w' e hl' := by
    by_cases hw : w' = w
    · subst hw
      simp only [Pipeline.put, AList.lookup_insert, Option.some.injEq] at hl'
      exact hl' ▸ hc
    · simp only [Pipeline.put, AList.lookup_insert_ne hw] at hl'
      refine (h.held w' e hl').of_mu fun hmu' => hw ?_
      exact Option.some.inj (hmu'.symm.trans ((h.held w c hl).mu hin))
  inside w' hmu' := by
    have hw : w' = w :=
      Option.some.inj ((hmu.symm.trans hmu').symm.trans ((h.held w c hl).mu hin))
    exact ⟨d, hw ▸ AList.lookup_insert _, hin'⟩
  acc := hacc

theorem Locked.put_outside (h : p.Locked) (hne : p.run.t.mu ≠ some w) (hc : d.inside = false) :
    (p.put p.run.t w d).Locked where
  held w' e hl' := by
    by_cases hw : w' = w
    · subst hw
      simp only [Pipeline.put, AList.lookup_insert, Option.some.injEq] at hl'
      subst hl'
      cases d with
      | targetsLoaded frame => trivial
      | genLoaded gen frame => trivial
      | locked gen frame => cases hc
      | full gen acc frame => cases hc
      | filled gen buf frame => cases hc
    · simp only [Pipeline.put, AList.lookup_insert_ne hw] at hl'
      exact h.held w' e hl'
  inside w' hmu' := by
    have hw : w' ≠ w := fun he => hne (he ▸ hmu')
    obtain ⟨e, hl', hin⟩ := h.inside w' hmu'
    exact ⟨e, by simpa [Pipeline.put, AList.lookup_insert_ne hw] using hl', hin⟩
  acc := h.acc

theorem Locked.moves {op : TxOp α} (h : p.Locked) (hm : p.Moves op p') : p'.Locked := by
  cases hm with
  | refused hw => exact { h with }
  | began hw =>
    have hne : p.run.t.mu ≠ some _ := h.mu_ne fun c hl =>
      absurd (AList.lookup_isSome.1 (by rw [hl]; rfl)) hw
    exact { h.put_outside hne (d := .targetsLoaded _) rfl with }
  | @loadGen w frame hl =>
    have hne : p.run.t.mu ≠ some w := h.mu_ne fun c hl' => by
      cases hl.symm.trans hl'
      rfl
    exact h.put_outside hne rfl
  | @lock w gen frame hl hmu =>
    obtain ⟨hmu', hgen, -, -, hacc⟩ := enter_rest p.run.t w gen
    refine ⟨fun w' e hl' => ?_, fun w' hw' => ?_, fun x hx => ?_⟩
    · by_cases hw : w' = w
      · subst hw
        simp only [Pipeline.put, AList.lookup_insert, Option.some.injEq] at hl'
        subst hl'
        exact ⟨hmu', hgen⟩
      · simp only [Pipeline.put, AList.lookup_insert_ne hw] at hl'
        exact (h.held w' e hl').of_mu (by simp [hmu])
    · have hw : w' = w := Option.some.inj (hw'.symm.trans hmu')
      exact ⟨.locked gen frame, hw ▸ AList.lookup_insert _, rfl⟩
    · change x.gen = (p.run.t.enter w gen).accGen
      change x ∈ (p.run.t.enter w gen).acc at hx
      rcases hacc with hnil | ⟨hsame, heq⟩
      · rw [hnil] at hx
        cases hx
      · rw [hgen, heq]
        exact h.acc x (hsame ▸ hx)
  | @copied w gen frame hl acc hacc hshort =>
    obtain ⟨hmu, hgen⟩ := h.held w _ hl
    refine h.put hl rfl rfl ⟨hmu, hgen⟩ rfl fun x hx => ?_
    exact (mem_append_tagged (hgen ▸ h.acc) x (hacc ▸ hx)).trans hgen.symm
  | @filled w gen frame taken rest hl hframe acc hacc hfull =>
    obtain ⟨hmu, hgen⟩ := h.held w _ hl
    have hgens : ∀ x ∈ acc, x.gen = gen := hacc ▸ mem_append_tagged (hgen ▸ h.acc)
    exact { h.put (t := { p.run.t with acc := [] }) hl rfl rfl (d := .full gen acc rest)
      ⟨hmu, hgen, hgens⟩ rfl (by simp) with }
  | @noFree w gen acc frame hl hfree =>
    obtain ⟨hmu, hgen, -⟩ := h.held w _ hl
    exact { h.put hl rfl rfl (d := .locked gen frame) ⟨hmu, hgen⟩ rfl h.acc with }
  | @tookFree w gen acc frame hl hfree =>
    exact h.put hl rfl rfl (h.held w _ hl) rfl h.acc
  | @queued w gen buf frame hl =>
    obtain ⟨hmu, hgen, -⟩ := h.held w _ hl
    exact h.put hl rfl rfl ⟨hmu, hgen⟩ rfl h.acc
  | @queueFull w gen buf frame hl =>
    obtain ⟨hmu, hgen, -⟩ := h.held w _ hl
    obtain ⟨-, -, hm, ha, hg, -⟩ := TxRun.recycle_rest p.run.t
    exact { h.put (t := p.run.t.recycle) hl rfl hm (d := .locked gen frame)
      ⟨hm.trans hmu, hg.trans hgen⟩ rfl (ha ▸ hg ▸ h.acc) with }
  | @unlock w gen hl =>
    obtain ⟨hmu, -⟩ := h.held w _ hl
    refine ⟨fun w' e hl' => ?_, fun w' hmu' => ?_, h.acc⟩
    · obtain ⟨hne, hl'⟩ := mem_erase_entries (AList.mem_lookup_iff.1 hl')
      exact (h.held w' e hl').of_mu fun he => hne (Option.some.inj (he.symm.trans hmu))
    · cases hmu'
  | receive hloop hpcm =>
    exact ⟨fun w c hl => (h.held w c hl).of_eq rfl rfl, h.inside, h.acc⟩
  | recycle hloop =>
    obtain ⟨-, -, hm, ha, hg, -⟩ := TxRun.recycle_rest p.run.t
    refine ⟨fun w c hl => (h.held w c hl).of_eq hm hg, fun w hmu => h.inside w (hm ▸ hmu), ?_⟩
    exact fun x hx => (h.acc x (ha ▸ hx)).trans hg.symm
  | quiet hcalls hpcm hfree hmu hacc haccGen hloop =>
    refine ⟨fun w c hl => ?_, fun w hmu' => ?_, fun x hx => ?_⟩
    · exact (h.held w c (hcalls ▸ hl)).of_eq hmu haccGen
    · obtain ⟨c, hl, hin⟩ := h.inside w (hmu ▸ hmu')
      exact ⟨c, hcalls ▸ hl, hin⟩
    · exact (h.acc x (hacc ▸ hx)).trans haccGen.symm

end Locked

/-! ### Buffers and frames -/

theorem frameSamples_pos : 0 < frameSamples := by decide

theorem recycle_free {t : TxState α} (h : t.free < txBufferCount) :
    t.recycle = { t with free := t.free + 1 } := by
  unfold TxState.recycle
  rw [if_pos h]

/-- Where the buffers and the filled accumulators are. -/
structure Flow (p : Pipeline α) : Prop where
  room : p.run.t.acc.length < frameSamples
  full : ∀ frame ∈ p.filled, frame.length = frameSamples ∧ ∃ gen, ∀ x ∈ frame, x.gen = gen
  buffers : p.run.t.free + p.run.t.pcm.length + p.handBuffers + p.run.loop.hasBuffer.toNat =
    txBufferCount
  placed : p.filled.Perm (p.txSend ++ p.run.t.pcm ++ p.hand ++ p.dropped)
  sent : (p.txSend ++ p.run.t.pcm ++ p.hand).Sublist p.filled
  counted : p.dropFull = p.dropped.length

theorem flow_init (self : UUID) : (init (α := α) self).Flow where
  room := frameSamples_pos
  full frame hf := by cases hf
  buffers := rfl
  placed := .refl _
  sent := .refl _
  counted := rfl

section Flow

variable {p p' : Pipeline α} {w : ℕ} {c : WriteFrame (Tagged α)}

theorem Flow.at_holder (h : p.Flow) (hc : p.holder = some c) :
    p.run.t.free + p.run.t.pcm.length + c.hasBuffer.toNat + p.run.loop.hasBuffer.toNat =
      txBufferCount ∧
    p.filled.Perm (p.txSend ++ p.run.t.pcm ++ c.carrying.toList ++ p.dropped) ∧
    (p.txSend ++ p.run.t.pcm ++ c.carrying.toList).Sublist p.filled := by
  rw [← hand_of_holder hc, ← handBuffers_of_holder hc]
  exact ⟨h.buffers, h.placed, h.sent⟩

theorem Flow.of_holder (hc : p.holder = some c) (room : p.run.t.acc.length < frameSamples)
    (full : ∀ frame ∈ p.filled, frame.length = frameSamples ∧ ∃ gen, ∀ x ∈ frame, x.gen = gen)
    (buffers : p.run.t.free + p.run.t.pcm.length + c.hasBuffer.toNat +
      p.run.loop.hasBuffer.toNat = txBufferCount)
    (placed : p.filled.Perm (p.txSend ++ p.run.t.pcm ++ c.carrying.toList ++ p.dropped))
    (sent : (p.txSend ++ p.run.t.pcm ++ c.carrying.toList).Sublist p.filled)
    (counted : p.dropFull = p.dropped.length) : p.Flow :=
  ⟨room, full, handBuffers_of_holder hc ▸ buffers, hand_of_holder hc ▸ placed,
    hand_of_holder hc ▸ sent, counted⟩

theorem Flow.of_eq (h : p.Flow) (hholder : p'.holder = p.holder) (hfilled : p'.filled = p.filled)
    (hsend : p'.txSend = p.txSend) (hdropped : p'.dropped = p.dropped)
    (hcount : p'.dropFull = p.dropFull) (hfree : p'.run.t.free = p.run.t.free)
    (hpcm : p'.run.t.pcm = p.run.t.pcm) (hacc : p'.run.t.acc = p.run.t.acc)
    (hloop : p'.run.loop.hasBuffer = p.run.loop.hasBuffer) : p'.Flow := by
  have hhand : p'.hand = p.hand := by unfold hand; rw [hholder]
  have hbuf : p'.handBuffers = p.handBuffers := by unfold handBuffers; rw [hholder]
  refine ⟨hacc ▸ h.room, hfilled ▸ h.full, ?_, ?_, ?_, ?_⟩
  · rw [hfree, hpcm, hbuf, hloop]
    exact h.buffers
  · rw [hfilled, hsend, hpcm, hhand, hdropped]
    exact h.placed
  · rw [hfilled, hsend, hpcm, hhand]
    exact h.sent
  · rw [hcount, hdropped]
    exact h.counted

theorem Flow.moves {op : TxOp α} (h : p.Flow) (hL : p.Locked) (hm : p.Moves op p') : p'.Flow := by
  cases hm with
  | refused hw => exact { h with }
  | began hw =>
    have hne : p.run.t.mu ≠ some _ := hL.mu_ne fun c hl =>
      absurd (AList.lookup_isSome.1 (by rw [hl]; rfl)) hw
    exact h.of_eq (holder_put_outside hne) rfl rfl rfl rfl rfl rfl rfl rfl
  | @loadGen w frame hl =>
    have hne : p.run.t.mu ≠ some w := hL.mu_ne fun c hl' => by
      cases hl.symm.trans hl'
      rfl
    exact h.of_eq (holder_put_outside hne) rfl rfl rfl rfl rfl rfl rfl rfl
  | @lock w gen frame hl hmu =>
    obtain ⟨hmu', -, hpcm, hfree, hacc⟩ := enter_rest p.run.t w gen
    have hnone : p.holder = none := by simp [holder, hmu]
    have hbuf := h.buffers
    have hplaced := h.placed
    have hsent := h.sent
    simp only [hand, handBuffers, hnone] at hbuf hplaced hsent
    refine .of_holder (c := .locked gen frame) (holder_put hmu') ?_ h.full ?_ ?_ ?_ h.counted
    · change (p.run.t.enter w gen).acc.length < _
      rcases hacc with hnil | ⟨hsame, -⟩
      · rw [hnil]
        exact frameSamples_pos
      · rw [hsame]
        exact h.room
    · change (p.run.t.enter w gen).free + (p.run.t.enter w gen).pcm.length + 0 + _ = _
      rw [hfree, hpcm]
      exact hbuf
    · change p.filled.Perm (p.txSend ++ (p.run.t.enter w gen).pcm ++ [] ++ p.dropped)
      rw [hpcm]
      exact hplaced
    · change (p.txSend ++ (p.run.t.enter w gen).pcm ++ []).Sublist p.filled
      rw [hpcm]
      exact hsent
  | @copied w gen frame hl acc hacc hshort =>
    obtain ⟨hbuf, hplaced, hsent⟩ := h.at_holder (hL.holder_eq hl rfl)
    exact .of_holder (holder_put (hL.held w _ hl).1) hshort h.full hbuf hplaced hsent h.counted
  | @filled w gen frame taken rest hl hframe acc hacc hfull =>
    obtain ⟨hbuf, hplaced, hsent⟩ := h.at_holder (hL.holder_eq hl rfl)
    obtain ⟨hmu, hgen⟩ := hL.held w _ hl
    simp only [WriteFrame.carrying, Option.toList_none, List.append_nil] at hplaced hsent
    refine .of_holder (c := .full gen acc rest) (holder_put hmu) frameSamples_pos
      (fun frame hf => ?_) hbuf ?_ (hsent.append (.refl _)) h.counted
    · rcases List.mem_append.1 hf with hf | hf
      · exact h.full frame hf
      · rw [List.mem_singleton.1 hf]
        exact ⟨hfull, gen, hacc ▸ mem_append_tagged (hgen ▸ hL.acc)⟩
    · change List.Perm (p.filled ++ [acc]) (p.txSend ++ p.run.t.pcm ++ [acc] ++ p.dropped)
      refine (hplaced.append_right [acc]).trans ?_
      rw [List.append_assoc, List.append_assoc _ [acc]]
      exact List.perm_append_comm.append_left _
  | @noFree w gen acc frame hl hfree =>
    obtain ⟨hbuf, hplaced, hsent⟩ := h.at_holder (hL.holder_eq hl rfl)
    refine .of_holder (c := .locked gen frame) (holder_put (hL.held w _ hl).1) h.room h.full hbuf
      ?_ ?_ ?_
    · change List.Perm _ (p.txSend ++ p.run.t.pcm ++ [] ++ (p.dropped ++ [acc]))
      refine hplaced.trans ?_
      rw [List.append_nil, List.append_assoc]
      exact List.perm_append_comm.append_left _
    · exact (List.Sublist.append (.refl _) (List.nil_sublist _)).trans hsent
    · change p.dropFull + 1 = (p.dropped ++ [acc]).length
      simp [h.counted]
  | @tookFree w gen acc frame hl hfree =>
    obtain ⟨hbuf, hplaced, hsent⟩ := h.at_holder (hL.holder_eq hl rfl)
    refine .of_holder (holder_put (hL.held w _ hl).1) h.room h.full ?_ hplaced hsent h.counted
    simp only [WriteFrame.hasBuffer, Bool.toNat_false] at hbuf
    change p.run.t.free - 1 + p.run.t.pcm.length + 1 + p.run.loop.hasBuffer.toNat = _
    omega
  | @queued w gen buf frame hl =>
    obtain ⟨hbuf, hplaced, hsent⟩ := h.at_holder (hL.holder_eq hl rfl)
    have hlist : p.txSend ++ (p.run.t.pcm ++ [buf]) ++ [] = p.txSend ++ p.run.t.pcm ++ [buf] := by
      simp
    refine .of_holder (c := .locked gen frame) (holder_put (hL.held w _ hl).1) h.room h.full ?_ ?_
      ?_ h.counted
    · simp only [WriteFrame.hasBuffer, Bool.toNat_true] at hbuf
      change p.run.t.free + (p.run.t.pcm ++ [buf]).length + 0 + p.run.loop.hasBuffer.toNat = _
      simp only [List.length_append, List.length_singleton]
      omega
    · change p.filled.Perm (p.txSend ++ (p.run.t.pcm ++ [buf]) ++ [] ++ p.dropped)
      rw [hlist]
      exact hplaced
    · change (p.txSend ++ (p.run.t.pcm ++ [buf]) ++ []).Sublist p.filled
      rw [hlist]
      exact hsent
  | @queueFull w gen buf frame hl =>
    obtain ⟨hbuf, hplaced, hsent⟩ := h.at_holder (hL.holder_eq hl rfl)
    simp only [WriteFrame.hasBuffer, Bool.toNat_true] at hbuf
    rw [recycle_free (t := p.run.t) (by omega)]
    refine .of_holder (c := .locked gen frame) (holder_put (hL.held w _ hl).1) h.room h.full ?_ ?_
      ?_ ?_
    · change p.run.t.free + 1 + p.run.t.pcm.length + 0 + p.run.loop.hasBuffer.toNat = _
      omega
    · change List.Perm _ (p.txSend ++ p.run.t.pcm ++ [] ++ (p.dropped ++ [buf]))
      refine hplaced.trans ?_
      rw [List.append_nil, List.append_assoc]
      exact List.perm_append_comm.append_left _
    · exact (List.Sublist.append (.refl _) (List.nil_sublist _)).trans hsent
    · change p.dropFull + 1 = (p.dropped ++ [buf]).length
      simp [h.counted]
  | @unlock w gen hl =>
    -- nobody holds the lock now, and the call had nothing in its hands
    obtain ⟨hbuf, hplaced, hsent⟩ := h.at_holder (hL.holder_eq hl rfl)
    exact ⟨h.room, h.full, hbuf, hplaced, hsent, h.counted⟩
  | @receive frame rest hloop hpcm =>
    have hbuf := h.buffers
    have hplaced := h.placed
    have hsent := h.sent
    have hlist : p.txSend ++ frame :: rest = p.txSend ++ [frame] ++ rest := by simp
    rw [hpcm, hlist] at hplaced hsent
    refine ⟨h.room, h.full, ?_, hplaced, hsent, h.counted⟩
    rw [hpcm, hloop] at hbuf
    simp only [TxLoop.hasBuffer, Bool.toNat_false, List.length_cons] at hbuf
    change p.run.t.free + rest.length + p.handBuffers + 1 = _
    omega
  | @recycle frame payload hloop =>
    have hbuf := h.buffers
    rw [hloop] at hbuf
    simp only [TxLoop.hasBuffer, Bool.toNat_true] at hbuf
    rw [recycle_free (t := p.run.t) (by omega)]
    refine ⟨h.room, h.full, ?_, h.placed, h.sent, h.counted⟩
    change p.run.t.free + 1 + p.run.t.pcm.length + p.handBuffers + 0 = _
    omega
  | quiet hcalls hpcm hfree hmu hacc haccGen hloop =>
    exact h.of_eq (by unfold holder; rw [hmu, hcalls]) rfl rfl rfl rfl hfree hpcm hacc hloop

end Flow

end Pipeline

end VcsClient.Voice
