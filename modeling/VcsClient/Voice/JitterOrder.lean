import VcsClient.Voice.JitterWindow

/-!
# The order of the buffered sequences

Eviction and priming ask for the oldest buffered sequence, which exists only
while `seqLess` orders what is buffered. Once primed, `push` checks both ends
of the window. Before that it checks only the far one: a sequence far behind
the oldest is admitted, and two frames half the circle apart each precede the
other (`far_behind_unordered`). Runs without such a push keep the order
(`run_ordered`).
-/

namespace VcsClient.Voice

open VcsClient.Lib

variable {α : Type} {j j' : Jitter α} {op : JitterOp α}

/-- `seqLess` orders what is buffered, in a window shorter than half the circle
that `nextExpected` bounds below and the refusal of `push` above. -/
structure Ordered (j : Jitter α) : Prop where
  window : ∃ base, ∀ s ∈ j.frames, fwd base s < 2 ^ 23
  order : IsStrictTotalOrder {s // s ∈ j.frames} fun a b => seqLess a b = true
  oldest : ∀ o o', j.oldestSeqLocked o = j.oldestSeqLocked o'
  ahead : j.primed = true → ∀ s ∈ j.frames,
    0 ≤ seqDiff s j.nextExpected ∧ seqDiff s j.nextExpected ≤ 8 * j.maxFrames

/-- A push before priming that comes before the oldest buffered sequence comes
before every buffered one, by at most `8 * maxFrames` unless the buffer is
full (then it is the one dropped). -/
def NotFarBehind (j : Jitter α) : JitterOp α → Prop
  | .push it seq _ _ =>
    j.primed = false → ∀ oldest ∈ j.oldestSeqLocked (it 0),
      seqLess (seq &&& wireMask24) oldest = true → ∀ s ∈ j.frames.keys,
        0 ≤ seqDiff s (seq &&& wireMask24) ∧
        (seqDiff s (seq &&& wireMask24) ≤ 8 * j.maxFrames ∨ j.depth = j.maxFrames)
  | .pop _ _ => True
  | .reset => True

instance (j : Jitter α) : (op : JitterOp α) → Decidable (NotFarBehind j op)
  | .push .. =>
    -- not over all of `UInt32`, which is a finite type
    @instDecidableForall _ _ inferInstance <| @Option.decidableForallMem _ _
      (fun _ => @instDecidableForall _ _ inferInstance (List.decidableBAll _ _)) _
  | .pop .. => .isTrue trivial
  | .reset => .isTrue trivial

/-- What a run keeps: the window of `8 * maxFrames`, and `maxFrames` itself. -/
def InWindow (maxFrames : ℕ) (j : Jitter α) : Prop :=
  j.maxFrames = maxFrames ∧ j.Sound (8 * maxFrames + 1)

theorem admits_of_notFarBehind {it : ℕ → IterOrder UInt32} {seq : UInt32} {payload : α} {now : ℤ}
    (hfit : 8 * j.maxFrames < 2 ^ 23) (h : j.Sound (8 * j.maxFrames + 1))
    (hpr : j.primed = false) (hr : j.outOfRange (it 0) (seq &&& wireMask24) = false)
    (hok : NotFarBehind j (.push it seq payload now)) :
    j.Admits (8 * j.maxFrames + 1) (seq &&& wireMask24) := by
  obtain ⟨base, hb⟩ := h.unprimed hpr
  generalize hseq : seq &&& wireMask24 = s₀ at hr
  cases ho : j.oldestSeqLocked (it 0) with
  | none =>
    rw [Jitter.oldestSeqLocked_eq_none] at ho
    refine .inl ⟨s₀.toNat, fun s hs => absurd hs (Jitter.mem_of_depth_eq_zero ho), ?_⟩
    simp only [fwd, ahead_self]
    omega
  | some oldest =>
    have hold := hb.rebase (by omega) ho
    simp only [Jitter.outOfRange, hpr, ho, maxAhead_eq j hfit] at hr
    have hle : seqDiff s₀ oldest ≤ 8 * j.maxFrames := by simpa using hr
    cases hlt : seqLess s₀ oldest with
    | false =>
      have h0 : 0 ≤ seqDiff s₀ oldest := by simpa [seqLess] using hlt
      refine .inl ⟨oldest.toNat, hold, ?_⟩
      rw [← seqDiff_eq_fwd (fwd_lt_of_seqDiff h0)]
      omega
    | true =>
      have hall := hok hpr oldest ho (hseq ▸ hlt)
      simp only [hseq] at hall
      by_cases hfull : j.depth = j.maxFrames
      · exact .inr ⟨hfull, fun s hs => fwd_lt_of_seqDiff (hall s hs).1⟩
      · refine .inl ⟨s₀.toNat, fun s hs => ?_, by simp only [fwd, ahead_self]; omega⟩
        obtain ⟨h0, hle⟩ := hall s hs
        rw [← seqDiff_eq_fwd (fwd_lt_of_seqDiff h0)]
        have := hle.resolve_right hfull
        omega

theorem step_inWindow {m : ℕ} (hfit : 8 * m < 2 ^ 23) (h : InWindow m j) (hok : NotFarBehind j op)
    (hs : j.step op = some j') : InWindow m j' := by
  obtain ⟨rfl, h⟩ := h
  cases op with
  | push it seq payload now =>
    cases hs
    refine ⟨Jitter.push_maxFrames .., h.push (fun hpr hr => ?_) (fun hpr hr => ?_)⟩
    · exact admits_of_notFarBehind hfit h hpr hr hok
    · simp only [Jitter.outOfRange, hpr, if_true, Bool.or_eq_false_iff, maxAhead_eq j hfit] at hr
      have h0 : 0 ≤ seqDiff (seq &&& wireMask24) j.nextExpected := by simpa [seqLess] using hr.1
      have hle : seqDiff (seq &&& wireMask24) j.nextExpected ≤ 8 * j.maxFrames := by
        simpa using hr.2
      rw [← seqDiff_eq_fwd (fwd_lt_of_seqDiff h0)]
      omega
  | pop o now => cases hs; exact ⟨Jitter.pop_maxFrames .., h.pop (by omega)⟩
  | reset => cases hs; exact ⟨rfl, .reset j⟩

theorem ordered_of_inWindow {m : ℕ} (hfit : 8 * m < 2 ^ 23) (h : InWindow m j) : Ordered j := by
  obtain ⟨rfl, h⟩ := h
  obtain ⟨base, hb⟩ : ∃ base, j.Fits (8 * j.maxFrames + 1) base := by
    cases hpr : j.primed with
    | false => exact h.unprimed hpr
    | true => exact ⟨_, h.primed hpr⟩
  have hr := hb.ranks (by omega)
  have hinj : ∀ a ∈ j.frames.keys, ∀ b ∈ j.frames.keys, fwd base a = fwd base b → a = b :=
    fun a ha b hb' he =>
      fwd_inj (h.key_lt a (AList.mem_keys.1 ha)) (h.key_lt b (AList.mem_keys.1 hb')) he
  refine ⟨⟨base, fun s hs => (hb s hs).trans_le (by omega)⟩, hr.isStrictTotalOrder hinj,
    fun o o' => ?_, fun hpr s hs => ?_⟩
  · exact (firstLeast_perm hr hinj (o.perm _)).trans (firstLeast_perm hr hinj (o'.perm _)).symm
  · have hlt := h.primed hpr s hs
    have h0 := ahead_nonneg (M := 2 ^ 24) (b := j.nextExpected.toNat) (s := s.toNat) (by decide)
    rw [seqDiff_eq_fwd (by omega)]
    exact ⟨h0, by omega⟩

/-- **The order is kept** by every run whose pushes are not far behind. -/
theorem run_ordered (target max frameDur : ℤ) (hfit : 8 * maxFramesOf max frameDur < 2 ^ 23)
    (ops : List (JitterOp α)) (j : Jitter α)
    (hok : Meets Jitter.step NotFarBehind (newJitter α target max frameDur) ops)
    (hrun : exec Jitter.step (newJitter α target max frameDur) ops = some j) : Ordered j :=
  ordered_of_inWindow hfit <|
    exec_invariant (fun _ _ _ h hok hs => step_inWindow hfit h hok hs) ⟨rfl, .new ..⟩ hok hrun

/-- A frame just behind the first one, and playout from it on. -/
theorem run_ordered_reordered :
    ∃ j, exec Jitter.step (newJitter Unit (ms 60) (ms 500) (ms 20))
        [.push (always stored) 5 () 0, .push (always stored) 3 () 0, .pop stored (ms 60)] = some j ∧
      Ordered j :=
  ⟨_, rfl, run_ordered (ms 60) (ms 500) (ms 20) (by decide)
    [.push (always stored) 5 () 0, .push (always stored) 3 () 0, .pop stored (ms 60)] _
    (by decide) rfl⟩

/-- **A far behind frame breaks the order**: 0 and 0x800000 precede each other,
and which of them is the oldest depends on the iteration order. -/
theorem far_behind_unordered :
    8 * maxFramesOf (ms 500) (ms 20) < 2 ^ 23 ∧
    ∃ j, exec Jitter.step (newJitter Unit (ms 60) (ms 500) (ms 20))
        [.push (always stored) 0 () 0, .push (always stored) 0x800000 () 0] = some j ∧
      ¬ Ordered j := by
  refine ⟨by decide, _, rfl, fun h => ?_⟩
  exact absurd (h.oldest stored (IterOrder.reversed UInt32)) (by decide)

end VcsClient.Voice
