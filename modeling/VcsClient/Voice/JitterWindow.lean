import VcsClient.Lib.Machine
import VcsClient.Voice.Jitter

/-!
# The window of the jitter buffer

`seqLess` orders the 24-bit circle only inside a window shorter than half of
it. `Sound W` says the buffered sequences lie in a window of `W` sequences,
from `nextExpected` on once the buffer is primed; `push` keeps it for every
sequence that `Admits`, and `pop` and `reset` keep it unconditionally. What
`push` and `pop` can do is said once, in `push_cases`, `prime_cases` and
`popNext_cases`.
-/

namespace VcsClient.Voice

open VcsClient.Lib

variable {α : Type} {W base : ℤ} {a b s : UInt32} {l : List UInt32}

/-- How far `s` is ahead of `base` in the 24-bit sequence space. -/
abbrev fwd (base : ℤ) (s : UInt32) : ℤ := ahead (2 ^ 24) base s.toNat

/-! ## Sequences in a window -/

theorem seqLess_iff (ha : fwd base a < 2 ^ 23) (hb : fwd base b < 2 ^ 23) :
    seqLess a b = true ↔ fwd base a < fwd base b := by
  simp only [seqLess, seqDiff_eq, decide_eq_true_eq]
  simp only [fwd] at ha hb ⊢
  rw [sdiff_eq_sub (c := base) (by omega) (by omega)]
  omega

theorem ranks_fwd (h : ∀ s ∈ l, fwd base s < 2 ^ 23) : Ranks seqLess (fwd base) l :=
  fun a ha b hb => seqLess_iff (h a ha) (h b hb)

theorem fwd_inj (ha : a.toNat < 2 ^ 24) (hb : b.toNat < 2 ^ 24) (h : fwd base a = fwd base b) :
    a = b := by
  obtain ⟨k, hk⟩ := exists_turns (2 ^ 24) base a.toNat
  obtain ⟨m, hm⟩ := exists_turns (2 ^ 24) base b.toNat
  apply UInt32.toNat_inj.1
  simp only [fwd] at h
  omega

theorem fwd_pos (ha : a.toNat < 2 ^ 24) (hs : s.toNat < 2 ^ 24) (hne : s ≠ a) :
    0 < fwd a.toNat s := by
  have h0 := ahead_nonneg (M := 2 ^ 24) (b := a.toNat) (s := s.toNat) (by decide)
  have hz := ahead_eq_zero_iff (M := 2 ^ 24) (b := a.toNat) (s := s.toNat) (by omega) (by omega)
    (by omega) (by omega)
  have : (s.toNat : ℤ) ≠ a.toNat := fun h => hne (UInt32.toNat_inj.1 (by omega))
  simp only [fwd]
  omega

theorem seqDiff_eq_fwd (h : fwd b.toNat a < 2 ^ 23) : seqDiff a b = fwd b.toNat a := by
  rw [seqDiff_eq, sdiff_eq_ahead (by simp only [fwd] at h; omega)]

theorem fwd_lt_of_seqDiff (h : 0 ≤ seqDiff a b) : fwd b.toNat a < 2 ^ 23 := by
  rw [seqDiff_eq, sdiff_nonneg_iff (by decide)] at h
  simp only [fwd]
  omega

theorem fwd_next (h : 0 < fwd a.toNat s) :
    fwd ((a + 1) &&& wireMask24).toNat s = fwd a.toNat s - 1 := by
  have : (((a + 1) &&& wireMask24).toNat : ℤ) = (a.toNat + 1) % (2 ^ 24 : ℕ) := by
    rw [toNat_mask24, UInt32.toNat_add]
    simp only [UInt32.toNat_one]
    omega
  rw [fwd, this, ahead_emod_left, ahead_succ (by decide) h]

theorem mask24_lt (a : UInt32) : (a &&& wireMask24).toNat < 2 ^ 24 := by
  rw [toNat_mask24]; omega

namespace Jitter

variable {j j' : Jitter α} {o : IterOrder UInt32} {it : ℕ → IterOrder UInt32} {seq oldest : UInt32}
  {payload : α} {now : ℤ}

/-! ## What `push` and `pop` can do -/

theorem oldestSeqLocked_mem (h : j.oldestSeqLocked o = some oldest) : oldest ∈ j.frames :=
  AList.mem_keys.1 ((o.perm _).subset (firstLeast_mem h))

theorem oldestSeqLocked_eq_none : j.oldestSeqLocked o = none ↔ j.depth = 0 := by
  rw [oldestSeqLocked, firstLeast_eq_none, depth, ← List.length_eq_zero_iff,
    (o.perm _).length_eq]

theorem mem_of_depth_eq_zero (h : j.depth = 0) : s ∉ j.frames := by
  intro hs
  rw [depth, List.length_eq_zero_iff] at h
  have := AList.mem_keys.1 hs
  rw [h] at this
  cases this

abbrev drop (j : Jitter α) (seq : UInt32) : Jitter α := { j with frames := j.frames.erase seq }

theorem mem_drop : s ∈ (j.drop seq).frames ↔ s ≠ seq ∧ s ∈ j.frames := AList.mem_erase

theorem mem_store : s ∈ (j.store seq payload now).frames ↔ s = seq ∨ s ∈ j.frames :=
  AList.mem_insert _

theorem depth_drop (h : seq ∈ j.frames) : (j.drop seq).depth + 1 = j.depth := by
  have hk := AList.mem_keys.2 h
  have hpos := List.length_pos_of_mem hk
  simp only [depth, AList.keys_erase, List.length_erase_of_mem hk]
  omega

theorem evict_one (it : ℕ → IterOrder UInt32) (n : ℕ) (h : j.depth = j.maxFrames + 1) :
    ∃ o oldest, j.oldestSeqLocked o = some oldest ∧ evict it (n + 1) j = j.drop oldest := by
  cases ho : j.oldestSeqLocked (it n) with
  | none =>
    rw [oldestSeqLocked_eq_none] at ho
    omega
  | some oldest =>
    refine ⟨it n, oldest, ho, ?_⟩
    have hd := depth_drop (oldestSeqLocked_mem ho)
    have hstop : (j.drop oldest).depth ≤ (j.drop oldest).maxFrames := by
      show _ ≤ j.maxFrames
      omega
    simp only [evict, h, Nat.lt_add_one, if_true, ho]
    exact evict_of_le _ _ _ hstop

/-- A push refuses the frame, stores it, or stores it and drops the oldest. -/
theorem push_cases (it : ℕ → IterOrder UInt32) (seq : UInt32) (payload : α) (now : ℤ)
    (hd : j.depth ≤ j.maxFrames) :
    j.push it seq payload now = (false, j) ∨
    j.outOfRange (it 0) (seq &&& wireMask24) = false ∧ seq &&& wireMask24 ∉ j.frames ∧
      (j.depth < j.maxFrames ∧
        j.push it seq payload now = (true, j.store (seq &&& wireMask24) payload now) ∨
      j.depth = j.maxFrames ∧ ∃ o oldest,
        (j.store (seq &&& wireMask24) payload now).oldestSeqLocked o = some oldest ∧
        j.push it seq payload now =
          (true, (j.store (seq &&& wireMask24) payload now).drop oldest)) := by
  simp only [push]
  by_cases hr : j.outOfRange (it 0) (seq &&& wireMask24) = true
  · exact .inl (by rw [if_pos hr])
  by_cases hm : seq &&& wireMask24 ∈ j.frames
  · exact .inl (by rw [if_neg hr, if_pos hm])
  rw [if_neg hr, if_neg hm]
  have hs := depth_store j (seq &&& wireMask24) payload now hm
  refine .inr ⟨by simpa using hr, hm, ?_⟩
  rcases Nat.lt_or_ge j.depth j.maxFrames with hlt | hge
  · refine .inl ⟨hlt, ?_⟩
    rw [evict_of_le _ _ _ (by show _ ≤ j.maxFrames; omega)]
  · have heq : j.depth = j.maxFrames := by omega
    obtain ⟨o, oldest, ho, he⟩ := evict_one (fun n => it (n + 1)) j.depth
      (j := j.store (seq &&& wireMask24) payload now) (by show _ = j.maxFrames + 1; omega)
    refine .inr ⟨heq, o, oldest, ho, ?_⟩
    rw [hs, he]

theorem prime_cases (h : j.prime o now = some j') :
    j.primed = true ∧ j' = j ∨
    j.primed = false ∧ j.hasFirstPush = true ∧ j.bufferStartAt + j.target ≤ now ∧
      ∃ seq, j.oldestSeqLocked o = some seq ∧
        j' = { j with
          primed := true, nextExpected := seq, playoutBase := j.bufferStartAt + j.target } := by
  unfold prime at h
  split at h
  · next hp => cases h; exact .inl ⟨hp, rfl⟩
  · next hp =>
    split at h
    · cases h
    · next hf =>
      simp only at h
      split at h
      · cases h
      · next hn =>
        split at h
        · cases h
        · next seq ho =>
          cases h
          exact .inr ⟨by simpa using hp, by simpa using hf, not_lt.1 hn, seq, ho, rfl⟩

theorem popNext_cases (j : Jitter α) (now : ℤ) :
    (∃ frame, j.frames.lookup j.nextExpected = some frame ∧
      j.popNext now = (⟨some frame.payload, false, true⟩, (j.drop j.nextExpected).advanceLocked)) ∨
    j.nextExpected ∉ j.frames ∧ now < j.playoutBase ∧ j.popNext now = (nothing, j) ∨
    j.nextExpected ∉ j.frames ∧ j.playoutBase ≤ now ∧
      j.popNext now = (⟨none, true, true⟩, j.advanceLocked) := by
  unfold popNext
  cases hl : j.frames.lookup j.nextExpected with
  | some frame => exact .inl ⟨frame, rfl, rfl⟩
  | none =>
    have hm := AList.lookup_eq_none.1 hl
    by_cases hn : now < j.playoutBase
    · exact .inr (.inl ⟨hm, hn, by simp [hn]⟩)
    · exact .inr (.inr ⟨hm, by omega, by simp [hn]⟩)

/-! ## The frame of `push` and `pop` -/

@[simp] theorem evict_maxFrames (it : ℕ → IterOrder UInt32) (n : ℕ) (j : Jitter α) :
    (evict it n j).maxFrames = j.maxFrames := by
  induction n generalizing j with
  | zero => rfl
  | succ n ih =>
    simp only [evict]
    split
    · split
      · rfl
      · exact ih _
    · rfl

theorem push_maxFrames (it : ℕ → IterOrder UInt32) (j : Jitter α) (seq : UInt32) (payload : α)
    (now : ℤ) : (j.push it seq payload now).2.maxFrames = j.maxFrames := by
  simp only [push]
  split
  · rfl
  · split
    · rfl
    · exact evict_maxFrames ..

theorem prime_maxFrames (h : j.prime o now = some j') : j'.maxFrames = j.maxFrames := by
  rcases prime_cases h with ⟨-, rfl⟩ | ⟨-, -, -, seq, -, rfl⟩ <;> rfl

theorem popNext_maxFrames (j : Jitter α) (now : ℤ) :
    (j.popNext now).2.maxFrames = j.maxFrames := by
  rcases popNext_cases j now with ⟨frame, -, he⟩ | ⟨-, -, he⟩ | ⟨-, -, he⟩ <;> rw [he] <;> rfl

theorem pop_maxFrames (o : IterOrder UInt32) (j : Jitter α) (now : ℤ) :
    (j.pop o now).2.maxFrames = j.maxFrames := by
  unfold pop
  cases hp : j.prime o now with
  | none => rfl
  | some j' =>
    simp only
    rw [← prime_maxFrames hp]
    split
    · rfl
    · rw [popNext_maxFrames]
      split <;> rfl

/-! ## The bounds are kept -/

/-- Sequences have 24 bits and the frames are no more than `maxFrames`. -/
structure Bounded (j : Jitter α) : Prop where
  key_lt : ∀ s ∈ j.frames, s.toNat < 2 ^ 24
  next_lt : j.nextExpected.toNat < 2 ^ 24
  depth_le : j.depth ≤ j.maxFrames

theorem Bounded.new (target max frameDur : ℤ) : (newJitter α target max frameDur).Bounded :=
  ⟨fun s hs => absurd hs (AList.notMem_empty s), by simp [newJitter], by simp [newJitter, depth]⟩

theorem Bounded.reset (j : Jitter α) : j.reset.Bounded :=
  ⟨fun s hs => absurd hs (AList.notMem_empty s), by simp [Jitter.reset],
    by simp [Jitter.reset, depth]⟩

theorem Bounded.drop (h : j.Bounded) (hm : seq ∈ j.frames) : (j.drop seq).Bounded := by
  refine ⟨fun s hs => h.key_lt s (mem_drop.1 hs).2, h.next_lt, ?_⟩
  have hd := depth_drop hm
  have := h.depth_le
  show _ ≤ j.maxFrames
  omega

theorem key_lt_store (h : j.Bounded) (hs : seq.toNat < 2 ^ 24) :
    ∀ s ∈ (j.store seq payload now).frames, s.toNat < 2 ^ 24 := by
  intro s hs'
  rcases mem_store.1 hs' with rfl | hs'
  · exact hs
  · exact h.key_lt s hs'

theorem Bounded.push (h : j.Bounded) : (j.push it seq payload now).2.Bounded := by
  rcases push_cases it seq payload now h.depth_le with
    he | ⟨-, hm, ⟨hlt, he⟩ | ⟨hfull, o, oldest, ho, he⟩⟩
  · rw [he]; exact h
  · rw [he]
    refine ⟨key_lt_store h (mask24_lt _), h.next_lt, ?_⟩
    rw [depth_store _ _ _ _ hm]
    exact hlt
  · rw [he]
    refine ⟨fun s hs => key_lt_store h (mask24_lt _) s (mem_drop.1 hs).2, h.next_lt, ?_⟩
    have hd := depth_drop (oldestSeqLocked_mem ho)
    rw [depth_store _ _ _ _ hm] at hd
    show ((j.store (seq &&& wireMask24) payload now).drop oldest).depth ≤ j.maxFrames
    omega

theorem Bounded.advance (h : j.Bounded) : j.advanceLocked.Bounded :=
  ⟨h.key_lt, mask24_lt _, h.depth_le⟩

theorem Bounded.prime (h : j.Bounded) (hp : j.prime o now = some j') : j'.Bounded := by
  rcases prime_cases hp with ⟨-, rfl⟩ | ⟨-, -, -, seq, ho, rfl⟩
  · exact h
  · exact ⟨h.key_lt, h.key_lt _ (oldestSeqLocked_mem ho), h.depth_le⟩

/-! ## The window is kept -/

/-- Every buffered sequence lies in the window of `W` sequences from `base`. -/
def Fits (W base : ℤ) (j : Jitter α) : Prop := ∀ s ∈ j.frames, fwd base s < W

instance (W base : ℤ) (j : Jitter α) : Decidable (j.Fits W base) :=
  List.decidableBAll (fun s => fwd base s < W) j.frames.keys

/-- The buffered sequences lie in a window of `W` sequences, which starts at
`nextExpected` once the buffer is primed. -/
structure Sound (W : ℤ) (j : Jitter α) : Prop extends Bounded j where
  unprimed : j.primed = false → ∃ base, j.Fits W base
  primed : j.primed = true → j.Fits W j.nextExpected.toNat

/-- `seq` may join the unprimed buffer: it fits the window, or the buffer is
full and `seq`, the oldest of all, is dropped again at once. -/
def Admits (W : ℤ) (j : Jitter α) (seq : UInt32) : Prop :=
  (∃ base, j.Fits W base ∧ fwd base seq < W) ∨
  j.depth = j.maxFrames ∧ ∀ s ∈ j.frames, fwd seq.toNat s < 2 ^ 23

theorem Fits.ranks (hW : W ≤ 2 ^ 23) (h : j.Fits W base) :
    Ranks seqLess (fwd base) j.frames.keys :=
  ranks_fwd fun s hs => (h s (AList.mem_keys.1 hs)).trans_le hW

theorem Fits.oldest_le (hW : W ≤ 2 ^ 23) (h : j.Fits W base)
    (ho : j.oldestSeqLocked o = some oldest) : ∀ s ∈ j.frames, fwd base oldest ≤ fwd base s := by
  have hr := (h.ranks hW).subset fun k hk => (o.perm _).subset hk
  exact fun s hs => firstLeast_le hr ho s ((o.perm _).symm.subset (AList.mem_keys.2 hs))

/-- The window may be taken to start at the oldest frame. -/
theorem Fits.rebase (hW : W ≤ 2 ^ 23) (h : j.Fits W base)
    (ho : j.oldestSeqLocked o = some oldest) : j.Fits W oldest.toNat := by
  intro s hs
  have hle := h.oldest_le hW ho s hs
  have h0 := ahead_nonneg (M := 2 ^ 24) (b := base) (s := oldest.toNat) (by decide)
  have hlt := h s hs
  simp only [fwd] at hle hlt ⊢
  rw [ahead_sub (by decide) hle]
  omega

theorem Fits.store (h : j.Fits W base) (hseq : fwd base seq < W) :
    (j.store seq payload now).Fits W base := by
  intro s hs
  rcases mem_store.1 hs with rfl | hs
  · exact hseq
  · exact h s hs

theorem Fits.drop (h : j.Fits W base) : (j.drop seq).Fits W base :=
  fun s hs => h s (mem_drop.1 hs).2

theorem oldest_of_behind (hk : ∀ s ∈ j.frames, s.toNat < 2 ^ 24) (hs : seq.toNat < 2 ^ 24)
    (hm : seq ∈ j.frames) (h : j.Fits (2 ^ 23) seq.toNat)
    (ho : j.oldestSeqLocked o = some oldest) : oldest = seq := by
  have hle := h.oldest_le le_rfl ho seq hm
  have hold := hk _ (oldestSeqLocked_mem ho)
  by_contra hne
  have := fwd_pos hs hold hne
  simp only [fwd, ahead_self] at hle this
  omega

theorem Sound.new (target max frameDur : ℤ) : Sound W (newJitter α target max frameDur) where
  toBounded := .new target max frameDur
  unprimed _ := ⟨0, fun s hs => absurd hs (AList.notMem_empty s)⟩
  primed h := by simp [newJitter] at h

theorem Sound.reset (j : Jitter α) : Sound W j.reset where
  toBounded := .reset j
  unprimed _ := ⟨0, fun s hs => absurd hs (AList.notMem_empty s)⟩
  primed h := by simp [Jitter.reset] at h

/-- A full buffer that admits `seq` still fits once it has dropped the oldest. -/
theorem exists_fits_store_drop (h : Sound W j) (hs : seq.toNat < 2 ^ 24)
    (hpr : j.primed = false) (ha : Admits W j seq)
    (ho : (j.store seq payload now).oldestSeqLocked o = some oldest) :
    ∃ base, ((j.store seq payload now).drop oldest).Fits W base := by
  rcases ha with ⟨base, hb, hseq⟩ | ⟨-, hbehind⟩
  · exact ⟨base, (hb.store hseq).drop⟩
  · obtain ⟨base, hb⟩ := h.unprimed hpr
    have hfit : (j.store seq payload now).Fits (2 ^ 23) seq.toNat :=
      Fits.store hbehind (by simp)
    have hold := oldest_of_behind (key_lt_store h.toBounded hs) hs (mem_store.2 (.inl rfl)) hfit ho
    refine ⟨base, fun s hs => ?_⟩
    obtain ⟨hne, hs⟩ := mem_drop.1 hs
    exact hb s ((mem_store.1 hs).resolve_left (hold ▸ hne))

/-- **`push` keeps the window** when the sequence it admits may join it. -/
theorem Sound.push (h : Sound W j)
    (hu : j.primed = false → j.outOfRange (it 0) (seq &&& wireMask24) = false →
      Admits W j (seq &&& wireMask24))
    (hp : j.primed = true → j.outOfRange (it 0) (seq &&& wireMask24) = false →
      fwd j.nextExpected.toNat (seq &&& wireMask24) < W) :
    Sound W (j.push it seq payload now).2 := by
  refine ⟨h.toBounded.push, ?_, ?_⟩ <;>
    rcases push_cases it seq payload now h.depth_le with
      he | ⟨hr, -, ⟨hlt, he⟩ | ⟨-, o, oldest, ho, he⟩⟩ <;>
    rw [he]
  · exact h.unprimed
  · intro hpr
    obtain ⟨base, hb, hseq⟩ := (hu hpr hr).resolve_right fun hc => absurd hc.1 hlt.ne
    exact ⟨base, hb.store hseq⟩
  · exact fun hpr => exists_fits_store_drop h (mask24_lt _) hpr (hu hpr hr) ho
  · exact h.primed
  · exact fun hpr => (h.primed hpr).store (hp hpr hr)
  · exact fun hpr => ((h.primed hpr).store (hp hpr hr)).drop

theorem Sound.advance (h : Sound W j) (hpr : j.primed = true) (hm : j.nextExpected ∉ j.frames) :
    Sound W j.advanceLocked where
  toBounded := h.toBounded.advance
  unprimed hc := by simp [advanceLocked, hpr] at hc
  primed _ s hs := by
    have hne : s ≠ j.nextExpected := fun e => hm (e ▸ hs)
    have hlt := h.primed hpr s hs
    show fwd ((j.nextExpected + 1) &&& wireMask24).toNat s < W
    rw [fwd_next (fwd_pos h.next_lt (h.key_lt s hs) hne)]
    omega

theorem Sound.drop (h : Sound W j) (hm : seq ∈ j.frames) : Sound W (j.drop seq) where
  toBounded := h.toBounded.drop hm
  unprimed hpr := (h.unprimed hpr).imp fun _ hb => hb.drop
  primed hpr := (h.primed hpr).drop

theorem Sound.popNext (h : Sound W j) (hpr : j.primed = true) : Sound W (j.popNext now).2 := by
  rcases popNext_cases j now with ⟨frame, hl, he⟩ | ⟨-, -, he⟩ | ⟨hm, -, he⟩
  · rw [he]
    have hm : j.nextExpected ∈ j.frames := AList.lookup_isSome.1 (by rw [hl]; rfl)
    exact (h.drop hm).advance hpr fun hc => (mem_drop.1 hc).1 rfl
  · rw [he]; exact h
  · rw [he]; exact h.advance hpr hm

theorem Sound.prime (hW : W ≤ 2 ^ 23) (h : Sound W j) (hp : j.prime o now = some j') :
    Sound W j' ∧ j'.primed = true := by
  have hbound := h.toBounded.prime hp
  rcases prime_cases hp with ⟨hpr, rfl⟩ | ⟨hpr, -, -, seq, ho, rfl⟩
  · exact ⟨h, hpr⟩
  · obtain ⟨base, hb⟩ := h.unprimed hpr
    exact ⟨⟨hbound, fun hc => by simp at hc, fun _ => hb.rebase hW ho⟩, rfl⟩

theorem Sound.resync (h : Sound W j) : Sound W (j.resyncLocked now) :=
  ⟨⟨h.key_lt, h.next_lt, h.depth_le⟩, h.unprimed, h.primed⟩

/-- **`pop` keeps the window.** -/
theorem Sound.pop (hW : W ≤ 2 ^ 23) (h : Sound W j) : Sound W (j.pop o now).2 := by
  unfold Jitter.pop
  cases hp : j.prime o now with
  | none => exact h
  | some j' =>
    obtain ⟨h', hpr⟩ := h.prime hW hp
    simp only
    split
    · exact ⟨⟨h'.key_lt, h'.next_lt, h'.depth_le⟩, h'.unprimed, h'.primed⟩
    · split
      · exact h'.resync.popNext hpr
      · exact h'.popNext hpr

end Jitter

end VcsClient.Voice
