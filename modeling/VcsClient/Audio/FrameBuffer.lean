import Mathlib.Algebra.Ring.Int.Defs
import VcsClient.Lib.Lists

/-!
# Frames of one size

`frameAccumulator` and `frameFiller` of `internal/audio/frame_buffer.go`, between a device
that hands over and asks for chunks of any length and a pipeline of frames of one size. What
`onFrame` is given are the frames that `push` returns; what `fill` writes at each of its
calls is open.
-/

namespace VcsClient.Audio

open VcsClient.Lib

variable {α : Type}

/-! ## The accumulator -/

structure FrameAccumulator (α : Type) where
  frameSize : ℕ
  frame : List α
  pending : List α
  /-- The capacity of `pending` is one less. -/
  frameSize_pos : 0 < frameSize
  length_frame : frame.length = frameSize
  pending_lt : pending.length < frameSize

def newFrameAccumulator [Zero α] (frameSize : ℕ) (h : 0 < frameSize) : FrameAccumulator α where
  frameSize := frameSize
  frame := List.replicate frameSize 0
  pending := []
  frameSize_pos := h
  length_frame := List.length_replicate
  pending_lt := h

namespace FrameAccumulator

/-- The loop of `push`, with `i` samples of `inp` taken. -/
def pushFrom (inp : List α) (i : ℕ) (a : FrameAccumulator α) :
    FrameAccumulator α × List (List α) :=
  let need := a.frameSize - a.pending.length
  if h : inp.length - i < need then
    ({ a with
      pending := a.pending ++ inp.drop i
      pending_lt := by
        rw [List.length_append, List.length_drop]
        omega }, [])
  else
    let frame := copyAt (copyAt a.frame 0 a.pending) a.pending.length ((inp.drop i).take need)
    let r := pushFrom inp (i + need)
      { a with
        frame := frame
        pending := []
        length_frame := by
          have := a.pending_lt
          rw [length_copyAt, length_copyAt (Nat.zero_le _), a.length_frame]
          rw [length_copyAt (Nat.zero_le _), a.length_frame]
          omega
        pending_lt := a.frameSize_pos }
    (r.1, frame :: r.2)
termination_by inp.length - i
decreasing_by
  have := a.pending_lt
  omega

def push (a : FrameAccumulator α) (inp : List α) : FrameAccumulator α × List (List α) :=
  a.pushFrom inp 0

/-- **No sample is lost or repeated** in a push. -/
theorem pushFrom_spec (inp : List α) (i : ℕ) (a : FrameAccumulator α) (hi : i ≤ inp.length) :
    (a.pushFrom inp i).2.flatten ++ (a.pushFrom inp i).1.pending = a.pending ++ inp.drop i ∧
      (a.pushFrom inp i).1.frameSize = a.frameSize ∧
      ∀ f ∈ (a.pushFrom inp i).2, f.length = a.frameSize := by
  fun_induction pushFrom inp i a with
  | case1 i a need h => exact ⟨rfl, rfl, fun f hf => nomatch hf⟩
  | case2 i a need h frame r ih =>
    have hlt := a.pending_lt
    obtain ⟨hwhole, hsize, hframes⟩ : r.2.flatten ++ r.1.pending = inp.drop (i + need) ∧
        r.1.frameSize = a.frameSize ∧ ∀ f ∈ r.2, f.length = a.frameSize := ih (by omega)
    have hneed : ((inp.drop i).take need).length = need := by
      rw [List.length_take, List.length_drop]
      omega
    have hframe : frame = a.pending ++ (inp.drop i).take need :=
      copyAt_copyAt (by rw [hneed, a.length_frame]; omega)
    refine ⟨?_, hsize, fun f hf => ?_⟩
    · calc (frame :: r.2).flatten ++ r.1.pending
          = frame ++ (r.2.flatten ++ r.1.pending) := by
            rw [List.flatten_cons, List.append_assoc]
        _ = a.pending ++ ((inp.drop i).take need ++ (inp.drop i).drop need) := by
            rw [hwhole, hframe, List.drop_drop, List.append_assoc]
        _ = a.pending ++ inp.drop i := by rw [List.take_append_drop]
    · obtain rfl | hf := List.mem_cons.1 hf
      · rw [hframe, List.length_append, hneed]
        omega
      · exact hframes f hf

/-- One `push` after another, and all the frames. -/
def pushes (a : FrameAccumulator α) : List (List α) → FrameAccumulator α × List (List α)
  | [] => (a, [])
  | inp :: inps =>
    let r := a.push inp
    let t := r.1.pushes inps
    (t.1, r.2 ++ t.2)

theorem pushes_spec (a : FrameAccumulator α) (inps : List (List α)) :
    (a.pushes inps).2.flatten ++ (a.pushes inps).1.pending = a.pending ++ inps.flatten ∧
      (a.pushes inps).1.frameSize = a.frameSize ∧
      ∀ f ∈ (a.pushes inps).2, f.length = a.frameSize := by
  induction inps generalizing a with
  | nil => exact ⟨(List.append_nil _).symm, rfl, fun f hf => nomatch hf⟩
  | cons inp inps ih =>
    obtain ⟨hpush, hsize, hframes⟩ := pushFrom_spec inp 0 a (Nat.zero_le _)
    obtain ⟨hrest, hsize', hframes'⟩ := ih (a.push inp).1
    rw [pushes]
    refine ⟨?_, hsize'.trans hsize, fun f hf => ?_⟩
    · rw [List.flatten_append, List.append_assoc, hrest, ← List.append_assoc, push, hpush,
        List.drop_zero, List.append_assoc, List.flatten_cons]
    · obtain hf | hf := List.mem_append.1 hf
      · exact hframes f hf
      · exact (hframes' f hf).trans hsize

end FrameAccumulator

/-! ## The filler -/

/-- What `fill` writes into the frame, at its call number `k`; it cannot change its length. -/
structure Fill (α : Type) where
  write : ℕ → List α → List α
  length_write : ∀ k frame, (write k frame).length = frame.length

structure FrameFiller (α : Type) where
  frameSize : ℕ
  frame : List α
  /-- The next unread index in `frame`; `frameSize` means empty. -/
  pos : ℕ
  /-- How often `fill` was called. -/
  fills : ℕ
  /-- How many samples were written out, in all and before each call of `fill` (both not in
  the source). -/
  served : ℕ
  asked : List ℕ
  frameSize_pos : 0 < frameSize
  length_frame : frame.length = frameSize
  pos_le : pos ≤ frameSize

def newFrameFiller [Zero α] (frameSize : ℕ) (h : 0 < frameSize) : FrameFiller α where
  frameSize := frameSize
  frame := List.replicate frameSize 0
  pos := frameSize
  fills := 0
  served := 0
  asked := []
  frameSize_pos := h
  length_frame := List.length_replicate
  pos_le := Nat.le_refl _

namespace FrameFiller

variable (fill : Fill α)

/-- A new frame when the last one is exhausted. -/
def refill (f : FrameFiller α) : FrameFiller α :=
  if f.pos = f.frameSize then
    { f with
      frame := fill.write f.fills f.frame
      pos := 0
      fills := f.fills + 1
      asked := f.asked ++ [f.served]
      length_frame := (fill.length_write _ _).trans f.length_frame
      pos_le := Nat.zero_le _ }
  else f

/-- `n` samples of the frame were copied out. -/
def advance (f : FrameFiller α) (n : ℕ) (h : f.pos + n ≤ f.frameSize) : FrameFiller α :=
  { f with pos := f.pos + n, served := f.served + n, pos_le := h }

theorem refill_pos_lt (f : FrameFiller α) : (f.refill fill).pos < (f.refill fill).frameSize := by
  have hle := f.pos_le
  unfold refill
  split
  · exact f.frameSize_pos
  · omega

/-- The loop of `pull`, with `out` written up to `i`. -/
def pullFrom (out : List α) (i : ℕ) (f : FrameFiller α) : FrameFiller α × List α :=
  if _h : i < out.length then
    let g := f.refill fill
    let n := min (out.length - i) (g.frameSize - g.pos)
    pullFrom (copyAt out i (g.frame.drop g.pos)) (i + n)
      (g.advance n (by have := g.pos_le; omega))
  else (f, out)
termination_by out.length - i
decreasing_by
  have := f.refill_pos_lt fill
  rw [length_copyAt (by omega)]
  omega

/-- The frame after `m` fills. -/
def frameAfter (init : List α) : ℕ → List α
  | 0 => init
  | m + 1 => fill.write m (frameAfter init m)

/-- The frames of the first `m` fills. -/
def filled (init : List α) (m : ℕ) : List (List α) :=
  (List.range m).map fun k => frameAfter fill init (k + 1)

theorem length_frameAfter (init : List α) (m : ℕ) :
    (frameAfter fill init m).length = init.length := by
  induction m with
  | zero => rfl
  | succ m ih => rw [frameAfter, fill.length_write, ih]

theorem filled_succ (init : List α) (m : ℕ) :
    filled fill init (m + 1) = filled fill init m ++ [frameAfter fill init (m + 1)] := by
  unfold filled
  rw [List.range_succ, List.map_append]
  rfl

theorem length_flatten_filled (init : List α) (m : ℕ) :
    (filled fill init m).flatten.length = m * init.length := by
  induction m with
  | zero => simp [filled]
  | succ m ih =>
    rw [filled_succ, List.flatten_append, List.length_append, ih, List.flatten_singleton,
      length_frameAfter, Nat.add_mul, Nat.one_mul]

/-- What was written out, and the rest of the frame after it, are the frames so far; each was
asked for when those before it were used up. -/
structure Serves (init out : List α) (f : FrameFiller α) : Prop where
  size : f.frameSize = init.length
  frame : f.frame = frameAfter fill init f.fills
  whole : out ++ f.frame.drop f.pos = (filled fill init f.fills).flatten
  served : f.served = out.length
  asked : f.asked = (List.range f.fills).map (· * f.frameSize)

variable {fill} {init out : List α} {f : FrameFiller α} {n : ℕ}

theorem Serves.length_eq (h : f.Serves fill init out) :
    out.length + (f.frameSize - f.pos) = f.fills * f.frameSize := by
  have := congrArg List.length h.whole
  rw [List.length_append, List.length_drop, f.length_frame, length_flatten_filled] at this
  rw [this, h.size]

theorem Serves.refill (h : f.Serves fill init out) : (f.refill fill).Serves fill init out := by
  unfold FrameFiller.refill
  split
  · next hpos =>
    have hlen := h.length_eq
    rw [hpos, Nat.sub_self, Nat.add_zero] at hlen
    have hwhole := h.whole
    rw [List.drop_of_length_le (Nat.le_of_eq (f.length_frame.trans hpos.symm)),
      List.append_nil] at hwhole
    refine ⟨h.size, ?_, ?_, h.served, ?_⟩
    · rw [frameAfter, ← h.frame]
    · rw [List.drop_zero, filled_succ, List.flatten_append, ← hwhole, List.flatten_singleton,
        frameAfter, ← h.frame]
    · rw [List.range_succ, List.map_append, ← h.asked, h.served, hlen]
      rfl
  · exact h

theorem Serves.advance (h : f.Serves fill init out) (hn : f.pos + n ≤ f.frameSize) :
    (f.advance n hn).Serves fill init (out ++ (f.frame.drop f.pos).take n) := by
  refine ⟨h.size, h.frame, ?_, ?_, h.asked⟩
  · rw [List.append_assoc]
    change out ++ ((f.frame.drop f.pos).take n ++ f.frame.drop (f.pos + n)) = _
    rw [← List.drop_drop, List.take_append_drop]
    exact h.whole
  · change f.served + n = _
    rw [List.length_append, List.length_take, List.length_drop, f.length_frame, h.served]
    omega

/-- **A pull** writes its whole buffer, with what comes next of the frames. -/
theorem pullFrom_spec {done : List α} (buf : List α) (i : ℕ) (f : FrameFiller α)
    (hi : i ≤ buf.length) (h : f.Serves fill init (done ++ buf.take i)) (hpos : 0 < f.pos) :
    (f.pullFrom fill buf i).1.Serves fill init (done ++ (f.pullFrom fill buf i).2) ∧
      0 < (f.pullFrom fill buf i).1.pos ∧ (f.pullFrom fill buf i).2.length = buf.length := by
  fun_induction pullFrom fill buf i f with
  | case1 buf i f hlt g n ih =>
    have hg : g.Serves fill init (done ++ buf.take i) := h.refill
    have hroom : g.pos < g.frameSize := f.refill_pos_lt fill
    have hcopied : (copyAt buf i (g.frame.drop g.pos)).take (i + n) =
        buf.take i ++ (g.frame.drop g.pos).take n := by
      have hsrc : (g.frame.drop g.pos).length = g.frameSize - g.pos := by
        rw [List.length_drop, g.length_frame]
      have hn : n = min (g.frame.drop g.pos).length (buf.length - i) := by
        rw [hsrc]
        exact Nat.min_comm _ _
      rw [hn, take_copyAt hi]
      congr 1
      rw [List.take_eq_take_iff]
      omega
    have hout : n ≤ buf.length - i := Nat.min_le_left _ _
    have hleft : n ≤ g.frameSize - g.pos := Nat.min_le_right _ _
    have hn : 0 < n := Nat.lt_min.2 ⟨by omega, by omega⟩
    have hend : g.pos + n ≤ g.frameSize := by omega
    have hadvance := hg.advance hend
    rw [List.append_assoc, ← hcopied] at hadvance
    have hcopy : (copyAt buf i (g.frame.drop g.pos)).length = buf.length := length_copyAt hi
    obtain ⟨hserves, hpos', hlen⟩ := ih (by omega) hadvance (Nat.add_pos_right g.pos hn)
    exact ⟨hserves, hpos', hlen.trans hcopy⟩
  | case2 buf i f hlt =>
    rw [List.take_of_length_le (by omega)] at h
    exact ⟨h, hpos, rfl⟩

def pull (fill : Fill α) (f : FrameFiller α) (out : List α) : FrameFiller α × List α :=
  f.pullFrom fill out 0

/-- One `pull` after another, and what is in each buffer after it. -/
def pulls (fill : Fill α) (f : FrameFiller α) : List (List α) → FrameFiller α × List (List α)
  | [] => (f, [])
  | out :: outs =>
    let r := f.pull fill out
    let t := r.1.pulls fill outs
    (t.1, r.2 :: t.2)

theorem pulls_spec {done : List α} (outs : List (List α)) (f : FrameFiller α)
    (h : f.Serves fill init done) (hpos : 0 < f.pos) :
    (f.pulls fill outs).1.Serves fill init (done ++ (f.pulls fill outs).2.flatten) ∧
      0 < (f.pulls fill outs).1.pos ∧
      (f.pulls fill outs).2.map List.length = outs.map List.length := by
  induction outs generalizing done f with
  | nil => exact ⟨by rwa [pulls, List.flatten_nil, List.append_nil], hpos, rfl⟩
  | cons out outs ih =>
    have hstart : f.Serves fill init (done ++ out.take 0) := by
      rwa [List.take_zero, List.append_nil]
    obtain ⟨hpull, hpos', hlen⟩ := pullFrom_spec out 0 f (Nat.zero_le _) hstart hpos
    obtain ⟨hrest, hpos'', hlens⟩ := ih _ hpull hpos'
    rw [List.append_assoc] at hrest
    refine ⟨hrest, hpos'', ?_⟩
    rw [pulls, List.map_cons, List.map_cons]
    exact congrArg₂ List.cons hlen hlens

end FrameFiller

/-- The frames that were begun are as few as hold what was written out. -/
theorem fills_eq {fills total left n : ℕ} (h : total + left = fills * n) (hleft : left < n) :
    fills = (total + n - 1) / n := by
  refine (Nat.div_eq_of_lt_le ?_ ?_).symm
  · omega
  · rw [Nat.add_mul]
    omega

/-- **Chunks of any length** change nothing. The frames pushed out and the samples still
pending are what was pushed in. What is pulled is the beginning of the frames that were
filled, each buffer to its full length; there are as few of them as hold it, and each was
asked for when all before it were used up. -/
theorem frames_of_chunks [Zero α] (frameSize : ℕ) (hsize : 0 < frameSize) :
    (∀ inps : List (List α), ∃ a frames,
      (newFrameAccumulator frameSize hsize).pushes inps = (a, frames) ∧
      frames.flatten ++ a.pending = inps.flatten ∧ a.pending.length < frameSize ∧
      ∀ f ∈ frames, f.length = frameSize) ∧
    ∀ (fill : Fill α) (outs : List (List α)), ∃ f written,
      (newFrameFiller frameSize hsize).pulls fill outs = (f, written) ∧
      written.map List.length = outs.map List.length ∧
      written.flatten <+:
        (FrameFiller.filled fill (List.replicate frameSize 0) f.fills).flatten ∧
      f.fills = (outs.flatten.length + frameSize - 1) / frameSize ∧
      f.asked = (List.range f.fills).map (· * frameSize) := by
  constructor
  · intro inps
    obtain ⟨hwhole, hkept, hframes⟩ :=
      (newFrameAccumulator (α := α) frameSize hsize).pushes_spec inps
    exact ⟨_, _, rfl, hwhole, Nat.lt_of_lt_of_eq (FrameAccumulator.pending_lt _) hkept, hframes⟩
  · intro fill outs
    have h₀ : (newFrameFiller frameSize hsize).Serves fill (List.replicate frameSize (0 : α)) [] :=
      ⟨List.length_replicate.symm, rfl,
        List.drop_of_length_le (Nat.le_of_eq List.length_replicate), rfl, rfl⟩
    obtain ⟨hserves, hpos, hlens⟩ := FrameFiller.pulls_spec outs _ h₀ hsize
    rw [List.nil_append] at hserves
    set r := (newFrameFiller frameSize hsize).pulls fill outs
    have hkept : r.1.frameSize = frameSize := hserves.size.trans List.length_replicate
    have htotal : r.2.flatten.length = outs.flatten.length := by
      rw [List.length_flatten, List.length_flatten, hlens]
    have hlen := hserves.length_eq
    have hasked := hserves.asked
    rw [hkept] at hlen hasked
    rw [htotal] at hlen
    exact ⟨r.1, r.2, rfl, hlens, ⟨_, hserves.whole⟩, fills_eq hlen (by omega), hasked⟩

/-- The fill of call `k` writes `k` everywhere. -/
def counted : Fill ℤ := ⟨fun k frame => List.replicate frame.length k, by simp⟩

theorem frames_of_chunks_three :
    (∃ a frames, (newFrameAccumulator (α := ℤ) 3 (by decide)).pushes [[1, 2], [3, 4, 5, 6, 7], []] =
      (a, frames) ∧ frames.flatten ++ a.pending = [1, 2, 3, 4, 5, 6, 7] ∧ a.pending.length < 3 ∧
      ∀ f ∈ frames, f.length = 3) ∧
    ∃ f written, (newFrameFiller 3 (by decide)).pulls counted [[9, 9], [9, 9, 9], []] =
      (f, written) ∧ written.map List.length = [2, 3, 0] ∧
      written.flatten <+: (FrameFiller.filled counted [0, 0, 0] f.fills).flatten ∧ f.fills = 2 ∧
      f.asked = [0, 3] := by
  obtain ⟨hpush, hpull⟩ := frames_of_chunks (α := ℤ) 3 (by decide)
  obtain ⟨f, written, hrun, hlens, hwritten, hfills, hasked⟩ :=
    hpull counted [[9, 9], [9, 9, 9], []]
  have hfills : f.fills = 2 := hfills
  exact ⟨hpush [[1, 2], [3, 4, 5, 6, 7], []], f, written, hrun, hlens, hwritten, hfills,
    by rw [hasked, hfills]; rfl⟩

end VcsClient.Audio
