import VcsClient.Audio.Gate

/-!
# The timing of push-to-talk

Frames and configurations in any order, with any levels and mutes. `Step` opens the gate
when PTT or VOX does, unless it is muted (`step_fst`): where PTT opens it, it is open
(`OpenByPtt`), and where PTT does not, it is left to VOX (`LeftToVox`). A press counts its
own frames from one, but the tail of the press before it is kept until the gate is latched.
A press inside a tail therefore closes the gate where there is a start delay, and a short
one leaves the rest of the tail to its own release (`ptt_timing`).
-/

namespace VcsClient.Audio.Gate

variable {L : Type*} [LE L] [DecidableLE L] {cfg : GateConfig L} {g : Gate L}
  {ops : List (Op L)} {inp : GateInput L}

def Op.input? : Op L → Option (GateInput L)
  | .frame inp => some inp
  | .setConfig _ => none

/-- PTT opens the gate at the frame. -/
def pttOpens (g : Gate L) (inp : GateInput L) : Bool := (g.pttBranch inp.ptt).1

/-- VOX opens the gate at the frame. -/
def voxOpens (g : Gate L) (inp : GateInput L) : Bool := (g.voxBranch inp.level).1

/-- The gate is open at the frame, unless it is muted. -/
structure OpenByPtt (g : Gate L) (inp : GateInput L) : Prop where
  ptt : g.pttOpens inp = true
  result : (g.step inp).1 = !inp.muted

/-- PTT does not open the gate: what `Step` returns is up to VOX. -/
structure LeftToVox (g : Gate L) (inp : GateInput L) : Prop where
  ptt : g.pttOpens inp = false
  result : (g.step inp).1 = (g.voxOpens inp && !inp.muted)

/-- The last frame has PTT down. -/
def down (ops : List (Op L)) : Bool :=
  ((ops.filterMap Op.input?).getLast?.map (·.ptt)).getD false

/-- The operations have no frame with PTT down. -/
def Released (ops : List (Op L)) : Prop := ∀ inp ∈ ops.filterMap Op.input?, inp.ptt = false

/-- **The timing of a press** that begins in the gate that `pre` leaves, in a run. -/
structure Timed (cfg : GateConfig L) (ops : List (Op L)) : Prop where
  /-- a frame of the press, after `holds` -/
  held : ∀ (pre : List (Op L)) (holds : List (GateInput L)) (inp : GateInput L),
    pre ++ holds.map Op.frame ++ [.frame inp] <+: ops → down pre = false →
    (∀ i ∈ holds, i.ptt = true) → inp.ptt = true →
    let g := (newGate cfg).run pre
    let g' := g.run (holds.map Op.frame)
    (g.startDelay ≤ holds.length → OpenByPtt g' inp) ∧
      (g.tail = 0 → holds.length < g.startDelay → LeftToVox g' inp) ∧
      -- a press within the tail does not close the gate
      (0 < g.tail → OpenByPtt g' inp)
  /-- a frame after the press, with the frames of `rel` between -/
  released : ∀ (pre : List (Op L)) (holds : List (GateInput L)) (rel : List (Op L))
    (inp : GateInput L), pre ++ holds.map Op.frame ++ rel ++ [.frame inp] <+: ops →
    down pre = false → (∀ i ∈ holds, i.ptt = true) → holds ≠ [] → Released rel →
    inp.ptt = false →
    let g := (newGate cfg).run pre
    let g' := (g.run (holds.map Op.frame)).run rel
    (g.startDelay < holds.length → (rel.filterMap Op.input?).length < g.releaseDelay →
        OpenByPtt g' inp) ∧
      (g.startDelay < holds.length → g.releaseDelay ≤ (rel.filterMap Op.input?).length →
        LeftToVox g' inp) ∧
      -- a press no longer than the start delay leaves no tail
      (g.tail = 0 → holds.length ≤ g.startDelay → LeftToVox g' inp)
  /-- a configuration does not close a gate that PTT holds open, nor does the frame after it -/
  config : ∀ (pre : List (Op L)) (inp : GateInput L) (cfgs : List (GateConfig L))
    (inp' : GateInput L), pre ++ [.frame inp] ++ cfgs.map Op.setConfig ++ [.frame inp'] <+:
    ops → inp.ptt = true → ((newGate cfg).run pre).pttOpens inp = true → inp'.ptt = true →
    let g := (newGate cfg).run (pre ++ [.frame inp] ++ cfgs.map Op.setConfig)
    g.isOpen = (!inp.muted) ∧ OpenByPtt g inp'

/-! ## One frame -/

theorem voxBranch_snd (g : Gate L) (level : L) : ∃ sustain left latched,
    (g.voxBranch level).2 =
      { g with voxSustain := sustain, voxHangLeft := left, voxLatched := latched } := by
  unfold voxBranch
  dsimp only
  split_ifs <;> exact ⟨_, _, _, rfl⟩

omit [LE L] [DecidableLE L] in
theorem pttBranch_snd (g : Gate L) (ptt : Bool) : ∃ held left latched,
    (g.pttBranch ptt).2 = { g with pttHeld := held, tail := left, pttLatched := latched } := by
  unfold pttBranch
  dsimp only
  split_ifs <;> exact ⟨_, _, _, rfl⟩

/-- **What `Step` returns.** -/
theorem step_fst (g : Gate L) (inp : GateInput L) :
    (g.step inp).1 = ((g.pttOpens inp || g.voxOpens inp) && !inp.muted) := by
  obtain ⟨held, left, latched, heq⟩ := pttBranch_snd g inp.ptt
  have hvox : ((g.pttBranch inp.ptt).2.voxBranch inp.level).1 = g.voxOpens inp := by
    rw [heq]
    unfold voxOpens voxBranch
    dsimp only
    split_ifs <;> rfl
  rw [← hvox]
  rfl

theorem isOpen_apply (g : Gate L) (inp : GateInput L) :
    (g.apply (.frame inp)).isOpen = (g.step inp).1 := rfl

theorem openByPtt_iff : OpenByPtt g inp ↔ g.pttOpens inp = true := by
  refine ⟨OpenByPtt.ptt, fun h => ⟨h, ?_⟩⟩
  rw [step_fst, h, Bool.true_or, Bool.true_and]

theorem leftToVox_iff : LeftToVox g inp ↔ g.pttOpens inp = false := by
  refine ⟨LeftToVox.ptt, fun h => ⟨h, ?_⟩⟩
  rw [step_fst, h, Bool.false_or]

/-- The counters of PTT after a frame are those of its PTT branch. -/
theorem apply_frame (g : Gate L) (inp : GateInput L) : ∃ sustain left latched isOpen,
    g.apply (.frame inp) =
      { (g.pttBranch inp.ptt).2 with
        voxSustain := sustain, voxHangLeft := left, voxLatched := latched, isOpen := isOpen } := by
  obtain ⟨sustain, left, latched, heq⟩ := voxBranch_snd (g.pttBranch inp.ptt).2 inp.level
  refine ⟨sustain, left, latched, (g.step inp).1, ?_⟩
  show (g.step inp).2 = _
  unfold step
  dsimp only
  rw [heq]

/-- The press has been longer than the start delay by the frame, or was before. -/
def latches (g : Gate L) : Bool := g.pttLatched || decide (g.startDelay < g.pttHeld + 1)

/-- What a frame with PTT down does. -/
structure HeldFrame (g : Gate L) (inp : GateInput L) (g' : Gate L) : Prop where
  opens : g.pttOpens inp = g.latches
  pttHeld : g'.pttHeld = g.pttHeld + 1
  latched : g'.pttLatched = g.latches
  tail : g'.tail = if g.latches then g.releaseDelay else g.tail
  delays : g'.startDelay = g.startDelay ∧ g'.releaseDelay = g.releaseDelay

theorem heldFrame_apply (hptt : inp.ptt = true) : HeldFrame g inp (g.apply (.frame inp)) := by
  obtain ⟨sustain, left, latched, isOpen, heq⟩ := apply_frame g inp
  rw [heq]
  by_cases hlong : g.startDelay < g.pttHeld + 1
  · constructor <;> simp [pttOpens, pttBranch, latches, hptt, hlong]
  · cases hlatch : g.pttLatched <;>
      constructor <;> simp [pttOpens, pttBranch, latches, hptt, hlong, hlatch]

/-- What a frame with PTT up does. -/
structure ReleasedFrame (g : Gate L) (inp : GateInput L) (g' : Gate L) : Prop where
  opens : g.pttOpens inp = decide (0 < g.tail)
  pttHeld : g'.pttHeld = 0
  latched : g'.pttLatched = false
  tail : g'.tail = g.tail - 1

theorem releasedFrame_apply (hptt : inp.ptt = false) :
    ReleasedFrame g inp (g.apply (.frame inp)) := by
  obtain ⟨sustain, left, latched, isOpen, heq⟩ := apply_frame g inp
  rw [heq]
  by_cases htail : 0 < g.tail
  · constructor <;> simp [pttOpens, pttBranch, hptt, htail]
  · constructor <;> simp [pttOpens, pttBranch, hptt, htail]
    omega

/-! ## Presses and releases -/

omit [LE L] [DecidableLE L] in
theorem down_concat_frame (ops : List (Op L)) (inp : GateInput L) :
    down (ops ++ [.frame inp]) = inp.ptt := by
  simp [down, Op.input?]

omit [LE L] [DecidableLE L] in
theorem down_concat_setConfig (ops : List (Op L)) (cfg : GateConfig L) :
    down (ops ++ [.setConfig cfg]) = down ops := by
  simp [down, Op.input?]

theorem run_up (cfg : GateConfig L) (ops : List (Op L)) (h : down ops = false) :
    ((newGate cfg).run ops).pttHeld = 0 ∧ ((newGate cfg).run ops).pttLatched = false := by
  induction ops using List.reverseRecOn with
  | nil => exact ⟨rfl, rfl⟩
  | append_singleton ops op ih =>
    rw [run_append]
    cases op with
    | frame inp =>
      have hptt : inp.ptt = false := (down_concat_frame ops inp).symm.trans h
      have hframe := releasedFrame_apply (g := (newGate cfg).run ops) hptt
      exact ⟨hframe.pttHeld, hframe.latched⟩
    | setConfig cfg' => exact ih ((down_concat_setConfig ops cfg').symm.trans h)

/-- The gate after the frames of a press. -/
structure HeldFor (g : Gate L) (n : ℕ) (g' : Gate L) : Prop where
  pttHeld : g'.pttHeld = n
  latched : g'.pttLatched = decide (g.startDelay < n)
  tail : g'.tail = if g.startDelay < n then g.releaseDelay else g.tail
  delays : g'.startDelay = g.startDelay ∧ g'.releaseDelay = g.releaseDelay

omit [LE L] [DecidableLE L] in
theorem HeldFor.latches {g' : Gate L} {n : ℕ} (h : HeldFor g n g') :
    g'.latches = decide (g.startDelay < n + 1) := by
  unfold Gate.latches
  rw [h.latched, h.pttHeld, h.delays.1, Bool.eq_iff_iff]
  simp only [Bool.or_eq_true, decide_eq_true_iff]
  omega

/-- **A press counts its own frames.** -/
theorem heldFor_run (hheld : g.pttHeld = 0) (hlatch : g.pttLatched = false)
    (holds : List (GateInput L)) (h : ∀ i ∈ holds, i.ptt = true) :
    HeldFor g holds.length (g.run (holds.map Op.frame)) := by
  induction holds using List.reverseRecOn with
  | nil => constructor <;> simp [hheld, hlatch]
  | append_singleton holds inp ih =>
    have hfor := ih fun i hi => h i (List.mem_append_left _ hi)
    have hframe := heldFrame_apply (g := g.run (holds.map Op.frame)) (h inp (by simp))
    have hlatches := hfor.latches
    rw [List.map_append, run_append, List.length_append, List.length_singleton]
    refine ⟨?_, ?_, ?_, ?_⟩
    · exact hframe.pttHeld.trans (by rw [hfor.pttHeld])
    · exact hframe.latched.trans hlatches
    · refine hframe.tail.trans ?_
      rw [hlatches, hfor.delays.2, hfor.tail]
      by_cases hlong : g.startDelay < holds.length + 1
      · simp [hlong]
      · simp [hlong, show ¬g.startDelay < holds.length by omega]
    · exact ⟨hframe.delays.1.trans hfor.delays.1, hframe.delays.2.trans hfor.delays.2⟩

/-- A configuration leaves the tail, and a frame with PTT up shortens it. -/
theorem tail_run (g : Gate L) (rel : List (Op L)) (h : Released rel) :
    (g.run rel).tail = g.tail - (rel.filterMap Op.input?).length := by
  induction rel using List.reverseRecOn with
  | nil => rfl
  | append_singleton rel op ih =>
    have ih := ih fun i hi => h i (by
      rw [List.filterMap_append]
      exact List.mem_append_left _ hi)
    rw [run_append]
    cases op with
    | frame inp =>
      have hptt : inp.ptt = false := h inp (by simp [Op.input?])
      have hframe := releasedFrame_apply (g := g.run rel) hptt
      have hlen : ((rel ++ [Op.frame inp]).filterMap Op.input?).length =
          (rel.filterMap Op.input?).length + 1 := by simp [Op.input?]
      refine hframe.tail.trans ?_
      rw [ih, hlen]
      omega
    | setConfig cfg =>
      have hlen : ((rel ++ [Op.setConfig cfg]).filterMap Op.input?).length =
          (rel.filterMap Op.input?).length := by simp [Op.input?]
      rw [hlen]
      exact ih

theorem run_setConfig (g : Gate L) (cfgs : List (GateConfig L)) :
    (g.run (cfgs.map Op.setConfig)).pttLatched = g.pttLatched ∧
      (g.run (cfgs.map Op.setConfig)).isOpen = g.isOpen := by
  induction cfgs generalizing g with
  | nil => exact ⟨rfl, rfl⟩
  | cons cfg cfgs ih => exact ih (g.setConfig cfg)

/-- **The timing of push-to-talk** is kept exactly when no press begins inside a tail and
with a start delay. -/
theorem ptt_timing (cfg : GateConfig L) (ops : List (Op L)) :
    Timed cfg ops ↔ ∀ pre inp, pre ++ [.frame inp] <+: ops → down pre = false → inp.ptt = true →
      ((newGate cfg).run pre).tail = 0 ∨ ((newGate cfg).run pre).startDelay = 0 := by
  constructor
  · intro h pre inp hpre hup hptt
    by_contra hnot
    rw [not_or] at hnot
    obtain ⟨htail, hdelay⟩ := hnot
    obtain ⟨hheld, hlatch⟩ := run_up cfg pre hup
    have hopens := (h.held pre [] inp (by simpa using hpre) hup (by simp) hptt).2.2
      (Nat.pos_of_ne_zero htail)
    rw [openByPtt_iff, List.map_nil, run_nil, (heldFrame_apply hptt).opens] at hopens
    unfold latches at hopens
    rw [hlatch, hheld, Bool.false_or, decide_eq_true_iff] at hopens
    omega
  · intro hcond
    constructor
    · intro pre holds inp hpre hup hholds hptt g g'
      obtain ⟨hheld, hlatch⟩ := run_up cfg pre hup
      have hfor : HeldFor g holds.length g' := heldFor_run hheld hlatch holds hholds
      have hstart : g.tail = 0 ∨ g.startDelay = 0 := by
        cases holds with
        | nil => exact hcond pre inp (by simpa using hpre) hup hptt
        | cons i holds =>
          refine hcond pre i (List.IsPrefix.trans ⟨holds.map Op.frame ++ [.frame inp], ?_⟩ hpre) hup
            (hholds i List.mem_cons_self)
          simp
      have hopens : g'.pttOpens inp = decide (g.startDelay < holds.length + 1) :=
        (heldFrame_apply hptt).opens.trans hfor.latches
      rw [openByPtt_iff, leftToVox_iff, hopens, decide_eq_true_iff, decide_eq_false_iff_not]
      omega
    · intro pre holds rel inp hpre hup hholds hne hrel hptt g g'
      obtain ⟨hheld, hlatch⟩ := run_up cfg pre hup
      have hfor : HeldFor g holds.length _ := heldFor_run hheld hlatch holds hholds
      have htail := tail_run (g.run (holds.map Op.frame)) rel hrel
      rw [hfor.tail] at htail
      have hopens : g'.pttOpens inp = decide (0 < g'.tail) := (releasedFrame_apply hptt).opens
      rw [openByPtt_iff, leftToVox_iff, hopens, htail, decide_eq_true_iff, decide_eq_false_iff_not]
      refine ⟨fun hlong => ?_, fun hlong => ?_, fun hzero hshort => ?_⟩
      · rw [if_pos hlong]
        omega
      · rw [if_pos hlong]
        omega
      · rw [if_neg (by omega), hzero]
        omega
    · intro pre inp cfgs inp' _ hptt hopens hptt' g
      have hlast : (newGate cfg).run (pre ++ [.frame inp]) =
          ((newGate cfg).run pre).apply (.frame inp) := by rw [run_append, run_cons, run_nil]
      obtain ⟨hlatched, hopen⟩ := run_setConfig ((newGate cfg).run (pre ++ [.frame inp])) cfgs
      rw [← run_append, hlast] at hlatched hopen
      refine ⟨?_, openByPtt_iff.2 ?_⟩
      · exact hopen.trans ((isOpen_apply _ _).trans (openByPtt_iff.2 hopens).result)
      · rw [(heldFrame_apply hptt).opens] at hopens
        rw [(heldFrame_apply hptt').opens]
        unfold latches
        rw [Bool.or_eq_true]
        exact .inl (hlatched.trans ((heldFrame_apply hptt).latched.trans hopens))

/-- A frame of a press, and one with PTT up. -/
def pressFrame : Op ℕ := .frame ⟨true, false, 0⟩

def releaseFrame : Op ℕ := .frame ⟨false, false, 0⟩

/-- **A press inside a tail closes the gate**: with a start delay of two frames and a release
delay of four, PTT is down for three frames, up for one, and down again. -/
theorem ptt_timing_pressed : ¬∀ (cfg : GateConfig ℕ) (ops : List (Op ℕ)), Timed cfg ops := by
  intro h
  let cfg : GateConfig ℕ := ⟨false, 0, 0, 0, 20, 40⟩
  let pre : List (Op ℕ) := [pressFrame, pressFrame, pressFrame, releaseFrame]
  have hopens := ((h cfg (pre ++ [pressFrame])).held pre [] ⟨true, false, 0⟩ (List.prefix_refl _)
    (by decide) (by simp) rfl).2.2 (by decide)
  exact absurd hopens.result (by decide)

end VcsClient.Audio.Gate
