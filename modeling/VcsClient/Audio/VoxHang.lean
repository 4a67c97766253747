import VcsClient.Audio.Gate
import VcsClient.Lib.Lists

/-!
# The hang of the voice-activated gate

Frames of levels, with VOX enabled, PTT up and the microphone unmuted. The gate is open
at a quiet frame as long as the hang lasts, and at a loud frame when the minimum length
has been reached. A loud frame that ends a dip counts towards the minimum length from
one again, and the hang is not looked at: a dip closes the gate when two loud frames or
more are needed to open it (`vox_hang`).
-/

namespace VcsClient.Audio.Gate

open VcsClient.Lib

variable {L : Type*} [LE L] [DecidableLE L] {cfg : GateConfig L} {ls : List L} {g : Gate L} {l q : L}

/-- A frame with PTT up and the microphone unmuted. -/
def levelFrame (l : L) : Op L := .frame ⟨false, false, l⟩

def voxRun (cfg : GateConfig L) (ls : List L) : Gate L := (newGate cfg).run (ls.map levelFrame)

/-- The gate is open after the levels. -/
def Opened (cfg : GateConfig L) (ls : List L) : Prop := (voxRun cfg ls).isOpen = true

instance : Decidable (Opened cfg ls) := inferInstanceAs (Decidable (_ = true))

def loud (cfg : GateConfig L) (l : L) : Bool := cfg.voxThreshold ≤ l

def quiet (cfg : GateConfig L) (l : L) : Bool := !loud cfg l

/-- The frames of the hang time. -/
def hang (cfg : GateConfig L) : ℕ := msToFrames cfg.voxHangMS

/-- The frames of the minimum length. -/
def minLen (cfg : GateConfig L) : ℕ := msToFrames cfg.voxMinLengthMS

/-- The length of the quiet run that the levels end with. -/
def quietRun (cfg : GateConfig L) (ls : List L) : ℕ := trailing (quiet cfg) ls

/-- **The hang**: from an open gate on the gate stays open while no quiet run is longer
than the hang time, and after one that is, it is closed. -/
def HangHolds (cfg : GateConfig L) (ls : List L) : Prop :=
  (∀ pre mid, pre ++ mid <+: ls → Opened cfg pre →
    (∀ mid', mid' <+: mid → quietRun cfg (pre ++ mid') ≤ hang cfg) → Opened cfg (pre ++ mid)) ∧
  ∀ pre, pre <+: ls → hang cfg < quietRun cfg pre → ¬Opened cfg pre

/-- A dip within the hang time: loud frames of the minimum length, quiet ones, and a
loud one. -/
def Dip (cfg : GateConfig L) (ls : List L) : Prop :=
  ∃ us qs l, us ++ qs ++ [l] <:+: ls ∧ us.length = minLen cfg ∧ (∀ u ∈ us, loud cfg u = true) ∧
    (∀ q ∈ qs, quiet cfg q = true) ∧ qs ≠ [] ∧ qs.length ≤ hang cfg ∧ loud cfg l = true

theorem Dip.mono {ls' : List L} (h : Dip cfg ls) (hsub : ls <:+: ls') : Dip cfg ls' := by
  obtain ⟨us, qs, l, hin, hdip⟩ := h
  exact ⟨us, qs, l, hin.trans hsub, hdip⟩

/-! ## One frame -/

theorem apply_quiet (hcfg : g.cfg = cfg) (hvox : cfg.voxEnabled = true) (htail : g.tail = 0)
    (hl : quiet cfg l = true) :
    g.apply (levelFrame l) =
      { g with
        pttHeld := 0
        pttLatched := false
        voxSustain := 0
        voxLatched := false
        voxHangLeft := g.voxHangLeft - 1
        isOpen := decide (0 < g.voxHangLeft) } := by
  subst hcfg
  have hlow : ¬g.cfg.voxThreshold ≤ l := by simpa [quiet, loud] using hl
  unfold levelFrame apply step pttBranch voxBranch
  by_cases hleft : 0 < g.voxHangLeft
  · simp [hvox, htail, hlow, hleft]
  · simp [hvox, htail, hlow, hleft]
    omega

/-- The loud frame reaches the minimum length, or the gate was latched. -/
def reaches (g : Gate L) : Bool := g.voxLatched || decide (g.voxMinLen ≤ g.voxSustain + 1)

theorem apply_loud (hcfg : g.cfg = cfg) (hvox : cfg.voxEnabled = true) (htail : g.tail = 0)
    (hl : loud cfg l = true) :
    g.apply (levelFrame l) =
      { g with
        pttHeld := 0
        pttLatched := false
        voxSustain := g.voxSustain + 1
        voxLatched := g.reaches
        voxHangLeft := if g.reaches then g.voxHang else g.voxHangLeft
        isOpen := g.reaches } := by
  subst hcfg
  have hhigh : g.cfg.voxThreshold ≤ l := by simpa [loud] using hl
  unfold levelFrame apply step pttBranch voxBranch reaches
  by_cases hmin : g.voxMinLen ≤ g.voxSustain + 1
  · simp [hvox, htail, hhigh, hmin]
  · cases hlatch : g.voxLatched <;> simp [hvox, htail, hhigh, hmin]

/-! ## The levels so far -/

/-- What the counters say of the levels. -/
structure Tracks (cfg : GateConfig L) (ls : List L) (g : Gate L) : Prop where
  config : g.cfg = cfg
  frames : g.voxMinLen = minLen cfg ∧ g.voxHang = hang cfg
  tail : g.tail = 0
  sustain : g.voxSustain = trailing (loud cfg) ls
  /-- latched: the minimum length has been reached, and the hang is full -/
  latched : g.voxLatched = true → 0 < trailing (loud cfg) ls ∧ g.voxMinLen ≤ g.voxSustain ∧
    g.isOpen = true ∧ g.voxHangLeft = g.voxHang
  /-- the hang covers the quiet run -/
  left : 0 < g.voxHangLeft ∨ g.isOpen = true → g.voxHangLeft + quietRun cfg ls ≤ g.voxHang

theorem loudRun_eq_zero_of_quiet (hl : quiet cfg l = true) :
    trailing (loud cfg) (ls ++ [l]) = 0 :=
  trailing_concat_neg (by simpa [quiet] using hl)

theorem quietRun_concat_loud (hl : loud cfg l = true) : quietRun cfg (ls ++ [l]) = 0 :=
  trailing_concat_neg (by simp [quiet, hl])

theorem quietRun_concat_quiet (hl : quiet cfg l = true) :
    quietRun cfg (ls ++ [l]) = quietRun cfg ls + 1 := trailing_concat_pos hl

/-- A list with a loud run does not end with a quiet one. -/
theorem quietRun_eq_zero (h : 0 < trailing (loud cfg) ls) : quietRun cfg ls = 0 := by
  cases ls using List.reverseRecOn with
  | nil => exact trailing_nil
  | append_singleton ls l =>
    cases hl : loud cfg l with
    | true => exact quietRun_concat_loud hl
    | false =>
      rw [trailing_concat_neg hl] at h
      exact absurd h (lt_irrefl 0)

theorem voxRun_concat (cfg : GateConfig L) (ls : List L) (l : L) :
    voxRun cfg (ls ++ [l]) = (voxRun cfg ls).apply (levelFrame l) := by
  simp [voxRun]

theorem quiet_or_loud (cfg : GateConfig L) (l : L) : quiet cfg l = true ∨ loud cfg l = true := by
  cases h : loud cfg l <;> simp [quiet, h]

/-- **A frame keeps the counters.** -/
theorem Tracks.concat (hvox : cfg.voxEnabled = true) (h : Tracks cfg ls g) (l : L) :
    Tracks cfg (ls ++ [l]) (g.apply (levelFrame l)) := by
  obtain hl | hl := quiet_or_loud cfg l
  · rw [apply_quiet h.config hvox h.tail hl]
    have hleft := h.left
    refine ⟨h.config, h.frames, h.tail, (loudRun_eq_zero_of_quiet hl).symm, nofun, ?_⟩
    dsimp only
    rw [quietRun_concat_quiet hl]
    rintro (hpos | hopen)
    · have := hleft (.inl (by omega))
      omega
    · have hpos := of_decide_eq_true hopen
      have := hleft (.inl hpos)
      omega
  · rw [apply_loud h.config hvox h.tail hl]
    have hrun : trailing (loud cfg) (ls ++ [l]) = trailing (loud cfg) ls + 1 :=
      trailing_concat_pos hl
    refine ⟨h.config, h.frames, h.tail, ?_, fun hr => ?_, fun hor => ?_⟩
    · rw [hrun, ← h.sustain]
    · dsimp only at hr ⊢
      refine ⟨by omega, ?_, hr, by rw [hr, if_pos rfl]⟩
      unfold reaches at hr
      rw [Bool.or_eq_true, decide_eq_true_iff] at hr
      obtain hlatch | hmin := hr
      · have := (h.latched hlatch).2.1
        omega
      · exact hmin
    · dsimp only at hor ⊢
      rw [quietRun_concat_loud hl]
      split
      · omega
      · next hr =>
        obtain hpos | hopen := hor
        · rw [if_neg hr] at hpos
          have := h.left (.inl hpos)
          omega
        · exact absurd hopen hr

theorem tracks_voxRun (hvox : cfg.voxEnabled = true) (ls : List L) :
    Tracks cfg ls (voxRun cfg ls) := by
  induction ls using List.reverseRecOn with
  | nil =>
    refine ⟨rfl, ⟨rfl, rfl⟩, rfl, trailing_nil.symm, nofun, ?_⟩
    rintro (hpos | hopen)
    · exact absurd hpos (lt_irrefl 0)
    · cases hopen
  | append_singleton ls l ih =>
    rw [voxRun_concat]
    exact ih.concat hvox l

/-- The hang is running down since loud frames of the minimum length. -/
def Hanging (cfg : GateConfig L) (ls : List L) (left : ℕ) : Prop :=
  ∃ us qs, us ++ qs <:+ ls ∧ us.length = minLen cfg ∧ (∀ u ∈ us, loud cfg u = true) ∧
    (∀ q ∈ qs, quiet cfg q = true) ∧ qs ≠ [] ∧ left + qs.length = hang cfg

/-- **An open gate is latched, or the hang is running down**, unless a dip has closed it
before. -/
def Accounted (cfg : GateConfig L) (ls : List L) (g : Gate L) : Prop :=
  0 < g.voxHangLeft ∨ g.isOpen = true →
    g.voxLatched = true ∨ Hanging cfg ls g.voxHangLeft ∨ (2 ≤ minLen cfg ∧ Dip cfg ls)

theorem accounted_concat (hvox : cfg.voxEnabled = true) (h : Tracks cfg ls g)
    (hacc : Accounted cfg ls g) (l : L) :
    Accounted cfg (ls ++ [l]) (g.apply (levelFrame l)) := by
  have hdip : 2 ≤ minLen cfg ∧ Dip cfg ls → 2 ≤ minLen cfg ∧ Dip cfg (ls ++ [l]) :=
    fun hd => ⟨hd.1, hd.2.mono (List.infix_append' [] ls [l])⟩
  obtain hl | hl := quiet_or_loud cfg l
  · rw [apply_quiet h.config hvox h.tail hl]
    intro hor
    have hpos : 0 < g.voxHangLeft := by
      dsimp only at hor
      obtain hpos | hopen := hor
      · omega
      · exact of_decide_eq_true hopen
    obtain hlatch | hhang | hd := hacc (.inl hpos)
    · -- the first quiet frame
      obtain ⟨-, hmin, -, hfull⟩ := h.latched hlatch
      obtain ⟨a, us, rfl, hlen, hus⟩ := exists_of_le_trailing (h.sustain ▸ h.frames.1 ▸ hmin)
      refine .inr (.inl ⟨us, [l], ⟨a, by simp⟩, hlen, hus, by simpa using hl, by simp, ?_⟩)
      have := h.frames.2
      simp only [List.length_singleton]
      omega
    · obtain ⟨us, qs, ⟨a, rfl⟩, hlen, hus, hqs, -, hleft⟩ := hhang
      refine .inr (.inl ⟨us, qs ++ [l], ⟨a, by simp⟩, hlen, hus, ?_, by simp, ?_⟩)
      · simpa [or_imp, forall_and] using ⟨hqs, hl⟩
      · simp only [List.length_append, List.length_singleton]
        omega
    · exact .inr (.inr (hdip hd))
  · rw [apply_loud h.config hvox h.tail hl]
    intro hor
    cases hr : g.reaches with
    | true => exact .inl rfl
    | false =>
      simp only [hr, Bool.false_eq_true, if_false, or_false] at hor
      unfold reaches at hr
      rw [Bool.or_eq_false_iff, decide_eq_false_iff_not] at hr
      obtain hlatch | hhang | hd := hacc (.inl hor)
      · rw [hr.1] at hlatch
        cases hlatch
      · -- the dip ends here
        obtain ⟨us, qs, ⟨a, rfl⟩, hlen, hus, hqs, hne, hleft⟩ := hhang
        have hmin := h.frames.1
        exact .inr (.inr ⟨by omega, us, qs, l, ⟨a, [], by simp⟩, hlen, hus, hqs, hne,
          by omega, hl⟩)
      · exact .inr (.inr (hdip hd))

theorem accounted_voxRun (hvox : cfg.voxEnabled = true) (ls : List L) :
    Accounted cfg ls (voxRun cfg ls) := by
  induction ls using List.reverseRecOn with
  | nil =>
    rintro (hpos | hopen)
    · exact absurd hpos (lt_irrefl 0)
    · cases hopen
  | append_singleton ls l ih =>
    rw [voxRun_concat]
    exact accounted_concat hvox (tracks_voxRun hvox ls) ih l

/-! ## The hang -/

/-- An open gate stays open at a frame within the hang time. -/
theorem opened_concat (hvox : cfg.voxEnabled = true) (hdip : ¬(2 ≤ minLen cfg ∧ Dip cfg (ls ++ [l])))
    (ho : Opened cfg ls) (hrun : quietRun cfg (ls ++ [l]) ≤ hang cfg) :
    Opened cfg (ls ++ [l]) := by
  have h := tracks_voxRun hvox ls
  have hacc := accounted_voxRun hvox (ls ++ [l])
  unfold Opened at ho ⊢
  rw [voxRun_concat] at hacc ⊢
  obtain hl | hl := quiet_or_loud cfg l
  · rw [apply_quiet h.config hvox h.tail hl]
    rw [quietRun_concat_quiet hl] at hrun
    refine decide_eq_true ?_
    have hhang := h.frames.2
    obtain hlatch | ⟨us, qs, ⟨a, rfl⟩, -, -, hqs, -, hleft⟩ | hd :=
      accounted_voxRun hvox ls (.inr ho)
    · have := (h.latched hlatch).2.2.2
      omega
    · have hlen : quietRun cfg (a ++ (us ++ qs)) = quietRun cfg (a ++ us) + qs.length := by
        rw [← List.append_assoc]
        exact trailing_append_of_forall hqs
      omega
    · exact absurd ⟨hd.1, hd.2.mono (List.infix_append' [] ls [l])⟩ hdip
  · rw [apply_loud h.config hvox h.tail hl]
    unfold reaches
    rw [Bool.or_eq_true, decide_eq_true_iff, h.frames.1]
    obtain hlatch | ⟨us, qs, ⟨a, rfl⟩, hlen, hus, hqs, hne, hleft⟩ | hd :=
      accounted_voxRun hvox ls (.inr ho)
    · exact .inl hlatch
    · -- the loud frame ends a dip
      refine .inr ?_
      by_contra hmin
      exact hdip ⟨by omega, us, qs, l, ⟨a, [], by simp⟩, hlen, hus, hqs, hne, by omega, hl⟩
    · exact absurd ⟨hd.1, hd.2.mono (List.infix_append' [] ls [l])⟩ hdip

theorem not_opened_of_dip (hvox : cfg.voxEnabled = true) (hmin : 2 ≤ minLen cfg)
    (hq : quiet cfg q = true) (hl : loud cfg l = true) : ¬Opened cfg (ls ++ [q] ++ [l]) := by
  have h := tracks_voxRun hvox (ls ++ [q])
  have hrun : trailing (loud cfg) (ls ++ [q]) = 0 := loudRun_eq_zero_of_quiet hq
  have hlatch : (voxRun cfg (ls ++ [q])).voxLatched = false := by
    rw [← Bool.not_eq_true]
    intro hlatch
    have := (h.latched hlatch).1
    omega
  unfold Opened
  rw [voxRun_concat, apply_loud h.config hvox h.tail hl]
  unfold reaches
  have hsustain := h.sustain
  have hframes := h.frames.1
  rw [hlatch, Bool.false_or, decide_eq_true_iff]
  omega

theorem opened_of_loudRun (hvox : cfg.voxEnabled = true) (hpos : 0 < trailing (loud cfg) ls)
    (hmin : minLen cfg ≤ trailing (loud cfg) ls) : Opened cfg ls := by
  cases ls using List.reverseRecOn with
  | nil => exact absurd hpos (by simp)
  | append_singleton ls l =>
    have h := tracks_voxRun hvox ls
    cases hl : loud cfg l with
    | false =>
      rw [trailing_concat_neg hl] at hpos
      exact absurd hpos (lt_irrefl 0)
    | true =>
      rw [trailing_concat_pos hl] at hmin
      unfold Opened
      rw [voxRun_concat, apply_loud h.config hvox h.tail hl]
      unfold reaches
      rw [Bool.or_eq_true, decide_eq_true_iff, h.frames.1, h.sustain]
      exact .inr hmin

/-- **The hang**: a gate that VOX has opened stays open within the hang time, and is closed
after it, exactly when one loud frame opens the gate or no dip ends within the hang
time. -/
theorem vox_hang (cfg : GateConfig L) (hvox : cfg.voxEnabled = true) (ls : List L) :
    HangHolds cfg ls ↔ minLen cfg ≤ 1 ∨ ¬Dip cfg ls := by
  constructor
  · intro h
    by_contra hnot
    rw [not_or, not_not, not_le] at hnot
    obtain ⟨hmin, us, qs, l, ⟨a, b, hls⟩, hlen, hus, hqs, hne, hhang, hl⟩ := hnot
    have hloud : minLen cfg ≤ trailing (loud cfg) (a ++ us) := by
      rw [trailing_append_of_forall hus]
      omega
    have hopen : Opened cfg (a ++ us) := opened_of_loudRun hvox (by omega) hloud
    have hzero : quietRun cfg (a ++ us) = 0 := quietRun_eq_zero (by omega)
    obtain ⟨qs, q, rfl⟩ := List.eq_nil_or_concat' qs |>.resolve_left hne
    have hclosed : ¬Opened cfg (a ++ us ++ qs ++ [q] ++ [l]) :=
      not_opened_of_dip hvox (by omega) (hqs q (by simp)) hl
    refine hclosed ?_
    have hpre : a ++ us ++ (qs ++ [q] ++ [l]) <+: ls := ⟨b, by rw [← hls]; simp⟩
    have := h.1 (a ++ us) (qs ++ [q] ++ [l]) hpre hopen fun mid' hmid => ?_
    · simpa using this
    · rw [List.prefix_concat_iff] at hmid
      obtain rfl | hmid := hmid
      · rw [← List.append_assoc, quietRun_concat_loud hl]
        omega
      · have hle : quietRun cfg (a ++ us ++ mid') ≤ quietRun cfg (a ++ us) + mid'.length :=
          trailing_append_le
        have := hmid.length_le
        omega
  · intro hcond
    have hdip : ∀ pre, pre <+: ls → ¬(2 ≤ minLen cfg ∧ Dip cfg pre) := by
      rintro pre hpre ⟨hmin, hd⟩
      obtain hone | hno := hcond
      · omega
      · exact hno (hd.mono hpre.isInfix)
    refine ⟨fun pre mid hpre hopen hruns => ?_, fun pre hpre hlong hopen => ?_⟩
    · induction mid using List.reverseRecOn with
      | nil => simpa using hopen
      | append_singleton mid l ih =>
        rw [← List.append_assoc] at hpre ⊢
        have ho : Opened cfg (pre ++ mid) :=
          ih ((List.prefix_append _ _).trans hpre) fun mid' hmid =>
            hruns mid' (hmid.trans (List.prefix_append _ _))
        refine opened_concat hvox (hdip _ hpre) ho ?_
        have := hruns (mid ++ [l]) (List.prefix_refl _)
        rwa [← List.append_assoc] at this
    · have h := tracks_voxRun hvox pre
      have := h.left (.inr hopen)
      have := h.frames.2
      omega

/-- A minimum length of 50 ms and a hang of 100 ms. -/
def pausing : GateConfig ℕ := ⟨true, 1, 50, 100, 0, 0⟩

theorem vox_hang_paused :
    HangHolds pausing [1, 1, 1, 1, 1, 0, 0, 0] ↔
      minLen pausing ≤ 1 ∨ ¬Dip pausing [1, 1, 1, 1, 1, 0, 0, 0] :=
  vox_hang pausing rfl _

/-- **A dip of one frame closes the gate**, although the hang time is ten. -/
theorem vox_hang_dropped : ¬∀ (cfg : GateConfig ℕ) (ls : List ℕ), cfg.voxEnabled = true →
    HangHolds cfg ls := by
  intro h
  have hholds := (h pausing [1, 1, 1, 1, 1, 0, 1] rfl).1 [1, 1, 1, 1, 1] [0, 1]
    (List.prefix_refl _) (by decide)
  refine absurd (hholds fun mid' hmid => ?_) (by decide)
  have hle : quietRun pausing ([1, 1, 1, 1, 1] ++ mid') ≤
      quietRun pausing [1, 1, 1, 1, 1] + mid'.length := trailing_append_le
  have hlen : mid'.length ≤ 2 := hmid.length_le
  have hzero : quietRun pausing [1, 1, 1, 1, 1] = 0 := by decide
  have hhang : hang pausing = 10 := by decide
  omega

end VcsClient.Audio.Gate
