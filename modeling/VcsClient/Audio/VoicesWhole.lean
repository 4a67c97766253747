import Mathlib.Data.List.Induction
import VcsClient.Audio.Voices
import VcsClient.Lib.Lists

/-!
# Every voice is heard in whole

The pool of `Audio.Voices` from call to call. A sweep over the ring adds the next slice
of every voice and keeps those that go on; the ring holds, by age, the voices started
that are neither evicted nor over.
-/

namespace VcsClient.Audio

open VcsClient.Lib

variable {α : Type}

/-! ## One sweep -/

/-- What the voice adds to a block of `len` samples. -/
def Voice.slice (v : Voice α) (len : ℕ) : List α := (v.samples.drop v.pos).take len

/-- The voice after a block of `len` samples, unless it is over. -/
def Voice.after (v : Voice α) (len : ℕ) : Option (Voice α) :=
  if v.pos + len < v.samples.length then some { v with pos := v.pos + len } else none

section Sum

variable [Add α]

@[simp] theorem length_addPart : ∀ dst part : List α, (addPart dst part).length = dst.length
  | [], _ => by simp [addPart]
  | _ :: _, [] => by simp [addPart]
  | _ :: dst, _ :: part => by simp [addPart, length_addPart dst part]

@[simp] theorem addPart_nil (dst : List α) : addPart dst [] = dst := by
  cases dst <;> rfl

theorem addPart_snoc (x : α) : ∀ (dst part : List α), part.length < dst.length →
    addPart dst (part ++ [x]) = (addPart dst part).modify part.length (· + x)
  | [], _, h => by cases h
  | d :: dst, [], _ => by simp [addPart]
  | d :: dst, y :: part, h => by
    have := addPart_snoc x dst part (Nat.lt_of_succ_lt_succ h)
    simp [addPart, this]

theorem addSamples_eq (dst : List α) (v : Voice α) : ∀ n,
    n ≤ v.samples.length - v.pos → n ≤ dst.length →
    VoicePool.addSamples dst v n = addPart dst (v.slice n)
  | 0, _, _ => by simp [VoicePool.addSamples, Voice.slice]
  | n + 1, hrem, hdst => by
    have ih := addSamples_eq dst v n (by omega) (by omega)
    have hlt : v.pos + n < v.samples.length := by omega
    have hslice : v.slice (n + 1) = v.slice n ++ [v.samples[v.pos + n]] := by
      unfold Voice.slice
      rw [List.take_add_one, List.getElem?_drop, List.getElem?_eq_getElem hlt]
      rfl
    have hlen : (v.slice n).length = n := by
      simp only [Voice.slice, List.length_take, List.length_drop]
      omega
    rw [hslice, addPart_snoc _ _ _ (by omega), ← ih, hlen]
    unfold VoicePool.addSamples
    rw [List.range_succ, List.foldl_append, List.foldl_cons, List.foldl_nil,
      List.getElem?_eq_getElem hlt]

theorem mixVoice_eq {m : Mixing α} {v : Voice α} (hv : v.pos < v.samples.length) :
    VoicePool.mixVoice m v = (⟨addPart m.dst (v.slice m.dst.length),
      m.parts ++ [(v.serial, v.slice m.dst.length)]⟩, v.after m.dst.length) := by
  have hlen : (v.samples.drop v.pos).length = v.samples.length - v.pos := List.length_drop
  unfold VoicePool.mixVoice
  dsimp only
  split
  · next h =>
    have hslice : (v.samples.drop v.pos).take (v.samples.length - v.pos) =
        v.slice m.dst.length := by
      unfold Voice.slice
      rw [List.take_of_length_le hlen.le, List.take_of_length_le (hlen.trans_le h.le)]
    have hover : v.after m.dst.length = none := if_neg (by omega)
    rw [hover, if_neg (by omega), hslice, addSamples_eq _ _ _ le_rfl h.le]
    unfold Voice.slice
    rw [List.take_of_length_le hlen.le, List.take_of_length_le (hlen.trans_le h.le)]
  · next h => rw [addSamples_eq _ _ _ (by omega) le_rfl]; rfl

theorem passThrough_mixVoice (dst : List α) : ∀ vs : List (Voice α),
    (∀ v ∈ vs, v.pos < v.samples.length) →
    passThrough VoicePool.mixVoice ⟨dst, []⟩ vs =
      (⟨(vs.map fun v => (v.serial, v.slice dst.length)).foldl (fun d part => addPart d part.2) dst,
        vs.map fun v => (v.serial, v.slice dst.length)⟩, vs.filterMap (·.after dst.length)) := by
  intro vs
  induction vs using List.reverseRecOn with
  | nil => exact fun _ => rfl
  | append_singleton vs v ih =>
    intro hvs
    have hlen : ∀ (parts : List (ℕ × List α)),
        (parts.foldl (fun d part => addPart d part.2) dst).length = dst.length := fun parts => by
      induction parts using List.reverseRecOn with
      | nil => rfl
      | append_singleton parts part ih => rw [List.foldl_append, List.foldl_cons, List.foldl_nil,
          length_addPart, ih]
    rw [passThrough_append, ih fun w hw => hvs w (List.mem_append_left _ hw),
      mixVoice_eq (hvs v (by simp))]
    simp only [hlen, List.map_append, List.map_cons, List.map_nil, List.foldl_append,
      List.foldl_cons, List.foldl_nil, List.filterMap_append]
    cases hafter : v.after dst.length <;> simp [hafter]

end Sum

/-! ## The voices in the ring -/

namespace VoicePool

variable {p : VoicePool α} {samples : List α}

theorem active_addVoice_room (h : p.count < maxVoices) :
    (p.addVoice samples).active = p.active ++ [⟨samples, 0, p.started.length⟩] := by
  unfold addVoice
  rw [if_pos h]
  exact window_push h _

theorem active_eq_cons (h : p.count = maxVoices) :
    p.active = p.voices (slotAt maxVoices p.head 0) :: p.active.tail := by
  have hlen : p.active.length = maxVoices := (length_window ..).trans h
  unfold active window at hlen ⊢
  rw [h]
  rfl

theorem active_addVoice_full (h : p.count = maxVoices) :
    (p.addVoice samples).active = p.active.tail ++ [⟨samples, 0, p.started.length⟩] := by
  unfold addVoice
  rw [if_neg (by omega)]
  show window _ _ p.count = (window _ _ p.count).tail ++ _
  rw [h]
  exact window_replace _

theorem mixedSince_of_le {s : Started α} {i : ℕ} (h : i ≤ s.block) : p.mixedSince s i = 0 := by
  unfold mixedSince
  rw [List.drop_eq_nil_of_le ((List.length_take_le ..).trans h)]
  rfl

theorem mixedSince_succ {s : Started α} {i : ℕ} {b : Block α} (hb : p.mixed[i]? = some b)
    (h : s.block ≤ i) : p.mixedSince s (i + 1) = p.mixedSince s i + b.dst.length := by
  have hi : i < p.mixed.length := (List.getElem?_eq_some_iff.1 hb).1
  unfold mixedSince
  rw [List.take_add_one, hb, List.drop_append_of_le_length (by rw [List.length_take]; omega)]
  simp

theorem heard_evicted {s : Started α} {i e : ℕ} (hnone : s.evicted = none) (hi : i < e) :
    p.Heard { s with evicted := some e } i ↔ p.Heard s i := by
  refine ⟨fun hheard => ⟨hheard.1, fun e he => ?_, hheard.2.2⟩,
    fun hheard => ⟨hheard.1, fun e' he => ?_, hheard.2.2⟩⟩
  · rw [hnone] at he
    cases he
  · cases he
    exact hi

/-- What is known of the voices that were started, with `active` those in the ring. -/
structure Tracks [Add α] (p : VoicePool α) (active : List (Voice α)) : Prop where
  ordered : (active.map (·.serial)).Pairwise (· < ·)
  known : ∀ v ∈ active, ∃ s, p.started[v.serial]? = some s ∧ s.samples = v.samples ∧
    s.evicted = none ∧ v.pos = p.mixedSince s p.mixed.length ∧ v.pos < v.samples.length
  kept : ∀ (n : ℕ) (s : Started α), p.started[n]? = some s → s.evicted = none →
    p.mixedSince s p.mixed.length < s.samples.length → ∃ v ∈ active, v.serial = n
  times : ∀ (n : ℕ) (s : Started α), p.started[n]? = some s →
    s.block ≤ p.mixed.length ∧ ∀ e ∈ s.evicted, e ≤ p.mixed.length
  sum : ∀ b ∈ p.mixed, b.out = b.parts.foldl (fun dst part => addPart dst part.2) b.dst
  once : ∀ b ∈ p.mixed, (b.parts.map (·.1)).Pairwise (· < ·)
  parts : ∀ (i : ℕ) (b : Block α) (n : ℕ) (part : List α), p.mixed[i]? = some b →
    ((n, part) ∈ b.parts ↔ ∃ s, p.started[n]? = some s ∧ p.Heard s i ∧
      part = (s.samples.drop (p.mixedSince s i)).take b.dst.length)
  oldest : ∀ (n : ℕ) (s : Started α) (e : ℕ), p.started[n]? = some s → s.evicted = some e →
    p.mixedSince s e < s.samples.length ∧
    ∀ m < n, ∀ t, p.started[m]? = some t →
      (∃ e' ∈ t.evicted, e' ≤ e) ∨ t.samples.length ≤ p.mixedSince t e
  crowded : ∀ (n : ℕ) (s : Started α) (e : ℕ), p.started[n]? = some s → s.evicted = some e →
    ∃ younger : List ℕ, younger.length = maxVoices ∧ younger.Pairwise (· < ·) ∧
      ∀ m ∈ younger, n < m ∧ ∃ t, p.started[m]? = some t ∧ t.block ≤ e ∧
        p.mixedSince t e < t.samples.length ∧ ∀ e' ∈ t.evicted, e ≤ e'

end VoicePool

namespace VoicePool.Tracks

variable [Add α] {p q : VoicePool α} {active vs : List (Voice α)} {v : Voice α} {samples : List α}

theorem congr (h : p.Tracks active) (hstarted : q.started = p.started)
    (hmixed : q.mixed = p.mixed) : q.Tracks active := by
  obtain ⟨_, _, _, _, started, mixed⟩ := q
  cases hstarted
  cases hmixed
  exact ⟨h.ordered, h.known, h.kept, h.times, h.sum, h.once, h.parts, h.oldest, h.crowded⟩

theorem serial_lt (h : p.Tracks active) (hv : v ∈ active) : v.serial < p.started.length := by
  obtain ⟨s, hs, -⟩ := h.known v hv
  exact (List.getElem?_eq_some_iff.1 hs).1

theorem evicted_eq_none (h : p.Tracks active) {n : ℕ} {s : Started α} (hs : p.started[n]? = some s)
    (hev : ∀ e ∈ s.evicted, p.mixed.length < e) : s.evicted = none := by
  cases he : s.evicted with
  | none => rfl
  | some e => exact absurd (hev e he) (Nat.not_lt.2 ((h.times n s hs).2 e he))

theorem push (h : p.Tracks active) (hsamples : 0 < samples.length) :
    Tracks { p with started := p.started ++ [⟨samples, p.mixed.length, none⟩] }
      (active ++ [⟨samples, 0, p.started.length⟩]) where
  ordered := by
    rw [List.map_append, List.pairwise_append]
    refine ⟨h.ordered, List.pairwise_singleton .., fun n hn m hm => ?_⟩
    obtain ⟨v, hv, rfl⟩ := List.mem_map.1 hn
    obtain rfl := List.mem_singleton.1 hm
    exact h.serial_lt hv
  known v hv := by
    obtain hv | hv := List.mem_append.1 hv
    · obtain ⟨s, hs, hknown⟩ := h.known v hv
      exact ⟨s, getElem?_snoc.2 (.inl hs), hknown⟩
    · obtain rfl := List.mem_singleton.1 hv
      exact ⟨_, getElem?_snoc.2 (.inr ⟨rfl, rfl⟩), rfl, rfl, (mixedSince_of_le le_rfl).symm,
        hsamples⟩
  kept n s hs hev hlt := by
    obtain hs | ⟨rfl, rfl⟩ := getElem?_snoc.1 hs
    · obtain ⟨v, hv, hn⟩ := h.kept n s hs hev hlt
      exact ⟨v, List.mem_append_left _ hv, hn⟩
    · exact ⟨_, List.mem_append_right _ (List.mem_singleton_self _), rfl⟩
  times n s hs := by
    obtain hs | ⟨rfl, rfl⟩ := getElem?_snoc.1 hs
    · exact h.times n s hs
    · exact ⟨le_rfl, fun e he => by cases he⟩
  sum := h.sum
  once := h.once
  parts i b n part hb := by
    refine (h.parts i b n part hb).trans (exists_congr fun s => and_congr_left fun hheard => ?_)
    refine ⟨fun hs => getElem?_snoc.2 (.inl hs), fun hs => ?_⟩
    obtain hs | ⟨-, rfl⟩ := getElem?_snoc.1 hs
    · exact hs
    · exact absurd hheard.1.1 (Nat.not_le.2 (List.getElem?_eq_some_iff.1 hb).1)
  oldest n s e hs he := by
    obtain hs | ⟨-, rfl⟩ := getElem?_snoc.1 hs
    · have hn := (List.getElem?_eq_some_iff.1 hs).1
      refine ⟨(h.oldest n s e hs he).1, fun m hm t ht => ?_⟩
      obtain ht | ⟨rfl, -⟩ := getElem?_snoc.1 ht
      · exact (h.oldest n s e hs he).2 m hm t ht
      · exact absurd hm (Nat.not_lt.2 hn.le)
    · cases he
  crowded n s e hs he := by
    obtain hs | ⟨-, rfl⟩ := getElem?_snoc.1 hs
    · obtain ⟨younger, hlen, hpw, hmem⟩ := h.crowded n s e hs he
      refine ⟨younger, hlen, hpw, fun m hm => ?_⟩
      obtain ⟨hlt, t, ht, hrest⟩ := hmem m hm
      exact ⟨hlt, t, getElem?_snoc.2 (.inl ht), hrest⟩
    · cases he

theorem younger_than_head (h : p.Tracks (v :: vs)) : ∀ w ∈ vs, v.serial < w.serial :=
  fun _ hw => (List.pairwise_cons.1 (List.map_cons .. ▸ h.ordered)).1 _ (List.mem_map_of_mem hw)

/-- The voices started before the oldest in the ring were evicted or are over. -/
theorem before_head (h : p.Tracks (v :: vs)) {m : ℕ} (hm : m < v.serial) {t : Started α}
    (ht : p.started[m]? = some t) :
    (∃ e ∈ t.evicted, e ≤ p.mixed.length) ∨ t.samples.length ≤ p.mixedSince t p.mixed.length := by
  cases hev : t.evicted with
  | some e => exact .inl ⟨e, rfl, (h.times m t ht).2 e hev⟩
  | none =>
    refine .inr (Nat.le_of_not_lt fun hlt => ?_)
    obtain ⟨w, hw, hwm⟩ := h.kept m t ht hev hlt
    obtain rfl | hw := List.mem_cons.1 hw
    · omega
    · have := h.younger_than_head w hw
      omega

/-- Those behind the oldest are younger and not over. -/
theorem behind_head (h : p.Tracks (v :: vs)) {m : ℕ} (hm : m ∈ vs.map (·.serial)) :
    v.serial < m ∧ ∃ t, p.started[m]? = some t ∧ t.block ≤ p.mixed.length ∧ t.evicted = none ∧
      p.mixedSince t p.mixed.length < t.samples.length := by
  obtain ⟨w, hw, rfl⟩ := List.mem_map.1 hm
  obtain ⟨t, ht, ht', hev, hpos, hlt⟩ := h.known w (List.mem_cons_of_mem _ hw)
  refine ⟨h.younger_than_head w hw, t, ht, (h.times _ t ht).1, hev, ?_⟩
  rw [← hpos, ht']
  exact hlt

/-- What an eviction makes of a voice that was started. -/
theorem evict_started (h : p.Tracks (v :: vs)) {n : ℕ} {s : Started α}
    (hs : (p.started.modify v.serial fun s => { s with evicted := some p.mixed.length })[n]? =
      some s) :
    (n = v.serial ∧ ∃ s₀, p.started[n]? = some s₀ ∧ s₀.evicted = none ∧
        p.mixedSince s₀ p.mixed.length < s₀.samples.length ∧
        s = { s₀ with evicted := some p.mixed.length }) ∨
      n ≠ v.serial ∧ p.started[n]? = some s := by
  replace hs := getElem?_modify_eq_some.1 hs
  obtain ⟨s, hs, rfl⟩ := hs
  by_cases hn : v.serial = n
  · subst hn
    obtain ⟨s₀, hs₀, hsamples, hnone, hpos, hlt⟩ := h.known v List.mem_cons_self
    cases hs.symm.trans hs₀
    refine .inl ⟨rfl, s, hs, hnone, ?_, if_pos rfl⟩
    rw [← hpos, hsamples]
    exact hlt
  · rw [if_neg hn]
    exact .inr ⟨Ne.symm hn, hs⟩

theorem evict (h : p.Tracks (v :: vs)) (hvs : vs.length = maxVoices) :
    Tracks
      { p with
        started := p.started.modify v.serial fun s => { s with evicted := some p.mixed.length } }
      vs := by
  have hothers : ∀ {n : ℕ} {s : Started α}, n ≠ v.serial → p.started[n]? = some s →
      (p.started.modify v.serial fun s => { s with evicted := some p.mixed.length })[n]? = some s :=
    fun hn hs => getElem?_modify_eq_some.2 ⟨_, hs, (if_neg hn.symm).symm⟩
  refine
    { ordered := (List.pairwise_cons.1 (List.map_cons .. ▸ h.ordered)).2
      known := fun w hw => ?_
      kept := fun n s hs hev hs' => ?_
      times := fun n s hs => ?_
      sum := h.sum
      once := h.once
      parts := fun i b n part hb => ?_
      oldest := fun n s e hs he => ?_
      crowded := fun n s e hs he => ?_ }
  · obtain ⟨s, hs, hknown⟩ := h.known w (List.mem_cons_of_mem _ hw)
    exact ⟨s, hothers (h.younger_than_head w hw).ne' hs, hknown⟩
  · obtain ⟨-, s₀, -, -, -, rfl⟩ | ⟨hne, hs⟩ := h.evict_started hs
    · cases hev
    · obtain ⟨w, hw, hn⟩ := h.kept n s hs hev hs'
      exact ⟨w, (List.mem_cons.1 hw).resolve_left fun hwv => hne (hwv ▸ hn.symm), hn⟩
  · obtain ⟨-, s₀, hs₀, -, -, rfl⟩ | ⟨-, hs⟩ := h.evict_started hs
    · refine ⟨(h.times n s₀ hs₀).1, fun e he => ?_⟩
      cases he
      exact le_rfl
    · exact h.times n s hs
  · have hi : i < p.mixed.length := (List.getElem?_eq_some_iff.1 hb).1
    rw [h.parts i b n part hb]
    constructor
    · rintro ⟨s, hs, hheard, hpart⟩
      by_cases hn : n = v.serial
      · obtain ⟨s₀, hs₀, -, hnone, -⟩ := h.known v List.mem_cons_self
        cases hs.symm.trans (hn ▸ hs₀)
        exact ⟨_, getElem?_modify_eq_some.2 ⟨s, hs, (if_pos hn.symm).symm⟩,
          (heard_evicted hnone hi).2 hheard, hpart⟩
      · exact ⟨s, hothers hn hs, hheard, hpart⟩
    · rintro ⟨s, hs, hheard, hpart⟩
      obtain ⟨-, s₀, hs₀, hnone, -, rfl⟩ | ⟨-, hs⟩ := h.evict_started hs
      · exact ⟨s₀, hs₀, (heard_evicted hnone hi).1 hheard, hpart⟩
      · exact ⟨s, hs, hheard, hpart⟩
  · obtain ⟨rfl, s₀, -, -, hlive, rfl⟩ | ⟨-, hs⟩ := h.evict_started hs
    · cases he
      refine ⟨hlive, fun m hm t ht => ?_⟩
      obtain ⟨rfl, -⟩ | ⟨-, ht⟩ := h.evict_started ht
      · exact absurd hm (lt_irrefl _)
      · exact h.before_head hm ht
    · refine ⟨(h.oldest n s e hs he).1, fun m hm t ht => ?_⟩
      obtain ⟨-, t₀, ht₀, hnone, -, rfl⟩ | ⟨-, ht⟩ := h.evict_started ht
      · refine .inr (((h.oldest n s e hs he).2 m hm t₀ ht₀).resolve_left ?_)
        rintro ⟨e', he', -⟩
        rw [hnone] at he'
        cases he'
      · exact (h.oldest n s e hs he).2 m hm t ht
  · obtain ⟨rfl, s₀, -, -, -, rfl⟩ | ⟨-, hs⟩ := h.evict_started hs
    · cases he
      refine ⟨vs.map (·.serial), (List.length_map _).trans hvs,
        (List.pairwise_cons.1 (List.map_cons .. ▸ h.ordered)).2, fun m hm => ?_⟩
      obtain ⟨hlt, t, ht, hblock, hev, hlive⟩ := h.behind_head hm
      refine ⟨hlt, t, hothers hlt.ne' ht, hblock, hlive, fun e' he' => ?_⟩
      rw [hev] at he'
      cases he'
    · obtain ⟨younger, hlen, hpw, hmem⟩ := h.crowded n s e hs he
      refine ⟨younger, hlen, hpw, fun m hm => ?_⟩
      obtain ⟨hnm, t, ht, hblock, hlive, hev⟩ := hmem m hm
      refine ⟨hnm, _, getElem?_modify_eq_some.2 ⟨t, ht, rfl⟩, ?_⟩
      split
      · refine ⟨hblock, hlive, fun e' he' => ?_⟩
        cases he'
        exact (h.times n s hs).2 e he
      · exact ⟨hblock, hlive, hev⟩

def mixBlock (p : VoicePool α) (active : List (Voice α)) (dst : List α) : VoicePool α :=
  let parts := active.map fun v => (v.serial, v.slice dst.length)
  { p with
    mixed := p.mixed ++ [⟨dst, parts.foldl (fun d part => addPart d part.2) dst, parts⟩] }

theorem mixedSince_mixBlock (dst : List α) (s : Started α) {i : ℕ} (hi : i ≤ p.mixed.length) :
    (mixBlock p active dst).mixedSince s i = p.mixedSince s i := by
  unfold mixedSince mixBlock
  rw [List.take_append_of_le_length hi]

theorem heard_mixBlock (dst : List α) (s : Started α) {i : ℕ} (hi : i ≤ p.mixed.length) :
    (mixBlock p active dst).Heard s i ↔ p.Heard s i := by
  unfold Heard
  rw [mixedSince_mixBlock dst s hi]

theorem mixedSince_mixBlock_end (dst : List α) {s : Started α} (hs : s.block ≤ p.mixed.length) :
    (mixBlock p active dst).mixedSince s (mixBlock p active dst).mixed.length =
      p.mixedSince s p.mixed.length + dst.length := by
  have hlen : (mixBlock p active dst).mixed.length = p.mixed.length + 1 := by simp [mixBlock]
  rw [hlen, mixedSince_succ (getElem?_snoc.2 (.inr ⟨rfl, rfl⟩)) hs,
    mixedSince_mixBlock dst s le_rfl]

omit [Add α] in
theorem after_eq_some {v w : Voice α} {len : ℕ} (h : v.after len = some w) :
    w = { v with pos := v.pos + len } ∧ v.pos + len < v.samples.length := by
  unfold Voice.after at h
  split at h
  · next hlt => exact ⟨(Option.some.inj h).symm, hlt⟩
  · cases h

theorem mix (h : p.Tracks active) (dst : List α) :
    (mixBlock p active dst).Tracks (active.filterMap (·.after dst.length)) where
  ordered := by
    rw [List.pairwise_map, List.pairwise_filterMap]
    refine (List.pairwise_map.1 h.ordered).imp fun hlt w hw w' hw' => ?_
    obtain ⟨rfl, -⟩ := after_eq_some hw
    obtain ⟨rfl, -⟩ := after_eq_some hw'
    exact hlt
  known w hw := by
    obtain ⟨v, hv, hw⟩ := List.mem_filterMap.1 hw
    obtain ⟨rfl, hlt⟩ := after_eq_some hw
    obtain ⟨s, hs, hsamples, hnone, hpos, -⟩ := h.known v hv
    refine ⟨s, hs, hsamples, hnone, ?_, hlt⟩
    rw [mixedSince_mixBlock_end dst (h.times _ s hs).1, ← hpos]
  kept n s hs hev hlt := by
    rw [mixedSince_mixBlock_end dst (h.times n s hs).1] at hlt
    obtain ⟨v, hv, rfl⟩ := h.kept n s hs hev (Nat.lt_of_le_of_lt (Nat.le_add_right ..) hlt)
    obtain ⟨s', hs', hsamples, -, hpos, -⟩ := h.known v hv
    obtain rfl := Option.some.inj (hs'.symm.trans hs)
    have hafter : v.after dst.length = some { v with pos := v.pos + dst.length } :=
      if_pos (by rw [← hsamples, hpos]; exact hlt)
    exact ⟨_, List.mem_filterMap.2 ⟨v, hv, hafter⟩, rfl⟩
  times n s hs := by
    have hlen : (mixBlock p active dst).mixed.length = p.mixed.length + 1 := by simp [mixBlock]
    rw [hlen]
    exact ⟨(h.times n s hs).1.trans (Nat.le_succ _), fun e he =>
      ((h.times n s hs).2 e he).trans (Nat.le_succ _)⟩
  sum b hb := by
    obtain hb | hb := List.mem_append.1 hb
    · exact h.sum b hb
    · obtain rfl := List.mem_singleton.1 hb
      rfl
  once b hb := by
    obtain hb | hb := List.mem_append.1 hb
    · exact h.once b hb
    · obtain rfl := List.mem_singleton.1 hb
      show ((active.map _).map _).Pairwise _
      rw [List.map_map]
      exact h.ordered
  parts i b n part hb := by
    obtain hb | ⟨rfl, rfl⟩ := getElem?_snoc.1 hb
    · have hi := (List.getElem?_eq_some_iff.1 hb).1.le
      rw [h.parts i b n part hb]
      refine exists_congr fun s => ?_
      rw [heard_mixBlock dst s hi, mixedSince_mixBlock dst s hi]
      rfl
    · constructor
      · intro hpart
        obtain ⟨v, hv, hpair⟩ := List.mem_map.1 hpart
        obtain ⟨rfl, rfl⟩ := Prod.mk.inj hpair
        obtain ⟨s, hs, hsamples, hnone, hpos, hlt⟩ := h.known v hv
        refine ⟨s, hs, (heard_mixBlock dst s le_rfl).2 ⟨(h.times _ s hs).1, fun e he => ?_, ?_⟩, ?_⟩
        · rw [hnone] at he
          cases he
        · rw [← hpos, hsamples]
          exact hlt
        · rw [mixedSince_mixBlock dst s le_rfl, ← hpos, hsamples]
          rfl
      · rintro ⟨s, hs, hheard, rfl⟩
        obtain ⟨-, hev, hlt⟩ := (heard_mixBlock dst s le_rfl).1 hheard
        obtain ⟨v, hv, rfl⟩ := h.kept n s hs (h.evicted_eq_none hs hev) hlt
        obtain ⟨s', hs', hsamples, -, hpos, -⟩ := h.known v hv
        obtain rfl := Option.some.inj (hs'.symm.trans hs)
        rw [mixedSince_mixBlock dst s' le_rfl, ← hpos, hsamples]
        exact List.mem_map.2 ⟨v, hv, rfl⟩
  oldest n s e hs he := by
    have hle := (h.times n s hs).2 e he
    rw [mixedSince_mixBlock dst s hle]
    refine ⟨(h.oldest n s e hs he).1, fun m hm t ht => ?_⟩
    rw [mixedSince_mixBlock dst t hle]
    exact (h.oldest n s e hs he).2 m hm t ht
  crowded n s e hs he := by
    have hle := (h.times n s hs).2 e he
    obtain ⟨younger, hlen, hpw, hmem⟩ := h.crowded n s e hs he
    refine ⟨younger, hlen, hpw, fun m hm => ?_⟩
    obtain ⟨hnm, t, ht, hblock, hlive, hev⟩ := hmem m hm
    exact ⟨hnm, t, ht, hblock, (mixedSince_mixBlock dst t hle).trans_lt hlive, hev⟩

end VoicePool.Tracks

/-! ## The calls -/

namespace VoicePool

variable [Add α] {p : VoicePool α} {samples : List α}

/-- What every run of calls keeps. -/
structure Inv (p : VoicePool α) : Prop where
  count_le : p.count ≤ maxVoices
  tracks : p.Tracks p.active

theorem inv_new : (newVoicePool : VoicePool α).Inv where
  count_le := Nat.zero_le _
  tracks :=
    { ordered := .nil
      known := fun v hv => by cases hv
      kept := fun n s hs => by cases hs
      times := fun n s hs => by cases hs
      sum := fun b hb => by cases hb
      once := fun b hb => by cases hb
      parts := fun i b n part hb => by cases hb
      oldest := fun n s e hs => by cases hs
      crowded := fun n s e hs => by cases hs }

theorem Inv.addVoice (h : p.Inv) (hsamples : 0 < samples.length) : (p.addVoice samples).Inv := by
  have hpush := h.tracks.push hsamples
  obtain hroom | hfull := Nat.lt_or_eq_of_le h.count_le
  · have hcount : (p.addVoice samples).count = p.count + 1 := by
      unfold VoicePool.addVoice
      rw [if_pos hroom]
    refine ⟨by omega, ?_⟩
    rw [active_addVoice_room hroom]
    unfold VoicePool.addVoice
    rw [if_pos hroom]
    exact hpush.congr rfl rfl
  · have hnot : ¬ p.count < maxVoices := by omega
    have hcount : (p.addVoice samples).count = p.count := by
      unfold VoicePool.addVoice
      rw [if_neg hnot]
    refine ⟨by omega, ?_⟩
    have holdest : (p.voices (slotAt maxVoices p.head 0)).serial < p.started.length :=
      h.tracks.serial_lt (active_eq_cons hfull ▸ List.mem_cons_self)
    have hlen : (p.active.tail ++ [(⟨samples, 0, p.started.length⟩ : Voice α)]).length =
        maxVoices := by
      rw [List.length_append, List.length_tail, VoicePool.active, length_window, hfull]
      rfl
    rw [active_eq_cons hfull, List.cons_append] at hpush
    rw [active_addVoice_full hfull]
    unfold VoicePool.addVoice
    rw [if_neg hnot]
    exact (hpush.evict hlen).congr (modify_append_left _ holdest).symm rfl

theorem Inv.drain (h : p.Inv) (lookup : String → List α) : (p.drain lookup).Inv := by
  unfold VoicePool.drain
  have hstart : ({ p with pending := [] } : VoicePool α).Inv :=
    ⟨h.count_le, h.tracks.congr rfl rfl⟩
  generalize ({ p with pending := [] } : VoicePool α) = q at hstart
  induction p.pending generalizing q with
  | nil => exact hstart
  | cons id pending ih =>
    refine ih _ ?_
    show (if 0 < (lookup id).length then q.addVoice (lookup id) else q).Inv
    split
    · next hlen => exact hstart.addVoice hlen
    · exact hstart

theorem Inv.mixInto (h : p.Inv) (dst : List α) (lookup : String → List α) (free : Bool) :
    (p.mixInto dst lookup free).1.Inv := by
  have hdrain : (if free then p.drain lookup else p).Inv := by
    split
    · exact h.drain lookup
    · exact h
  unfold VoicePool.mixInto
  generalize (if free then p.drain lookup else p) = q at hdrain
  dsimp only
  have hpass := passThrough_mixVoice dst q.active fun v hv =>
    (hdrain.tracks.known v hv).choose_spec.2.2.2.2
  set swept := sweep mixVoice q.voices q.head q.count ⟨dst, []⟩
  have hacc : swept.acc = (passThrough mixVoice ⟨dst, []⟩ q.active).1 :=
    sweep_acc mixVoice hdrain.count_le ⟨dst, []⟩
  have hwin : window swept.slots q.head swept.write =
      (passThrough mixVoice ⟨dst, []⟩ q.active).2 :=
    sweep_window mixVoice hdrain.count_le ⟨dst, []⟩
  have hle : swept.write ≤ q.count := sweep_write_le mixVoice hdrain.count_le ⟨dst, []⟩
  rw [hpass] at hacc hwin
  refine ⟨hle.trans hdrain.count_le, ?_⟩
  show Tracks _ (window _ _ _)
  rw [hwin]
  refine (hdrain.tracks.mix dst).congr rfl ?_
  rw [hacc]
  rfl

theorem Inv.run (h : p.Inv) (c : PoolCall α) : (c.run p).Inv := by
  cases c with
  | play id => exact ⟨h.count_le, h.tracks.congr rfl rfl⟩
  | mixInto dst lookup free => exact h.mixInto dst lookup free

/-! ## What is heard of a voice -/

omit [Add α] in
theorem filter_serial {n : ℕ} {part : List α} : ∀ {parts : List (ℕ × List α)},
    (parts.map (·.1)).Pairwise (· < ·) → (n, part) ∈ parts →
    parts.filter (·.1 = n) = [(n, part)]
  | [], _, hmem => by cases hmem
  | (m, xs) :: parts, hpw, hmem => by
    obtain ⟨hlt, hpw⟩ := List.pairwise_cons.1 hpw
    obtain hhead | htail := List.mem_cons.1 hmem
    · obtain ⟨rfl, rfl⟩ := Prod.mk.inj hhead
      have hrest : parts.filter (·.1 = n) = [] := List.filter_eq_nil_iff.2 fun q hq hn => by
        have := hlt _ (List.mem_map_of_mem hq)
        rw [of_decide_eq_true hn] at this
        exact absurd this (Nat.lt_irrefl _)
      rw [List.filter_cons, if_pos (decide_eq_true rfl), hrest]
    · have hne : m ≠ n := (hlt _ (List.mem_map_of_mem htail)).ne
      rw [List.filter_cons, if_neg fun h => hne (of_decide_eq_true h)]
      exact filter_serial hpw htail

omit [Add α] in
theorem filter_parts {b : Block α} (hb : (b.parts.map (·.1)).Pairwise (· < ·)) {n : ℕ}
    {part : List α} (hmem : (n, part) ∈ b.parts) :
    (b.parts.filter (·.1 = n)).flatMap (·.2) = part := by
  rw [filter_serial hb hmem, List.flatMap_singleton]

omit [Add α] in
theorem filter_parts_none {b : Block α} {n : ℕ} (h : ∀ part, (n, part) ∉ b.parts) :
    (b.parts.filter (·.1 = n)).flatMap (·.2) = [] := by
  rw [List.filter_eq_nil_iff.2 fun part hpart hn => ?_]
  · rfl
  · obtain ⟨m, xs⟩ := part
    obtain rfl : m = n := of_decide_eq_true hn
    exact h xs hpart

/-- After `i` blocks a voice that was not evicted has contributed all that was mixed. -/
theorem Tracks.contributed_take {active : List (Voice α)} (h : p.Tracks active) {n : ℕ}
    {s : Started α} (hs : p.started[n]? = some s) (hev : s.evicted = none) :
    ∀ i ≤ p.mixed.length,
      ((p.mixed.take i).flatMap fun b => (b.parts.filter (·.1 = n)).flatMap (·.2)) =
        s.samples.take (p.mixedSince s i) := by
  intro i
  induction i with
  | zero =>
    intro _
    rw [mixedSince_of_le (Nat.zero_le _), List.take_zero, List.take_zero]
    rfl
  | succ i ih =>
    intro hi
    have hb : p.mixed[i]? = some p.mixed[i] := List.getElem?_eq_getElem hi
    have hparts := fun part => h.parts i p.mixed[i] n part hb
    have honce := h.once _ (List.getElem_mem hi)
    rw [List.take_add_one, hb, Option.toList_some, List.flatMap_append, ih (Nat.le_of_succ_le hi),
      List.flatMap_singleton]
    by_cases hstart : s.block ≤ i
    · rw [mixedSince_succ hb hstart]
      by_cases hlive : p.mixedSince s i < s.samples.length
      · have hheard : p.Heard s i := ⟨hstart, fun e he => (by rw [hev] at he; cases he), hlive⟩
        rw [filter_parts honce ((hparts _).2 ⟨s, hs, hheard, rfl⟩), List.take_add]
      · rw [filter_parts_none fun part hpart => ?_, List.append_nil,
          List.take_of_length_le (by omega), List.take_of_length_le (by omega)]
        obtain ⟨s', hs', hheard, -⟩ := (hparts part).1 hpart
        obtain rfl := Option.some.inj (hs'.symm.trans hs)
        exact hlive hheard.2.2
    · rw [filter_parts_none fun part hpart => ?_, mixedSince_of_le (by omega),
        mixedSince_of_le (by omega)]
      · rfl
      · obtain ⟨s', hs', hheard, -⟩ := (hparts part).1 hpart
        obtain rfl := Option.some.inj (hs'.symm.trans hs)
        exact hstart hheard.1

theorem Inv.whole (h : p.Inv) {calls : List (PoolCall α)}
    (hblocks : p.mixed.map (fun b => (b.dst, b.out)) = Audio.blocks newVoicePool calls)
    (heffects : p.started.map (·.effect) = Audio.effects [] 0 calls) :
    p.Whole calls where
  blocks := hblocks
  effects := heffects
  atMost := (length_window ..).trans_le h.count_le
  active n := by
    constructor
    · intro hn
      obtain ⟨v, hv, rfl⟩ := List.mem_map.1 hn
      obtain ⟨s, hs, hsamples, hnone, hpos, hlt⟩ := h.tracks.known v hv
      refine ⟨s, hs, (h.tracks.times _ s hs).1, fun e he => ?_, ?_⟩
      · rw [hnone] at he
        cases he
      · rw [← hpos, hsamples]
        exact hlt
    · rintro ⟨s, hs, -, hev, hlt⟩
      obtain ⟨v, hv, rfl⟩ := h.tracks.kept n s hs (h.tracks.evicted_eq_none hs hev) hlt
      exact List.mem_map_of_mem hv
  ordered := h.tracks.ordered
  sum := h.tracks.sum
  once := h.tracks.once
  parts := h.tracks.parts
  whole n s hs hev := by
    have := h.tracks.contributed_take hs hev p.mixed.length le_rfl
    rwa [List.take_length] at this
  oldest := h.tracks.oldest
  crowded := h.tracks.crowded

/-! ## What the calls start and mix -/

section

omit [Add α]

theorem addVoice_logs (p : VoicePool α) (samples : List α) :
    (p.addVoice samples).mixed = p.mixed ∧ (p.addVoice samples).pending = p.pending ∧
      (p.addVoice samples).started.map (·.effect) =
        p.started.map (·.effect) ++ [(samples, p.mixed.length)] := by
  unfold addVoice
  dsimp only
  split
  · exact ⟨rfl, rfl, List.map_append⟩
  · refine ⟨rfl, rfl, ?_⟩
    rw [List.map_append]
    refine congrArg (· ++ [(samples, p.mixed.length)]) (map_modify ?_ p.started _)
    exact fun _ => rfl

/-- What is queued is started, as far as it is found. -/
theorem drain_logs (p : VoicePool α) (lookup : String → List α) :
    (p.drain lookup).mixed = p.mixed ∧ (p.drain lookup).pending = [] ∧
      (p.drain lookup).started.map (·.effect) = p.started.map (·.effect) ++
        ((p.pending.map lookup).filter (0 < ·.length)).map (·, p.mixed.length) := by
  suffices ∀ (ids : List String) (q : VoicePool α),
      let q' := ids.foldl
        (fun p id => if 0 < (lookup id).length then p.addVoice (lookup id) else p) q
      q'.mixed = q.mixed ∧ q'.pending = q.pending ∧
        q'.started.map (·.effect) = q.started.map (·.effect) ++
          ((ids.map lookup).filter (0 < ·.length)).map (·, q.mixed.length) from
    this p.pending { p with pending := [] }
  intro ids
  induction ids with
  | nil => exact fun q => ⟨rfl, rfl, (List.append_nil _).symm⟩
  | cons id ids ih =>
    intro q
    by_cases hlen : 0 < (lookup id).length
    · obtain ⟨hmixed, hpending, hstarted⟩ := ih (q.addVoice (lookup id))
      obtain ⟨hmixed', hpending', hstarted'⟩ := addVoice_logs q (lookup id)
      rw [hmixed'] at hmixed hstarted
      rw [hstarted'] at hstarted
      simp only [List.foldl_cons, if_pos hlen, List.map_cons]
      refine ⟨hmixed, hpending.trans hpending', hstarted.trans ?_⟩
      rw [List.filter_cons_of_pos (by simpa using hlen), List.map_cons, List.append_assoc]
      rfl
    · simp only [List.foldl_cons, if_neg hlen, List.map_cons]
      rw [List.filter_cons_of_neg (by simpa using hlen)]
      exact ih q

theorem play_pending {p : VoicePool α} {ids : List String}
    (h : p.pending = ids.drop (ids.length - maxPendingEffects)) (id : String) :
    (p.play id).pending = (ids ++ [id]).drop ((ids ++ [id]).length - maxPendingEffects) := by
  unfold play
  dsimp only
  rw [h, List.length_drop, List.length_append, List.length_singleton]
  have hmax : maxPendingEffects = 32 := rfl
  split
  · rw [List.tail_drop, List.drop_append_of_le_length (by omega)]
    congr 2
    omega
  · have hshort : ids.length < maxPendingEffects := by omega
    rw [show ids.length - maxPendingEffects = 0 by omega,
      show ids.length + 1 - maxPendingEffects = 0 by omega]
    rfl

end

/-- A call of `mixInto` is a block, after what was found of the queue. -/
theorem mixInto_logs (p : VoicePool α) (dst : List α) (lookup : String → List α) (free : Bool) :
    ((p.mixInto dst lookup free).1.mixed.map fun b => (b.dst, b.out)) =
        (p.mixed.map fun b => (b.dst, b.out)) ++ [(dst, (p.mixInto dst lookup free).2)] ∧
      (p.mixInto dst lookup free).1.mixed.length = p.mixed.length + 1 ∧
      (p.mixInto dst lookup free).1.started = (if free then p.drain lookup else p).started ∧
      (p.mixInto dst lookup free).1.pending = (if free then p.drain lookup else p).pending := by
  have hmixed : (if free then p.drain lookup else p).mixed = p.mixed := by
    split
    · exact (drain_logs p lookup).1
    · rfl
  unfold mixInto
  dsimp only
  rw [hmixed, List.map_append, List.length_append]
  exact ⟨rfl, rfl, rfl, rfl⟩

theorem run_logs (calls : List (PoolCall α)) : ∀ (p : VoicePool α) (ids : List String),
    p.pending = ids.drop (ids.length - maxPendingEffects) →
    let q := calls.foldl PoolCall.run p
    (q.mixed.map fun b => (b.dst, b.out)) =
        (p.mixed.map fun b => (b.dst, b.out)) ++ blocks p calls ∧
      q.started.map (·.effect) = p.started.map (·.effect) ++ effects ids p.mixed.length calls := by
  induction calls with
  | nil => exact fun p ids _ => ⟨(List.append_nil _).symm, (List.append_nil _).symm⟩
  | cons c calls ih =>
    intro p ids hids
    cases c with
    | play id => exact ih (p.play id) (ids ++ [id]) (play_pending hids id)
    | mixInto dst lookup free =>
      obtain ⟨hmixed, hlen, hstarted, hpending⟩ := mixInto_logs p dst lookup free
      cases free with
      | true =>
        obtain ⟨-, hempty, hdrained⟩ := drain_logs p lookup
        obtain ⟨hblocks, heffects⟩ := ih (p.mixInto dst lookup true).1 [] (hpending.trans hempty)
        refine ⟨hblocks.trans ?_, heffects.trans ?_⟩
        · rw [hmixed, List.append_assoc]
          rfl
        · rw [hstarted, hlen, if_pos rfl, hdrained, List.append_assoc, hids]
          rfl
      | false =>
        obtain ⟨hblocks, heffects⟩ := ih (p.mixInto dst lookup false).1 ids (hpending.trans hids)
        refine ⟨hblocks.trans ?_, heffects.trans ?_⟩
        · rw [hmixed, List.append_assoc]
          rfl
        · rw [hstarted, hlen]
          rfl

end VoicePool

/-- **Voices.** After every sequence of calls, with any samples and any blocks. -/
theorem voices_whole [Add α] (calls : List (PoolCall α)) :
    (calls.foldl PoolCall.run newVoicePool).Whole calls := by
  have hinv : ∀ (calls : List (PoolCall α)) (p : VoicePool α), p.Inv →
      (calls.foldl PoolCall.run p).Inv := fun calls => by
    induction calls with
    | nil => exact fun p h => h
    | cons c calls ih => exact fun p h => ih _ (h.run c)
  obtain ⟨hblocks, heffects⟩ := VoicePool.run_logs calls newVoicePool [] rfl
  exact (hinv calls newVoicePool VoicePool.inv_new).whole hblocks heffects

def upDown (id : String) : List ℕ :=
  if id = "up" then [1, 2, 3] else if id = "down" then [10, 20] else []

/-- A voice of three samples, one of two and an id that is not found, mixed by pairs. -/
def pairCalls : List (PoolCall ℕ) :=
  [.play "up", .play "none", .play "down", .mixInto [0, 0] upDown true,
    .mixInto [100, 100] upDown false]

def crowdedCalls : List (PoolCall ℕ) :=
  List.replicate (maxVoices + 1) (.play "up") ++ [.mixInto [0] upDown true]

theorem voices_whole_pair :
    ((pairCalls.foldl PoolCall.run newVoicePool).mixed.map (fun b => (b.dst, b.out)) =
        [([0, 0], [11, 22]), ([100, 100], [103, 100])] ∧
      (pairCalls.foldl PoolCall.run newVoicePool).contributed 0 = [1, 2, 3] ∧
      (pairCalls.foldl PoolCall.run newVoicePool).contributed 1 = [10, 20]) ∧
    blocks newVoicePool crowdedCalls = [([0], [8])] ∧
      ∃ younger : List ℕ, younger.length = maxVoices ∧ ∀ m ∈ younger, 0 < m := by
  have hpair := voices_whole pairCalls
  refine ⟨⟨hpair.blocks.trans rfl, ?_, ?_⟩, rfl, ?_⟩
  · exact (hpair.whole 0 ⟨[1, 2, 3], 0, none⟩ rfl rfl).trans rfl
  · exact (hpair.whole 1 ⟨[10, 20], 0, none⟩ rfl rfl).trans rfl
  · obtain ⟨younger, hlen, -, hmem⟩ :=
      (voices_whole crowdedCalls).crowded 0 ⟨[1, 2, 3], 0, some 0⟩ 0 rfl rfl
    exact ⟨younger, hlen, fun m hm => (hmem m hm).1⟩

end VcsClient.Audio
