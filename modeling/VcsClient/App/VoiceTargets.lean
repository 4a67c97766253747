import VcsClient.App.Voice
import VcsClient.Lib.Machine

/-!
# Whose targets a session carries

`VoiceRun` runs the critical sections of `App.Voice` in any order. A release
that leaves nothing held owes the arming of its timer (`toArm`), which is a
section of its own; a timer that fires owes its callback. `clears` logs every
callback that empties a session's targets, next to the last release before it.

`Coherent`: a live session carries the targets of what is held, and the clear
timer empties it only for the last release, once its delay has passed. Two runs
break it: a session installed in the middle of a hold starts without targets,
and a callback that fired before a press finds nothing held after the next
release (`targets_incoherent`). Where sessions and releases keep clear of these
and a press of an arming that is owed, the press stops every timer of an earlier
release (`Latest`), and every run is coherent (`targets_coherent`).
-/

namespace VcsClient.App

open VcsClient.Lib VcsClient.Voice

/-- A callback that emptied the targets. -/
structure Clear where
  at_ : ℤ
  timer : Timer
  last : Release
  deriving DecidableEq

structure VoiceRun where
  v : VoiceState
  /-- Releases that left nothing held and have not armed their timer yet. -/
  toArm : List Release
  last : Release
  clears : List Clear

inductive VoiceOp where
  | tick (d : ℕ)
  | txPress (r : Orders) (actionID : ActionID) (target : Option TXTarget)
  | txRelease (r : Orders) (actionID : ActionID)
  | scheduleTXTargetClear (release : Release) (delayMS : ℕ)
  | fire (id : ℕ)
  | clearTXTargetsIfStillIdle (r : Orders) (id : ℕ)
  | nextVoiceGeneration
  | setVoiceSession (sid : ℕ) (gen : UInt64)
  | teardown (r : Orders)

namespace VoiceRun

def init (now : ℤ) : VoiceRun := ⟨.init now, [], ⟨0, now⟩, []⟩

def step (s : VoiceRun) : VoiceOp → Option VoiceRun
  | .tick d => some { s with v := { s.v with now := s.v.now + d } }
  | .txPress r actionID target => some { s with v := s.v.txPress r actionID target }
  | .txRelease r actionID =>
    let res := s.v.txRelease r actionID
    if res.1 then some { s with v := res.2 }
    else
      let release := ⟨s.last.number + 1, s.v.now⟩
      some { s with v := res.2, toArm := s.toArm ++ [release], last := release }
  | .scheduleTXTargetClear release delayMS =>
    if release ∈ s.toArm then
      some { s with
        v := s.v.scheduleTXTargetClear release delayMS
        toArm := s.toArm.erase release }
    else none
  | .fire id => (s.v.fire id).map fun v => { s with v := v }
  | .clearTXTargetsIfStillIdle r id =>
    match s.v.fired.find? (·.id = id) with
    | none => none
    | some t =>
      let v := { s.v with fired := s.v.fired.erase t }
      some { s with
        v := v.clearTXTargetsIfStillIdle r
        clears :=
          if v.tx.keys.length = 0 ∧ v.sess.isSome then s.clears ++ [⟨v.now, t, s.last⟩]
          else s.clears }
  | .nextVoiceGeneration => some { s with v := s.v.nextVoiceGeneration }
  | .setVoiceSession sid gen => some { s with v := s.v.setVoiceSession sid gen }
  | .teardown r => some { s with v := s.v.teardown r }

end VoiceRun

/-- A live session carries the targets of what is held, and the clear timer
emptied targets only for the last release, once its delay had passed. -/
structure Coherent (s : VoiceRun) : Prop where
  targets : ∀ sess, s.v.sess = some sess → s.v.tx.keys ≠ [] →
    ∃ o of, sess.targets = txTargetsLocked o of s.v.tx
  clears : ∀ c ∈ s.clears, c.timer.release = c.last ∧ c.last.at_ + c.timer.delay ≤ c.at_

/-- A session is installed only while no held action has a target, a press waits
for the arming owed by the release before it, and a release that leaves nothing
held comes while no callback waits for the lock; one that finds nothing held, while
no timer is out at all. -/
def Undisturbed (s : VoiceRun) : VoiceOp → Prop
  | .setVoiceSession _ gen => gen = s.v.gen → ∀ id ∈ s.v.tx.keys, s.v.tx.lookup id = some none
  | .txPress _ _ _ => s.toArm = []
  | .txRelease _ actionID => (s.v.tx.erase actionID).keys = [] →
    s.v.fired = [] ∧ (s.v.tx.keys = [] → s.v.armed = [] ∧ s.toArm = [])
  | _ => True

instance (s : VoiceRun) (op : VoiceOp) : Decidable (Undisturbed s op) := by
  cases op <;> unfold Undisturbed <;> infer_instance

/-- Every timer that is out is of the last release, and none is still armed or
owed while something is held. -/
structure Latest (s : VoiceRun) : Prop where
  held : s.v.tx.keys ≠ [] → s.v.armed = [] ∧ s.toArm = []
  owed : s.toArm = [] ∨ s.toArm = [s.last] ∧ s.v.armed = [] ∧ s.v.fired = []
  armed : ∀ t ∈ s.v.armed,
    t.release = s.last ∧ s.v.clearTimer = some t.id ∧ s.v.fired = []
  fired : ∀ t ∈ s.v.fired, t.release = s.last

namespace Latest

variable {s s' : VoiceRun}

theorem init (now : ℤ) : Latest (.init now) where
  held h := absurd rfl h
  owed := .inl rfl
  armed _ ht := absurd ht List.not_mem_nil
  fired _ ht := absurd ht List.not_mem_nil

/-- A press stops the timer that is armed, so that none is while it holds. -/
theorem txPress (h : Latest s) (r : Orders) (actionID : ActionID) (target : Option TXTarget)
    (hok : s.toArm = []) : Latest { s with v := s.v.txPress r actionID target } := by
  obtain ⟨-, hfired, harmed⟩ := s.v.txPress_rest r actionID target
  rw [s.v.cancel_armed_eq_nil fun t ht => (h.armed t ht).2.1] at harmed
  refine ⟨fun _ => ⟨harmed, hok⟩, .inl hok, fun t ht => ?_, fun t ht => ?_⟩
  · rw [harmed] at ht
    cases ht
  · rw [hfired] at ht
    exact h.fired t ht

/-- A release that leaves nothing held is the new last one, with no timer out. -/
theorem txRelease (h : Latest s) {r : Orders} {actionID : ActionID}
    (hok : Undisturbed s (.txRelease r actionID))
    (hs : s.step (.txRelease r actionID) = some s') : Latest s' := by
  obtain ⟨-, hfired, harmed⟩ := s.v.txRelease_rest r actionID
  have hheld := s.v.txRelease_held r actionID
  rw [s.v.txRelease_tx] at hheld
  simp only [VoiceRun.step] at hs
  split at hs
  · next hstill =>
    cases hs
    rw [hstill, eq_comm, decide_eq_true_iff, Ne, List.length_eq_zero_iff] at hheld
    have hbefore : s.v.tx.keys ≠ [] := by
      intro hc
      refine hheld (List.eq_nil_iff_forall_not_mem.2 fun id hid => ?_)
      have hmem := (AList.mem_erase.1 (AList.mem_keys.2 hid)).2
      rw [AList.mem_keys, hc] at hmem
      cases hmem
    obtain ⟨hnone, htoArm⟩ := h.held hbefore
    exact ⟨fun _ => ⟨harmed.trans hnone, htoArm⟩, .inl htoArm,
      fun t ht => absurd (harmed ▸ ht) (by simp [hnone]), fun t ht => h.fired t (hfired ▸ ht)⟩
  · next hleft =>
    cases hs
    rw [Bool.not_eq_true] at hleft
    rw [hleft, eq_comm, decide_eq_false_iff_not, not_not, List.length_eq_zero_iff] at hheld
    obtain ⟨hwaits, hstray⟩ := hok hheld
    obtain ⟨hnone, htoArm⟩ : s.v.armed = [] ∧ s.toArm = [] := by
      by_cases hb : s.v.tx.keys = []
      · exact hstray hb
      · exact h.held hb
    refine ⟨fun hc => absurd ?_ hc, .inr ⟨by simp [htoArm], harmed.trans hnone,
      hfired.trans hwaits⟩, fun t ht => absurd (harmed ▸ ht) (by simp [hnone]),
      fun t ht => absurd (hfired ▸ ht) (by simp [hwaits])⟩
    simpa only [s.v.txRelease_tx] using hheld

theorem schedule (h : Latest s) {release : Release} (hrel : release ∈ s.toArm) (delayMS : ℕ) :
    Latest { s with
      v := s.v.scheduleTXTargetClear release delayMS
      toArm := s.toArm.erase release } := by
  have howed : s.toArm ≠ [] := List.ne_nil_of_mem hrel
  obtain ⟨htoArm, hnone, hwaits⟩ := h.owed.resolve_left howed
  have hlast : release = s.last := List.mem_singleton.1 (htoArm ▸ hrel)
  have hcancel := s.v.cancel_armed_eq_nil fun t ht => (h.armed t ht).2.1
  have hdone : s.toArm.erase release = [] := by simp [htoArm, hlast]
  refine ⟨fun hheld => ?_, .inl hdone, fun t ht => ?_, fun t ht => ?_⟩
  · simp only [VoiceState.scheduleTXTargetClear, VoiceState.cancel_tx] at hheld
    exact absurd (h.held hheld).2 howed
  · simp only [VoiceState.scheduleTXTargetClear, hcancel, List.nil_append,
      List.mem_singleton] at ht
    subst ht
    exact ⟨hlast, rfl, by simpa [VoiceState.scheduleTXTargetClear] using hwaits⟩
  · simp [VoiceState.scheduleTXTargetClear, hwaits] at ht

theorem fire (h : Latest s) {id : ℕ} {v : VoiceState} (hv : s.v.fire id = some v) :
    Latest { s with v := v } := by
  unfold VoiceState.fire at hv
  cases hf : s.v.armed.find? (·.id = id) with
  | none => simp [hf] at hv
  | some t =>
    simp only [hf] at hv
    split at hv
    · cases hv
    · cases hv
      have hmem := List.mem_of_find?_eq_some hf
      have hid : t.id = id := by simpa using List.find?_some hf
      obtain ⟨hlast, htimer, hwaits⟩ := h.armed t hmem
      have hnone : s.v.armed.filter (·.id ≠ id) = [] := by
        refine List.filter_eq_nil_iff.2 fun t' ht' => ?_
        have hsame : t.id = t'.id := Option.some.inj (htimer.symm.trans (h.armed t' ht').2.1)
        simp [← hsame, hid]
      have hnotOwed : s.toArm = [] :=
        h.owed.resolve_right fun ho => absurd (ho.2.1 ▸ hmem) List.not_mem_nil
      refine ⟨fun hheld => ⟨hnone, (h.held hheld).2⟩, .inl hnotOwed, fun t' ht' => ?_,
        fun t' ht' => ?_⟩
      · rw [hnone] at ht'
        cases ht'
      · rcases List.mem_append.1 ht' with ht' | ht'
        · exact h.fired t' ht'
        · rw [List.mem_singleton.1 ht']
          exact hlast

theorem clear (h : Latest s) {r : Orders} {id : ℕ}
    (hs : s.step (.clearTXTargetsIfStillIdle r id) = some s') : Latest s' := by
  simp only [VoiceRun.step] at hs
  cases hf : s.v.fired.find? (·.id = id) with
  | none => simp [hf] at hs
  | some t =>
    simp only [hf, Option.some.injEq] at hs
    subst hs
    have hmem := List.mem_of_find?_eq_some hf
    obtain ⟨htx, -, harmed, hfired⟩ :=
      VoiceState.clear_rest r { s.v with fired := s.v.fired.erase t }
    have hnone : s.v.armed = [] := List.eq_nil_iff_forall_not_mem.2 fun t' ht' =>
      absurd ((h.armed t' ht').2.2 ▸ hmem) List.not_mem_nil
    have hnotOwed : s.toArm = [] :=
      h.owed.resolve_right fun ho => absurd (ho.2.2 ▸ hmem) List.not_mem_nil
    refine ⟨fun _ => ⟨harmed.trans hnone, hnotOwed⟩, .inl hnotOwed, fun t' ht' => ?_,
      fun t' ht' => ?_⟩
    · rw [harmed, hnone] at ht'
      cases ht'
    · rw [hfired] at ht'
      exact h.fired t' (List.mem_of_mem_erase ht')

theorem step {op : VoiceOp} (h : Latest s) (hok : Undisturbed s op) (hs : s.step op = some s') :
    Latest s' := by
  cases op with
  | tick d => cases hs; exact ⟨h.held, h.owed, h.armed, h.fired⟩
  | txPress r actionID target => cases hs; exact h.txPress r actionID target hok
  | txRelease r actionID => exact h.txRelease hok hs
  | scheduleTXTargetClear release delayMS =>
    simp only [VoiceRun.step] at hs
    split at hs
    · next hrel => cases hs; exact h.schedule hrel delayMS
    · cases hs
  | fire id =>
    obtain ⟨v, hv, rfl⟩ := Option.map_eq_some_iff.1 hs
    exact h.fire hv
  | clearTXTargetsIfStillIdle r id => exact h.clear hs
  | nextVoiceGeneration => cases hs; exact ⟨h.held, h.owed, h.armed, h.fired⟩
  | setVoiceSession sid gen =>
    cases hs
    unfold VoiceState.setVoiceSession
    split
    · exact h
    · exact ⟨h.held, h.owed, h.armed, h.fired⟩
  | teardown r => cases hs; exact ⟨h.held, h.owed, h.armed, h.fired⟩

end Latest

/-- What a run keeps: coherence, and timers armed for their release and fired
in time. -/
structure Timed (s : VoiceRun) : Prop where
  coherent : Coherent s
  armed : ∀ t ∈ s.v.armed, t.release.at_ + t.delay ≤ t.deadline
  fired : ∀ t ∈ s.v.fired, t.release.at_ + t.delay ≤ t.deadline ∧ t.deadline ≤ s.v.now
  toArm : ∀ r ∈ s.toArm, r.at_ ≤ s.v.now

namespace Timed

variable {s s' : VoiceRun}

theorem init (now : ℤ) : Timed (.init now) where
  coherent := ⟨fun sess h => by simp [VoiceRun.init, VoiceState.init] at h,
    fun c hc => absurd hc List.not_mem_nil⟩
  armed t ht := absurd ht List.not_mem_nil
  fired t ht := absurd ht List.not_mem_nil
  toArm r hr := absurd hr List.not_mem_nil

theorem tick {d : ℕ} (h : Timed s) : Timed { s with v := { s.v with now := s.v.now + d } } where
  coherent := ⟨h.coherent.targets, h.coherent.clears⟩
  armed := h.armed
  fired t ht := ⟨(h.fired t ht).1, by have := (h.fired t ht).2; simp only; omega⟩
  toArm r hr := by have := h.toArm r hr; simp only; omega

theorem txPress (h : Timed s) (r : Orders) (actionID : ActionID) (target : Option TXTarget) :
    Timed { s with v := s.v.txPress r actionID target } := by
  obtain ⟨hnow, hfired, harmed⟩ := s.v.txPress_rest r actionID target
  refine ⟨⟨fun sess hs _ => ⟨_, _, s.v.txPress_sess r actionID target sess hs⟩, h.coherent.clears⟩,
    fun t ht => h.armed t (s.v.cancel_armed t (harmed ▸ ht)), fun t ht => ?_, fun r hr => ?_⟩
  · simp only [hfired, hnow] at ht ⊢
    exact h.fired t ht
  · simp only [hnow]
    exact h.toArm r hr

theorem txRelease (h : Timed s) (r : Orders) (actionID : ActionID)
    (hs : s.step (.txRelease r actionID) = some s') : Timed s' := by
  obtain ⟨hnow, hfired, harmed⟩ := s.v.txRelease_rest r actionID
  have hheld := s.v.txRelease_held r actionID
  have htimers : ∀ t ∈ (s.v.txRelease r actionID).2.fired,
      t.release.at_ + t.delay ≤ t.deadline ∧ t.deadline ≤ (s.v.txRelease r actionID).2.now := by
    rw [hfired, hnow]
    exact h.fired
  have htoArm : ∀ rel ∈ s.toArm, rel.at_ ≤ (s.v.txRelease r actionID).2.now := by
    rw [hnow]
    exact h.toArm
  have htargets : ∀ sess, (s.v.txRelease r actionID).2.sess = some sess →
      (s.v.txRelease r actionID).2.tx.keys ≠ [] →
      ∃ o of, sess.targets = txTargetsLocked o of (s.v.txRelease r actionID).2.tx := by
    intro sess hsess hne
    exact ⟨_, _, s.v.txRelease_sess r actionID sess hsess fun hc =>
      hne (List.length_eq_zero_iff.1 hc)⟩
  simp only [VoiceRun.step] at hs
  split at hs
  · cases hs
    exact ⟨⟨htargets, h.coherent.clears⟩, harmed ▸ h.armed, htimers, htoArm⟩
  · cases hs
    refine ⟨⟨htargets, h.coherent.clears⟩, harmed ▸ h.armed, htimers, fun rel hrel => ?_⟩
    rcases List.mem_append.1 hrel with hrel | hrel
    · exact htoArm rel hrel
    · rw [List.mem_singleton.1 hrel]
      simp only [hnow, le_refl]

/-- The timer armed for a release is due its delay after it, or later. -/
theorem schedule (h : Timed s) {release : Release} (hrel : release ∈ s.toArm) (delayMS : ℕ) :
    Timed { s with
      v := s.v.scheduleTXTargetClear release delayMS
      toArm := s.toArm.erase release } := by
  have hat := h.toArm release hrel
  refine ⟨⟨fun sess hsess hne => ?_, h.coherent.clears⟩, fun t ht => ?_, fun t ht => ?_,
    fun rel hr => ?_⟩
  · simp only [VoiceState.scheduleTXTargetClear, VoiceState.cancel_sess, VoiceState.cancel_tx]
      at hsess hne ⊢
    exact h.coherent.targets sess hsess hne
  · simp only [VoiceState.scheduleTXTargetClear, List.mem_append, List.mem_singleton] at ht
    rcases ht with ht | rfl
    · exact h.armed t (s.v.cancel_armed t ht)
    · simp only [VoiceState.cancel_now]
      omega
  · simp only [VoiceState.scheduleTXTargetClear, VoiceState.cancel_fired, VoiceState.cancel_now]
      at ht ⊢
    exact h.fired t ht
  · simp only [VoiceState.scheduleTXTargetClear, VoiceState.cancel_now]
    exact h.toArm rel (List.mem_of_mem_erase hr)

theorem fire (h : Timed s) {id : ℕ} {v : VoiceState} (hv : s.v.fire id = some v) :
    Timed { s with v := v } := by
  unfold VoiceState.fire at hv
  cases hf : s.v.armed.find? (·.id = id) with
  | none => simp [hf] at hv
  | some t =>
    simp only [hf] at hv
    split at hv
    · cases hv
    · next hlt =>
      cases hv
      have ht := h.armed t (List.mem_of_find?_eq_some hf)
      refine ⟨⟨h.coherent.targets, h.coherent.clears⟩,
        fun t' ht' => h.armed t' (List.mem_filter.1 ht').1, fun t' ht' => ?_, h.toArm⟩
      rcases List.mem_append.1 ht' with ht' | ht'
      · exact h.fired t' ht'
      · rw [List.mem_singleton.1 ht']
        exact ⟨ht, not_lt.1 hlt⟩

/-- A callback that empties the targets is of the last release and in time. -/
theorem clear (h : Timed s) {r : Orders} {id : ℕ} (hlatest : Latest s)
    (hs : s.step (.clearTXTargetsIfStillIdle r id) = some s') : Timed s' := by
  simp only [VoiceRun.step] at hs
  cases hf : s.v.fired.find? (·.id = id) with
  | none => simp [hf] at hs
  | some t =>
    simp only [hf, Option.some.injEq] at hs
    subst hs
    have hmem := List.mem_of_find?_eq_some hf
    obtain ⟨hdelay, hdue⟩ := h.fired t hmem
    have hclears : ∀ c ∈ (if s.v.tx.keys.length = 0 ∧ s.v.sess.isSome
        then s.clears ++ [⟨s.v.now, t, s.last⟩] else s.clears),
        c.timer.release = c.last ∧ c.last.at_ + c.timer.delay ≤ c.at_ := by
      intro c hc
      split at hc
      · rcases List.mem_append.1 hc with hc | hc
        · exact h.coherent.clears c hc
        · have hlast := hlatest.fired t hmem
          rw [List.mem_singleton.1 hc]
          exact ⟨hlast, by rw [← hlast]; exact hdelay.trans hdue⟩
      · exact h.coherent.clears c hc
    simp only [VoiceState.clearTXTargetsIfStillIdle]
    by_cases hheld : s.v.tx.keys.length = 0
    · rw [if_neg (by simpa using hheld)]
      split
      · next hnone =>
        exact ⟨⟨fun sess hsess => absurd hsess (by simp [hnone]), hclears⟩, h.armed,
          fun t' ht' => h.fired t' (List.mem_of_mem_erase ht'), h.toArm⟩
      · exact ⟨⟨fun _ _ hne => absurd (List.length_eq_zero_iff.1 hheld) hne, hclears⟩, h.armed,
          fun t' ht' => h.fired t' (List.mem_of_mem_erase ht'), h.toArm⟩
    · rw [if_pos hheld]
      exact ⟨⟨h.coherent.targets, hclears⟩, h.armed,
        fun t' ht' => h.fired t' (List.mem_of_mem_erase ht'), h.toArm⟩

theorem setVoiceSession (h : Timed s) {sid : ℕ} {gen : UInt64}
    (hok : Undisturbed s (.setVoiceSession sid gen)) :
    Timed { s with v := s.v.setVoiceSession sid gen } := by
  unfold VoiceState.setVoiceSession
  split
  · exact h
  · next hgen =>
    refine ⟨⟨fun sess hsess _ => ?_, h.coherent.clears⟩, h.armed, h.fired, h.toArm⟩
    cases hsess
    exact ⟨.stored _, .stored _, (txTargetsLocked_eq_nil (hok (not_not.1 hgen))).symm⟩

theorem step {op : VoiceOp} (h : Timed s) (hlatest : Latest s) (hok : Undisturbed s op)
    (hs : s.step op = some s') : Timed s' := by
  cases op with
  | tick d => cases hs; exact h.tick
  | txPress r actionID target => cases hs; exact h.txPress r actionID target
  | txRelease r actionID => exact h.txRelease r actionID hs
  | scheduleTXTargetClear release delayMS =>
    simp only [VoiceRun.step] at hs
    split at hs
    · next hrel => cases hs; exact h.schedule hrel delayMS
    · cases hs
  | fire id =>
    obtain ⟨v, hv, rfl⟩ := Option.map_eq_some_iff.1 hs
    exact h.fire hv
  | clearTXTargetsIfStillIdle r id => exact h.clear hlatest hs
  | nextVoiceGeneration =>
    cases hs
    exact ⟨⟨h.coherent.targets, h.coherent.clears⟩, h.armed, h.fired, h.toArm⟩
  | setVoiceSession sid gen => cases hs; exact h.setVoiceSession hok
  | teardown r =>
    cases hs
    exact ⟨⟨nofun, h.coherent.clears⟩, h.armed, h.fired, h.toArm⟩

end Timed

/-- **Targets are coherent** in every undisturbed run. -/
theorem targets_coherent (now : ℤ) (ops : List VoiceOp) (s : VoiceRun)
    (hok : Meets VoiceRun.step Undisturbed (.init now) ops)
    (hrun : exec VoiceRun.step (.init now) ops = some s) : Coherent s :=
  have hstep : ∀ s op s', Latest s ∧ Timed s → Undisturbed s op → s.step op = some s' →
      Latest s' ∧ Timed s' :=
    fun _ _ _ h hok hs => ⟨h.1.step hok hs, h.2.step h.1 hok hs⟩
  (exec_invariant hstep ⟨Latest.init now, Timed.init now⟩ hok hrun).2.coherent

section Examples

def storedOrders : Orders := ⟨.stored _, .stored _, .stored _⟩

def radio : Option TXTarget := some ⟨30000, false⟩

/-- A session is dialled and installed, and a key tapped twice: the second press
stops the timer of the first tap. -/
def tapRun : List VoiceOp :=
  [.nextVoiceGeneration, .setVoiceSession 1 1, .txPress storedOrders "global.ptt" radio,
    .txRelease storedOrders "global.ptt", .scheduleTXTargetClear ⟨1, 0⟩ 0, .tick 5000000,
    .txPress storedOrders "global.ptt" radio, .txRelease storedOrders "global.ptt",
    .scheduleTXTargetClear ⟨2, 5000000⟩ 0, .tick 20000000, .fire 1,
    .clearTXTargetsIfStillIdle storedOrders 1]

theorem targets_coherent_tap :
    ∃ s, exec VoiceRun.step (.init 0) tapRun = some s ∧
      s.clears.map (·.timer.release.number) = [2] ∧ Coherent s :=
  ⟨_, rfl, rfl, targets_coherent 0 tapRun _ (by decide) rfl⟩

/-- The session is replaced in the middle of a hold. -/
def redirectRun : List VoiceOp :=
  [.nextVoiceGeneration, .setVoiceSession 1 1, .txPress storedOrders "global.ptt" radio,
    .nextVoiceGeneration, .setVoiceSession 2 2]

/-- A second tap between the firing of the first one's timer and its callback. -/
def staleRun : List VoiceOp :=
  [.nextVoiceGeneration, .setVoiceSession 1 1, .txPress storedOrders "global.ptt" radio,
    .txRelease storedOrders "global.ptt", .scheduleTXTargetClear ⟨1, 0⟩ 0, .tick 20000000, .fire 0,
    .txPress storedOrders "global.ptt" radio, .txRelease storedOrders "global.ptt",
    .clearTXTargetsIfStillIdle storedOrders 0]

/-- **Two runs without coherence.** The replacement session has no targets while
the key is held, and the stale callback cuts the tail of the second tap. -/
theorem targets_incoherent :
    (∃ s, exec VoiceRun.step (.init 0) redirectRun = some s ∧
      s.v.sess = some ⟨2, [], 0⟩ ∧ s.v.tx.keys = ["global.ptt"] ∧ ¬ Coherent s) ∧
    (∃ s, exec VoiceRun.step (.init 0) staleRun = some s ∧
      s.v.sess = some ⟨1, [], 2⟩ ∧ s.last = ⟨2, 20000000⟩ ∧ ¬ Coherent s) := by
  refine ⟨⟨_, rfl, by decide, by decide, fun h => ?_⟩, ⟨_, rfl, by decide, by decide, fun h => ?_⟩⟩
  · obtain ⟨o, of, ht⟩ := h.targets ⟨2, [], 0⟩ rfl (by decide)
    have hfreq : (30000 : KHz) ∈ ([] : List TXTarget).map (·.freq) := by
      rw [show ([] : List TXTarget) = _ from ht]
      exact mem_freqs_txTargetsLocked.2 ⟨"global.ptt", ⟨30000, false⟩, rfl, rfl⟩
    cases hfreq
  · exact absurd h.clears (by decide)

end Examples

end VcsClient.App
