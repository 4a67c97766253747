import VcsClient.Session.Attempts

/-!
# Cancellation wins

`CancelConnect` takes a number and cancels the attempt it found under way; an
attempt that was queued before takes the number from its ticket. A
`CancelConnect` that returns before the attempt has looked at its context for
the last time makes it give up, and no other does.
-/

namespace VcsClient.Session

open VcsClient.Lib

/-- The attempt is past its last look at its context. -/
def Pc.blind (pc : Pc) : Bool := decide (pc.stage = some .past)

/-- The cancellation a step carries out: its number. -/
def Pc.cancelsUpTo : Pc → Option ℕ
  | .cancelCall _ seq _ => some seq
  | _ => none

/-- **Cancelled in time.** When a `CancelConnect` is done, no attempt it was
meant for is past its last look at its context and still under way; and no
cancelled attempt fails before its dial for a reason of its own. -/
def System.InTime (s : System) : Label → Prop
  | .call _ => True
  | .run t a => ∀ pc ∈ s.threads.lookup t,
    (∀ seq ∈ pc.cancelsUpTo, ∀ u ∈ s.m.attempts.keys, ∀ x ∈ s.m.attempts.lookup u,
      x.Open → x.ticket < seq → ∀ pc' ∈ s.threads.lookup u, pc'.blind = false) ∧
    (s.m.failsUnasked pc a = true → t ∉ s.m.cancelled)

instance (s : System) : ∀ l, Decidable (s.InTime l)
  | .call _ => .isTrue trivial
  | .run t a =>
    have (seq : ℕ) : Decidable (∀ u ∈ s.m.attempts.keys, ∀ x ∈ s.m.attempts.lookup u,
        x.Open → x.ticket < seq → ∀ pc' ∈ s.threads.lookup u, pc'.blind = false) :=
      List.decidableBAll (fun u : ℕ => ∀ x ∈ s.m.attempts.lookup u,
        x.Open → x.ticket < seq → ∀ pc' ∈ s.threads.lookup u, pc'.blind = false) s.m.attempts.keys
    inferInstanceAs (Decidable (∀ pc ∈ s.threads.lookup t,
      (∀ seq ∈ pc.cancelsUpTo, ∀ u ∈ s.m.attempts.keys, ∀ x ∈ s.m.attempts.lookup u,
        x.Open → x.ticket < seq → ∀ pc' ∈ s.threads.lookup u, pc'.blind = false) ∧
      (s.m.failsUnasked pc a = true → t ∉ s.m.cancelled)))

/-- What the stage of an attempt says of it. -/
def Attempt.At (x : Attempt) (m : Manager) (t : ℕ) : Stage → Prop
  | .queued ticket => x.installed = false ∧ x.ticket = ticket ∧ ticket ≤ m.cancelSeq ∧
    (ticket ≠ m.cancelSeq → x.touched = true) ∧ (x.covered = true → ticket < m.cancelSeq)
  | .begun => x.installed = false ∧ (x.covered = true → t ∈ m.cancelled)
  | .past => x.installed = false ∧ x.covered = false
  | .gaveUp => x.installed = false ∧ x.touched = true
  | .installed => x.installed = true ∧ x.covered = false

/-- What an attempt that has returned `r` has come to. -/
structure Attempt.Settled (x : Attempt) (r : Option ConnectError) : Prop where
  covered : x.covered = true → x.installed = false ∧ r = some .cancelled
  touched : r = some .cancelled → x.touched = true
  installed : x.installed = true → r = none

namespace Attempt

variable {x : Attempt} {m m' : Manager} {t : ℕ} {st : Stage}

theorem At.mono (h : x.At m t st) (hseq : m'.cancelSeq = m.cancelSeq)
    (hc : ∀ u ∈ m.cancelled, u ∈ m'.cancelled) : x.At m' t st := by
  cases st with
  | queued ticket =>
    unfold Attempt.At at h ⊢
    rw [hseq]
    exact h
  | begun => exact ⟨h.1, fun hcov => hc t (h.2 hcov)⟩
  | past | gaveUp | installed => exact h

/-- The attempt as a `CancelConnect` that takes its number leaves it. -/
def touch (x : Attempt) : Attempt := if x.Open then { x with touched := true } else x

/-- The attempt as the `CancelConnect` with number `seq` leaves it. -/
def cover (seq : ℕ) (x : Attempt) : Attempt :=
  if x.Open ∧ x.ticket < seq then { x with covered := true } else x

theorem touch_of_result {r : Option ConnectError} (h : x.result = some r) : x.touch = x :=
  if_neg fun ho => by
    rw [ho.2] at h
    cases h

theorem cover_of_result {seq : ℕ} {r : Option ConnectError} (h : x.result = some r) :
    x.cover seq = x :=
  if_neg fun ho => by
    rw [ho.1.2] at h
    cases h

@[simp] theorem touch_installed : x.touch.installed = x.installed := by unfold touch; split <;> rfl
@[simp] theorem touch_result : x.touch.result = x.result := by unfold touch; split <;> rfl
@[simp] theorem touch_ticket : x.touch.ticket = x.ticket := by unfold touch; split <;> rfl
@[simp] theorem touch_covered : x.touch.covered = x.covered := by unfold touch; split <;> rfl

variable {seq : ℕ}

@[simp] theorem cover_installed : (x.cover seq).installed = x.installed := by
  unfold cover; split <;> rfl
@[simp] theorem cover_result : (x.cover seq).result = x.result := by unfold cover; split <;> rfl
@[simp] theorem cover_ticket : (x.cover seq).ticket = x.ticket := by unfold cover; split <;> rfl
@[simp] theorem cover_touched : (x.cover seq).touched = x.touched := by unfold cover; split <;> rfl

theorem touch_touched (h : x.Open) : x.touch.touched = true := by
  unfold touch
  rw [if_pos h]

theorem open_of_touch (h : x.touch.Open) : x.Open := by
  unfold Attempt.Open at h ⊢
  rwa [touch_installed, touch_result] at h

theorem At.touch (h : x.At m t st) (hr : x.result = none)
    (hseq : m'.cancelSeq = m.cancelSeq + 1) (hc : m'.cancelled = m.cancelled) :
    x.touch.At m' t st := by
  cases st with
  | queued ticket =>
    obtain ⟨hi, hticket, hle, -, hcov⟩ := h
    unfold Attempt.At
    rw [hseq, touch_installed, touch_ticket, touch_covered]
    exact ⟨hi, hticket, by omega, fun _ => touch_touched ⟨hi, hr⟩, fun hcv => by
      have := hcov hcv
      omega⟩
  | begun =>
    unfold Attempt.At
    rw [hc, touch_installed, touch_covered]
    exact h
  | past | installed =>
    unfold Attempt.At
    rw [touch_installed, touch_covered]
    exact h
  | gaveUp =>
    unfold Attempt.At
    rw [touch_installed]
    exact ⟨h.1, touch_touched ⟨h.1, hr⟩⟩

/-- A cancellation reaches an attempt that is not past its last look. -/
theorem At.cover (h : x.At m t st) (hseq : m'.cancelSeq = m.cancelSeq)
    (hc : ∀ u ∈ m.cancelled, u ∈ m'.cancelled) (hle : seq ≤ m.cancelSeq)
    (hblind : x.Open → x.ticket < seq → st ≠ .past)
    (haim : st = .begun → x.ticket < seq → t ∈ m'.cancelled) : (x.cover seq).At m' t st := by
  have hm := h.mono hseq hc
  by_cases hcov : x.Open ∧ x.ticket < seq
  · have he : x.cover seq = { x with covered := true } := if_pos hcov
    rw [he]
    cases st with
    | queued ticket =>
      obtain ⟨hi, hticket, hlt, htouched, -⟩ := hm
      exact ⟨hi, hticket, hlt, htouched, fun _ => by
        have := hcov.2
        omega⟩
    | begun => exact ⟨hm.1, fun _ => haim rfl hcov.2⟩
    | past => exact absurd rfl (hblind hcov.1 hcov.2)
    | gaveUp => exact hm
    | installed => exact absurd hcov.1.1 (by rw [hm.1]; nofun)
  · have he : x.cover seq = x := if_neg hcov
    rw [he]
    exact hm

/-- An attempt that returns what its stage says has come to that. -/
theorem settled_of_returning {r : Option ConnectError} (h : x.At m t (.returning r)) :
    Attempt.Settled { x with result := some r } r := by
  rcases r with _ | r
  · exact ⟨fun hc => absurd hc (by rw [h.2]; nofun), nofun, fun _ => rfl⟩
  by_cases hr : r = .cancelled
  · subst hr
    exact ⟨fun _ => ⟨h.1, rfl⟩, fun _ => h.2, fun hi => absurd hi (by rw [h.1]; nofun)⟩
  · rw [Manager.returning_of_ne hr] at h
    exact ⟨fun hc => absurd hc (by rw [h.2]; nofun), fun he => absurd (Option.some.inj he) hr,
      fun hi => absurd hi (by rw [h.1]; nofun)⟩

end Attempt

/-- A `CancelConnect` took its number while attempt `t` was under way, or it no
longer is. -/
def Manager.Touched (m : Manager) (t : ℕ) : Prop :=
  ∃ x, m.attempts.lookup t = some x ∧ (x.Open → x.touched = true)

namespace System

structure Attempted (s : System) : Prop where
  causes : ∀ t pc, s.threads.lookup t = some pc → pc.cause ≠ some .cancelled
  running : ∀ t pc, s.threads.lookup t = some pc → ∀ st ∈ pc.stage,
    ∃ x, s.m.attempts.lookup t = some x ∧ x.result = none ∧ x.At s.m t st
  present : ∀ t x, s.m.attempts.lookup t = some x → x.result = none →
    ∃ pc, s.threads.lookup t = some pc ∧ pc.stage.isSome = true
  settled : ∀ t x, s.m.attempts.lookup t = some x → ∀ r ∈ x.result, x.Settled r
  fresh : ∀ t pc, s.threads.lookup t = some pc → ∀ k, pc = .queueAttempt k →
    s.m.attempts.lookup t = none
  numbered : ∀ t x, s.m.attempts.lookup t = some x → t < s.m.next

theorem init_attempted : init.Attempted where
  causes t pc h := by simp [init] at h
  running t pc h := by simp [init] at h
  present t x h := by simp [init, Manager.init] at h
  settled t x h := by simp [init, Manager.init] at h
  fresh t pc h := by simp [init] at h
  numbered t x h := by simp [init, Manager.init] at h

variable {cap : ℕ} {s s' : System}

theorem enter_attempted (hn : s.Numbered) (h : s.Attempted) (c : Call) :
    (s.enter c).Attempted where
  causes := threads_enter (P := fun _ pc => pc.cause ≠ some .cancelled)
    (by cases c <;> nofun) h.causes
  running := threads_enter (P := fun t pc => ∀ st ∈ pc.stage,
    ∃ x, s.m.attempts.lookup t = some x ∧ x.result = none ∧ x.At s.m t st)
    (by cases c <;> nofun) h.running
  present t x hx hr := by
    obtain ⟨pc, hpc, hst⟩ := h.present t x hx hr
    exact ⟨pc, lookup_enter_of_some hn hpc, hst⟩
  settled := h.settled
  fresh := by
    refine threads_enter (P := fun t pc => ∀ k, pc = .queueAttempt k →
      s.m.attempts.lookup t = none) (fun _ _ => ?_) h.fresh
    cases hx : s.m.attempts.lookup s.m.next with
    | none => rfl
    | some x => exact absurd (h.numbered _ x hx) (lt_irrefl _)
  numbered t x hx := Nat.lt_succ_of_lt (h.numbered t x hx)

/-- How another attempt is left by a move. -/
structure Leaves (s : System) (m' : Manager) (u : ℕ) (x x' : Attempt) : Prop where
  result : x'.result = x.result
  settled : ∀ r ∈ x.result, x' = x
  stage : ∀ pc, s.threads.lookup u = some pc → ∀ st ∈ pc.stage, x.result = none →
    x.At s.m u st → x'.At m' u st

theorem after_attempted {t : ℕ} {mv : Move} (hn : s.Numbered) (h : s.Attempted)
    (hnext : mv.m.next = s.m.next) (hcause : Leads mv.pc fun pc => pc.cause ≠ some .cancelled)
    (hthere : t < s.m.next)
    (hself : ∀ x, mv.m.attempts.lookup t = some x → (∀ r ∈ x.result, x.Settled r) ∧
      (x.result = none → ∃ pc, mv.pc = some pc ∧ pc.stage.isSome = true))
    (hleads : Leads mv.pc fun pc => (∀ st ∈ pc.stage,
      ∃ x, mv.m.attempts.lookup t = some x ∧ x.result = none ∧ x.At mv.m t st) ∧
      ∀ k, pc ≠ .queueAttempt k)
    (hothers : ∀ u, u ≠ t →
      (s.m.attempts.lookup u = none ∧ mv.m.attempts.lookup u = none) ∨
        ∃ x x', s.m.attempts.lookup u = some x ∧ mv.m.attempts.lookup u = some x' ∧
          Leaves s mv.m u x x') : (s.after t mv).Attempted := by
  have hm := after_m s t mv
  have hattempts : (s.after t mv).m.attempts = mv.m.attempts := by rw [hm]
  have hle := (next_after (t := t) (s := s) hnext).1
  have hat : ∀ u (x : Attempt) (st : Stage), x.At (s.after t mv).m u st = x.At mv.m u st := by
    intro u x st
    rw [hm]
    cases st <;> rfl
  refine ⟨?_, ?_, fun u x' hx' hr => ?_, fun u x' hx' r hr => ?_, ?_, fun u x' hx' => ?_⟩
  · exact threads_after (P := fun _ pc => pc.cause ≠ some .cancelled) hcause (fun _ => nofun)
      fun u pc _ hu => h.causes u pc hu
  · simp only [hattempts, hat]
    refine threads_after (P := fun u pc => ∀ st ∈ pc.stage,
      ∃ x, mv.m.attempts.lookup u = some x ∧ x.result = none ∧ x.At mv.m u st)
      (fun pc hpc => (hleads pc hpc).1) (fun _ => nofun) fun u pc hne hu st hst => ?_
    obtain ⟨x, hx, hr, hxat⟩ := h.running u pc hu st hst
    rcases hothers u hne with ⟨hnone, -⟩ | ⟨y, x', hy, hx', hl⟩
    · rw [hx] at hnone
      cases hnone
    · cases hx.symm.trans hy
      exact ⟨x', hx', hl.result.trans hr, hl.stage pc hu st hst hr hxat⟩
  · rw [hattempts] at hx'
    by_cases hut : u = t
    · subst hut
      obtain ⟨pc, hpc, hst⟩ := (hself x' hx').2 hr
      refine ⟨pc, ?_, hst⟩
      rw [lookup_after, if_neg (fun hc => by omega), if_pos rfl]
      exact hpc
    · rcases hothers u hut with ⟨-, hnone⟩ | ⟨x, y', hx, hy', hl⟩
      · rw [hx'] at hnone
        cases hnone
      · cases hx'.symm.trans hy'
        obtain ⟨pc, hpc, hst⟩ := h.present u x hx (hl.result.symm.trans hr)
        exact ⟨pc, lookup_after_of_ne hn hnext hpc hut, hst⟩
  · rw [hattempts] at hx'
    by_cases hut : u = t
    · subst hut
      exact (hself x' hx').1 r hr
    · rcases hothers u hut with ⟨-, hnone⟩ | ⟨x, y', hx, hy', hl⟩
      · rw [hx'] at hnone
        cases hnone
      · cases hx'.symm.trans hy'
        rw [hl.result] at hr
        rw [hl.settled r hr]
        exact h.settled u x hx r hr
  · rw [hattempts]
    refine threads_after (P := fun u pc => ∀ k, pc = .queueAttempt k →
      mv.m.attempts.lookup u = none) (fun pc hpc k he => absurd he ((hleads pc hpc).2 k))
      (fun _ => nofun) fun u pc hne hu k he => ?_
    have hnone := h.fresh u pc hu k he
    rcases hothers u hne with ⟨-, hn'⟩ | ⟨x, x', hx, -, -⟩
    · exact hn'
    · rw [hnone] at hx
      cases hx
  · rw [hattempts] at hx'
    by_cases hut : u = t
    · subst hut
      exact Nat.lt_of_lt_of_le hthere hle
    · rcases hothers u hut with ⟨-, hnone⟩ | ⟨x, y', hx, hy', hl⟩
      · rw [hx'] at hnone
        cases hnone
      · exact Nat.lt_of_lt_of_le (h.numbered u x hx) hle

/-- What holds of the cancellations under way. -/
structure Aimed (s : System) : Prop where
  current : ∀ t pc, s.threads.lookup t = some pc → pc.stage = some .begun →
    s.m.attemptCancel = some t
  target : ∀ t ∈ s.m.attemptCancel, ∃ x, s.m.attempts.lookup t = some x
  /-- it found the attempts under way, or they are cancelled -/
  aim : ∀ u pc, s.threads.lookup u = some pc → ∀ b seq k, pc = .cancelCall b seq k →
    seq ≤ s.m.cancelSeq ∧ (∀ t ∈ b, s.m.Touched t) ∧
      ∀ t pc' x, s.threads.lookup t = some pc' → pc'.stage = some .begun →
        s.m.attempts.lookup t = some x → x.ticket < seq → b = some t ∨ t ∈ s.m.cancelled
  cancelled : ∀ t ∈ s.m.cancelled, s.m.Touched t

theorem init_aimed : init.Aimed where
  current t pc h := by simp [init] at h
  target t h := by cases h
  aim u pc h := by simp [init] at h
  cancelled t h := by cases h

theorem enter_aimed (h : s.Aimed) (c : Call) : (s.enter c).Aimed where
  current := threads_enter (P := fun t pc => pc.stage = some .begun → s.m.attemptCancel = some t)
    (by cases c <;> nofun) h.current
  target := h.target
  aim := by
    refine threads_enter (P := fun _ pc => ∀ b seq k, pc = .cancelCall b seq k →
      seq ≤ s.m.cancelSeq ∧ (∀ t ∈ b, s.m.Touched t) ∧
        ∀ t pc' x, (s.enter c).threads.lookup t = some pc' → pc'.stage = some .begun →
          s.m.attempts.lookup t = some x → x.ticket < seq → b = some t ∨ t ∈ s.m.cancelled)
      (by cases c <;> nofun) fun u pc hu b seq k he => ?_
    obtain ⟨hseq, htouched, hbegun⟩ := h.aim u pc hu b seq k he
    refine ⟨hseq, htouched, fun t pc' x ht hst hx hlt => ?_⟩
    rw [lookup_enter] at ht
    split at ht
    · cases ht
      cases c <;> cases hst
    · exact hbegun t pc' x ht hst hx hlt
  cancelled := h.cancelled

theorem lookup_withAttempts {m' : Manager} {f : ℕ → Attempt → Attempt}
    (hm : m'.attempts = (s.m.withAttempts f).attempts) (u : ℕ) :
    m'.attempts.lookup u = (s.m.attempts.lookup u).map (f u) := by
  rw [hm]
  exact lookup_mapValues f s.m.attempts u

section Course

variable {t : ℕ} {a : Answer} {pc : Pc} {mv : Move}

theorem course_keeps (h : s.m.Course t a pc mv)
    (hfresh : ∀ k, pc = .queueAttempt k → s.m.attempts.lookup t = none) :
    ∀ u x, s.m.attempts.lookup u = some x → ∃ x', mv.m.attempts.lookup u = some x' ∧
      x'.ticket = x.ticket ∧ (x'.Open → x.Open) ∧ (x.touched = true → x'.touched = true) := by
  have hmap : ∀ {f : ℕ → Attempt → Attempt}, mv.m.attempts = (s.m.withAttempts f).attempts →
      (∀ u x, (f u x).ticket = x.ticket ∧ ((f u x).Open → x.Open) ∧
        (x.touched = true → (f u x).touched = true)) →
      ∀ u x, s.m.attempts.lookup u = some x → ∃ x', mv.m.attempts.lookup u = some x' ∧
        x'.ticket = x.ticket ∧ (x'.Open → x.Open) ∧ (x.touched = true → x'.touched = true) := by
    intro f hm hf u x hx
    exact ⟨f u x, by rw [lookup_withAttempts hm, hx]; rfl, hf u x⟩
  cases h with
  | apart _ _ hattempts _ _ _ | goes _ _ _ _ _ hattempts _ _ _ | begins _ _ _ hattempts _ _ _ =>
    exact fun u x hx => ⟨x, by rw [hattempts, hx], rfl, fun ho => ho, fun ht => ht⟩
  | queues k _ hattempts _ _ _ =>
    intro u x hx
    have hne : u ≠ t := by
      rintro rfl
      rw [hfresh k rfl] at hx
      cases hx
    exact ⟨x, by rw [hattempts, AList.lookup_insert_ne hne, hx], rfl, fun ho => ho, fun ht => ht⟩
  | installs _ _ hattempts _ _ _ =>
    refine hmap hattempts fun u x => ?_
    split
    · exact ⟨rfl, fun ho => absurd ho.1 (by nofun), fun ht => ht⟩
    · exact ⟨rfl, fun ho => ho, fun ht => ht⟩
  | returns r _ hattempts _ _ _ =>
    refine hmap hattempts fun u x => ?_
    split
    · exact ⟨rfl, fun ho => absurd ho.2 (by nofun), fun ht => ht⟩
    · exact ⟨rfl, fun ho => ho, fun ht => ht⟩
  | takes k _ hattempts _ _ _ =>
    refine hmap hattempts fun u x => ?_
    split
    · next ho => exact ⟨rfl, fun _ => ho, fun _ => rfl⟩
    · exact ⟨rfl, fun ho => ho, fun ht => ht⟩
  | cancels b seq k _ hattempts _ _ _ =>
    refine hmap hattempts fun u x => ?_
    split
    · next ho => exact ⟨rfl, fun _ => ho.1, fun ht => ht⟩
    · exact ⟨rfl, fun ho => ho, fun ht => ht⟩

theorem course_cancelled (h : s.m.Course t a pc mv) :
    (∀ u ∈ s.m.cancelled, u ∈ mv.m.cancelled) ∧ s.m.cancelSeq ≤ mv.m.cancelSeq := by
  cases h with
  | apart _ _ _ hc hs _ | queues _ _ _ hc hs _ | goes _ _ _ _ _ _ hc hs _ | installs _ _ _ hc hs _
  | returns _ _ _ hc hs _ => exact ⟨fun u hu => hc ▸ hu, Nat.le_of_eq hs.symm⟩
  | begins k ticket _ _ hc hs _ =>
    refine ⟨fun u hu => ?_, Nat.le_of_eq hs.symm⟩
    rw [hc]
    split
    · exact List.mem_cons_of_mem _ hu
    · exact hu
  | takes _ _ _ hc hs _ => exact ⟨fun u hu => hc ▸ hu, hs ▸ Nat.le_succ _⟩
  | cancels b _ _ _ _ hc hs _ =>
    exact ⟨fun u hu => hc ▸ List.mem_append_right _ hu, Nat.le_of_eq hs.symm⟩

theorem course_touched (h : s.m.Course t a pc mv)
    (hfresh : ∀ k, pc = .queueAttempt k → s.m.attempts.lookup t = none) {u : ℕ}
    (hu : s.m.Touched u) : mv.m.Touched u := by
  obtain ⟨x, hx, ht⟩ := hu
  obtain ⟨x', hx', -, ho, ht'⟩ := course_keeps h hfresh u x hx
  exact ⟨x', hx', fun hop => ht' (ht (ho hop))⟩

/-- An attempt that has begun after the move had begun before, and is as current as
it was, or begins with it. -/
theorem begun_after (hheld : s.Held) (hcourse : s.m.Course t a pc mv)
    (hpc : s.threads.lookup t = some pc) :
    ∀ u pc', (s.after t mv).threads.lookup u = some pc' → pc'.stage = some .begun →
      (∃ pc₀, s.threads.lookup u = some pc₀ ∧ pc₀.stage = some .begun ∧
        mv.m.attemptCancel = s.m.attemptCancel) ∨
      u = t ∧ mv.m.attemptCancel = some t ∧ ∃ k ticket, pc = .beginAttempt k ticket ∧
        mv.m.cancelled = if s.m.cancelSeq ≠ ticket then t :: s.m.cancelled else s.m.cancelled := by
  refine threads_after (P := fun u pc' => pc'.stage = some .begun → _) (fun pc' hpc' hst => ?_)
    (fun _ => nofun) fun u pc' hne hu hst => ?_
  · cases hcourse with
    | apart _ hl _ _ _ _ => exact absurd hst (by rw [(hl pc' hpc').1]; nofun)
    | queues k hl _ _ _ _ =>
      rw [hl] at hpc'
      cases hpc'
      cases hst
    | goes st st' hs hl hst' _ _ _ hcur =>
      obtain ⟨pc'', hpc'', hs'⟩ := hl
      cases hpc'.symm.trans hpc''
      cases hs'.symm.trans hst
      have hb : st = .begun := by
        rcases hst' with he | ⟨-, ⟨he, -⟩ | ⟨he, -⟩⟩
        · exact he.symm
        · cases he
        · cases he
      subst hb
      exact .inl ⟨pc, hpc, hs, hcur.resolve_right fun hc => hc.1 rfl⟩
    | begins k ticket _ _ hc _ hcur => exact .inr ⟨rfl, hcur, k, ticket, rfl, hc⟩
    | installs _ hl _ _ _ _ =>
      obtain ⟨pc'', hpc'', hs'⟩ := hl
      cases hpc'.symm.trans hpc''
      cases hs'.symm.trans hst
    | returns r hl _ _ _ _ =>
      rw [hl] at hpc'
      cases hpc'
    | takes k hl _ _ _ _ =>
      rw [hl] at hpc'
      cases hpc'
      cases hst
    | cancels b seq k hl _ _ _ _ =>
      rw [hl pc' hpc'] at hst
      cases hst
  · refine .inl ⟨pc', hu, hst, ?_⟩
    have hlife := Pc.life_of_begun hst
    -- `lifeMu` keeps the attempt current
    have halone : pc.life = true → False := fun hl => by
      have := hheld.alone hpc hl hu hne
      rw [hlife] at this
      cases this
    cases hcourse with
    | apart _ _ _ _ _ hcur | queues _ _ _ _ _ hcur | installs _ _ _ _ _ hcur
    | returns _ _ _ _ _ hcur | takes _ _ _ _ _ hcur | cancels _ _ _ _ _ _ _ hcur => exact hcur
    | goes _ _ _ _ _ _ _ _ hcur => exact hcur.resolve_right fun hc => halone hc.2.1
    | begins => exact (halone rfl).elim

theorem course_target (hatt : s.Attempted) (h : s.Aimed) (hcourse : s.m.Course t a pc mv)
    (hpc : s.threads.lookup t = some pc) :
    ∀ u ∈ mv.m.attemptCancel, ∃ x, mv.m.attempts.lookup u = some x := by
  intro u hu
  have hkept : (∃ x, s.m.attempts.lookup u = some x) → ∃ x', mv.m.attempts.lookup u = some x' :=
    fun ⟨x, hx⟩ => (course_keeps hcourse (hatt.fresh t pc hpc) u x hx).imp fun _ hx' => hx'.1
  have hsame : mv.m.attemptCancel = s.m.attemptCancel → ∃ x', mv.m.attempts.lookup u = some x' :=
    fun he => hkept (h.target u (he ▸ hu))
  cases hcourse with
  | apart _ _ _ _ _ hcur | queues _ _ _ _ _ hcur | installs _ _ _ _ _ hcur
  | returns _ _ _ _ _ hcur | takes _ _ _ _ _ hcur | cancels _ _ _ _ _ _ _ hcur => exact hsame hcur
  | goes _ _ _ _ _ _ _ _ hcur =>
    rcases hcur with hcur | ⟨-, -, hnone⟩
    · exact hsame hcur
    · rw [show mv.m.attemptCancel = some u from hu] at hnone
      cases hnone
  | begins k ticket _ _ _ _ hcur =>
    cases hcur.symm.trans hu
    obtain ⟨x, hx, -⟩ := hatt.running t _ hpc (.queued ticket) rfl
    exact hkept ⟨x, hx⟩

/-- A `CancelConnect` takes its number and finds the attempt under way. -/
theorem aim_taken (hheld : s.Held) (h : s.Aimed) (hcourse : s.m.Course t a pc mv)
    (hpc : s.threads.lookup t = some pc) {b : Option ℕ} {seq : ℕ} {k : Canceller}
    (hnext : mv.pc = some (.cancelCall b seq k)) :
    seq ≤ mv.m.cancelSeq ∧ (∀ t ∈ b, mv.m.Touched t) ∧
      ∀ u pc', (s.after t mv).threads.lookup u = some pc' → pc'.stage = some .begun → b = some u := by
  have hbegun := begun_after hheld hcourse hpc
  cases hcourse with
  | apart _ hl _ _ _ _ => exact absurd (hl _ hnext).2 (by nofun)
  | queues _ hl _ _ _ _ | begins _ _ hl _ _ _ _ | returns _ hl _ _ _ _ =>
    rw [hl] at hnext
    cases hnext
  | goes _ _ _ hl _ _ _ _ _ | installs _ hl _ _ _ _ =>
    obtain ⟨pc'', hpc'', hs'⟩ := hl
    cases hnext.symm.trans hpc''
    cases hs'
  | cancels _ _ _ hl _ _ _ _ => cases hl _ hnext
  | takes k' hl hattempts _ hs' hcur =>
    rw [hl] at hnext
    cases hnext
    refine ⟨Nat.le_of_eq hs'.symm, fun u hu => ?_, fun v pc'' hv hst => ?_⟩
    · obtain ⟨x, hx⟩ := h.target u hu
      refine ⟨x.touch, ?_, fun ho => Attempt.touch_touched (Attempt.open_of_touch ho)⟩
      rw [lookup_withAttempts hattempts, hx]
      rfl
    · rcases hbegun v pc'' hv hst with ⟨pc₀, hv₀, hs₀, -⟩ | ⟨-, -, _, _, he, -⟩
      · exact h.current v pc₀ hv₀ hs₀
      · cases he

theorem course_cancelled_touched (hatt : s.Attempted) (h : s.Aimed)
    (hcourse : s.m.Course t a pc mv) (hpc : s.threads.lookup t = some pc) :
    ∀ u ∈ mv.m.cancelled, mv.m.Touched u := by
  intro u hu
  have htouched : s.m.Touched u → mv.m.Touched u := course_touched hcourse (hatt.fresh t pc hpc)
  cases hcourse with
  | apart _ _ _ hc _ _ | queues _ _ _ hc _ _ | goes _ _ _ _ _ _ hc _ _ | installs _ _ _ hc _ _
  | returns _ _ _ hc _ _ | takes _ _ _ hc _ _ => exact htouched (h.cancelled u (hc ▸ hu))
  | begins k ticket _ _ hc _ _ =>
    rw [hc] at hu
    split at hu
    · next hne =>
      rcases List.mem_cons.1 hu with rfl | hu
      · obtain ⟨x, hx, -, hq⟩ := hatt.running u _ hpc (.queued ticket) rfl
        exact htouched ⟨x, hx, fun _ => hq.2.2.2.1 fun he => hne he.symm⟩
      · exact htouched (h.cancelled u hu)
    · exact htouched (h.cancelled u hu)
  | cancels b seq k _ _ hc _ _ =>
    rw [hc] at hu
    rcases List.mem_append.1 hu with hu | hu
    · exact htouched ((h.aim t _ hpc b seq k rfl).2.1 u (Option.mem_toList.1 hu))
    · exact htouched (h.cancelled u hu)

theorem step_aimed (hheld : s.Held) (hatt : s.Attempted) (h : s.Aimed)
    (hpc : s.threads.lookup t = some pc) (hmv : s.m.advance cap t pc a = some mv) :
    (s.after t mv).Aimed := by
  have hcourse := Manager.advance_course (hatt.causes t pc hpc) hmv
  have hkeeps := course_keeps hcourse (hatt.fresh t pc hpc)
  obtain ⟨hcan, hseq⟩ := course_cancelled hcourse
  have hbegun := begun_after hheld hcourse hpc
  refine ⟨?_, ?_, ?_, ?_⟩ <;> rw [after_m s t mv]
  · intro u pc' hu hst
    rcases hbegun u pc' hu hst with ⟨pc₀, hu₀, hs₀, hcur⟩ | ⟨rfl, hcur, -⟩
    · exact hcur.trans (h.current u pc₀ hu₀ hs₀)
    · exact hcur
  · exact course_target hatt h hcourse hpc
  · refine threads_after (P := fun _ pc' => ∀ b seq k, pc' = .cancelCall b seq k →
      seq ≤ mv.m.cancelSeq ∧ (∀ t ∈ b, mv.m.Touched t) ∧
        ∀ u pc'' x, (s.after t mv).threads.lookup u = some pc'' → pc''.stage = some .begun →
          mv.m.attempts.lookup u = some x → x.ticket < seq → b = some u ∨ u ∈ mv.m.cancelled)
      (fun pc' hpc' b seq k he => ?_) (fun _ => nofun) fun u pc' hne hu b seq k he => ?_
    · obtain ⟨hle, htouch, hb⟩ := aim_taken hheld h hcourse hpc (he ▸ hpc')
      exact ⟨hle, htouch, fun v pc'' _ hv hst _ _ => .inl (hb v pc'' hv hst)⟩
    · obtain ⟨hle, htouch, hb⟩ := h.aim u pc' hu b seq k he
      refine ⟨Nat.le_trans hle hseq,
        fun v hv => course_touched hcourse (hatt.fresh t pc hpc) (htouch v hv),
        fun v pc'' x' hv hst hx' hlt => ?_⟩
      rcases hbegun v pc'' hv hst with ⟨pc₀, hv₀, hs₀, -⟩ | ⟨rfl, -, _, ticket, rfl, hc⟩
      · obtain ⟨x, hx, -, -⟩ := hatt.running v pc₀ hv₀ .begun hs₀
        obtain ⟨x'', hx'', htick, -⟩ := hkeeps v x hx
        cases hx'.symm.trans hx''
        exact (hb v pc₀ x hv₀ hs₀ hx (htick ▸ hlt)).imp_right (hcan v)
      · -- it begins with a number taken since it was queued
        obtain ⟨x, hx, -, hq⟩ := hatt.running v _ hpc (.queued ticket) rfl
        obtain ⟨x'', hx'', htick, -⟩ := hkeeps v x hx
        cases hx'.symm.trans hx''
        have hticket : x.ticket = ticket := hq.2.1
        rw [hc, if_pos (by omega)]
        exact .inr List.mem_cons_self
  · exact course_cancelled_touched hatt h hcourse hpc

end Course

theorem leaves_same {m' : Manager} {t : ℕ} (hattempts : m'.attempts = s.m.attempts)
    (hseq : m'.cancelSeq = s.m.cancelSeq) (hc : ∀ u ∈ s.m.cancelled, u ∈ m'.cancelled) :
    ∀ u, u ≠ t → (s.m.attempts.lookup u = none ∧ m'.attempts.lookup u = none) ∨
      ∃ x x', s.m.attempts.lookup u = some x ∧ m'.attempts.lookup u = some x' ∧
        Leaves s m' u x x' := by
  intro u _
  rw [hattempts]
  cases hx : s.m.attempts.lookup u with
  | none => exact .inl ⟨rfl, rfl⟩
  | some x => exact .inr ⟨x, x, rfl, rfl, rfl, fun _ _ => rfl, fun _ _ st _ _ h => h.mono hseq hc⟩

theorem leaves_map {m' : Manager} {t : ℕ} {f : ℕ → Attempt → Attempt}
    (hattempts : m'.attempts = (s.m.withAttempts f).attempts)
    (hf : ∀ u x, u ≠ t → s.m.attempts.lookup u = some x → Leaves s m' u x (f u x)) :
    ∀ u, u ≠ t → (s.m.attempts.lookup u = none ∧ m'.attempts.lookup u = none) ∨
      ∃ x x', s.m.attempts.lookup u = some x ∧ m'.attempts.lookup u = some x' ∧
        Leaves s m' u x x' := by
  intro u hne
  rw [lookup_withAttempts hattempts]
  cases hx : s.m.attempts.lookup u with
  | none => exact .inl ⟨rfl, rfl⟩
  | some x => exact .inr ⟨x, f u x, rfl, rfl, hf u x hne hx⟩

section Course

variable {t : ℕ} {a : Answer} {pc : Pc} {mv : Move}

/-- An attempt of a goroutine that makes none has returned. -/
theorem Attempted.returned (h : s.Attempted) (hpc : s.threads.lookup t = some pc)
    (hs : pc.stage = none) {x : Attempt} (hx : s.m.attempts.lookup t = some x) :
    ∃ r, x.result = some r := by
  cases hr : x.result with
  | some r => exact ⟨r, rfl⟩
  | none =>
    obtain ⟨pc', hpc', hs'⟩ := h.present t x hx hr
    cases hpc.symm.trans hpc'
    rw [hs] at hs'
    cases hs'

/-- A move past the last look at the context is none of a cancelled attempt. -/
theorem Attempted.goes (h : s.Attempted) (haim : s.Aimed)
    (hasked : s.m.failsUnasked pc a = true → t ∉ s.m.cancelled)
    (hpc : s.threads.lookup t = some pc) {st st' : Stage} (hs : pc.stage = some st)
    (hst : st' = st ∨ st = .begun ∧ (st' = .gaveUp ∧ t ∈ s.m.cancelled ∨
      st' = .past ∧ (t ∉ s.m.cancelled ∨ s.m.failsUnasked pc a = true))) :
    ∃ x, s.m.attempts.lookup t = some x ∧ x.result = none ∧ x.At s.m t st' := by
  obtain ⟨x, hx, hr, hat⟩ := h.running t pc hpc st hs
  refine ⟨x, hx, hr, ?_⟩
  rcases hst with rfl | ⟨rfl, ⟨rfl, hcan⟩ | ⟨rfl, hlook⟩⟩
  · exact hat
  · obtain ⟨y, hy, ht⟩ := haim.cancelled t hcan
    cases hx.symm.trans hy
    exact ⟨hat.1, ht ⟨hat.1, hr⟩⟩
  · have hcan : t ∉ s.m.cancelled := hlook.elim id hasked
    refine ⟨hat.1, ?_⟩
    cases hcov : x.covered with
    | false => rfl
    | true => exact absurd (hat.2 hcov) hcan

/-- The attempt of the goroutine that moves is under way and the goroutine goes on
with it, or it has returned what it came to. -/
theorem course_self (h : s.Attempted) (hpc : s.threads.lookup t = some pc)
    (hcourse : s.m.Course t a pc mv) {x : Attempt} (hx : mv.m.attempts.lookup t = some x) :
    (∀ r ∈ x.result, x.Settled r) ∧
      (x.result = none → ∃ pc', mv.pc = some pc' ∧ pc'.stage.isSome = true) := by
  have hopen : ∀ {y : Attempt} {pc' : Pc} {st : Stage}, y.result = none → mv.pc = some pc' →
      pc'.stage = some st → (∀ r ∈ y.result, y.Settled r) ∧
        (y.result = none → ∃ pc', mv.pc = some pc' ∧ pc'.stage.isSome = true) :=
    fun hr hpc' hs' => ⟨fun r hr' => absurd (hr.symm.trans hr') (by nofun),
      fun _ => ⟨_, hpc', by rw [hs']; rfl⟩⟩
  have hstill : ∀ {f : ℕ → Attempt → Attempt}, pc.stage = none →
      mv.m.attempts = (s.m.withAttempts f).attempts →
      (∀ y r, y.result = some r → f t y = y) → (∀ r ∈ x.result, x.Settled r) ∧
        (x.result = none → ∃ pc', mv.pc = some pc' ∧ pc'.stage.isSome = true) := by
    intro f hs hattempts hf
    rw [lookup_withAttempts hattempts] at hx
    obtain ⟨y, hy, rfl⟩ := Option.map_eq_some_iff.1 hx
    obtain ⟨r, hr⟩ := h.returned hpc hs hy
    rw [hf y r hr]
    exact ⟨h.settled t y hy, fun hnone => absurd (hr.symm.trans hnone) (by nofun)⟩
  cases hcourse with
  | apart hs hl hattempts hc hseq _ =>
    rw [hattempts] at hx
    obtain ⟨r, hr⟩ := h.returned hpc hs hx
    exact ⟨h.settled t x hx, fun hnone => absurd (hr.symm.trans hnone) (by nofun)⟩
  | queues k hl hattempts hc hseq _ =>
    rw [hattempts, AList.lookup_insert] at hx
    cases hx
    exact hopen rfl hl rfl
  | goes st st' hs hl hst hattempts hc hseq _ =>
    obtain ⟨pc', hpc', hs'⟩ := hl
    obtain ⟨y, hy, hr, -⟩ := h.running t pc hpc st hs
    rw [hattempts] at hx
    cases hy.symm.trans hx
    exact hopen hr hpc' hs'
  | begins k ticket hl hattempts hc hseq _ =>
    obtain ⟨y, hy, hr, -⟩ := h.running t _ hpc (.queued ticket) rfl
    rw [hattempts] at hx
    cases hy.symm.trans hx
    exact hopen hr hl rfl
  | installs hs hl hattempts hc hseq _ =>
    obtain ⟨pc', hpc', hs'⟩ := hl
    obtain ⟨y, hy, hr, -⟩ := h.running t pc hpc .past hs
    rw [lookup_withAttempts hattempts, hy, Option.map_some, if_pos rfl] at hx
    cases hx
    exact hopen hr hpc' hs'
  | returns r hl hattempts hc hseq _ =>
    obtain ⟨y, hy, -, hat⟩ := h.running t _ hpc (.returning r) rfl
    rw [lookup_withAttempts hattempts, hy, Option.map_some, if_pos rfl] at hx
    cases hx
    refine ⟨fun r' hr' => ?_, fun hnone => by cases hnone⟩
    cases hr'
    exact Attempt.settled_of_returning hat
  | takes k hl hattempts hc hseq _ =>
    exact hstill rfl hattempts fun y r hr => Attempt.touch_of_result hr
  | cancels b seq k hl hattempts hc hseq _ =>
    exact hstill rfl hattempts fun y r hr => Attempt.cover_of_result hr

/-- Where the goroutine goes on says what has become of its attempt. -/
theorem course_leads (h : s.Attempted) (haim : s.Aimed)
    (hasked : s.m.failsUnasked pc a = true → t ∉ s.m.cancelled)
    (hpc : s.threads.lookup t = some pc) (hcourse : s.m.Course t a pc mv) :
    Leads mv.pc fun pc' => (∀ st ∈ pc'.stage,
      ∃ x, mv.m.attempts.lookup t = some x ∧ x.result = none ∧ x.At mv.m t st) ∧
      ∀ k, pc' ≠ .queueAttempt k := by
  have hstage : ∀ {pc' : Pc} {st : Stage}, pc'.stage = some st → ∀ k, pc' ≠ .queueAttempt k := by
    rintro pc' st hs k rfl
    cases hs
  cases hcourse with
  | apart hs hl hattempts hc hseq _ =>
    intro pc' hpc'
    refine ⟨Manager.of_none (hl pc' hpc').1, ?_⟩
    rintro k rfl
    cases (hl _ hpc').2
  | queues k hl hattempts hc hseq _ =>
    rw [hl]
    refine Manager.leads_some ⟨fun st hst => ?_, hstage rfl⟩
    cases hst
    exact ⟨_, by rw [hattempts, AList.lookup_insert], rfl, rfl, rfl, Nat.le_of_eq hseq.symm,
      fun hne => absurd hseq.symm hne, fun hcov => by cases hcov⟩
  | goes st st' hs hl hst hattempts hc hseq _ =>
    obtain ⟨pc', hpc', hs'⟩ := hl
    obtain ⟨x, hx, hr, hat⟩ := h.goes haim hasked hpc hs hst
    rw [hpc']
    refine Manager.leads_some ⟨fun st'' hst'' => ?_, hstage hs'⟩
    rw [hs'] at hst''
    cases hst''
    exact ⟨x, by rw [hattempts, hx], hr, hat.mono hseq fun u hu => hc ▸ hu⟩
  | begins k ticket hl hattempts hc hseq _ =>
    obtain ⟨x, hx, hr, hi, hticket, hle, -, hcov⟩ := h.running t _ hpc (.queued ticket) rfl
    rw [hl]
    refine Manager.leads_some ⟨fun st hst => ?_, hstage rfl⟩
    cases hst
    refine ⟨x, by rw [hattempts, hx], hr, hi, fun hcv => ?_⟩
    -- the cancellation took its number after the ticket
    have hlt := hcov hcv
    rw [hc, if_pos (by omega)]
    exact List.mem_cons_self
  | installs hs hl hattempts hc hseq _ =>
    obtain ⟨pc', hpc', hs'⟩ := hl
    obtain ⟨x, hx, hr, hi, hcov⟩ := h.running t pc hpc .past hs
    rw [hpc']
    refine Manager.leads_some ⟨fun st hst => ?_, hstage hs'⟩
    rw [hs'] at hst
    cases hst
    refine ⟨{ x with installed := true }, ?_, hr, rfl, hcov⟩
    rw [lookup_withAttempts hattempts, hx, Option.map_some, if_pos rfl]
  | returns r hl hattempts hc hseq _ =>
    rw [hl]
    exact Manager.leads_none
  | takes k hl hattempts hc hseq _ =>
    rw [hl]
    exact Manager.leads_some ⟨fun st hst => (by cases hst), fun k he => (by cases he)⟩
  | cancels b seq k hl hattempts hc hseq _ =>
    intro pc' hpc'
    rw [hl pc' hpc']
    exact ⟨fun st hst => (by cases hst), fun k he => (by cases he)⟩

/-- A cancellation in time reaches the attempts it is meant for. -/
theorem course_others (haim : s.Aimed) (hpc : s.threads.lookup t = some pc)
    (htime : ∀ seq ∈ pc.cancelsUpTo, ∀ u ∈ s.m.attempts.keys, ∀ x ∈ s.m.attempts.lookup u,
      x.Open → x.ticket < seq → ∀ pc' ∈ s.threads.lookup u, pc'.blind = false)
    (hcourse : s.m.Course t a pc mv) :
    ∀ u, u ≠ t → (s.m.attempts.lookup u = none ∧ mv.m.attempts.lookup u = none) ∨
      ∃ x x', s.m.attempts.lookup u = some x ∧ mv.m.attempts.lookup u = some x' ∧
        Leaves s mv.m u x x' := by
  have hcan := (course_cancelled hcourse).1
  cases hcourse with
  | apart _ _ hattempts _ hseq _ | goes _ _ _ _ _ hattempts _ hseq _
  | begins _ _ _ hattempts _ hseq _ => exact leaves_same hattempts hseq hcan
  | queues k hl hattempts hc hseq _ =>
    intro u hne
    rw [hattempts, AList.lookup_insert_ne hne]
    cases hx : s.m.attempts.lookup u with
    | none => exact .inl ⟨rfl, rfl⟩
    | some x => exact .inr ⟨x, x, rfl, rfl, rfl, fun _ _ => rfl,
        fun _ _ st _ _ h => h.mono hseq hcan⟩
  | installs _ _ hattempts _ hseq _ | returns _ _ hattempts _ hseq _ =>
    refine leaves_map hattempts fun u y hne hy => ?_
    rw [if_neg hne]
    exact ⟨rfl, fun _ _ => rfl, fun _ _ st _ _ h => h.mono hseq hcan⟩
  | takes k hl hattempts hc hseq _ =>
    exact leaves_map hattempts fun u x _ _ => ⟨Attempt.touch_result,
      fun r hr => Attempt.touch_of_result hr, fun _ _ st _ hr hat => hat.touch hr hseq hc⟩
  | cancels b seq k hl hattempts hc hseq _ =>
    obtain ⟨hle, -, hbegun⟩ := haim.aim t _ hpc b seq k rfl
    refine leaves_map hattempts fun u x hne hx => ?_
    have hmem : u ∈ s.m.attempts := AList.lookup_isSome.1 (by rw [hx]; rfl)
    refine ⟨Attempt.cover_result, fun r hr => Attempt.cover_of_result hr,
      fun pc' hpc' st hst _ hat => ?_⟩
    refine hat.cover hseq hcan hle (fun ho hlt he => ?_) fun he hlt => ?_
    · have hblind := htime seq rfl u hmem x hx ho hlt pc' hpc'
      rw [Pc.blind, decide_eq_false_iff_not] at hblind
      exact hblind (he ▸ hst)
    · rw [hc]
      rcases hbegun u pc' x hpc' (he ▸ hst) hx hlt with hb | hu
      · exact List.mem_append_left _ (Option.mem_toList.2 hb)
      · exact List.mem_append_right _ hu

theorem step_attempted (hn : s.Numbered) (h : s.Attempted) (haim : s.Aimed)
    (hpc : s.threads.lookup t = some pc) (hok : s.InTime (.run t a))
    (hmv : s.m.advance cap t pc a = some mv) : (s.after t mv).Attempted := by
  have hcourse := Manager.advance_course (h.causes t pc hpc) hmv
  obtain ⟨htime, hasked⟩ := hok pc hpc
  exact after_attempted hn h (Manager.advance_next hmv) (Manager.advance_cause hmv) (hn t pc hpc)
    (fun _ hx => course_self h hpc hcourse hx) (course_leads h haim hasked hpc hcourse)
    (course_others haim hpc htime hcourse)

end Course

/-- **Main.** In a run whose cancellations come in time, an attempt for which a
`CancelConnect` ran after it was queued and before it installed or returned
never installs and returns `ErrConnectCancelled`; one that none took its number
for in that time does not return it, and its context is not cancelled under way;
and one that has installed returns no error. -/
theorem cancellation_wins {ls : List Label} (hok : Meets (step cap) InTime init ls)
    (h : exec (step cap) init ls = some s) {t : ℕ} {x : Attempt}
    (hx : s.m.attempts.lookup t = some x) :
    (x.covered = true → x.installed = false ∧ ∀ r ∈ x.result, r = some .cancelled) ∧
      (x.touched = false → (∀ r ∈ x.result, r ≠ some .cancelled) ∧ (x.Open → t ∉ s.m.cancelled)) ∧
      (x.installed = true → ∀ r ∈ x.result, r = none) := by
  have hi : s.Numbered ∧ s.Held ∧ s.Attempted ∧ s.Aimed := by
    refine exec_invariant (I := fun s : System => s.Numbered ∧ s.Held ∧ s.Attempted ∧ s.Aimed)
      (fun s l s' hi ho hs => ?_) ⟨init_numbered, init_held, init_attempted, init_aimed⟩ hok h
    obtain ⟨hn, hheld, hatt, haim⟩ := hi
    refine ⟨step_numbered hn hs, step_held hheld hs, ?_⟩
    rcases step_cases hs with ⟨c, rfl, rfl⟩ | ⟨t, a, pc, mv, rfl, hpc, hmv, rfl⟩
    · exact ⟨enter_attempted hn hatt c, enter_aimed haim c⟩
    · exact ⟨step_attempted hn hatt haim hpc ho hmv, step_aimed hheld hatt haim hpc hmv⟩
  obtain ⟨-, -, hatt, haim⟩ := hi
  refine ⟨fun hcov => ⟨?_, fun r hr => ((hatt.settled t x hx r hr).covered hcov).2⟩,
    fun hno => ⟨fun r hr hc => ?_, fun ho hmem => ?_⟩,
    fun hins r hr => (hatt.settled t x hx r hr).installed hins⟩
  · cases hr : x.result with
    | some r => exact ((hatt.settled t x hx r hr).covered hcov).1
    | none =>
      obtain ⟨pc, hpc, hst⟩ := hatt.present t x hx hr
      obtain ⟨st, hst⟩ := Option.isSome_iff_exists.1 hst
      obtain ⟨y, hy, -, hat⟩ := hatt.running t pc hpc st hst
      cases hx.symm.trans hy
      cases st with
      | queued | begun | past | gaveUp => exact hat.1
      | installed => exact absurd hcov (by rw [hat.2]; nofun)
  · have := (hatt.settled t x hx r hr).touched hc
    rw [hno] at this
    cases this
  · obtain ⟨y, hy, ht⟩ := haim.cancelled t hmem
    cases hx.symm.trans hy
    have := ht ho
    rw [hno] at this
    cases this

end System

/-- A `CancelConnect` by goroutine `t` from start to end. -/
def cancelling (t : ℕ) : List Label := .call .cancelConnect :: goes t 2

/-- A `Connect` cancelled while it logs in. -/
theorem cancellation_wins_login : ∃ s : System, ∃ x : Attempt,
    exec (System.step 256) System.init
        (.call .connect :: goes 0 8 ++ cancelling 1 ++ .run 0 (.fail none) :: goes 0 4) = some s ∧
      s.m.attempts.lookup 0 = some x ∧ x.covered = true ∧ x.installed = false ∧
      x.result = some (some .cancelled) ∧ ∀ r ∈ x.result, r = some .cancelled := by
  have h : (exec (System.step 256) System.init
      (.call .connect :: goes 0 8 ++ cancelling 1 ++ .run 0 (.fail none) :: goes 0 4)).map
        (fun s => s.m.attempts.lookup 0) = some (some ⟨0, true, true, false, some (some .cancelled)⟩) := by
    decide +kernel
  obtain ⟨s, hs, hv⟩ := Option.map_eq_some_iff.1 h
  obtain ⟨hwins, -, -⟩ := System.cancellation_wins (by decide +kernel) hs hv
  exact ⟨s, _, hs, hv, rfl, (hwins rfl).1, rfl, (hwins rfl).2⟩

/-- **A cancelled attempt installs.** A `CancelConnect` returns when a
`Reconnect` has the answer of `SyncClient`; the `Reconnect` installs. One returns
when a `Connect` has made its final check; the `Connect` installs. -/
theorem cancelled_installs :
    (∃ s : System, ∃ x : Attempt, exec (System.step 256) System.init
        (connected 0 "tok" ++ .call .reconnect :: goes 2 7 ++ syncing 2 ++ cancelling 4 ++
          goes 2 6) = some s ∧ s.m.attempts.lookup 2 = some x ∧
        x.covered = true ∧ x.installed = true ∧ x.result = some none) ∧
      ∃ s : System, ∃ x : Attempt, exec (System.step 256) System.init
        (connecting 0 "tok" ++ cancelling 2 ++ goes 0 6) = some s ∧
        s.m.attempts.lookup 0 = some x ∧ x.covered = true ∧ x.installed = true ∧
        x.result = some none := by
  have h : (exec (System.step 256) System.init
      (connected 0 "tok" ++ .call .reconnect :: goes 2 7 ++ syncing 2 ++ cancelling 4 ++
        goes 2 6)).map (fun s => s.m.attempts.lookup 2) =
        some (some ⟨0, true, true, true, some none⟩) := by decide +kernel
  have h' : (exec (System.step 256) System.init
      (connecting 0 "tok" ++ cancelling 2 ++ goes 0 6)).map (fun s => s.m.attempts.lookup 0) =
        some (some ⟨0, true, true, true, some none⟩) := by decide +kernel
  obtain ⟨s, hs, hv⟩ := Option.map_eq_some_iff.1 h
  obtain ⟨s', hs', hv'⟩ := Option.map_eq_some_iff.1 h'
  exact ⟨⟨s, _, hs, hv, rfl, rfl, rfl⟩, s', _, hs', hv', rfl, rfl, rfl⟩

end VcsClient.Session
