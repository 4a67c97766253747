import VcsClient.App.Capture
import VcsClient.Lib.Assoc

/-!
# Captures in order

When the calls reach each manager in the order of their sections under `sb.mu`, what the
last call did to a manager is what the capture that holds the current token wants, and a
joystick capture binds only for the capture that is open. Out of order the managers can be
running under an open capture, and stay suspended under none (`capture_overtaken`).
-/

namespace VcsClient.App.CaptureRun

open VcsClient.Lib

inductive Moves (s : CaptureRun) : CaptureOp → CaptureRun → Prop where
  | begins {c action} (hnew : c ∉ s.calls) : Moves s (.beginCapture c action)
      ({ s with
        gen := s.gen + 1
        action := action
        timer := some (s.gen + 1)
        sections := s.sections + 1
        begun := s.sections + 1
        ended := false
        returned := false
        completed := false }.goto c (.suspendHotkeys (s.gen + 1) (s.sections + 1)))
  | ends {c token} (hnew : c ∉ s.calls) : Moves s (.endCapture c token) (s.goto c (.ending token))
  | fires {c token} (ht : s.timer = some token) (hnew : c ∉ s.calls) : Moves s (.fire c)
      ({ s with timer := none }.goto c (.ending token))
  | hotkeys {c token n} (hc : s.calls.lookup c = some (.suspendHotkeys token n))
      (hj : s.hasJoy = true) : Moves s (.run c)
        ({ s with hk := true, hkBy := n }.goto c (.suspendJoystick token n))
  | alone {c token n} (hc : s.calls.lookup c = some (.suspendHotkeys token n))
      (hj : s.hasJoy = false) : Moves s (.run c) ({ s with hk := true, hkBy := n }.done c)
  | joystick {c token n} (hc : s.calls.lookup c = some (.suspendJoystick token n)) :
      Moves s (.run c) ({ s with joy := true, joyBy := n }.goto c (.arm token n))
  | arms {c token n} (hc : s.calls.lookup c = some (.arm token n)) :
      Moves s (.run c) ({ s with capture := some token, captureBy := n }.done c)
  | refuses {c token} (hc : s.calls.lookup c = some (.ending token)) (hne : token ≠ s.gen) :
      Moves s (.run c) (s.done c)
  | passes {c} (hc : s.calls.lookup c = some (.ending s.gen)) : Moves s (.run c)
      ({ s with timer := none, sections := s.sections + 1, ended := true }.goto c
        (.resumeHotkeys s.gen (s.sections + 1)))
  | resumes {c token n} (hc : s.calls.lookup c = some (.resumeHotkeys token n))
      (hj : s.hasJoy = true) : Moves s (.run c)
        ({ s with hk := false, hkBy := n }.goto c (.cancel token n))
  | resumesAlone {c token n} (hc : s.calls.lookup c = some (.resumeHotkeys token n))
      (hj : s.hasJoy = false) : Moves s (.run c)
        ({ s with hk := false, hkBy := n }.doneEnd c token)
  | cancels {c token n} (hc : s.calls.lookup c = some (.cancel token n)) : Moves s (.run c)
      ({ s with capture := none, captureBy := n }.goto c (.resumeJoystick token n))
  | returns {c token n} (hc : s.calls.lookup c = some (.resumeJoystick token n)) :
      Moves s (.run c) ({ s with joy := false, joyBy := n }.doneEnd c token)
  | completes {token} (hcap : s.capture = some token) (hnone : s.completion = none) :
      Moves s .complete { s with
        capture := none
        completion := some (.captured token)
        completed := s.completed || decide (token = s.gen) }
  | drops {token} (hx : s.completion = some (.captured token)) :
      Moves s .deliver { s with completion := none }
  | checks (hx : s.completion = some (.captured s.gen)) :
      Moves s .deliver { s with completion := some (.checked s.gen s.action) }
  | binds {token action} (hx : s.completion = some (.checked token action)) :
      Moves s (.bind true) { s with
        completion := none
        bounds := s.bounds ++ [⟨action, decide (token = s.gen), s.returned⟩] }
  | fails {token action} (hx : s.completion = some (.checked token action)) :
      Moves s (.bind false) { s with completion := none }

theorem moves_of_step {s s' : CaptureRun} {op : CaptureOp} (h : s.step op = some s') :
    Moves s op s' := by
  cases op with
  | beginCapture c action =>
    simp only [step] at h
    split at h
    · cases h
    · next hnew => cases h; exact .begins hnew
  | endCapture c token =>
    simp only [step] at h
    split at h
    · cases h
    · next hnew => cases h; exact .ends hnew
  | fire c =>
    simp only [step] at h
    split at h
    · cases h
    · next ht =>
      split at h
      · cases h
      · next hnew => cases h; exact .fires ht hnew
  | run c =>
    obtain ⟨pc, hc, rfl⟩ := Option.map_eq_some_iff.1 h
    cases pc with
    | suspendHotkeys token n =>
      have hrun : s.run c (.suspendHotkeys token n) =
          if s.hasJoy then { s with hk := true, hkBy := n }.goto c (.suspendJoystick token n)
          else { s with hk := true, hkBy := n }.done c := rfl
      by_cases hj : s.hasJoy = true
      · rw [hrun, if_pos hj]
        exact .hotkeys hc hj
      · rw [hrun, if_neg hj]
        exact .alone hc (by simpa using hj)
    | suspendJoystick token n => exact .joystick hc
    | arm token n => exact .arms hc
    | ending token =>
      by_cases hne : token = s.gen
      · subst hne
        have := Moves.passes hc
        simpa [run] using this
      · simp only [run, ne_eq, hne, not_false_eq_true, if_true]
        exact .refuses hc hne
    | resumeHotkeys token n =>
      have hrun : s.run c (.resumeHotkeys token n) =
          if s.hasJoy then { s with hk := false, hkBy := n }.goto c (.cancel token n)
          else { s with hk := false, hkBy := n }.doneEnd c token := rfl
      by_cases hj : s.hasJoy = true
      · rw [hrun, if_pos hj]
        exact .resumes hc hj
      · rw [hrun, if_neg hj]
        exact .resumesAlone hc (by simpa using hj)
    | cancel token n => exact .cancels hc
    | resumeJoystick token n => exact .returns hc
  | complete =>
    simp only [step] at h
    split at h
    · next hcap hnone => cases h; exact .completes hcap hnone
    · cases h
  | deliver =>
    simp only [step] at h
    split at h
    · next token hx =>
      split at h
      · cases h; exact .drops hx
      · next hok =>
        cases h
        obtain ⟨he, -⟩ := not_or.1 hok
        cases not_not.1 he
        exact .checks hx
    · cases h
  | bind saved =>
    simp only [step] at h
    split at h
    · next token action hx =>
      cases h
      cases saved with
      | true => exact .binds hx
      | false => exact .fails hx
    · cases h

/-! ## Who is the last to act -/

/-- The section of a call that is still to act on the hotkey manager. -/
def owesHotkeys : CapturePc → Option ℕ
  | .suspendHotkeys _ n | .resumeHotkeys _ n => some n
  | _ => none

/-- The section of a call that is still to suspend or resume the joystick manager. -/
def owesJoystick : CapturePc → Option ℕ
  | .suspendHotkeys _ n | .suspendJoystick _ n | .resumeHotkeys _ n | .cancel _ n
  | .resumeJoystick _ n => some n
  | _ => none

/-- The section of a call that is still to arm or cancel the joystick capture. -/
def owesCapture : CapturePc → Option ℕ
  | .suspendHotkeys _ n | .suspendJoystick _ n | .arm _ n | .resumeHotkeys _ n
  | .cancel _ n => some n
  | _ => none

/-- The last call is still to act, or was the last to act and all is right. -/
def Settles (s : CaptureRun) (owes : CapturePc → Option ℕ) (last : ℕ) (right : Prop) : Prop :=
  (∃ c pc, s.calls.lookup c = some pc ∧ owes pc = some s.sections) ∨ last = s.sections ∧ right

section
variable {s s' : CaptureRun} {owes : CapturePc → Option ℕ} {last : ℕ} {right right' : Prop}

theorem Settles.same (h : s.Settles owes last right) (hcalls : s'.calls = s.calls)
    (hsections : s'.sections = s.sections) (hright : right → right') :
    s'.Settles owes last right' := by
  rw [Settles, hcalls, hsections]
  exact h.imp_right fun hl => ⟨hl.1, hright hl.2⟩

/-- A call moves, and still is to act if it was. -/
theorem Settles.keep (h : s.Settles owes last right) {c : ℕ} {pc : CapturePc}
    (hc : s.calls.lookup c = some pc)
    (hother : ∀ c', c' ≠ c → s'.calls.lookup c' = s.calls.lookup c')
    (hsections : s'.sections = s.sections)
    (hkeep : ∀ n, owes pc = some n → ∃ pc', s'.calls.lookup c = some pc' ∧ owes pc' = some n) :
    s'.Settles owes last right := by
  rcases h with ⟨c', pc', hpc', hn⟩ | ⟨hl, hr⟩
  · rw [Settles, hsections]
    by_cases he : c' = c
    · subst he
      cases hc.symm.trans hpc'
      obtain ⟨pc'', hpc'', hn''⟩ := hkeep _ hn
      exact .inl ⟨c', pc'', hpc'', hn''⟩
    · exact .inl ⟨c', pc', (hother c' he).trans hpc', hn⟩
  · exact .inr ⟨hl.trans hsections.symm, hr⟩

theorem Settles.enter (h : s.Settles owes last right) {c : ℕ} (hnew : c ∉ s.calls)
    (hother : ∀ c', c' ≠ c → s'.calls.lookup c' = s.calls.lookup c')
    (hsections : s'.sections = s.sections) : s'.Settles owes last right := by
  rcases h with ⟨c', pc, hpc, hn⟩ | ⟨hl, hr⟩
  · rw [Settles, hsections]
    refine .inl ⟨c', pc, (hother c' ?_).trans hpc, hn⟩
    rintro rfl
    rw [AList.lookup_eq_none.2 hnew] at hpc
    cases hpc
  · exact .inr ⟨hl.trans hsections.symm, hr⟩

theorem Settles.act (h : s.Settles owes last right) {c n : ℕ} {pc : CapturePc}
    (hc : s.calls.lookup c = some pc) (hn : owes pc = some n) (horder : last < n)
    (hle : n ≤ s.sections) (hother : ∀ c', c' ≠ c → s'.calls.lookup c' = s.calls.lookup c')
    (hsections : s'.sections = s.sections) (hright : n = s.sections → right') :
    s'.Settles owes n right' := by
  by_cases he : n = s.sections
  · exact .inr ⟨he.trans hsections.symm, hright he⟩
  · rcases h with ⟨c', pc', hpc', hn'⟩ | ⟨hl, -⟩
    · have hne : c' ≠ c := by
        rintro rfl
        cases hc.symm.trans hpc'
        exact he (Option.some.inj (hn.symm.trans hn'))
      exact .inl ⟨c', pc', (hother c' hne).trans hpc', hn'.trans (by rw [hsections])⟩
    · omega

theorem Settles.new {c : ℕ} {pc : CapturePc} (hc : s'.calls.lookup c = some pc)
    (hn : owes pc = some s'.sections) : s'.Settles owes last right :=
  .inl ⟨c, pc, hc, hn⟩

end

/-! ## The invariant -/

/-- The section is that of the token's `BeginCapture`. -/
def Began (s : CaptureRun) (token n : ℕ) : Prop :=
  token = s.gen ∧ n = s.begun ∨ token < s.gen ∧ n < s.begun

/-- The section is that of an end of the token's capture. -/
structure Ends (s : CaptureRun) (token n : ℕ) : Prop where
  token_le : token ≤ s.gen
  section_le : n ≤ s.sections
  after : token = s.gen → s.begun < n
  last : n = s.sections → s.ended = true

/-- What the call knows of the current capture. -/
def Sound (s : CaptureRun) : CapturePc → Prop
  | .suspendHotkeys token n => s.Began token n
  | .suspendJoystick token n | .arm token n => s.hasJoy = true ∧ s.Began token n
  | .ending _ => True
  | .resumeHotkeys token n => s.Ends token n
  | .cancel token n | .resumeJoystick token n => s.hasJoy = true ∧ s.Ends token n

theorem Sound.mono {s s' : CaptureRun} {pc : CapturePc} (h : s.Sound pc)
    (hj : s'.hasJoy = s.hasJoy) (hbegan : ∀ token n, s.Began token n → s'.Began token n)
    (hends : ∀ token n, s.Ends token n → s'.Ends token n) : s'.Sound pc := by
  cases pc with
  | suspendHotkeys token n => exact hbegan _ _ h
  | suspendJoystick token n | arm token n => exact ⟨hj.trans h.1, hbegan _ _ h.2⟩
  | ending token => exact True.intro
  | resumeHotkeys token n => exact hends _ _ h
  | cancel token n | resumeJoystick token n => exact ⟨hj.trans h.1, hends _ _ h.2⟩

/-- An end of the current capture has cancelled it. -/
def Cancelled (s : CaptureRun) : Prop :=
  s.returned = true ∨ ∃ c n, s.calls.lookup c = some (.resumeJoystick s.gen n)

structure Inv (s : CaptureRun) : Prop where
  calls : ∀ c pc, s.calls.lookup c = some pc → s.Sound pc
  begun : s.begun ≤ s.sections
  opened : s.ended = false → s.begun = s.sections ∧ 0 < s.sections
  closed : s.ended = true → s.begun < s.sections ∨ s.sections = 0
  hk : s.Settles owesHotkeys s.hkBy (s.hk = !s.ended)
  joy : s.hasJoy = true → s.Settles owesJoystick s.joyBy (s.joy = !s.ended)
  capture : s.hasJoy = true → s.Settles owesCapture s.captureBy
    (s.ended = false → s.capture = some s.gen ∨ s.completed = true)
  alone : s.hasJoy = false → s.joy = false ∧ s.capture = none ∧ s.completion = none
  cancelled : s.hasJoy = true → s.Cancelled →
    s.capture ≠ some s.gen ∧ (∀ x ∈ s.completion, x.token ≠ s.gen) ∧ s.begun < s.captureBy
  checked : ∀ x ∈ s.completion, x.isChecked = true → x.token = s.gen
  bounds : s.BoundsTimely

theorem init_inv (hasJoy : Bool) : (init hasJoy).Inv where
  calls := fun c pc h => by cases h
  begun := le_rfl
  opened := fun h => by cases h
  closed := fun _ => .inr rfl
  hk := .inr ⟨rfl, rfl⟩
  joy := fun _ => .inr ⟨rfl, rfl⟩
  capture := fun _ => .inr ⟨rfl, fun h => by cases h⟩
  alone := fun _ => ⟨rfl, rfl, rfl⟩
  cancelled := by
    rintro - (h | ⟨c, n, h⟩)
    · cases h
    · cases h
  checked := fun x h => by cases h
  bounds := fun b h => by cases h

def number : CapturePc → Option ℕ
  | .suspendHotkeys _ n | .suspendJoystick _ n | .arm _ n | .resumeHotkeys _ n | .cancel _ n
  | .resumeJoystick _ n => some n
  | .ending _ => none

theorem number_of_owes {owes : CapturePc → Option ℕ}
    (ho : owes = owesHotkeys ∨ owes = owesJoystick ∨ owes = owesCapture) {pc : CapturePc} {n : ℕ}
    (h : owes pc = some n) : number pc = some n := by
  rcases ho with rfl | rfl | rfl <;> cases pc <;> first | exact h | cases h

/-- While the capture is open the last section is that of its `BeginCapture`. -/
theorem Inv.last_begins {s : CaptureRun} (hi : s.Inv) (hopen : s.ended = false) {c : ℕ}
    {pc : CapturePc} (hc : s.calls.lookup c = some pc) (hn : number pc = some s.sections) :
    CapturePc.begins s.gen pc = true := by
  have hsound := hi.calls c pc hc
  have hlast := (hi.opened hopen).1
  cases pc with
  | suspendHotkeys token n =>
    cases hn
    rcases hsound with ⟨rfl, -⟩ | ⟨-, hlt⟩
    · simp [CapturePc.begins]
    · omega
  | suspendJoystick token n | arm token n =>
    cases hn
    rcases hsound.2 with ⟨rfl, -⟩ | ⟨-, hlt⟩
    · simp [CapturePc.begins]
    · omega
  | ending token => cases hn
  | resumeHotkeys token n =>
    cases hn
    rw [hsound.last rfl] at hopen
    cases hopen
  | cancel token n | resumeJoystick token n =>
    cases hn
    rw [hsound.2.last rfl] at hopen
    cases hopen

theorem Inv.exclusive {s : CaptureRun} (hi : s.Inv) : s.Exclusive := by
  intro hopen hreturned
  -- the open capture's `BeginCapture` has returned, so nobody is still to act
  have hacted : ∀ owes : CapturePc → Option ℕ,
      (owes = owesHotkeys ∨ owes = owesJoystick ∨ owes = owesCapture) → ∀ {last : ℕ}
      {right : Prop}, s.Settles owes last right → right := by
    rintro owes ho last right (⟨c, pc, hc, hn⟩ | ⟨-, hr⟩)
    · have hb := hi.last_begins hopen hc (number_of_owes ho hn)
      rw [hreturned c pc hc] at hb
      cases hb
    · exact hr
  refine ⟨by simpa [hopen] using hacted _ (.inl rfl) hi.hk, fun hj => ⟨?_, ?_⟩⟩
  · simpa [hopen] using hacted _ (.inr (.inl rfl)) (hi.joy hj)
  · exact hacted _ (.inr (.inr rfl)) (hi.capture hj) hopen

theorem Inv.resumed {s : CaptureRun} (hi : s.Inv) : s.Resumed := by
  intro hended hcalls _
  have hacted : ∀ {owes : CapturePc → Option ℕ} {last : ℕ} {right : Prop},
      s.Settles owes last right → right := by
    rintro owes last right (⟨c, pc, hc, -⟩ | ⟨-, hr⟩)
    · have hmem : c ∈ s.calls.keys := AList.lookup_isSome.1 (by simp [hc])
      rw [hcalls] at hmem
      cases hmem
    · exact hr
  refine ⟨by simpa [hended] using hacted hi.hk, ?_⟩
  cases hj : s.hasJoy with
  | true => simpa [hended] using hacted (hi.joy hj)
  | false => exact (hi.alone hj).1

/-! ## Steps -/

section
variable {s s' : CaptureRun} {c : ℕ} {pc : CapturePc}

/-- What the calls know is still so after a call has moved. -/
theorem sound_goto (h : ∀ c pc, s.calls.lookup c = some pc → s.Sound pc)
    (hcalls : s'.calls = s.calls.insert c pc) (hmono : ∀ pc, s.Sound pc → s'.Sound pc)
    (hpc : s'.Sound pc) : ∀ c pc, s'.calls.lookup c = some pc → s'.Sound pc := by
  intro c' pc' hc'
  rw [hcalls] at hc'
  obtain ⟨-, rfl⟩ | hc' := lookup_insert_cases hc'
  · exact hpc
  · exact hmono pc' (h c' pc' hc')

theorem sound_done (h : ∀ c pc, s.calls.lookup c = some pc → s.Sound pc)
    (hcalls : s'.calls = s.calls.erase c) (hmono : ∀ pc, s.Sound pc → s'.Sound pc) :
    ∀ c pc, s'.calls.lookup c = some pc → s'.Sound pc := by
  intro c' pc' hc'
  rw [hcalls] at hc'
  exact hmono pc' (h c' pc' (lookup_of_erase hc').2)

theorem Sound.same (h : s.Sound pc) (hj : s'.hasJoy = s.hasJoy) (hg : s'.gen = s.gen)
    (hb : s'.begun = s.begun) (hs : s'.sections = s.sections) (he : s'.ended = s.ended) :
    s'.Sound pc := by
  refine h.mono hj (fun token n hn => ?_) fun token n hn => ⟨?_, ?_, ?_, ?_⟩
  · rw [Began, hg, hb]
    exact hn
  · exact hg ▸ hn.token_le
  · exact hs ▸ hn.section_le
  · rw [hg, hb]
    exact hn.after
  · rw [hs, he]
    exact hn.last

end

/-- **Each step keeps what the calls know.** -/
theorem Inv.calls_step {s s' : CaptureRun} {op : CaptureOp} (hi : s.Inv) (hm : Moves s op s') :
    ∀ c pc, s'.calls.lookup c = some pc → s'.Sound pc := by
  have hold := hi.calls
  have hbegun := hi.begun
  cases hm with
  | begins hnew =>
    refine sound_goto hold rfl (fun pc h => h.mono rfl (fun token n hn => ?_) fun token n hn => ?_)
      (.inl ⟨rfl, rfl⟩)
    · refine .inr ?_
      simp only [goto]
      rcases hn with ⟨rfl, rfl⟩ | ⟨ht, hn⟩ <;> omega
    · have htoken := hn.token_le
      have hsection := hn.section_le
      exact ⟨by simp only [goto]; omega, by simp only [goto]; omega, fun he => by
        simp only [goto] at he; omega, fun he => by simp only [goto] at he; omega⟩
  | ends hnew | fires ht hnew =>
    exact sound_goto hold rfl (fun pc h => h.same rfl rfl rfl rfl rfl) True.intro
  | hotkeys hc hj =>
    exact sound_goto hold rfl (fun pc h => h.same rfl rfl rfl rfl rfl) ⟨hj, hold _ _ hc⟩
  | alone hc hj => exact sound_done hold rfl (fun pc h => h.same rfl rfl rfl rfl rfl)
  | joystick hc => exact sound_goto hold rfl (fun pc h => h.same rfl rfl rfl rfl rfl) (hold _ _ hc)
  | arms hc => exact sound_done hold rfl (fun pc h => h.same rfl rfl rfl rfl rfl)
  | refuses hc hne => exact sound_done hold rfl (fun pc h => h.same rfl rfl rfl rfl rfl)
  | passes hc =>
    refine sound_goto hold rfl (fun pc h => h.mono rfl (fun _ _ hn => hn) fun token n hn => ?_)
      ⟨le_rfl, le_rfl, fun _ => Nat.lt_succ_of_le hbegun, fun _ => rfl⟩
    exact ⟨hn.token_le, hn.section_le.trans (Nat.le_succ _), hn.after, fun _ => rfl⟩
  | @resumes _ token n hc hj =>
    have h : s.Sound (.cancel token n) := ⟨hj, hold _ _ hc⟩
    exact sound_goto hold rfl (fun pc h => h.same rfl rfl rfl rfl rfl) (h.same rfl rfl rfl rfl rfl)
  | resumesAlone hc hj => exact sound_done hold rfl (fun pc h => h.same rfl rfl rfl rfl rfl)
  | @cancels _ token n hc =>
    have hsound := hold _ _ hc
    have h : s.Sound (.resumeJoystick token n) := ⟨hsound.1, hsound.2⟩
    exact sound_goto hold rfl (fun pc h => h.same rfl rfl rfl rfl rfl) (h.same rfl rfl rfl rfl rfl)
  | returns hc => exact sound_done hold rfl (fun pc h => h.same rfl rfl rfl rfl rfl)
  | completes | drops | checks | binds | fails =>
    exact fun c pc hc => (hold c pc hc).same rfl rfl rfl rfl rfl

/-- The number of the section of a call, and whose it is. -/
theorem Inv.number_le {s : CaptureRun} (hi : s.Inv) {c n : ℕ} {pc : CapturePc}
    (hc : s.calls.lookup c = some pc) (hn : number pc = some n) : n ≤ s.sections := by
  have hsound := hi.calls c pc hc
  have hbegun := hi.begun
  cases pc with
  | suspendHotkeys token m =>
    cases hn
    rcases hsound with ⟨-, rfl⟩ | ⟨-, hlt⟩ <;> omega
  | suspendJoystick token m | arm token m =>
    cases hn
    rcases hsound.2 with ⟨-, rfl⟩ | ⟨-, hlt⟩ <;> omega
  | ending token => cases hn
  | resumeHotkeys token m =>
    cases hn
    exact hsound.section_le
  | cancel token m | resumeJoystick token m =>
    cases hn
    exact hsound.2.section_le

/-- A call of the last section is a `BeginCapture` just when the capture is open. -/
theorem Inv.ended_of_begins {s : CaptureRun} (hi : s.Inv) {token n : ℕ} (hb : s.Began token n)
    (hn : n = s.sections) (hpos : 0 < n) : s.ended = false := by
  by_contra hended
  have hclosed := hi.closed (by simpa using hended)
  rcases hb with ⟨-, rfl⟩ | ⟨-, hlt⟩ <;> have := hi.begun <;> omega

section
variable {s s' : CaptureRun} {op : CaptureOp}

/-- **Each step keeps who is the last to act** on the hotkey manager. -/
theorem Inv.hk_step (hi : s.Inv) (hok : s.InOrder op) (hm : Moves s op s') :
    s'.Settles owesHotkeys s'.hkBy (s'.hk = !s'.ended) := by
  have h := hi.hk
  cases hm with
  | begins hnew => exact .new (AList.lookup_insert _) rfl
  | ends hnew | fires ht hnew => exact h.enter hnew (fun _ => AList.lookup_insert_ne) rfl
  | hotkeys hc hj | alone hc hj =>
    simp only [InOrder, hc] at hok
    refine h.act hc rfl hok (hi.number_le hc rfl) ?_ rfl fun hn => ?_
    · first
      | exact fun _ => AList.lookup_insert_ne
      | exact fun _ => AList.lookup_erase_ne
    · exact (congrArg (! ·) (hi.ended_of_begins (hi.calls _ _ hc) hn (by omega))).symm
  | joystick hc | cancels hc =>
    exact h.keep hc (fun _ => AList.lookup_insert_ne) rfl nofun
  | arms hc | refuses hc hne | returns hc =>
    exact h.keep hc (fun _ => AList.lookup_erase_ne) rfl nofun
  | passes hc => exact .new (AList.lookup_insert _) rfl
  | resumes hc hj =>
    simp only [InOrder, hc] at hok
    refine h.act hc rfl hok (hi.number_le hc rfl) (fun _ => AList.lookup_insert_ne) rfl fun hn => ?_
    exact (congrArg (! ·) ((hi.calls _ _ hc).last hn)).symm
  | resumesAlone hc hj =>
    simp only [InOrder, hc] at hok
    refine h.act hc rfl hok (hi.number_le hc rfl) (fun _ => AList.lookup_erase_ne) rfl fun hn => ?_
    exact (congrArg (! ·) ((hi.calls _ _ hc).last hn)).symm
  | completes | drops | checks | binds | fails => exact h

theorem Inv.joy_step (hi : s.Inv) (hok : s.InOrder op) (hm : Moves s op s')
    (hj : s'.hasJoy = true) : s'.Settles owesJoystick s'.joyBy (s'.joy = !s'.ended) := by
  cases hm with
  | begins hnew => exact .new (AList.lookup_insert _) rfl
  | ends hnew | fires ht hnew =>
    exact (hi.joy hj).enter hnew (fun _ => AList.lookup_insert_ne) rfl
  | hotkeys hc hj | resumes hc hj | cancels hc =>
    exact (hi.joy hj).keep hc (fun _ => AList.lookup_insert_ne) rfl fun _ hn =>
      ⟨_, AList.lookup_insert _, hn⟩
  | alone hc hno | resumesAlone hc hno => exact absurd (hno.symm.trans hj) (by decide)
  | joystick hc =>
    simp only [InOrder, hc] at hok
    refine (hi.joy hj).act hc rfl hok (hi.number_le hc rfl) (fun _ => AList.lookup_insert_ne) rfl
      fun hn => ?_
    exact (congrArg (! ·) (hi.ended_of_begins (hi.calls _ _ hc).2 hn (by omega))).symm
  | arms hc | refuses hc hne =>
    exact (hi.joy hj).keep hc (fun _ => AList.lookup_erase_ne) rfl nofun
  | passes hc => exact .new (AList.lookup_insert _) rfl
  | returns hc =>
    simp only [InOrder, hc] at hok
    refine (hi.joy hj).act hc rfl hok (hi.number_le hc rfl) (fun _ => AList.lookup_erase_ne) rfl
      fun hn => ?_
    exact (congrArg (! ·) ((hi.calls _ _ hc).2.last hn)).symm
  | completes | drops | checks | binds | fails => exact hi.joy hj

theorem Inv.capture_step (hi : s.Inv) (hok : s.InOrder op) (hm : Moves s op s')
    (hj : s'.hasJoy = true) : s'.Settles owesCapture s'.captureBy
      (s'.ended = false → s'.capture = some s'.gen ∨ s'.completed = true) := by
  cases hm with
  | begins hnew => exact .new (AList.lookup_insert _) rfl
  | ends hnew | fires ht hnew =>
    exact (hi.capture hj).enter hnew (fun _ => AList.lookup_insert_ne) rfl
  | hotkeys hc hj | resumes hc hj | joystick hc =>
    exact (hi.capture hj).keep hc (fun _ => AList.lookup_insert_ne) rfl fun _ hn =>
      ⟨_, AList.lookup_insert _, hn⟩
  | alone hc hno | resumesAlone hc hno => exact absurd (hno.symm.trans hj) (by decide)
  | @arms c token n hc =>
    simp only [InOrder, hc] at hok
    refine (hi.capture hj).act hc rfl hok (hi.number_le hc rfl) (fun _ => AList.lookup_erase_ne) rfl
      fun hn hopen => .inl ?_
    rcases (hi.calls _ _ hc).2 with ⟨rfl, -⟩ | ⟨-, hlt⟩
    · exact rfl
    · have hlast : s.begun = s.sections := (hi.opened hopen).1
      have hn : n = s.sections := hn
      omega
  | refuses hc hne | returns hc =>
    exact (hi.capture hj).keep hc (fun _ => AList.lookup_erase_ne) rfl nofun
  | passes hc => exact .new (AList.lookup_insert _) rfl
  | cancels hc =>
    simp only [InOrder, hc] at hok
    refine (hi.capture hj).act hc rfl hok.1 (hi.number_le hc rfl) (fun _ => AList.lookup_insert_ne)
      rfl fun hn hopen => ?_
    have hended := (hi.calls _ _ hc).2.last hn
    exact absurd (hended.symm.trans hopen) (by decide)
  | completes hcap hnone =>
    refine (hi.capture hj).same rfl rfl fun hr hopen => .inr ?_
    rcases hr hopen with he | hc
    · cases hcap.symm.trans he
      simp
    · simp [hc]
  | drops | checks | binds | fails => exact hi.capture hj

/-- The open capture's section is the last one, and an ended one's is not. -/
theorem Inv.sections_step (hi : s.Inv) (hm : Moves s op s') : s'.begun ≤ s'.sections ∧
    (s'.ended = false → s'.begun = s'.sections ∧ 0 < s'.sections) ∧
    (s'.ended = true → s'.begun < s'.sections ∨ s'.sections = 0) := by
  have h : s.begun ≤ s.sections ∧ (s.ended = false → s.begun = s.sections ∧ 0 < s.sections) ∧
      (s.ended = true → s.begun < s.sections ∨ s.sections = 0) := ⟨hi.begun, hi.opened, hi.closed⟩
  cases hm with
  | begins hnew => exact ⟨le_rfl, fun _ => ⟨rfl, Nat.succ_pos _⟩, fun he => by cases he⟩
  | passes hc =>
    refine ⟨h.1.trans (Nat.le_succ _), fun he => ?_, fun _ => .inl (Nat.lt_succ_of_le h.1)⟩
    cases he
  | _ => exact h

theorem Inv.alone_step (hi : s.Inv) (hm : Moves s op s') (hj : s'.hasJoy = false) :
    s'.joy = false ∧ s'.capture = none ∧ s'.completion = none := by
  have hno : ∀ {c pc}, s.calls.lookup c = some pc → (s.Sound pc → s.hasJoy = true) →
      s.hasJoy = false → False := by
    intro c pc hc hs hj
    exact absurd (hj.symm.trans (hs (hi.calls c pc hc))) (by decide)
  cases hm with
  | begins | ends | fires | alone | refuses | passes | resumesAlone => exact hi.alone hj
  | hotkeys hc hyes | resumes hc hyes => exact absurd (hj.symm.trans hyes) (by decide)
  | joystick hc | arms hc | cancels hc | returns hc => exact (hno hc (fun h => h.1) hj).elim
  | completes hcap hnone =>
    have := (hi.alone hj).2.1
    rw [hcap] at this
    cases this
  | drops hx | checks hx | binds hx | fails hx =>
    have := (hi.alone hj).2.2
    rw [hx] at this
    cases this

/-- A completed capture that has been checked carries the current token. -/
theorem Inv.checked_step (hi : s.Inv) (hok : s.InOrder op) (hm : Moves s op s') :
    ∀ x ∈ s'.completion, x.isChecked = true → x.token = s'.gen := by
  intro x hx hchecked
  cases hm with
  | begins hnew =>
    rw [hok x hx] at hchecked
    cases hchecked
  | completes hcap hnone =>
    cases hx
    cases hchecked
  | checks hx' =>
    cases hx
    rfl
  | drops | binds | fails => cases hx
  | _ => exact hi.checked x hx hchecked

/-- The call that moves is not a cancelling end of the current capture afterwards. -/
theorem Cancelled.back (h : s'.Cancelled) {c : ℕ} (hreturned : s'.returned = s.returned)
    (hgen : s'.gen = s.gen) (hother : ∀ c', c' ≠ c → s'.calls.lookup c' = s.calls.lookup c')
    (hc : ∀ n, s'.calls.lookup c ≠ some (.resumeJoystick s.gen n)) : s.Cancelled := by
  rcases h with h | ⟨c', n, h⟩
  · exact .inl (hreturned ▸ h)
  · rw [hgen] at h
    by_cases he : c' = c
    · subst he
      exact absurd h (hc n)
    · exact .inr ⟨c', n, (hother c' he) ▸ h⟩

/-- **A cancelled capture stays cancelled**, and nothing of it is on its way. -/
theorem Inv.cancelled_step (hi : s.Inv) (hok : s.InOrder op) (hm : Moves s op s')
    (hj : s'.hasJoy = true) (h : s'.Cancelled) : s'.capture ≠ some s'.gen ∧
      (∀ x ∈ s'.completion, x.token ≠ s'.gen) ∧ s'.begun < s'.captureBy := by
  -- the call goes on to something else than the resumption of the joystick manager
  have hgoto : ∀ {c pc}, s'.calls = s.calls.insert c pc → s'.returned = s.returned →
      s'.gen = s.gen → (∀ n, pc ≠ .resumeJoystick s.gen n) → s.Cancelled := by
    intro c pc hcalls hreturned hgen hpc
    refine h.back (c := c) hreturned hgen (fun c' hne => ?_) fun n hn => ?_
    · rw [hcalls, AList.lookup_insert_ne hne]
    · rw [hcalls, AList.lookup_insert] at hn
      exact hpc n (Option.some.inj hn)
  have hdone : ∀ {c}, s'.calls = s.calls.erase c → s'.returned = s.returned →
      s'.gen = s.gen → s.Cancelled := by
    intro c hcalls hreturned hgen
    refine h.back (c := c) hreturned hgen (fun c' hne => ?_) fun n hn => ?_
    · rw [hcalls, AList.lookup_erase_ne hne]
    · rw [hcalls, AList.lookup_erase] at hn
      cases hn
  cases hm with
  | @begins c action hnew =>
    exfalso
    rcases h with h | ⟨c', n, hc'⟩
    · cases h
    · by_cases he : c' = c
      · subst he
        rw [goto, AList.lookup_insert] at hc'
        cases hc'
      · rw [goto, AList.lookup_insert_ne he] at hc'
        have hle : s.gen + 1 ≤ s.gen := (hi.calls _ _ hc').2.token_le
        omega
  | ends | fires | hotkeys | joystick | passes | resumes =>
    exact hi.cancelled hj (hgoto rfl rfl rfl nofun)
  | alone hc hno | resumesAlone hc hno => exact absurd (hno.symm.trans hj) (by decide)
  | refuses => exact hi.cancelled hj (hdone rfl rfl rfl)
  | @arms c token n hc =>
    -- a `BeginCapture` that comes after the cancellation is out of order
    exfalso
    obtain ⟨-, -, hby⟩ := hi.cancelled hj (hdone rfl rfl rfl)
    simp only [InOrder, hc] at hok
    rcases (hi.calls _ _ hc).2 with ⟨-, rfl⟩ | ⟨-, hlt⟩ <;> omega
  | @cancels c token n hc =>
    simp only [InOrder, hc] at hok
    refine ⟨nofun, ?_⟩
    by_cases he : token = s.gen
    · subst he
      exact ⟨hok.2, (hi.calls _ _ hc).2.after rfl⟩
    · obtain ⟨-, hx, hby⟩ := hi.cancelled hj (hgoto rfl rfl rfl fun n hn => by cases hn; exact he rfl)
      exact ⟨hx, hby.trans hok.1⟩
  | @returns c token n hc =>
    refine hi.cancelled hj ?_
    by_cases he : token = s.gen
    · subst he
      exact .inr ⟨c, n, hc⟩
    · exact hdone rfl (by simp [doneEnd, done, he]) rfl
  | completes hcap hnone =>
    obtain ⟨hne, -, hby⟩ := hi.cancelled hj h
    refine ⟨nofun, fun x hx => ?_, hby⟩
    cases hx
    exact fun he => hne (hcap.trans (congrArg some he))
  | drops | binds | fails => exact ⟨(hi.cancelled hj h).1, nofun, (hi.cancelled hj h).2.2⟩
  | checks hx => exact absurd rfl ((hi.cancelled hj h).2.1 _ hx)

theorem Inv.bounds_step (hi : s.Inv) (hm : Moves s op s') : s'.BoundsTimely := by
  cases hm with
  | binds hx =>
    have htoken := hi.checked _ hx rfl
    have hj : s.hasJoy = true := by
      by_contra hno
      have := (hi.alone (by simpa using hno)).2.2
      rw [hx] at this
      cases this
    intro b hb
    rcases List.mem_append.1 hb with hb | hb
    · exact hi.bounds b hb
    · rw [List.mem_singleton.1 hb]
      refine ⟨by simpa [Completion.token] using htoken, ?_⟩
      by_contra hclosed
      exact (hi.cancelled hj (.inl (by simpa using hclosed))).2.1 _ hx htoken
  | _ => exact hi.bounds

theorem Inv.step (hi : s.Inv) (hok : s.InOrder op) (h : s.step op = some s') : s'.Inv :=
  have hm := moves_of_step h
  have hsections := hi.sections_step hm
  { calls := hi.calls_step hm
    begun := hsections.1
    opened := hsections.2.1
    closed := hsections.2.2
    hk := hi.hk_step hok hm
    joy := hi.joy_step hok hm
    capture := hi.capture_step hok hm
    alone := hi.alone_step hm
    cancelled := hi.cancelled_step hok hm
    checked := hi.checked_step hok hm
    bounds := hi.bounds_step hm }

end

/-! ## Runs -/

/-- A call or a completion that comes with an older token is gone, and nothing else. -/
def RefusesOld (s : CaptureRun) : Prop :=
  (∀ c token, s.calls.lookup c = some (.ending token) → token ≠ s.gen →
    s.step (.run c) = some (s.done c)) ∧
  ∀ token, s.completion = some (.captured token) → token ≠ s.gen →
    s.step .deliver = some { s with completion := none }

theorem refusesOld (s : CaptureRun) : s.RefusesOld := by
  refine ⟨fun c token hc hne => ?_, fun token hx hne => ?_⟩
  · simp only [CaptureRun.step, hc, Option.map_some, run, if_pos hne]
  · have hstale : token ≠ s.gen ∨ s.action = "" := .inl hne
    simp only [CaptureRun.step, hx, if_pos hstale]

/-- **Captures in order.** In every run in which the calls reach each manager in the order of
their sections, and no completed capture is on its way when it is cancelled, or between its
check and its binding when the next capture begins. -/
theorem captures_exclusive {hasJoy : Bool} {ops : List CaptureOp} {t : CaptureRun}
    (h : exec step (init hasJoy) ops = some t) (hok : Meets step InOrder (init hasJoy) ops) :
    t.Exclusive ∧ t.RefusesOld ∧ t.BoundsTimely ∧ t.Resumed := by
  have hi : t.Inv := exec_invariant (fun _ _ _ hi hok hm => hi.step hok hm) (init_inv hasJoy) hok h
  exact ⟨hi.exclusive, refusesOld t, hi.bounds, hi.resumed⟩

/-- A joystick capture that binds and is ended. -/
def captureRun : List CaptureOp :=
  [.beginCapture 0 "global.ptt", .run 0, .run 0, .run 0, .complete, .deliver, .bind true,
    .endCapture 1 1, .run 1, .run 1, .run 1, .run 1]

theorem captures_exclusive_bound : ∃ t, exec step (init true) captureRun = some t ∧
    t.bounds = [⟨"global.ptt", true, false⟩] ∧ t.hk = false ∧ t.joy = false := by
  have h : (exec step (init true) captureRun).map (fun t =>
      (t.bounds, t.ended, t.calls.keys, t.completion)) =
      some ([⟨"global.ptt", true, false⟩], true, [], none) := by
    decide +kernel
  obtain ⟨t, ht, hfacts⟩ := Option.map_eq_some_iff.1 h
  simp only [Prod.mk.injEq] at hfacts
  obtain ⟨hbounds, hended, hcalls, hnone⟩ := hfacts
  exact ⟨t, ht, hbounds, (captures_exclusive ht (by decide +kernel)).2.2.2 hended hcalls hnone⟩

/-- The end of the first capture resumes the managers under the second one. -/
def overtakenRun : List CaptureOp :=
  [.beginCapture 0 "global.ptt", .run 0, .run 0, .run 0, .endCapture 1 1, .run 1,
    .beginCapture 2 "global.mute_toggle", .run 2, .run 2, .run 2, .run 1, .run 1, .run 1]

/-- The first `BeginCapture` suspends the managers after the second capture has ended. -/
def suspendedRun : List CaptureOp :=
  [.beginCapture 0 "global.ptt", .beginCapture 1 "global.mute_toggle", .run 1, .run 1, .run 1,
    .endCapture 2 2, .run 2, .run 2, .run 2, .run 2, .run 0, .run 0, .run 0]

/-- The capture completes, and is delivered when its end has returned. -/
def lateRun : List CaptureOp :=
  [.beginCapture 0 "global.ptt", .run 0, .run 0, .run 0, .complete, .endCapture 1 1, .run 1,
    .run 1, .run 1, .run 1, .deliver, .bind true]

/-- **A call can be overtaken** after it has checked its token: the managers run under an open
capture, they stay suspended under none, and an ended capture binds. -/
theorem capture_overtaken :
    (∃ t, exec step (init true) overtakenRun = some t ∧ ¬t.Exclusive) ∧
    (∃ t, exec step (init true) suspendedRun = some t ∧ ¬t.Resumed) ∧
    ∃ t, exec step (init true) lateRun = some t ∧ ¬t.BoundsTimely := by
  have h₁ : (exec step (init true) overtakenRun).map (fun t => (t.ended, t.calls.keys, t.hk)) =
      some (false, [], false) := by
    decide +kernel
  have h₂ : (exec step (init true) suspendedRun).map
      (fun t => (t.ended, t.calls.keys, t.completion, t.hk)) = some (true, [], none, true) := by
    decide +kernel
  have h₃ : (exec step (init true) lateRun).map (·.bounds) = some [⟨"global.ptt", true, true⟩] := by
    decide +kernel
  obtain ⟨t₁, ht₁, hfacts₁⟩ := Option.map_eq_some_iff.1 h₁
  obtain ⟨t₂, ht₂, hfacts₂⟩ := Option.map_eq_some_iff.1 h₂
  obtain ⟨t₃, ht₃, hbounds⟩ := Option.map_eq_some_iff.1 h₃
  simp only [Prod.mk.injEq] at hfacts₁ hfacts₂
  refine ⟨⟨t₁, ht₁, fun he => ?_⟩, ⟨t₂, ht₂, fun hr => ?_⟩, ⟨t₃, ht₃, fun hb => ?_⟩⟩
  · have hreturned : ∀ c pc, t₁.calls.lookup c = some pc →
        CapturePc.begins t₁.gen pc = false := by
      intro c pc hc
      have hmem : c ∈ t₁.calls.keys := AList.lookup_isSome.1 (by simp [hc])
      rw [hfacts₁.2.1] at hmem
      cases hmem
    have := (he hfacts₁.1 hreturned).1
    rw [hfacts₁.2.2] at this
    cases this
  · have := (hr hfacts₂.1 hfacts₂.2.1 hfacts₂.2.2.1).1
    rw [hfacts₂.2.2.2] at this
    cases this
  · have := (hb ⟨"global.ptt", true, true⟩ (by rw [hbounds]; exact List.mem_singleton_self _)).2
    cases this

end VcsClient.App.CaptureRun
