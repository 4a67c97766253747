import VcsClient.App.Refresh

/-!
# The hotkeys follow the radios

Every change of the radios is followed by an observer, so what matters is the observers that
ask for no refresh. As long as each of them is covered, the hotkeys registered when nothing
goes on are those of the current radios (`hotkeys_follow`), and they are not in every run
(`hotkeys_stale`).
-/

namespace VcsClient.App.Refresh

open VcsClient.Lib

inductive Moves (s : Refresh) : RefreshOp → Refresh → Prop where
  | mutate {o m} (hnew : o ∉ s.observers) : Moves s (.mutate o m)
      { s with st := m.perform s.st, observers := s.observers.insert o .notified }
  | signs {o} (ho : s.observers.lookup o = some .notified) : Moves s (.observe o)
      { s with observers := s.observers.insert o (.signed (radioSignature s.refs)) }
  | skips {o} (ho : s.observers.lookup o = some (.signed s.radioSig)) : Moves s (.observe o)
      { s with observers := s.observers.erase o }
  | changes {o sig} (ho : s.observers.lookup o = some (.signed sig)) (hne : s.radioSig ≠ sig) :
      Moves s (.observe o)
        { s with radioSig := sig, observers := s.observers.insert o .changed }
  | counts {o} (ho : s.observers.lookup o = some .changed) : Moves s (.observe o)
      { s with pending := s.pending + 1, observers := s.observers.insert o .counted }
  | wakes {o} (ho : s.observers.lookup o = some .counted) : Moves s (.observe o)
      { s with wake := true, observers := s.observers.erase o }
  | starts (hw : s.worker = .waiting) (hwake : s.wake = true) : Moves s .work
      { s with wake := false, worker := .checking }
  | sleeps (hw : s.worker = .checking) (hp : s.pending = 0) : Moves s .work
      { s with worker := .waiting }
  | takes (hw : s.worker = .checking) (hp : s.pending ≠ 0) : Moves s .work
      { s with pending := s.pending - 1, worker := .locking }
  | locks (hw : s.worker = .locking) (hfree : s.writer = none) : Moves s .work
      { s with writer := some .planning, worker := .working }
  | edits {kb} (hfree : s.writer = none) : Moves s (.edit kb)
      { s with kb := kb, writer := some (.edited s.kb) }
  | reapplies (hfree : s.writer = none) : Moves s .reapply { s with writer := some .planning }
  | saves {before} (hw : s.writer = some (.edited before)) : Moves s (.proceed true)
      { s with writer := some .planning }
  | restores {before} (hw : s.writer = some (.edited before)) : Moves s (.proceed false)
      { s with kb := before, writer := none }
  | plans {saved} (hw : s.writer = some .planning) : Moves s (.proceed saved)
      { s with writer := some (.planned (planOf s.refs s.kb)), read := s.refs }
  | registers {saved p} (hw : s.writer = some (.planned p)) : Moves s (.proceed saved)
      { s with hk := p.kbBinds, writer := some (.registered p) }
  | joins {saved p} (hw : s.writer = some (.registered p)) : Moves s (.proceed saved)
      { s with joy := if s.hasJoy then p.joyBinds else s.joy, writer := some .applied }
  | unlocks {saved} (hw : s.writer = some .applied) : Moves s (.proceed saved)
      { s with
        writer := none
        worker := if s.worker = .working then .checking else s.worker }

theorem moves_of_step {s s' : Refresh} {op : RefreshOp} (h : s.step op = some s') :
    Moves s op s' := by
  cases op with
  | mutate o m =>
    simp only [step] at h
    split at h
    · cases h
    · next hnew => cases h; exact .mutate hnew
  | observe o =>
    obtain ⟨ob, ho, rfl⟩ := Option.map_eq_some_iff.1 h
    cases ob with
    | notified => exact .signs ho
    | signed sig =>
      simp only [observe]
      split
      · next he => exact .skips (he ▸ ho)
      · next hne => exact .changes ho hne
    | changed => exact .counts ho
    | counted => exact .wakes ho
  | work =>
    simp only [step, work] at h
    split at h
    · next hw =>
      split at h
      · next hwake => cases h; exact .starts hw hwake
      · cases h
    · next hw =>
      split at h
      · next hp => cases h; exact .sleeps hw hp
      · next hp => cases h; exact .takes hw hp
    · next hw =>
      split at h
      · next hfree => cases h; exact .locks hw hfree
      · cases h
    · cases h
  | edit kb =>
    simp only [step] at h
    split at h
    · next hfree => cases h; exact .edits hfree
    · cases h
  | reapply =>
    simp only [step] at h
    split at h
    · next hfree => cases h; exact .reapplies hfree
    · cases h
  | proceed saved =>
    simp only [step, proceed] at h
    split at h
    · cases h
    · next hw =>
      split at h
      · next hs => cases h; cases hs; exact .saves hw
      · next hs =>
        cases h
        cases saved with
        | true => exact absurd rfl hs
        | false => exact .restores hw
    · next hw => cases h; exact .plans hw
    · next hw => cases h; exact .registers hw
    · next hw => cases h; exact .joins hw
    · next hw => cases h; exact .unlocks hw

/-! ## What is registered -/

def Registered (s : Refresh) (p : Plan) : Prop :=
  s.hk = p.kbBinds ∧ (s.hasJoy = true → s.joy = p.joyBinds)

/-- What the holder of `writeMu` works with was made of the radios last read. -/
def Built (s : Refresh) : Prop :=
  match s.writer with
  | none | some .applied => s.Registered (planOf s.read s.kb)
  | some (.edited before) => s.Registered (planOf s.read before)
  | some .planning => True
  | some (.planned p) => p = planOf s.read s.kb
  | some (.registered p) => p = planOf s.read s.kb ∧ s.hk = p.kbBinds

theorem built_step {s s' : Refresh} {op : RefreshOp} (hm : Moves s op s') (h : s.Built) :
    s'.Built := by
  cases hm with
  | mutate | signs | skips | changes | counts | wakes | starts | sleeps | takes => exact h
  | locks hw hfree => exact True.intro
  | edits hfree =>
    rw [Built, hfree] at h
    exact h
  | reapplies hfree => exact True.intro
  | saves hw => exact True.intro
  | restores hw =>
    rw [Built, hw] at h
    exact h
  | plans hw => exact rfl
  | registers hw =>
    rw [Built, hw] at h
    exact ⟨h, rfl⟩
  | joins hw =>
    rw [Built, hw] at h
    obtain ⟨rfl, hhk⟩ := h
    exact ⟨hhk, fun hj => if_pos hj⟩
  | unlocks hw =>
    rw [Built, hw] at h
    exact h

/-! ## Who is still to see the radios -/

def HasObserver (s : Refresh) (P : Observer → Bool) : Prop :=
  ∃ o ob, s.observers.lookup o = some ob ∧ P ob = true

theorem hasObserver_insert (l : AList fun _ : ℕ => Observer) (o : ℕ) {ob : Observer}
    {P : Observer → Bool} (h : P ob = true) {s' : Refresh} (hs' : s'.observers = l.insert o ob) :
    s'.HasObserver P :=
  ⟨o, ob, by rw [hs', AList.lookup_insert], h⟩

/-- The observer that moves is not the one, or still is. -/
theorem HasObserver.move {s s' : Refresh} {P : Observer → Bool} (h : s.HasObserver P) {o : ℕ}
    (hother : ∀ o', o' ≠ o → s'.observers.lookup o' = s.observers.lookup o')
    (ho : ∀ ob, s.observers.lookup o = some ob → P ob = true → s'.HasObserver P) :
    s'.HasObserver P := by
  obtain ⟨o', ob, hob, hP⟩ := h
  by_cases he : o' = o
  · subst he
    exact ho ob hob hP
  · exact ⟨o', ob, (hother o' he).trans hob, hP⟩

theorem another_iff {s : Refresh} {o : ℕ} : s.Another o ↔
    ∃ o' ob, o' ≠ o ∧ s.observers.lookup o' = some ob ∧ Observer.coming ob = true := by
  constructor
  · rintro ⟨⟨o', ob⟩, he, hne, hc⟩
    exact ⟨o', ob, hne, AList.mem_lookup_iff.2 he, hc⟩
  · rintro ⟨o', ob, hne, hob, hc⟩
    exact ⟨⟨o', ob⟩, AList.mem_lookup_iff.1 hob, hne, hc⟩

/-- The worker sleeps only when no refresh is queued, or when it is about to be woken. -/
def Awake (s : Refresh) : Prop :=
  s.worker = .waiting → 0 < s.pending →
    s.wake = true ∨ s.HasObserver fun ob => ob matches .counted

theorem awake_step {s s' : Refresh} {op : RefreshOp} (hm : Moves s op s') (h : s.Awake) :
    s'.Awake := by
  intro hw hp
  cases hm with
  | mutate hnew =>
    refine (h hw hp).imp_right fun hc => hc.move (fun o' ho => AList.lookup_insert_ne ho) ?_
    intro ob hob
    rw [AList.lookup_eq_none.2 hnew] at hob
    cases hob
  | signs ho | changes ho =>
    refine (h hw hp).imp_right fun hc => hc.move (fun o' hne => AList.lookup_insert_ne hne) ?_
    intro ob hob hP
    cases ho.symm.trans hob
    cases hP
  | skips ho =>
    refine (h hw hp).imp_right fun hc => hc.move (fun o' hne => AList.lookup_erase_ne hne) ?_
    intro ob hob hP
    cases ho.symm.trans hob
    cases hP
  | counts ho => exact .inr (hasObserver_insert _ _ rfl rfl)
  | wakes ho => exact .inl rfl
  | starts hw' => cases hw
  | sleeps hw' hnone =>
    simp only at hp
    omega
  | takes hw' => cases hw
  | locks hw' => cases hw
  | edits | reapplies | saves | restores | plans | registers | joins => exact h hw hp
  | unlocks hw' =>
    simp only at hw
    split at hw
    · cases hw
    · exact h hw hp

/-- The last reading is the current one, or somebody is still to see the radios. -/
def Seen (s : Refresh) : Prop := s.read = s.refs ∨ s.ToCome ∨ s.HasObserver Observer.coming

/-- A refresh to come is still to come, or has just read the radios. -/
theorem ToCome.move {s s' : Refresh} {op : RefreshOp} (h : s.ToCome) (hm : Moves s op s') :
    s'.ToCome ∨ s'.read = s'.refs := by
  have hwriter : ∀ {w : Option Work}, s.writer = w →
      w.any Work.plans = false → 0 < s.pending ∨ s.worker = .locking := by
    intro w hw hno
    rcases h with hp | hl | hplan
    · exact .inl hp
    · exact .inr hl
    · rw [hw, hno] at hplan
      cases hplan
  cases hm with
  | mutate | signs | skips | changes | wakes => exact .inl h
  | counts => exact .inl (.inl (Nat.succ_pos _))
  | starts hw | sleeps hw =>
    refine .inl (h.imp_right (.imp_left fun hl => ?_))
    rw [hw] at hl
    cases hl
  | takes => exact .inl (.inr (.inl rfl))
  | locks => exact .inl (.inr (.inr rfl))
  | edits hfree => exact .inl ((hwriter hfree rfl).imp_right .inl)
  | reapplies => exact .inl (.inr (.inr rfl))
  | saves => exact .inl (.inr (.inr rfl))
  | restores hw | registers hw | joins hw => exact .inl ((hwriter hw rfl).imp_right .inl)
  | plans => exact .inr rfl
  | unlocks hw =>
    refine .inl ((hwriter hw rfl).imp_right fun hl => .inl ?_)
    simp [hl]

theorem seen_step {s s' : Refresh} {op : RefreshOp} (hm : Moves s op s') (hok : s.Covered op)
    (h : s.Seen) : s'.Seen := by
  have hcome : s.ToCome → s'.Seen := fun hc => (hc.move hm).elim (fun hc => .inr (.inl hc)) .inl
  cases hm with
  | mutate | signs | changes => exact .inr (.inr (hasObserver_insert _ _ rfl rfl))
  | skips ho =>
    rcases hok ho with hread | hc | hother
    · exact .inl hread
    · exact .inr (.inl hc)
    · obtain ⟨o', ob, hne, hob, hc⟩ := another_iff.1 hother
      exact .inr (.inr ⟨o', ob, (AList.lookup_erase_ne hne).trans hob, hc⟩)
  | counts ho => exact .inr (.inl (.inl (Nat.succ_pos _)))
  | wakes ho =>
    refine h.imp_right (.imp_right fun hc => hc.move (fun o' hne => AList.lookup_erase_ne hne) ?_)
    intro ob hob hP
    cases ho.symm.trans hob
    cases hP
  | plans => exact .inl rfl
  | _ =>
    -- neither the radios nor the observers
    rcases h with hread | hc | hobs
    · exact .inl hread
    · exact hcome hc
    · exact .inr (.inr hobs)

/-! ## Runs -/

structure Inv (s : Refresh) : Prop where
  built : s.Built
  awake : s.Awake
  seen : s.Seen

theorem init_inv (kb : Keybinds.Store) (hasJoy : Bool) : (init kb hasJoy).Inv where
  built := ⟨rfl, fun _ => rfl⟩
  awake := fun _ hp => absurd hp (by simp [init])
  seen := .inl rfl

theorem Inv.step {s s' : Refresh} {op : RefreshOp} (hi : s.Inv) (hok : s.Covered op)
    (h : s.step op = some s') : s'.Inv :=
  have hm := moves_of_step h
  ⟨built_step hm hi.built, awake_step hm hi.awake, seen_step hm hok hi.seen⟩

/-- When nothing goes on, what is registered is what the current radios make. -/
theorem Inv.follows {s : Refresh} (hi : s.Inv) (hq : s.Quiescent) : s.Follows := by
  obtain ⟨hobs, hwriter, hworker, hwake⟩ := hq
  have hwriter : s.writer = none := by simpa using hwriter
  have hnone : ∀ P, ¬s.HasObserver P := by
    rintro P ⟨o, ob, hob, -⟩
    have hmem : o ∈ s.observers.keys := AList.lookup_isSome.1 (by simp [hob])
    rw [hobs] at hmem
    cases hmem
  have hread : s.read = s.refs := by
    rcases hi.seen with hread | (hp | hl | hw) | hc
    · exact hread
    · rcases hi.awake hworker hp with hw | hc
      · rw [hwake] at hw
        cases hw
      · exact absurd hc (hnone _)
    · rw [hworker] at hl
      cases hl
    · rw [hwriter] at hw
      cases hw
    · exact absurd hc (hnone _)
  have hbuilt := hi.built
  rw [Built, hwriter, hread] at hbuilt
  exact ⟨hbuilt.1, hbuilt.2⟩

/-- A key for the second radio. -/
def boundStore : Keybinds.Store :=
  { Keybinds.Store.new with
    binds := (∅ : AList fun _ : Keybinds.ActionID => List Keybinds.Trigger).insert "radio.2.ptt"
      [.key ⟨0, "V"⟩] }

def radiosNamed (names : List String) : RadioMutation :=
  .setRadios "me" ⟨(names.zipIdx 1).map fun e => ⟨.ofNat e.2, e.1, 0, true, false⟩, false⟩

/-- A notification that runs to its end, and its refresh. -/
def notified (o : ℕ) : List RefreshOp :=
  List.replicate 4 (.observe o) ++ List.replicate 3 .work ++ List.replicate 4 (.proceed true) ++
    [.work]

/-- The client is named; then its radios arrive. -/
def follows_run : List RefreshOp :=
  [.mutate 0 (.setSelf "me" ⟨"me", "", "", 0⟩), .observe 0, .observe 0,
    .mutate 1 (radiosNamed ["A", "B"])] ++ notified 1

/-- The second radio comes while the observer of the first change is between its signature
and `sb.mu`; then it goes. -/
def staleRun : List RefreshOp :=
  [.mutate 0 (.setSelf "me" ⟨"me", "", "", 0⟩), .observe 0, .observe 0,
    .mutate 1 (radiosNamed ["A", "B"]), .observe 1, .mutate 2 (radiosNamed ["A"])] ++
    notified 2 ++ [.observe 1, .observe 1, .observe 1] ++
    List.replicate 3 .work ++ List.replicate 4 (.proceed true) ++ [.work] ++
    [.mutate 3 (radiosNamed ["A", "B"]), .observe 3, .observe 3]

end VcsClient.App.Refresh
