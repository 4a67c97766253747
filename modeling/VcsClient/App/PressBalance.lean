import VcsClient.App.HoldMap

/-!
# Press counts across `applyHotkeys`

Whether an action is a hold action is a matter of its id (`isHoldID`), so the kind a
manager has it under is the one every registry gives it. While `applyHotkeys` runs,
the union covers what either manager can still press or release (`Scope`); the
handler calls of an `Apply` and of the joystick manager end before the new map comes
(`Calls`), and each manager's share of a count is what it has pressed, a call under
way being counted or not yet (`Counted`). Only a `Released` of the keyboard manager may
be overtaken by the whole of it.
-/

namespace VcsClient.App

open VcsClient.Lib

/-! ## Kinds -/

def isHoldID (id : ActionID) : Bool :=
  decide (id = "global.push_to_mute") || ".ptt".toList.isSuffixOf id.toList

theorem isHoldID_ptt (s : String) : isHoldID (s ++ ".ptt") = true := by
  have hsuffix : ".ptt".toList.isSuffixOf (s ++ ".ptt").toList = true := by
    rw [String.toList_append]
    exact List.isSuffixOf_iff_suffix.2 (List.suffix_append _ _)
  rw [isHoldID, hsuffix, Bool.or_true]

theorem isHoldID_select (s : String) : isHoldID ("radio." ++ s ++ ".select") = false := by
  have hne : "radio." ++ s ++ ".select" ≠ "global.push_to_mute" := by
    intro h
    have := congrArg (fun t : String => t.toList.head?) h
    simp at this
  have hsuffix : ".ptt".toList.isSuffixOf ("radio." ++ s ++ ".select").toList = false := by
    rw [String.toList_append, List.isSuffixOf, List.reverse_append]
    rfl
  rw [isHoldID, hsuffix, Bool.or_false]
  exact decide_eq_false hne

/-- **The kind of an action** is a matter of its id. -/
theorem kind_of_mem {radios : List UInt32} {act : Action} (h : act ∈ keybindActions radios) :
    decide (act.kind = .hold) = isHoldID act.id := by
  rcases List.mem_append.1 h with h | h
  · have hall : ∀ act ∈ staticActions, decide (act.kind = .hold) = isHoldID act.id := by
      decide +kernel
    exact hall act h
  · obtain ⟨id, -, h⟩ := List.mem_flatMap.1 h
    rcases List.mem_cons.1 h with rfl | h
    · exact (isHoldID_ptt _).symm
    · cases List.mem_singleton.1 h
      exact (isHoldID_select _).symm

/-! ## Plans -/

namespace Plan

variable {p : Plan} {src : Source} {id : ActionID}

/-- Every binding has the kind of its action, and the hold map has the hold actions
that are bound. -/
structure Sound (p : Plan) : Prop where
  holds : ∀ id ∈ p.holds, isHoldID id = true
  kb : ∀ id b, p.kbBinds.lookup id = some b →
    b.hold = isHoldID id ∧ (isHoldID id = true → id ∈ p.holds)
  joy : ∀ id list, p.joyBinds.lookup id = some list →
    list ≠ [] ∧ (∀ b ∈ list, b.hold = isHoldID id) ∧ (isHoldID id = true → id ∈ p.holds)

theorem sound_addTrigger (h : p.Sound) (hid : isHoldID id = true → id ∈ p.holds)
    (t : Keybinds.Trigger) : (p.addTrigger id (isHoldID id) t).Sound ∧
      (p.addTrigger id (isHoldID id) t).holds = p.holds := by
  cases t with
  | key c =>
    unfold addTrigger
    dsimp only
    split
    · exact ⟨h, rfl⟩
    · refine ⟨{ h with kb := fun id' b hb => ?_ }, rfl⟩
      by_cases he : id' = id
      · subst he
        rw [AList.lookup_insert, Option.some.injEq] at hb
        subst hb
        exact ⟨rfl, hid⟩
      · rw [AList.lookup_insert_ne he] at hb
        exact h.kb id' b hb
  | joy b =>
    refine ⟨{ h with joy := fun id' list hl => ?_ }, rfl⟩
    by_cases he : id' = id
    · subst he
      rw [addTrigger, AList.lookup_insert, Option.some.injEq] at hl
      subst hl
      refine ⟨List.append_ne_nil_of_right_ne_nil _ (List.cons_ne_nil _ _), fun b' hb' => ?_, hid⟩
      rcases List.mem_append.1 hb' with hb' | hb'
      · cases hold : p.joyBinds.lookup id' with
        | none => simp [hold] at hb'
        | some list =>
          rw [hold] at hb'
          exact (h.joy id' list hold).2.1 b' hb'
      · cases List.mem_singleton.1 hb'
        rfl
    · rw [addTrigger, AList.lookup_insert_ne he] at hl
      exact h.joy id' list hl

theorem sound_addTriggers (h : p.Sound) (hid : isHoldID id = true → id ∈ p.holds)
    (list : List Keybinds.Trigger) : (list.foldl (addTrigger id (isHoldID id)) p).Sound := by
  induction list generalizing p with
  | nil => exact h
  | cons t list ih =>
    obtain ⟨ht, hholds⟩ := sound_addTrigger h hid t
    exact ih ht (hholds ▸ hid)

theorem sound_addAction {act : Action} (h : p.Sound)
    (hact : decide (act.kind = .hold) = isHoldID act.id) (list : Option (List Keybinds.Trigger)) :
    (p.addAction act list).Sound := by
  have hmem : ∀ id, isHoldID id = true → id ∈ p.holds ∨ id = act.id →
      id ∈ if isHoldID act.id then insert act.id p.holds else p.holds.erase act.id := by
    intro id hid hor
    split
    · exact Finset.mem_insert.2 hor.symm
    · next hne =>
      have hother : id ≠ act.id := fun he => hne (he ▸ hid)
      exact Finset.mem_erase.2 ⟨hother, hor.resolve_right hother⟩
  have hbase : Sound { p with
      holds := if isHoldID act.id then insert act.id p.holds else p.holds.erase act.id } := by
    refine ⟨fun id hid => ?_, fun id b hb => ?_, fun id list hl => ?_⟩
    · dsimp only at hid
      split at hid
      · next hhold =>
        rcases Finset.mem_insert.1 hid with rfl | hid
        · exact hhold
        · exact h.holds id hid
      · exact h.holds id (Finset.mem_of_mem_erase hid)
    · exact ⟨(h.kb id b hb).1, fun hid => hmem id hid (.inl ((h.kb id b hb).2 hid))⟩
    · obtain ⟨hne, hhold, hin⟩ := h.joy id list hl
      exact ⟨hne, hhold, fun hid => hmem id hid (.inl (hin hid))⟩
  unfold addAction
  rw [hact]
  cases list with
  | none => exact hbase
  | some list => exact sound_addTriggers hbase (fun hid => hmem act.id hid (.inr rfl)) list

theorem sound_make (radios : List UInt32) (get : ℕ → Option (List Keybinds.Trigger)) :
    (make radios get).Sound := by
  have hfold : ∀ (l : List (Action × ℕ)) (p : Plan), p.Sound →
      (∀ a ∈ l, decide (a.1.kind = .hold) = isHoldID a.1.id) →
        (l.foldl (fun p a => p.addAction a.1 (get a.2)) p).Sound := by
    intro l
    induction l with
    | nil => exact fun p hp _ => hp
    | cons a l ih =>
      intro p hp hl
      exact ih _ (sound_addAction hp (hl a List.mem_cons_self) _)
        fun a' ha' => hl a' (List.mem_cons_of_mem _ ha')
  refine hfold _ _ ⟨nofun, nofun, nofun⟩ fun a ha => @kind_of_mem radios _ ?_
  exact List.fst_mem_of_mem_zipIdx ha

/-- A manager has an action as what it is, and the hold map has the hold actions. -/
theorem Sound.binding (h : p.Sound) {hold : Bool} (hb : p.binding src id = some hold) :
    hold = isHoldID id ∧ (isHoldID id = true → id ∈ p.holds) := by
  cases src with
  | keyboard =>
    obtain ⟨b, hl, rfl⟩ := Option.map_eq_some_iff.1 hb
    exact h.kb id b hl
  | joystick =>
    obtain ⟨list, hl, rfl⟩ := Option.map_eq_some_iff.1 hb
    obtain ⟨hne, hhold, hin⟩ := h.joy id list hl
    refine ⟨?_, hin⟩
    cases list with
    | nil => exact absurd rfl hne
    | cons b list =>
      have hall : list.any (·.hold) = true → isHoldID id = true := fun hany => by
        obtain ⟨b', hb', hh⟩ := List.any_eq_true.1 hany
        exact (hhold b' (List.mem_cons_of_mem _ hb')).symm.trans hh
      rw [List.any_cons, hhold b List.mem_cons_self, Bool.or_eq_left_iff_imp]
      exact hall

/-- Every hold action that a manager can press is in the hold map. -/
theorem Sound.mem_holds (h : p.Sound) (hb : p.binding src id = some true) : id ∈ p.holds :=
  (h.binding hb).2 (h.binding hb).1.symm

end Plan

/-! ## Runs -/

namespace HoldRun

/-- The manager has the action as a hold action. -/
def Owns (bound : Source → Option Plan) (src : Source) (id : ActionID) : Prop :=
  ∃ p ∈ bound src, p.binding src id = some true

inductive Moves (s : HoldRun) : HoldOp → HoldRun → Prop where
  | planned {radios get} (hpc : s.pc = .idle) :
    Moves s (.apply radios get) { s with pc := .planned (.make radios get) }
  | united {p} (hpc : s.pc = .planned p) :
    Moves s .proceed
      { s with
        holds := s.holds ∪ p.holds
        pc := .united p }
  | keyboardApplies {p} (hpc : s.pc = .united p) :
    Moves s .proceed { s with pc := .draining .keyboard p }
  | keyboardApplied {p} (hpc : s.pc = .draining .keyboard p)
    (hdown : ∀ k ∈ s.down, k.1 ≠ .keyboard) (hcalls : s.NoCall fun _ c => c.byApply) :
    Moves s .proceed
      { s with
        bound := fun src => if src = .keyboard then some p else s.bound src
        pc := .registered p }
  | noJoystick {p} (hpc : s.pc = .registered p) (hj : s.joy = false) :
    Moves s .proceed { s with pc := .applied p }
  | joystickApplies {p} (hpc : s.pc = .registered p) (hj : s.joy = true)
    (hcalls : s.NoCall fun src _ => src = .joystick) :
    Moves s .proceed { s with pc := .draining .joystick p }
  | joystickApplied {p} (hpc : s.pc = .draining .joystick p)
    (hdown : ∀ k ∈ s.down, k.1 ≠ .joystick) (hcalls : s.NoCall fun _ c => c.byApply) :
    Moves s .proceed
      { s with
        bound := fun src => if src = .joystick then some p else s.bound src
        pc := .applied p }
  | installed {p} (hpc : s.pc = .applied p) :
    Moves s .proceed
      { s with
        holds := p.holds
        pc := .idle }
  | drained {src p id} (hpc : s.pc = .draining src p) (hfree : s.calls.lookup (src, id) = none)
    (hdown : (src, id) ∈ s.down) :
    Moves s (.drain id)
      { s with
        down := s.down.erase (src, id)
        calls := s.calls.insert (src, id) ⟨.release, false, true⟩ }
  | pressedHold {src id} (hpc : ¬ s.Draining src) (hfree : s.calls.lookup (src, id) = none)
    (hdown : (src, id) ∉ s.down) (howns : Owns s.bound src id) :
    Moves s (.pressed src id)
      { s with
        down := insert (src, id) s.down
        calls := s.calls.insert (src, id) ⟨.press, false, false⟩ }
  | pressedOther {src id p} (hpc : ¬ s.Draining src) (hfree : s.calls.lookup (src, id) = none)
    (hdown : (src, id) ∉ s.down) (hp : s.bound src = some p)
    (hb : p.binding src id = some false) :
    Moves s (.pressed src id)
      { s with calls := s.calls.insert (src, id) ⟨.press, false, false⟩ }
  | released {src id} (hpc : ¬ s.Draining src) (hfree : s.calls.lookup (src, id) = none)
    (hdown : (src, id) ∈ s.down) :
    Moves s (.released src id)
      { s with
        down := s.down.erase (src, id)
        calls := s.calls.insert (src, id) ⟨.release, false, false⟩ }
  | judged {src id c} (hc : s.calls.lookup (src, id) = some c) (hid : id ∈ s.holds) :
    Moves s (.isHold src id)
      { s with calls := s.calls.insert (src, id) { c with judged := true } }
  | passed {src id c} (hc : s.calls.lookup (src, id) = some c) (hj : c.judged = false)
    (hid : id ∉ s.holds) :
    Moves s (.isHold src id) { s with calls := s.calls.erase (src, id) }
  | pressCounted {src id c} (hc : s.calls.lookup (src, id) = some c) (hj : c.judged = true)
    (he : c.edge = .press) :
    Moves s (.count src id)
      { s with
        presses := (s.presses.press id).2
        calls := s.calls.erase (src, id) }
  | releaseCounted {src id c} (hc : s.calls.lookup (src, id) = some c) (hj : c.judged = true)
    (he : c.edge = .release) :
    Moves s (.count src id)
      { s with
        presses := (s.presses.release id).2
        calls := s.calls.erase (src, id) }

variable {s s' : HoldRun} {op : HoldOp} {ops : List HoldOp}

theorem moves_proceed (h : s.proceed = some s') : s.Moves .proceed s' := by
  unfold proceed at h
  split at h
  · cases h
  · next p hpc =>
    cases h
    exact .united hpc
  · next p hpc =>
    cases h
    exact .keyboardApplies hpc
  · next p hpc =>
    unfold registered at h
    split at h
    · next hdone =>
      cases h
      exact .keyboardApplied hpc hdone.1 hdone.2
    · cases h
  · next p hpc =>
    split at h
    · next hj =>
      cases h
      exact .noJoystick hpc hj
    · next hj =>
      split at h
      · next hcalls =>
        cases h
        exact .joystickApplies hpc (Bool.eq_true_of_not_eq_false hj) hcalls
      · cases h
  · next p hpc =>
    unfold registered at h
    split at h
    · next hdone =>
      cases h
      exact .joystickApplied hpc hdone.1 hdone.2
    · cases h
  · next p hpc =>
    cases h
    exact .installed hpc

/-- **What a step can do.** -/
theorem moves_of_step (h : s.step op = some s') : s.Moves op s' := by
  cases op with
  | apply radios get =>
    simp only [step] at h
    split at h
    · next hpc =>
      cases h
      exact .planned hpc
    · cases h
  | proceed => exact moves_proceed h
  | drain id =>
    simp only [step, drain] at h
    split at h
    · next src p hpc =>
      split at h
      · cases h
      · next hen =>
        rw [not_or, Option.not_isSome_iff_eq_none, not_not] at hen
        cases h
        exact .drained hpc hen.1 hen.2
    · cases h
  | pressed src id =>
    simp only [step, pressed] at h
    split at h
    · cases h
    · next hen =>
      rw [not_or, not_or, Option.not_isSome_iff_eq_none] at hen
      obtain ⟨hpc, hfree, hdown⟩ := hen
      split at h
      · cases h
      · next hb =>
        cases h
        exact .pressedHold hpc hfree hdown (Option.bind_eq_some_iff.1 hb)
      · next hb =>
        obtain ⟨p, hp, hb⟩ := Option.bind_eq_some_iff.1 hb
        cases h
        exact .pressedOther hpc hfree hdown hp hb
  | released src id =>
    simp only [step, released] at h
    split at h
    · cases h
    · next hen =>
      rw [not_or, not_or, Option.not_isSome_iff_eq_none, not_not] at hen
      cases h
      exact .released hen.1 hen.2.1 hen.2.2
  | isHold src id =>
    obtain ⟨c, hc, h⟩ := Option.bind_eq_some_iff.1 h
    unfold isHold at h
    split at h
    · cases h
    · next hj =>
      split at h
      · next hid =>
        cases h
        exact .judged hc hid
      · next hid =>
        cases h
        exact .passed hc (Bool.eq_false_of_not_eq_true hj) hid
  | count src id =>
    obtain ⟨c, hc, h⟩ := Option.bind_eq_some_iff.1 h
    unfold count at h
    split at h
    · next hj =>
      cases h
      cases he : c.edge with
      | press => exact .pressCounted hc hj he
      | release => exact .releaseCounted hc hj he
    · cases h

/-- What `applyHotkeys` has registered so far, where it stands. -/
def Stage (joy : Bool) (holds : Finset ActionID) (bound : Source → Option Plan) : ApplyPc → Prop
  | .idle => True
  | .planned p => p.Sound
  | .united p | .draining .keyboard p => p.Sound ∧ p.holds ⊆ holds
  | .registered p => p.Sound ∧ p.holds ⊆ holds ∧ bound .keyboard = some p
  | .draining .joystick p =>
    p.Sound ∧ p.holds ⊆ holds ∧ bound .keyboard = some p ∧ joy = true
  | .applied p => p.Sound ∧ p.holds ⊆ holds ∧ ∀ src, bound src = none ∨ bound src = some p

/-- **The hold map covers** what either manager can press. -/
structure Scope (joy : Bool) (holds : Finset ActionID) (bound : Source → Option Plan)
    (pc : ApplyPc) : Prop where
  kinds : ∀ id ∈ holds, isHoldID id = true
  plans : ∀ src, ∀ p ∈ bound src, p.Sound
  covered : ∀ src id, Owns bound src id → id ∈ holds
  noJoystick : joy = false → bound .joystick = none
  stage : Stage joy holds bound pc

/-- What holds of a handler call that is under way. -/
structure Calls (s : HoldRun) (src : Source) (id : ActionID) (c : EdgeCall) : Prop where
  kind : c.judged = true → isHoldID id = true
  apply : c.byApply = true → id ∈ s.holds ∧ ∃ p, s.pc = .draining src p
  tick : src = .joystick → c.byApply = false → ∀ p, s.pc ≠ .draining .joystick p
  press : c.edge = .press → c.byApply = false ∧ (isHoldID id = true → (src, id) ∈ s.down)
  release : c.edge = .release → isHoldID id = true ∧ (src, id) ∉ s.down ∧
    (src = .joystick → c.byApply = false → Owns s.bound src id)

/-- A manager's share of a count. -/
def share (down : Finset (Source × ActionID)) (calls : AList fun _ : Source × ActionID => EdgeCall)
    (src : Source) (id : ActionID) : ℕ :=
  match calls.lookup (src, id) with
  | none => if (src, id) ∈ down then 1 else 0
  | some c =>
    match c.edge with
    | .press => 0
    | .release => 1

/-- Every hold action counts the two shares, and nothing else is counted. -/
def Counted (presses : PressCount) (down : Finset (Source × ActionID))
    (calls : AList fun _ : Source × ActionID => EdgeCall) : Prop :=
  ∀ id, presses.count id =
    if isHoldID id then share down calls .keyboard id + share down calls .joystick id else 0

structure Balanced (s : HoldRun) : Prop where
  scope : Scope s.joy s.holds s.bound s.pc
  own : ∀ src id, (src, id) ∈ s.down → Owns s.bound src id
  calls : ∀ src id c, s.calls.lookup (src, id) = some c → Calls s src id c
  counted : Counted s.presses s.down s.calls

theorem balanced_init (joy : Bool) : (init joy).Balanced where
  scope := ⟨nofun, nofun, fun src id ⟨p, hp, _⟩ => (by cases hp), fun _ => rfl, trivial⟩
  own := nofun
  calls := fun src id c hc => by simp [init] at hc
  counted := fun id => by simp [init, PressCount.count, share]

/-! ### `applyHotkeys` -/

theorem scope_moves (hi : Scope s.joy s.holds s.bound s.pc) (hm : s.Moves op s') :
    Scope s'.joy s'.holds s'.bound s'.pc := by
  have hstage := hi.stage
  cases hm with
  | planned hpc => exact { hi with stage := Plan.sound_make _ _ }
  | @united p hpc =>
    rw [hpc] at hstage
    refine ⟨fun id hid => ?_, hi.plans,
      fun src id ho => Finset.mem_union_left _ (hi.covered src id ho), hi.noJoystick,
      hstage, Finset.subset_union_right⟩
    rcases Finset.mem_union.1 hid with hid | hid
    · exact hi.kinds id hid
    · exact hstage.holds id hid
  | keyboardApplies hpc =>
    rw [hpc] at hstage
    exact { hi with stage := hstage }
  | @keyboardApplied p hpc hdown hcalls =>
    rw [hpc] at hstage
    obtain ⟨hsound, hsub⟩ := hstage
    refine ⟨hi.kinds, fun src q hq => ?_, fun src id ho => ?_, hi.noJoystick, hsound, hsub, rfl⟩
    · cases src with
      | keyboard => cases hq; exact hsound
      | joystick => exact hi.plans .joystick q hq
    · cases src with
      | keyboard =>
        obtain ⟨q, hq, hb⟩ := ho
        cases hq
        exact hsub (hsound.mem_holds hb)
      | joystick => exact hi.covered .joystick id ho
  | @noJoystick p hpc hj =>
    rw [hpc] at hstage
    obtain ⟨hsound, hsub, hkb⟩ := hstage
    refine { hi with stage := ⟨hsound, hsub, fun src => ?_⟩ }
    cases src with
    | keyboard => exact .inr hkb
    | joystick => exact .inl (hi.noJoystick hj)
  | joystickApplies hpc hj hcalls =>
    rw [hpc] at hstage
    obtain ⟨hsound, hsub, hkb⟩ := hstage
    exact { hi with stage := ⟨hsound, hsub, hkb, hj⟩ }
  | @joystickApplied p hpc hdown hcalls =>
    rw [hpc] at hstage
    obtain ⟨hsound, hsub, hkb, hj⟩ := hstage
    refine ⟨hi.kinds, fun src q hq => ?_, fun src id ho => ?_,
      fun hj' => absurd (hj.symm.trans hj') nofun, hsound, hsub, fun src => ?_⟩
    · cases src with
      | keyboard => exact hi.plans .keyboard q hq
      | joystick => cases hq; exact hsound
    · cases src with
      | keyboard => exact hi.covered .keyboard id ho
      | joystick =>
        obtain ⟨q, hq, hb⟩ := ho
        cases hq
        exact hsub (hsound.mem_holds hb)
    · cases src with
      | keyboard => exact .inr hkb
      | joystick => exact .inr rfl
  | @installed p hpc =>
    rw [hpc] at hstage
    obtain ⟨hsound, hsub, hbound⟩ := hstage
    refine ⟨hsound.holds, hi.plans, fun src id ho => ?_, hi.noJoystick, trivial⟩
    obtain ⟨q, hq, hb⟩ := ho
    rcases hbound src with h | h
    · cases h.symm.trans hq
    · cases h.symm.trans hq
      exact hsound.mem_holds hb
  | drained | pressedHold | pressedOther | released | judged | passed | pressCounted
  | releaseCounted => exact hi

theorem own_moves (hi : s.Balanced) (hm : s.Moves op s') :
    ∀ src id, (src, id) ∈ s'.down → Owns s'.bound src id := by
  cases hm with
  | planned | united | keyboardApplies | noJoystick | joystickApplies | installed | pressedOther
  | judged | passed | pressCounted | releaseCounted => exact hi.own
  | keyboardApplied hpc hdown hcalls =>
    intro src id hk
    cases src with
    | keyboard => exact absurd rfl (hdown _ hk)
    | joystick => exact hi.own .joystick id hk
  | joystickApplied hpc hdown hcalls =>
    intro src id hk
    cases src with
    | keyboard => exact hi.own .keyboard id hk
    | joystick => exact absurd rfl (hdown _ hk)
  | drained | released => exact fun src id hk => hi.own src id (Finset.mem_of_mem_erase hk)
  | pressedHold hpc hfree hdown howns =>
    intro src id hk
    rcases Finset.mem_insert.1 hk with h | hk
    · cases h
      exact howns
    · exact hi.own src id hk

/-! ### Handler calls -/

/-- A call that begins or goes on, and the calls of other actions. -/
theorem forall_insert {k : Source × ActionID} {c : EdgeCall}
    {P : Source → ActionID → EdgeCall → Prop} (hc : P k.1 k.2 c)
    (ho : ∀ src id c', (src, id) ≠ k → s.calls.lookup (src, id) = some c' → P src id c') :
    ∀ src id c', (s.calls.insert k c).lookup (src, id) = some c' → P src id c' := by
  intro src id c' hl
  by_cases he : (src, id) = k
  · subst he
    rw [AList.lookup_insert, Option.some.injEq] at hl
    exact hl ▸ hc
  · rw [AList.lookup_insert_ne he] at hl
    exact ho src id c' he hl

theorem forall_erase {k : Source × ActionID} {P : Source → ActionID → EdgeCall → Prop}
    (ho : ∀ src id c', s.calls.lookup (src, id) = some c' → P src id c') :
    ∀ src id c', (s.calls.erase k).lookup (src, id) = some c' → P src id c' := by
  intro src id c' hl
  by_cases he : (src, id) = k
  · subst he
    simp at hl
  · rw [AList.lookup_erase_ne he] at hl
    exact ho src id c' hl

theorem NoCall.not {P : Source → EdgeCall → Bool} (h : s.NoCall P) {src : Source} {id : ActionID}
    {c : EdgeCall} (hc : s.calls.lookup (src, id) = some c) : P src c = false :=
  h ⟨(src, id), c⟩ (AList.mem_lookup_iff.1 hc)

theorem Calls.past {src : Source} {id : ActionID} {c : EdgeCall} {holds : Finset ActionID}
    {bound : Source → Option Plan} {pc : ApplyPc} (hc : Calls s src id c)
    (hdrain : ∀ src' p, s.pc = .draining src' p → c.byApply = true → src' ≠ src)
    (htick : src = .joystick → c.byApply = false → ∀ p, pc ≠ .draining .joystick p)
    (hbound : src = .joystick → c.byApply = false → bound src = s.bound src) :
    Calls { s with holds := holds, bound := bound, pc := pc } src id c where
  kind := hc.kind
  apply hb := by
    obtain ⟨-, p, hp⟩ := hc.apply hb
    exact absurd rfl (hdrain src p hp hb)
  tick := htick
  press := hc.press
  release he := by
    obtain ⟨hid, hdown, hown⟩ := hc.release he
    refine ⟨hid, hdown, fun hj hb => ?_⟩
    obtain ⟨q, hq, hbind⟩ := hown hj hb
    exact ⟨q, (hbound hj hb).trans hq, hbind⟩

theorem Calls.other {src : Source} {id : ActionID} {c : EdgeCall} {presses : PressCount}
    {down : Finset (Source × ActionID)} {calls : AList fun _ : Source × ActionID => EdgeCall}
    (hc : Calls s src id c) (hdown : (src, id) ∈ down ↔ (src, id) ∈ s.down) :
    Calls { s with presses := presses, down := down, calls := calls } src id c where
  kind := hc.kind
  apply := hc.apply
  tick := hc.tick
  press he := ⟨(hc.press he).1, fun hid => hdown.2 ((hc.press he).2 hid)⟩
  release he := by
    obtain ⟨hid, hnot, hown⟩ := hc.release he
    exact ⟨hid, fun h => hnot (hdown.1 h), hown⟩

theorem not_draining {src : Source} (h : ¬ s.Draining src) {p : Plan} :
    s.pc ≠ .draining src p := by
  intro hpc
  refine h ?_
  unfold Draining
  rw [hpc]

theorem calls_moves (hi : s.Balanced) (hm : s.Moves op s') :
    ∀ src id c, s'.calls.lookup (src, id) = some c → Calls s' src id c := by
  have hold := hi.calls
  cases hm with
  | planned hpc =>
    exact fun src id c hc => (hold src id c hc).past (by simp [hpc]) (fun _ _ _ => nofun)
      fun _ _ => rfl
  | united hpc =>
    exact fun src id c hc => (hold src id c hc).past (by simp [hpc]) (fun _ _ _ => nofun)
      fun _ _ => rfl
  | keyboardApplies hpc =>
    exact fun src id c hc => (hold src id c hc).past (by simp [hpc]) (fun _ _ _ => nofun)
      fun _ _ => rfl
  | noJoystick hpc hj =>
    exact fun src id c hc => (hold src id c hc).past (by simp [hpc]) (fun _ _ _ => nofun)
      fun _ _ => rfl
  | installed hpc =>
    exact fun src id c hc => (hold src id c hc).past (by simp [hpc]) (fun _ _ _ => nofun)
      fun _ _ => rfl
  | joystickApplies hpc hj hcalls =>
    refine fun src id c hc => (hold src id c hc).past (by simp [hpc]) (fun hsrc _ => ?_)
      fun _ _ => rfl
    exact absurd hsrc (by simpa using hcalls.not hc)
  | keyboardApplied hpc hdown hcalls =>
    refine fun src id c hc => (hold src id c hc).past (fun _ _ _ hb => ?_) (fun _ _ _ => nofun)
      fun hsrc _ => by simp [hsrc]
    exact absurd hb (by simpa using hcalls.not hc)
  | joystickApplied hpc hdown hcalls =>
    refine fun src id c hc => (hold src id c hc).past (fun _ _ _ hb => ?_) (fun _ _ _ => nofun)
      fun hsrc hb => ?_
    · exact absurd hb (by simpa using hcalls.not hc)
    · exact absurd hpc ((hold src id c hc).tick hsrc hb _)
  | @drained src p id hpc hfree hdown =>
    have hid : id ∈ s.holds := hi.scope.covered src id (hi.own src id hdown)
    refine forall_insert ?_ fun src' id' c' hne hc' => ?_
    · exact ⟨nofun, fun _ => ⟨hid, p, hpc⟩, fun _ => nofun, nofun,
        fun _ => ⟨hi.scope.kinds id hid, Finset.notMem_erase _ _, fun _ => nofun⟩⟩
    · exact (hold src' id' c' hc').other (by simp [hne])
  | @pressedHold src id hpc hfree hdown howns =>
    refine forall_insert ?_ fun src' id' c' hne hc' => (hold src' id' c' hc').other (by simp [hne])
    exact ⟨nofun, nofun, fun h _ _ => h ▸ not_draining hpc,
      fun _ => ⟨rfl, fun _ => Finset.mem_insert_self _ _⟩, nofun⟩
  | @pressedOther src id p hpc hfree hdown hp hb =>
    refine forall_insert ?_ fun src' id' c' _ hc' => (hold src' id' c' hc').other Iff.rfl
    refine ⟨nofun, nofun, fun h _ _ => h ▸ not_draining hpc, fun _ => ⟨rfl, fun hid => ?_⟩, nofun⟩
    have hkind := ((hi.scope.plans src p hp).binding hb).1
    exact absurd (hkind.trans hid) Bool.false_ne_true
  | @released src id hpc hfree hdown =>
    refine forall_insert ?_ fun src' id' c' hne hc' => (hold src' id' c' hc').other (by simp [hne])
    have howns := hi.own src id hdown
    exact ⟨nofun, nofun, fun h _ _ => h ▸ not_draining hpc, nofun,
      fun _ => ⟨hi.scope.kinds id (hi.scope.covered src id howns), Finset.notMem_erase _ _,
        fun _ _ => howns⟩⟩
  | @judged src id c hc hid =>
    refine forall_insert ?_ fun src' id' c' _ hc' => (hold src' id' c' hc').other Iff.rfl
    have hc := hold src id c hc
    exact ⟨fun _ => hi.scope.kinds id hid, hc.apply, hc.tick, hc.press, hc.release⟩
  | passed | pressCounted | releaseCounted =>
    exact forall_erase fun src id c hc => (hold src id c hc).other Iff.rfl

/-! ### Counts -/

section Shares

variable {presses : PressCount} {down down' : Finset (Source × ActionID)}
  {calls calls' : AList fun _ : Source × ActionID => EdgeCall} {src : Source} {id : ActionID}
  {k : Source × ActionID} {c : EdgeCall}

theorem share_congr (hl : calls'.lookup (src, id) = calls.lookup (src, id))
    (hd : (src, id) ∈ down' ↔ (src, id) ∈ down) :
    share down' calls' src id = share down calls src id := by
  unfold share
  simp only [hl, hd]

theorem share_none (hl : calls.lookup (src, id) = none) :
    share down calls src id = if (src, id) ∈ down then 1 else 0 := by
  unfold share
  rw [hl]

theorem share_some (hl : calls.lookup (src, id) = some c) :
    share down calls src id =
      match c.edge with
      | .press => 0
      | .release => 1 := by
  unfold share
  rw [hl]

/-- A call that begins, or is found to count, leaves the shares what they are. -/
theorem share_insert (hk : share down' (calls.insert k c) k.1 k.2 = share down calls k.1 k.2)
    (hd : ∀ k', k' ≠ k → (k' ∈ down' ↔ k' ∈ down)) (src : Source) (id : ActionID) :
    share down' (calls.insert k c) src id = share down calls src id := by
  by_cases he : (src, id) = k
  · subst he
    exact hk
  · exact share_congr (AList.lookup_insert_ne he) (hd _ he)

theorem share_erase (hne : (src, id) ≠ k) :
    share down (calls.erase k) src id = share down calls src id :=
  share_congr (AList.lookup_erase_ne hne) Iff.rfl

theorem Counted.of_share (h : Counted presses down calls)
    (hs : ∀ src id, share down' calls' src id = share down calls src id) :
    Counted presses down' calls' := by
  intro id
  rw [h id, hs, hs]

def Source.other : Source → Source
  | .keyboard => .joystick
  | .joystick => .keyboard

theorem share_add (down : Finset (Source × ActionID))
    (calls : AList fun _ : Source × ActionID => EdgeCall) (src : Source) (id : ActionID) :
    share down calls .keyboard id + share down calls .joystick id =
      share down calls src id + share down calls (Source.other src) id := by
  cases src with
  | keyboard => rfl
  | joystick => exact Nat.add_comm _ _

/-- **A call that is counted** moves the count as it moves the share. -/
theorem Counted.counted {presses' : PressCount} (h : Counted presses down calls)
    (hid : isHoldID id = true)
    (hother : ∀ id', id' ≠ id → presses'.count id' = presses.count id')
    (hself : presses'.count id + share down calls src id =
      presses.count id + share down (calls.erase (src, id)) src id) :
    Counted presses' down (calls.erase (src, id)) := by
  intro id'
  by_cases he : id' = id
  · subst he
    have hcount := h id'
    have hsame : share down (calls.erase (src, id')) (Source.other src) id' =
        share down calls (Source.other src) id' := share_erase (by cases src <;> simp [Source.other])
    rw [if_pos hid, share_add _ _ src] at hcount ⊢
    omega
  · rw [hother id' he, h id', share_erase (by simp [he]), share_erase (by simp [he])]

end Shares

theorem counted_moves (hi : s.Balanced) (hok : s.StillHold op) (hm : s.Moves op s') :
    Counted s'.presses s'.down s'.calls := by
  have hc := hi.counted
  cases hm with
  | planned | united | keyboardApplies | keyboardApplied | noJoystick | joystickApplies
  | joystickApplied | installed => exact hc
  | drained hpc hfree hdown =>
    refine hc.of_share (share_insert ?_ fun k' hk' => by simp [hk'])
    rw [share_none hfree, if_pos hdown]
    simp [share]
  | pressedHold hpc hfree hdown howns =>
    refine hc.of_share (share_insert ?_ fun k' hk' => by simp [hk'])
    rw [share_none hfree, if_neg hdown]
    simp [share]
  | pressedOther hpc hfree hdown hp hb =>
    refine hc.of_share (share_insert ?_ fun k' _ => Iff.rfl)
    rw [share_none hfree, if_neg hdown]
    simp [share]
  | released hpc hfree hdown =>
    refine hc.of_share (share_insert ?_ fun k' hk' => by simp [hk'])
    rw [share_none hfree, if_pos hdown]
    simp [share]
  | judged hl hid =>
    refine hc.of_share (share_insert ?_ fun k' _ => Iff.rfl)
    rw [share_some hl]
    simp [share]
  | @passed src id c hl hj hid =>
    have hcall := hi.calls src id c hl
    -- an edge of a hold action always finds it in the map
    have hkind : isHoldID id = false := by
      rw [Bool.eq_false_iff]
      intro hkind
      cases he : c.edge with
      | press => exact hid (hi.scope.covered _ _ (hi.own _ _ ((hcall.press he).2 hkind)))
      | release =>
        cases hb : c.byApply with
        | true => exact hid (hcall.apply hb).1
        | false =>
          cases src with
          | keyboard => exact hid (hok c hl he hb)
          | joystick => exact hid (hi.scope.covered _ _ ((hcall.release he).2.2 rfl hb))
    intro id'
    rw [hc id']
    by_cases he : id' = id
    · subst he
      rw [hkind]
      rfl
    · rw [share_erase (by simp [he]), share_erase (by simp [he])]
  | @pressCounted src id c hl hj he =>
    have hcall := hi.calls src id c hl
    have hdown := (hcall.press he).2 (hcall.kind hj)
    refine hc.counted (hcall.kind hj) (fun id' hne => ?_) ?_
    · rw [PressCount.press_count, if_neg hne]
    · rw [PressCount.press_count, if_pos rfl, share_some hl, he,
        share_none (AList.lookup_erase _ _), if_pos hdown]
      rfl
  | @releaseCounted src id c hl hj he =>
    have hcall := hi.calls src id c hl
    have hdown := (hcall.release he).2.1
    have hcount := hc id
    rw [if_pos (hcall.kind hj), share_add _ _ src, share_some hl, he] at hcount
    have hpos : s.presses.count id = 1 + share s.down s.calls (Source.other src) id := hcount
    refine hc.counted (hcall.kind hj) (fun id' hne => ?_) ?_
    · rw [PressCount.release_count, if_neg hne]
    · rw [PressCount.release_count, if_pos rfl, share_some hl, he,
        share_none (AList.lookup_erase _ _), if_neg hdown]
      show s.presses.count id - 1 + 1 = s.presses.count id + 0
      omega

theorem balanced_exec {joy : Bool} (hok : Meets step StillHold (init joy) ops)
    (h : exec step (init joy) ops = some s) : s.Balanced := by
  refine exec_invariant (I := Balanced) ?_ (balanced_init joy) hok h
  intro s op s' hi hok hs
  have hm := moves_of_step hs
  exact ⟨scope_moves hi.scope hm, own_moves hi hm, calls_moves hi hm, counted_moves hi hok hm⟩

/-- **Press counts balance.** If every `Released` that the keyboard manager calls of its
own finds its action in the hold map, the count of every action at quiescence is the
number of managers in which it is pressed, and 0 when nothing is held. -/
theorem presses_balanced {joy : Bool} (h : exec step (init joy) ops = some s)
    (hok : Meets step StillHold (init joy) ops) (hq : s.Quiescent) :
    (∀ id, s.presses.count id = s.pressedIn id) ∧
      (s.down = ∅ → ∀ id, s.presses.count id = 0) := by
  have hi := balanced_exec hok h
  obtain ⟨hpc, hcalls⟩ := hq
  have hcount : ∀ id, s.presses.count id = s.pressedIn id := by
    intro id
    have hc := hi.counted id
    have hshare : ∀ src, share s.down s.calls src id = if (src, id) ∈ s.down then 1 else 0 :=
      fun src => share_none (by rw [hcalls]; rfl)
    rw [hshare, hshare] at hc
    cases hid : isHoldID id with
    | true => rw [hc, hid]; rfl
    | false =>
      have hnot : ∀ src, (src, id) ∉ s.down := fun src hd => by
        have := hi.scope.kinds id (hi.scope.covered src id (hi.own src id hd))
        rw [hid] at this
        cases this
      rw [hc, hid, pressedIn, if_neg (hnot _), if_neg (hnot _)]
      rfl
  refine ⟨hcount, fun hd id => ?_⟩
  rw [hcount, pressedIn, hd]
  rfl

/-- `radio.3.ptt` is on a key, nothing else is bound. -/
def pttKey (i : ℕ) : Option (List Keybinds.Trigger) := if i = 13 then some [.key ⟨0, "F5"⟩] else none

/-- Radio 3 comes, and its PTT is pressed. -/
def pttPressed : List HoldOp :=
  .apply [3] pttKey :: List.replicate 6 .proceed ++
    [.pressed .keyboard "radio.3.ptt", .isHold .keyboard "radio.3.ptt",
      .count .keyboard "radio.3.ptt"]

/-- Radio 3 goes while its PTT is held. -/
def radioRemoved : List HoldOp :=
  pttPressed ++ [.apply [] pttKey, .proceed, .proceed, .drain "radio.3.ptt",
    .isHold .keyboard "radio.3.ptt", .count .keyboard "radio.3.ptt", .proceed, .proceed, .proceed,
    .proceed]

theorem presses_balanced_removed : ∃ s : HoldRun, exec step (init true) radioRemoved = some s ∧
    s.Quiescent ∧ s.down = ∅ ∧ ∀ id, s.presses.count id = 0 := by
  have hrun : (exec step (init true) radioRemoved).map (fun s =>
      (s.pc.isIdle, s.calls.entries.length, s.down)) =
        some (true, 0, ∅) := by
    decide +kernel
  obtain ⟨s, hs, hend⟩ := Option.map_eq_some_iff.1 hrun
  simp only [Prod.mk.injEq] at hend
  obtain ⟨hidle, hlen, hdown⟩ := hend
  have hpc : s.pc = .idle := ApplyPc.isIdle_iff.1 hidle
  have hq : s.Quiescent := ⟨hpc, AList.ext (List.length_eq_zero_iff.1 hlen)⟩
  exact ⟨s, hs, hq, hdown, (presses_balanced hs (by decide +kernel) hq).2 hdown⟩

/-- **A release is swallowed**: the keyboard manager has let go of the action when
`applyHotkeys` runs, and calls `Released` when the new map is there. -/
theorem release_swallowed : ¬ ∀ ops s, exec step (init true) ops = some s → s.Quiescent →
    ∀ id, s.presses.count id = s.pressedIn id := by
  intro h
  let ops : List HoldOp := pttPressed ++
    .released .keyboard "radio.3.ptt" :: .apply [] pttKey :: List.replicate 6 .proceed ++
      [.isHold .keyboard "radio.3.ptt"]
  have hrun : (exec step (init true) ops).map (fun s =>
      (s.pc.isIdle, s.calls.entries.length,
        s.presses.count "radio.3.ptt", s.pressedIn "radio.3.ptt")) = some (true, 0, 1, 0) := by
    decide +kernel
  obtain ⟨s, hs, hend⟩ := Option.map_eq_some_iff.1 hrun
  simp only [Prod.mk.injEq] at hend
  obtain ⟨hidle, hlen, hcount, hpressed⟩ := hend
  have hpc : s.pc = .idle := ApplyPc.isIdle_iff.1 hidle
  have := h ops s hs ⟨hpc, AList.ext (List.length_eq_zero_iff.1 hlen)⟩ "radio.3.ptt"
  omega

end HoldRun

end VcsClient.App
