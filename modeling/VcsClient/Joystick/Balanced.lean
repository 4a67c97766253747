import VcsClient.Joystick.Manager

/-!
# The joystick's edges are balanced

`Moves` lists what a step can do. What the handler believes about a hold action is
what `active` says, but for the calls still to be made (`Owing`); nothing is active
under a suspension, after `Close`, and before the call that took everything returns
(`Resting`). A capture does as much only as long as no tick that looked for one
before it was armed presses something after (`ArmedQuiet`).
-/

namespace VcsClient.Joystick

open VcsClient.Lib VcsClient.Keybinds

namespace Manager

inductive Moves (m : Manager) : JoyOp → Manager → Prop where
  | applied {binds} (hfree : m.notifyMu = none) :
    Moves m (.apply binds)
      { m with
        desired := binds
        hold := holdOf binds
        active := m.active.filter (· ∉ m.hold)
        notifyMu := some ⟨.apply, ∅, m.active.filter (· ∈ m.hold)⟩
        log := .applied binds :: m.log }
  | stillSuspended (hfree : m.notifyMu = none) (hs : m.suspended = true) :
    Moves m .suspend
      { m with
        notifyMu := some ⟨.suspend, ∅, ∅⟩
        log := .suspended :: m.log }
  | suspended (hfree : m.notifyMu = none) :
    Moves m .suspend
      { m with
        suspended := true
        active := m.active.filter (· ∉ m.hold)
        notifyMu := some ⟨.suspend, ∅, m.active.filter (· ∈ m.hold)⟩
        log := .suspended :: m.log }
  | resumed :
    Moves m .resume
      { m with
        suspended := false
        log := .resumed :: m.log }
  | captureBegun {done} (hfree : m.notifyMu = none) :
    Moves m (.beginCapture done)
      { m with
        capture := some (.new done)
        active := m.active.filter (· ∉ m.hold)
        notifyMu := some ⟨.beginCapture, ∅, m.active.filter (· ∈ m.hold)⟩ }
  | captureCancelled : Moves m .cancelCapture { m with capture := none }
  | stillClosed (hfree : m.notifyMu = none) (hc : m.closed = true) :
    Moves m .close { m with notifyMu := some ⟨.close, ∅, ∅⟩ }
  | closed (hfree : m.notifyMu = none) :
    Moves m .close
      { m with
        closed := true
        active := m.active.filter (· ∉ m.hold)
        notifyMu := some ⟨.close, ∅, m.active.filter (· ∈ m.hold)⟩ }
  | closeReturned (hc : m.closing ≠ 0) :
    Moves m .closeReturns
      { m with
        closing := m.closing - 1
        log := .closeReturned :: m.log }
  /-- a tick goes on, or ends, and nothing else changes -/
  | ticked {op} (pc : TickPc) : Moves m op { m with tick := pc }
  | noTick : Moves m .tick m
  | fed {s c c'} (hpc : m.tick = .feeding s) (hc : m.capture = some c) (hf : c.feed s = .inl c') :
    Moves m .proceed
      { m with
        tick := .idle
        capture := some c' }
  | captured {s c b} (hpc : m.tick = .feeding s) (hc : m.capture = some c)
    (hf : c.feed s = .inr b) :
    Moves m .proceed
      { m with
        tick := .idle
        capture := none
        log := .captured c.done b :: m.log }
  | dropped (hfree : m.notifyMu = none) (hpc : m.tick = .dispatching none) :
    Moves m .proceed
      { m with
        active := m.active.filter (· ∉ m.hold)
        notifyMu := some ⟨.tick, ∅, m.active.filter (· ∈ m.hold)⟩
        tick := .notifying }
  | dispatched {s} (hfree : m.notifyMu = none) (hpc : m.tick = .dispatching (some s))
    (hs : m.suspended = false) (hc : m.closed = false) :
    Moves m .proceed
      { m with
        active := (m.active ∪ Joystick.active m.desired s).filter (· ∈ Joystick.active m.desired s)
        notifyMu := some
          ⟨.tick, Joystick.active m.desired s \ m.active,
            (m.active ∪ Joystick.active m.desired s).filter fun id =>
              id ∉ Joystick.active m.desired s ∧ id ∈ m.hold⟩
        tick := .notifying }
  | pressed {id n} (hn : m.notifyMu = some n) (hid : id ∈ n.press) :
    Moves m (.notify id)
      { m with
        notifyMu := some { n with press := n.press.erase id }
        log := .pressed id :: m.log }
  | released {id n} (hn : m.notifyMu = some n) (hp : n.press = ∅) (hid : id ∈ n.release) :
    Moves m (.notify id)
      { m with
        notifyMu := some { n with release := n.release.erase id }
        log := .released id :: m.log }
  | unlocked {n} (hn : m.notifyMu = some n) (hp : n.press = ∅) (hr : n.release = ∅)
    (hcaller : n.caller = .apply ∨ n.caller = .beginCapture) :
    Moves m .unlock { m with notifyMu := none }
  | suspendReturned {n} (hn : m.notifyMu = some n) (hp : n.press = ∅) (hr : n.release = ∅)
    (hcaller : n.caller = .suspend) :
    Moves m .unlock
      { m with
        notifyMu := none
        log := .suspendReturned :: m.log }
  | closeLeft {n} (hn : m.notifyMu = some n) (hp : n.press = ∅) (hr : n.release = ∅)
    (hcaller : n.caller = .close) :
    Moves m .unlock
      { m with
        notifyMu := none
        closing := m.closing + 1 }
  | tickDone {n} (hn : m.notifyMu = some n) (hp : n.press = ∅) (hr : n.release = ∅)
    (hcaller : n.caller = .tick) :
    Moves m .unlock
      { m with
        notifyMu := none
        tick := .idle }

variable {m m' : Manager} {op : JoyOp} {ops : List JoyOp}

theorem moves_proceed (h : m.proceed = some m') : m.Moves .proceed m' := by
  unfold proceed at h
  split at h
  · next sample hpc =>
    cases sample with
    | some s =>
      cases h
      exact .ticked _
    | none =>
      cases h
      exact .ticked _
  · next s hpc =>
    obtain hc | ⟨c, hc⟩ := Option.eq_none_or_eq_some m.capture
    · simp only [hc, Option.some.injEq] at h
      cases h
      have ht : m.Moves .proceed { m with tick := .idle } := .ticked _
      rwa [hc] at ht
    · simp only [hc] at h
      split at h
      · next c' hf =>
        cases h
        exact .fed hpc hc hf
      · next b hf =>
        cases h
        exact .captured hpc hc hf
  · next sample hpc =>
    split at h
    · cases h
    · next hfree =>
      rw [Bool.not_eq_true, Option.isSome_eq_false_iff, Option.isNone_iff_eq_none] at hfree
      cases sample with
      | none =>
        cases h
        exact .dropped hfree hpc
      | some s =>
        simp only [dispatch, Option.some.injEq] at h
        split at h
        · cases h
          exact .ticked _
        · next hgo =>
          rw [Bool.not_eq_true, Bool.or_eq_false_iff] at hgo
          cases h
          exact .dispatched hfree hpc hgo.1 hgo.2
  · cases h

theorem moves_notify {id : ActionID} {n : Span} (hn : m.notifyMu = some n)
    (h : m.notify id n = some m') : m.Moves (.notify id) m' := by
  unfold notify at h
  split at h
  · next hid =>
    cases h
    exact .pressed hn hid
  · split at h
    · next hid =>
      cases h
      exact .released hn hid.1 hid.2
    · cases h

theorem moves_unlock {n : Span} (hn : m.notifyMu = some n) (h : m.unlock n = some m') :
    m.Moves .unlock m' := by
  unfold unlock at h
  split at h
  · next hdone =>
    obtain ⟨hp, hr⟩ := hdone
    cases hcaller : n.caller with
    | apply =>
      simp only [hcaller, Option.some.injEq] at h
      cases h
      exact .unlocked hn hp hr (.inl hcaller)
    | beginCapture =>
      simp only [hcaller, Option.some.injEq] at h
      cases h
      exact .unlocked hn hp hr (.inr hcaller)
    | suspend =>
      simp only [hcaller, Option.some.injEq] at h
      cases h
      exact .suspendReturned hn hp hr hcaller
    | close =>
      simp only [hcaller, Option.some.injEq] at h
      cases h
      exact .closeLeft hn hp hr hcaller
    | tick =>
      simp only [hcaller, Option.some.injEq] at h
      cases h
      exact .tickDone hn hp hr hcaller
  · cases h

/-- **What a step can do.** -/
theorem moves_of_step (h : m.step op = some m') : m.Moves op m' := by
  have free : ∀ {x : Manager}, (if m.notifyMu.isSome then none else some x) = some m' →
      m.notifyMu = none ∧ x = m' := by
    intro x h
    split at h
    · cases h
    · next hfree => exact ⟨by simpa using hfree, Option.some.inj h⟩
  cases op with
  | apply binds =>
    obtain ⟨hfree, rfl⟩ := free h
    exact .applied hfree
  | suspend =>
    obtain ⟨hfree, rfl⟩ := free h
    unfold suspend
    split
    · next hs => exact .stillSuspended hfree hs
    · exact .suspended hfree
  | resume =>
    cases h
    exact .resumed
  | beginCapture done =>
    obtain ⟨hfree, rfl⟩ := free h
    exact .captureBegun hfree
  | cancelCapture =>
    cases h
    exact .captureCancelled
  | close =>
    obtain ⟨hfree, rfl⟩ := free h
    unfold close
    split
    · next hc => exact .stillClosed hfree hc
    · exact .closed hfree
  | closeReturns =>
    simp only [step] at h
    split at h
    · cases h
    · next hc =>
      cases h
      exact .closeReturned hc
  | tick =>
    simp only [step] at h
    split at h
    · next hpc =>
      cases h
      unfold beginTick
      split
      · exact .noTick
      · split
        · exact .noTick
        · exact .ticked _
    · cases h
  | poll sample =>
    simp only [step] at h
    split at h
    · cases h
      exact .ticked _
    · cases h
  | proceed => exact moves_proceed h
  | notify id =>
    obtain ⟨n, hn, h⟩ := Option.bind_eq_some_iff.1 h
    exact moves_notify hn h
  | unlock =>
    obtain ⟨n, hn, h⟩ := Option.bind_eq_some_iff.1 h
    exact moves_unlock hn h

end Manager

section Log

variable {id : ActionID} {e : JoyEvent} {log : List JoyEvent}

theorem edges_cons (id : ActionID) (e : JoyEvent) (log : List JoyEvent) :
    edges id (e :: log) = edges id log ++ (edgeOf id e).toList := by
  unfold edges
  rw [List.filterMap_cons]
  cases edgeOf id e <;> simp

theorem HoldAction.of_cons (h : HoldAction id (e :: log)) : HoldAction id log :=
  fun e' he => h e' (List.mem_cons_of_mem _ he)

/-- What the handler has been told about an action, given what is still to be told. -/
def told (active : Finset ActionID) (n : Option Span) (id : ActionID) : Bool :=
  match n with
  | none => id ∈ active
  | some n => id ∈ n.release || (id ∈ active && id ∉ n.press)

/-- The calls about the action alternate, up to what the handler was told. -/
def Tells (id : ActionID) (log : List JoyEvent) (b : Bool) : Prop :=
  exec Edge.apply false (edges id log) = some b

theorem Tells.cons {b : Bool} (h : Tells id log b) (he : edgeOf id e = none) :
    Tells id (e :: log) b := by
  unfold Tells
  rw [edges_cons, he, Option.toList_none, List.append_nil]
  exact h

theorem Tells.press (h : Tells id log false) : Tells id (.pressed id :: log) true := by
  unfold Tells
  rw [edges_cons, edgeOf, if_pos rfl]
  exact exec_append.2 ⟨false, h, rfl⟩

theorem Tells.release (h : Tells id log true) : Tells id (.released id :: log) false := by
  unfold Tells
  rw [edges_cons, edgeOf, if_pos rfl]
  exact exec_append.2 ⟨true, h, rfl⟩

theorem Tells.not_leftPressed (h : Tells id log false) : ¬ LeftPressed id log :=
  fun hl => Bool.false_ne_true ((alternates_of_exec h).2.2 hl)

end Log

namespace Manager

variable {m m' : Manager} {op : JoyOp} {ops : List JoyOp} {id : ActionID}

/-- What holds of a hold action. -/
structure Owing (id : ActionID) (m : Manager) : Prop where
  hold : m.hold = holdOf m.desired
  bound : BoundHold id m.desired
  kind : id ∈ m.active → id ∈ m.hold
  pressing : ∀ n ∈ m.notifyMu, id ∈ n.press → id ∈ m.active
  releasing : ∀ n ∈ m.notifyMu, id ∈ n.release → id ∉ m.active
  tells : Tells id m.log (told m.active m.notifyMu id)
  /-- a suspended or closed manager has no hold action active -/
  quiet : m.suspended = true ∨ m.closed = true → id ∉ m.active
  /-- nor has one that is about to return from `Suspend` or `Close` -/
  took : ∀ n ∈ m.notifyMu, n.caller ≠ .tick → id ∉ m.active
  shut : ∀ n ∈ m.notifyMu, n.caller = .close → m.closed = true
  closing : m.closing ≠ 0 → m.closed = true ∧ told m.active m.notifyMu id = false

theorem owing_new {supported : Bool} (id : ActionID) : (new supported).Owing id where
  hold := rfl
  bound := fun list hl => by simp [new] at hl
  kind := nofun
  pressing := nofun
  releasing := nofun
  tells := rfl
  quiet := fun _ => by simp [new]
  took := nofun
  shut := nofun
  closing := fun h => absurd rfl h

theorem Owing.not_mem_kept (hi : m.Owing id) : id ∉ m.active.filter (· ∉ m.hold) := by
  intro h
  obtain ⟨hact, hhold⟩ := Finset.mem_filter.1 h
  exact hhold (hi.kind hact)

theorem Owing.told_taken (hi : m.Owing id) (hfree : m.notifyMu = none) (caller : Caller) :
    told (m.active.filter (· ∉ m.hold)) (some ⟨caller, ∅, m.active.filter (· ∈ m.hold)⟩) id =
      told m.active m.notifyMu id := by
  have hkind := hi.kind
  rw [hfree]
  simp only [told, Finset.mem_filter, Finset.notMem_empty, not_false_eq_true, decide_true,
    Bool.and_true]
  grind

/-- **A section that takes everything** leaves nothing active. -/
theorem Owing.taken (hi : m.Owing id) (hfree : m.notifyMu = none) {e : List JoyEvent}
    {caller : Caller} {desired : Binds} {hold : Finset ActionID} {suspended closed : Bool}
    {capture : Option CaptureState} {tick : TickPc} (hhold : hold = holdOf desired)
    (hbound : BoundHold id desired) (hclosed : m.closed = true ∨ caller = .close → closed = true)
    (hlog : ∀ b, Tells id m.log b → Tells id (e ++ m.log) b) :
    Owing id
      { m with
        desired := desired
        hold := hold
        active := m.active.filter (· ∉ m.hold)
        suspended := suspended
        closed := closed
        capture := capture
        notifyMu := some ⟨caller, ∅, m.active.filter (· ∈ m.hold)⟩
        tick := tick
        log := e ++ m.log } where
  hold := hhold
  bound := hbound
  kind := fun h => absurd h hi.not_mem_kept
  pressing := by
    rintro n ⟨⟩ hp
    exact absurd hp (Finset.notMem_empty _)
  releasing := by
    rintro n ⟨⟩ -
    exact hi.not_mem_kept
  tells := by
    have h := hlog _ hi.tells
    rwa [← hi.told_taken hfree caller] at h
  quiet := fun _ => hi.not_mem_kept
  took := fun _ _ _ => hi.not_mem_kept
  shut := by
    rintro n ⟨⟩ hc
    exact hclosed (.inr hc)
  closing := fun h => by
    obtain ⟨hc, ht⟩ := hi.closing h
    exact ⟨hclosed (.inl hc), (hi.told_taken hfree caller).trans ht⟩

theorem told_empty (active : Finset ActionID) (caller : Caller) (id : ActionID) :
    told active (some ⟨caller, ∅, ∅⟩) id = told active none id := by
  simp [told]

theorem told_erase {id' : ActionID} (active : Finset ActionID) (n : Span) (h : id ≠ id') :
    told active (some { n with press := n.press.erase id' }) id = told active (some n) id ∧
      told active (some { n with release := n.release.erase id' }) id = told active (some n) id := by
  simp [told, h]

theorem Owing.pressed {id' : ActionID} {n : Span} (hi : m.Owing id) (hn : m.notifyMu = some n)
    (hid : id' ∈ n.press) :
    Owing id
      { m with
        notifyMu := some { n with press := n.press.erase id' }
        log := .pressed id' :: m.log } := by
  have hpress := hi.pressing n hn
  have hrelease := hi.releasing n hn
  have htells := hi.tells
  rw [hn] at htells
  have hclosing := hi.closing
  rw [hn] at hclosing
  refine
    { hi with
      pressing := by rintro n' ⟨⟩ hp; exact hpress (Finset.mem_of_mem_erase hp)
      releasing := by rintro n' ⟨⟩ hr; exact hrelease hr
      tells := ?_
      took := by rintro n' ⟨⟩ hc; exact hi.took n hn hc
      shut := by rintro n' ⟨⟩ hc; exact hi.shut n hn hc
      closing := ?_ }
  · by_cases he : id' = id
    · subst he
      have hbefore : told m.active (some n) id' = false := by simp [told, hid]; grind
      have hafter : told m.active (some { n with press := n.press.erase id' }) id' = true := by
        simp [told, hpress hid]
      rw [hbefore] at htells
      rw [hafter]
      exact htells.press
    · rw [(told_erase m.active n (Ne.symm he)).1]
      exact htells.cons (by simp [edgeOf, he])
  · intro hcl
    obtain ⟨hc, hb⟩ := hclosing hcl
    refine ⟨hc, ?_⟩
    have hact := hi.quiet (.inr hc)
    have hne : id ≠ id' := by
      rintro rfl
      exact hact (hpress hid)
    rw [(told_erase m.active n hne).1]
    exact hb

theorem Owing.released {id' : ActionID} {n : Span} (hi : m.Owing id) (hn : m.notifyMu = some n)
    (hid : id' ∈ n.release) :
    Owing id
      { m with
        notifyMu := some { n with release := n.release.erase id' }
        log := .released id' :: m.log } := by
  have hrelease := hi.releasing n hn
  have htells := hi.tells
  rw [hn] at htells
  have hclosing := hi.closing
  rw [hn] at hclosing
  refine
    { hi with
      pressing := by rintro n' ⟨⟩ hp'; exact hi.pressing n hn hp'
      releasing := by rintro n' ⟨⟩ hr; exact hrelease (Finset.mem_of_mem_erase hr)
      tells := ?_
      took := by rintro n' ⟨⟩ hc; exact hi.took n hn hc
      shut := by rintro n' ⟨⟩ hc; exact hi.shut n hn hc
      closing := ?_ }
  · by_cases he : id' = id
    · subst he
      have hbefore : told m.active (some n) id' = true := by simp [told, hid]
      have hafter : told m.active (some { n with release := n.release.erase id' }) id' = false := by
        simp [told, hrelease hid]
      rw [hbefore] at htells
      rw [hafter]
      exact htells.release
    · rw [(told_erase m.active n (Ne.symm he)).2]
      exact htells.cons (by simp [edgeOf, he])
  · intro hcl
    obtain ⟨hc, hb⟩ := hclosing hcl
    refine ⟨hc, ?_⟩
    simp only [told, Bool.or_eq_false_iff, decide_eq_false_iff_not] at hb ⊢
    exact ⟨fun h => hb.1 (Finset.mem_of_mem_erase h), hb.2⟩

theorem Owing.unlocked {n : Span} {tick : TickPc} (hi : m.Owing id) (hn : m.notifyMu = some n)
    (hp : n.press = ∅) (hr : n.release = ∅) :
    Owing id
      { m with
        notifyMu := none
        tick := tick } := by
  have htold : told m.active m.notifyMu id = told m.active none id := by
    rw [hn]
    simp [told, hp, hr]
  exact
    { hi with
      pressing := nofun
      releasing := nofun
      tells := htold ▸ hi.tells
      took := nofun
      shut := nofun
      closing := fun h => ⟨(hi.closing h).1, htold ▸ (hi.closing h).2⟩ }

/-- **Every step keeps** what holds of a hold action. -/
theorem owing_moves (ha : HoldAction id m'.log) (hi : m.Owing id) (hm : m.Moves op m') :
    m'.Owing id := by
  cases hm with
  | applied hfree =>
    exact hi.taken (e := [.applied _]) hfree rfl (ha _ List.mem_cons_self)
      (fun h => h.resolve_right nofun) fun b h => h.cons rfl
  | suspended hfree =>
    exact hi.taken (e := [.suspended]) hfree hi.hold hi.bound
      (fun h => h.resolve_right nofun) fun b h => h.cons rfl
  | captureBegun hfree =>
    exact hi.taken (e := []) hfree hi.hold hi.bound (fun h => h.resolve_right nofun) fun b h => h
  | closed hfree =>
    exact hi.taken (e := []) hfree hi.hold hi.bound (fun _ => rfl) fun b h => h
  | dropped hfree hpc =>
    exact hi.taken (e := []) hfree hi.hold hi.bound (fun h => h.resolve_right nofun) fun b h => h
  | stillSuspended hfree hs =>
    have htold := told_empty m.active .suspend id
    rw [← hfree] at htold
    exact
      { hi with
        pressing := by rintro n ⟨⟩ hp; exact absurd hp (Finset.notMem_empty _)
        releasing := by rintro n ⟨⟩ hr; exact absurd hr (Finset.notMem_empty _)
        tells := by rw [htold]; exact hi.tells.cons rfl
        took := fun _ _ _ => hi.quiet (.inl hs)
        shut := by rintro n ⟨⟩ ⟨⟩
        closing := fun h => ⟨(hi.closing h).1, htold.trans (hi.closing h).2⟩ }
  | stillClosed hfree hc =>
    have htold := told_empty m.active .close id
    rw [← hfree] at htold
    exact
      { hi with
        pressing := by rintro n ⟨⟩ hp; exact absurd hp (Finset.notMem_empty _)
        releasing := by rintro n ⟨⟩ hr; exact absurd hr (Finset.notMem_empty _)
        tells := by rw [htold]; exact hi.tells
        took := fun _ _ _ => hi.quiet (.inr hc)
        shut := fun _ _ _ => hc
        closing := fun h => ⟨hc, htold.trans (hi.closing h).2⟩ }
  | resumed =>
    exact
      { hi with
        tells := hi.tells.cons rfl
        quiet := fun h => hi.quiet (h.imp_left nofun) }
  | captureCancelled | ticked pc | noTick | fed hpc hc hf => exact { hi with }
  | captured hpc hc hf => exact { hi with tells := hi.tells.cons rfl }
  | closeReturned hc =>
    exact
      { hi with
        tells := hi.tells.cons rfl
        closing := fun _ => hi.closing hc }
  | @dispatched s hfree hpc hs hc =>
    have hwant : id ∈ Joystick.active m.desired s → id ∈ m.hold := by
      rw [hi.hold]
      exact mem_holdOf_of_active hi.bound
    have hkind := hi.kind
    have htells := hi.tells
    rw [hfree] at htells
    exact
      { hi with
        kind := fun h => hwant (Finset.mem_filter.1 h).2
        pressing := by
          rintro n ⟨⟩ hp
          have := (Finset.mem_sdiff.1 hp).1
          simp [this]
        releasing := by
          rintro n ⟨⟩ hr
          have := (Finset.mem_filter.1 hr).2.1
          simp [this]
        tells := by
          convert htells using 1
          simp only [told]
          grind
        quiet := fun h => by simp [hs, hc] at h
        took := by rintro n ⟨⟩ h; exact absurd rfl h
        shut := by rintro n ⟨⟩ ⟨⟩
        closing := fun h => absurd (hi.closing h).1 (by simp [hc]) }
  | pressed hn hid => exact hi.pressed hn hid
  | released hn hp hid => exact hi.released hn hid
  | unlocked hn hp hr hcaller => exact hi.unlocked hn hp hr
  | suspendReturned hn hp hr hcaller =>
    have hi' : Owing id { m with notifyMu := none } := hi.unlocked hn hp hr
    exact { hi' with tells := hi'.tells.cons rfl }
  | @closeLeft n hn hp hr hcaller =>
    have hi' : Owing id { m with notifyMu := none } := hi.unlocked hn hp hr
    have hact : id ∉ m.active := hi.took n hn (by simp [hcaller])
    exact { hi' with closing := fun _ => ⟨hi.shut n hn hcaller, by simp [told, hact]⟩ }
  | tickDone hn hp hr hcaller => exact hi.unlocked hn hp hr

/-- Nothing is pressed under a suspension. -/
structure Awake (m : Manager) : Prop where
  suspended : isSuspended m.log = m.suspended
  pressing : ∀ n ∈ m.notifyMu, n.press ≠ ∅ → m.suspended = false

theorem awake_new {supported : Bool} : (new supported).Awake := ⟨rfl, nofun⟩

theorem awake_moves (hi : m.Awake) (hm : m.Moves op m') : m'.Awake := by
  cases hm with
  | applied | captureBegun | closed | stillClosed | dropped =>
    exact ⟨hi.suspended, by rintro n ⟨⟩ hp; exact absurd rfl hp⟩
  | suspended | stillSuspended =>
    refine ⟨?_, by rintro n ⟨⟩ hp; exact absurd rfl hp⟩
    first | rfl | exact Eq.symm ‹_›
  | resumed => exact ⟨rfl, fun _ _ _ => rfl⟩
  | captureCancelled | ticked | noTick | fed | captured | closeReturned =>
    exact ⟨hi.suspended, hi.pressing⟩
  | dispatched hfree hpc hs hc => exact ⟨hi.suspended, fun _ _ _ => hs⟩
  | pressed hn hid =>
    refine ⟨hi.suspended, ?_⟩
    rintro n' ⟨⟩ -
    exact hi.pressing _ hn (Finset.ne_empty_of_mem hid)
  | released hn hp hid =>
    refine ⟨hi.suspended, ?_⟩
    rintro n' ⟨⟩ hp'
    exact absurd hp hp'
  | unlocked | suspendReturned | closeLeft | tickDone => exact ⟨hi.suspended, nofun⟩

/-- **Every event is in order** when it comes. -/
theorem inOrder_moves (hi : ∀ id, HoldAction id m.log → m.Owing id) (ha : m.Awake)
    (hl : Each InOrder m.log) (hm : m.Moves op m') : Each InOrder m'.log := by
  cases hm with
  | captureBegun | captureCancelled | stillClosed | closed | ticked | noTick | fed | dropped
  | dispatched | unlocked | closeLeft | tickDone => exact hl
  | applied | stillSuspended | suspended | resumed | captured | released =>
    exact each_cons.2 ⟨trivial, hl⟩
  | pressed hn hid =>
    exact each_cons.2 ⟨ha.suspended.trans (ha.pressing _ hn (Finset.ne_empty_of_mem hid)), hl⟩
  | closeReturned hc =>
    refine each_cons.2 ⟨fun id hid => Tells.not_leftPressed ?_, hl⟩
    rw [← ((hi id hid).closing hc).2]
    exact (hi id hid).tells
  | suspendReturned hn hp hr hcaller =>
    refine each_cons.2 ⟨fun id hid => Tells.not_leftPressed ?_, hl⟩
    have hact : id ∉ m.active := (hi id hid).took _ hn (by simp [hcaller])
    have htold : told m.active m.notifyMu id = false := by
      rw [hn]
      simp [told, hr, hact]
    rw [← htold]
    exact (hi id hid).tells

/-- An armed capture has taken everything, but for what its own `BeginCapture` still
has to release. -/
def Armed (id : ActionID) (m : Manager) : Prop :=
  m.capture.isSome = true →
    id ∉ m.active ∧ ∀ n ∈ m.notifyMu, n.caller ≠ .beginCapture → id ∉ n.release

theorem armed_moves (hi : m.Owing id) (ha : m.Armed id) (hq : m.ArmedQuiet op)
    (hm : m.Moves op m') : m'.Armed id := by
  have hkept := hi.not_mem_kept
  -- a section that takes everything takes no action that is not active
  have taken : m.capture.isSome = true → id ∉ m.active.filter (· ∈ m.hold) :=
    fun hc h => (ha hc).1 (Finset.mem_filter.1 h).1
  cases hm with
  | applied | suspended | closed | dropped =>
    refine fun hc => ⟨hkept, ?_⟩
    rintro n ⟨⟩ -
    exact taken hc
  | captureBegun =>
    refine fun _ => ⟨hkept, ?_⟩
    rintro n ⟨⟩ hcaller
    exact absurd rfl hcaller
  | stillSuspended | stillClosed =>
    refine fun hc => ⟨(ha hc).1, ?_⟩
    rintro n ⟨⟩ - h
    exact absurd h (Finset.notMem_empty _)
  | captureCancelled | captured => nofun
  | resumed | closeReturned | ticked | noTick => exact ha
  | fed hpc hc hf => exact fun _ => ha (by simp [hc])
  | @dispatched s hfree hpc hs hc =>
    intro hcap
    have hact := (ha hcap).1
    have hquiet : m.capture.isSome = true → m.suspended = false → m.closed = false →
        ∀ i ∈ Joystick.active m.desired s, i ∈ m.hold → i ∈ m.active := by
      simpa only [ArmedQuiet, hpc] using hq
    have hwant : id ∉ Joystick.active m.desired s := fun hw =>
      hact (hquiet hcap hs hc id hw (hi.hold ▸ mem_holdOf_of_active hi.bound hw))
    refine ⟨fun h => hwant (Finset.mem_filter.1 h).2, ?_⟩
    rintro n ⟨⟩ - h
    rcases Finset.mem_union.1 (Finset.mem_filter.1 h).1 with h | h
    · exact hact h
    · exact hwant h
  | @pressed _ n hn hid =>
    refine fun hc => ⟨(ha hc).1, ?_⟩
    rintro n' ⟨⟩
    exact (ha hc).2 n hn
  | @released _ n hn hp hid =>
    refine fun hc => ⟨(ha hc).1, ?_⟩
    rintro n' ⟨⟩ hcaller h
    exact (ha hc).2 n hn hcaller (Finset.mem_of_mem_erase h)
  | unlocked | suspendReturned | closeLeft | tickDone => exact fun hc => ⟨(ha hc).1, nofun⟩

theorem Armed.released (hi : ∀ id, HoldAction id m.log → m.Owing id)
    (ha : ∀ id, HoldAction id m.log → m.Armed id) : m.ArmedReleased := by
  intro hc hcaller id hid
  obtain ⟨hact, hrel⟩ := ha id hid hc
  have htold : told m.active m.notifyMu id = false := by
    cases hn : m.notifyMu with
    | none => simp [told, hact]
    | some n => simp [told, hact, hrel n hn (hcaller n hn)]
  refine Tells.not_leftPressed ?_
  rw [← htold]
  exact (hi id hid).tells

structure Run (m : Manager) : Prop where
  owing : ∀ id, HoldAction id m.log → m.Owing id
  awake : m.Awake
  inOrder : Each InOrder m.log

theorem HoldAction.of_moves (hm : m.Moves op m') (h : HoldAction id m'.log) :
    HoldAction id m.log := by
  cases hm <;> first | exact h | exact h.of_cons

theorem run_new {supported : Bool} : (new supported).Run :=
  ⟨fun id _ => owing_new id, awake_new, each_nil⟩

theorem run_moves (hr : m.Run) (hm : m.Moves op m') : m'.Run where
  owing id h := owing_moves h (hr.owing id (HoldAction.of_moves hm h)) hm
  awake := awake_moves hr.awake hm
  inOrder := inOrder_moves hr.owing hr.awake hr.inOrder hm

theorem run_exec {supported : Bool} (h : exec step (new supported) ops = some m) : m.Run :=
  exec_invariant (I := Run) (fun _ _ _ hr _ hs => run_moves hr (moves_of_step hs)) run_new
    (Meets.trivial step _ _) h

/-- A button held while the manager runs. -/
def pushed : State := ⟨{⟨"stick", 3⟩}⟩

/-- `global.ptt` on that button. -/
def pttBinds : Binds := AList.singleton "global.ptt" [⟨⟨"stick", 3, none⟩, true⟩]

/-- It is pressed, and released as a capture begins; the next tick feeds the capture. -/
def capturedPress : List JoyOp :=
  [.apply pttBinds, .unlock, .tick, .poll (some pushed), .proceed, .proceed,
    .notify "global.ptt", .unlock, .beginCapture 0, .notify "global.ptt", .unlock, .tick,
    .poll (some pushed), .proceed, .proceed]

end Manager

end VcsClient.Joystick
