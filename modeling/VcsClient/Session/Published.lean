import VcsClient.Lib.Announce
import VcsClient.Session.Threads

/-!
# The published control state

Installs and teardowns are sections of `mu` and their publications follow
outside it. A publication carries the stamp of its section. As long as none is
made after that of a later section, and no failed attempt reports over a
connection in place, the last publication agrees with the connection once
nothing is under way.
-/

namespace VcsClient.Session

open VcsClient.Lib

/-- What a goroutine has still to say about the control link: whether it is up. -/
def Pc.duty : Pc → Duty Bool
  | .teardownLive | .teardownClose _ | .forget | .dialerFor | .lastSession | .dialConnect
  | .dialReconnect _ | .initAuth | .guestLogin _ | .finalCheck _ _ _ _ | .setSelf _ _ _ _
  | .attemptError _ _ _ _ _ | .goodbye _ | .publishFailed _ => .working
  | .subscribe job | .syncClient job _ | .hydrate job _ _ _ | .install job _ =>
    match job with
    | .connect _ _ _ | .reconnect _ => .working
    | .resync _ _ => .none
  | .endSession _ _ _ k =>
    match k with
    | .exit => .none
    | .reconnect _ => .working
  | .release _ _ stamp | .replay _ _ _ stamp | .publishConnected _ stamp => .owes stamp true
  | .closeEnded _ td | .resetRoster td | .clearVoice td | .clearSelf td | .publishEnded td =>
    .owes td.stamp false
  | .closeLost _ stamp | .publishLost stamp => .owes stamp false
  | _ => .none

def dutyOf : Option Pc → Duty Bool
  | none => .none
  | some pc => pc.duty

/-- The control link as it is and as it was published. -/
def System.board (s : System) : Board ℕ Bool where
  duty t := dutyOf (s.threads.lookup t)
  value := s.m.live.isSome
  told := decide (s.m.published = some .connected)
  clock := s.m.clock
  newest := s.m.shown

/-- The stamp of the publication made next. -/
def Pc.publishes : Pc → Option ℕ
  | .publishConnected _ stamp | .publishLost stamp => some stamp
  | .publishEnded td => some td.stamp
  | _ => none

def Pc.reportsFailure : Pc → Bool
  | .publishFailed _ => true
  | _ => false

/-- **Publications in order.** The publication of an install or teardown is not
made after that of a later one, and a failed attempt finds no connection in
place when it reports. -/
def Manager.InOrder (m : Manager) (pc : Pc) : Prop :=
  (∀ stamp ∈ pc.publishes, m.shown ≤ stamp) ∧ (pc.reportsFailure = true → m.live.isNone = true)

instance (m : Manager) (pc : Pc) : Decidable (m.InOrder pc) :=
  inferInstanceAs (Decidable (_ ∧ _))

def System.InOrder (s : System) : Label → Prop
  | .call _ => True
  | .run t _ => ∀ pc ∈ s.threads.lookup t, s.m.InOrder pc

instance (s : System) : ∀ l, Decidable (s.InOrder l)
  | .call _ => .isTrue trivial
  | .run t _ => inferInstanceAs (Decidable (∀ pc ∈ s.threads.lookup t, s.m.InOrder pc))

/-- What a move does to the control link and its publications. -/
inductive Manager.Tell (m : Manager) : Pc → Move → Prop
  | quiet {pc mv} (hlive : mv.m.live.isSome = m.live.isSome) (hpub : mv.m.published = m.published)
      (hclock : mv.m.clock = m.clock) (hshown : mv.m.shown = m.shown)
      (hduty : dutyOf mv.pc = pc.duty) : m.Tell pc mv
  | work {pc mv} (hlive : mv.m.live.isSome = m.live.isSome) (hclock : mv.m.clock = m.clock)
      (hshown : mv.m.shown = m.shown) (hduty : dutyOf mv.pc = .working) : m.Tell pc mv
  | change {pc mv} (hpub : mv.m.published = m.published) (hclock : mv.m.clock = m.clock + 1)
      (hshown : mv.m.shown = m.shown)
      (hduty : dutyOf mv.pc = .owes (m.clock + 1) mv.m.live.isSome) : m.Tell pc mv
  | retract {pc mv} (hpub : mv.m.published = m.published) (hclock : mv.m.clock = m.clock + 1)
      (hshown : mv.m.shown = m.shown) (hduty : dutyOf mv.pc = .working) : m.Tell pc mv
  | publish {pc mv} (stamp : ℕ) (st : ConnState)
      (hpc : pc.duty = .owes stamp (decide (st = .connected))) (hstamp : pc.publishes = some stamp)
      (hlive : mv.m.live.isSome = m.live.isSome) (hpub : mv.m.published = some st)
      (hclock : mv.m.clock = m.clock) (hshown : mv.m.shown = max m.shown stamp)
      (hduty : dutyOf mv.pc = .none) : m.Tell pc mv
  | fail {pc mv} (hpc : pc.reportsFailure = true) (hlive : mv.m.live = m.live)
      (hpub : mv.m.published = some .disconnected) (hclock : mv.m.clock = m.clock)
      (hshown : mv.m.shown = m.clock) (hduty : dutyOf mv.pc = .none) : m.Tell pc mv

namespace Manager

variable {cap : ℕ} {m : Manager} {t : ℕ} {pc : Pc} {a : Answer} {mv : Move}

theorem duty_resync {gen p stamp : ℕ} {job : Job} (h : ¬(gen ≠ m.streamGen ∨ m.live = none)) :
    dutyOf (some (.release job p stamp)) = .owes stamp (m.installLocked p).live.isSome := by
  have hlive : m.live.isSome = true := Option.isSome_iff_ne_none.2 fun hn => h (.inr hn)
  show Duty.owes stamp true = .owes stamp m.live.isSome
  rw [hlive]

theorem advance_tell (h : m.advance cap t pc a = some mv) : m.Tell pc mv := by
  replace h := advance_moves h
  induction h
  all_goals first
    | exact .quiet rfl rfl rfl rfl rfl
    | exact .work rfl rfl rfl rfl
    | exact .change rfl rfl rfl rfl
    | exact .change rfl rfl rfl (duty_resync ‹_›)
    | exact .retract rfl rfl rfl rfl
    | exact .publish _ _ rfl rfl rfl rfl rfl rfl rfl
    | exact .fail rfl rfl rfl rfl rfl rfl

end Manager

namespace System

variable {cap : ℕ} {s s' : System}

theorem init_sound : init.board.Sound where
  newest := le_rfl
  owes t stamp v h := by simp [board, init, dutyOf] at h
  told := .inr (.inr ⟨rfl, by simp [board, init, Manager.init]⟩)

/-- A new goroutine has nothing to say, and takes nobody's place. -/
theorem enter_board (hn : s.Numbered) (c : Call) : (s.enter c).board = s.board := by
  have hduty : ∀ t, dutyOf ((s.enter c).threads.lookup t) = dutyOf (s.threads.lookup t) := by
    intro t
    rw [lookup_enter]
    split
    · next he =>
      have hnone : s.threads.lookup t = none := by
        cases hl : s.threads.lookup t with
        | none => rfl
        | some pc => exact absurd (hn t pc hl) (by omega)
      rw [hnone]
      cases c <;> rfl
    · rfl
  unfold board
  simp only [hduty]
  rfl

theorem after_board (hn : s.Numbered) {t : ℕ} {a : Answer} {pc : Pc} {mv : Move}
    (hpc : s.threads.lookup t = some pc) (hmv : s.m.advance cap t pc a = some mv) :
    (s.after t mv).board =
      { duty := Function.update s.board.duty t (dutyOf mv.pc)
        value := mv.m.live.isSome
        told := decide (mv.m.published = some .connected)
        clock := mv.m.clock
        newest := mv.m.shown } := by
  have hnext := Manager.advance_next hmv
  have hduty : ∀ u, dutyOf ((s.after t mv).threads.lookup u) =
      Function.update s.board.duty t (dutyOf mv.pc) u := by
    intro u
    by_cases hu : u = t
    · subst hu
      rw [Function.update_self, lookup_after_self hn hnext hpc]
    · rw [Function.update_of_ne hu, lookup_after, if_neg hu]
      split
      · next h =>
        have hnone : s.threads.lookup u = none := by
          cases hl : s.threads.lookup u with
          | none => rfl
          | some pc => exact absurd (hn u pc hl) (by omega)
        show dutyOf (some .recv) = dutyOf (s.threads.lookup u)
        rw [hnone]
        rfl
      · rfl
  unfold board
  rw [after_m]
  simp only [hduty]
  rfl

theorem step_sound {l : Label} (hn : s.Numbered) (h : s.board.Sound) (hok : s.InOrder l)
    (hs : s.step cap l = some s') : s'.board.Sound := by
  rcases step_cases hs with ⟨c, rfl, rfl⟩ | ⟨t, a, pc, mv, rfl, hpc, hmv, rfl⟩
  · rw [enter_board hn]
    exact h
  obtain ⟨hstamp, hfail⟩ := hok pc hpc
  have hself : s.board.duty t = pc.duty := by simp [board, hpc, dutyOf]
  rw [after_board hn hpc hmv]
  cases Manager.advance_tell hmv with
  | quiet hlive hpub hclock hshown hduty =>
    rw [hlive, hpub, hclock, hshown, hduty, ← hself, Function.update_eq_self]
    exact h
  | work hlive hclock hshown hduty =>
    rw [hlive, hclock, hshown, hduty]
    exact h.work _
  | change hpub hclock hshown hduty =>
    rw [hpub, hclock, hshown, hduty]
    exact h.change _
  | retract hpub hclock hshown hduty =>
    rw [hpub, hclock, hshown, hduty]
    exact h.retract _
  | publish stamp st hduty hpublishes hlive hpub hclock hshown hnone =>
    rw [hlive, hpub, hclock, hshown, hnone]
    simp only [Option.some.injEq]
    exact h.announce (hself.trans hduty) (hstamp stamp hpublishes)
  | fail hreports hlive hpub hclock hshown hnone =>
    rw [hlive, hpub, hclock, hshown, hnone]
    have hdown : s.m.live.isSome = false := by
      have := hfail hreports
      cases hl : s.m.live with
      | none => rfl
      | some l => simp [hl] at this
    have := h.report (i := t)
    simp only [board, hdown] at this
    simpa only [board, hdown, reduceCtorEq, Option.some.injEq, decide_false] using this

/-- **The control state agrees with the installed session.** In every run whose
publications are in order, the last publication once nothing is under way is
`connected` exactly when the manager holds a connection. -/
theorem published_agrees {ls : List Label}
    (hok : Meets (step cap) InOrder init ls) (h : exec (step cap) init ls = some s)
    (hq : s.Quiescent) : s.m.published = some .connected ↔ s.m.live.isSome = true := by
  have hi : s.Numbered ∧ s.board.Sound :=
    exec_invariant (I := fun s : System => s.Numbered ∧ s.board.Sound)
      (fun s l s' ⟨hn, hi⟩ ho hs => ⟨step_numbered hn hs, step_sound hn hi ho hs⟩)
      ⟨init_numbered, init_sound⟩ hok h
  have hsilent : ∀ t, s.board.duty t = .none := by
    intro t
    show dutyOf (s.threads.lookup t) = .none
    cases hl : s.threads.lookup t with
    | none => rfl
    | some pc =>
      have hmem : t ∈ s.threads.keys := AList.mem_keys.1 (AList.lookup_isSome.1 (by simp [hl]))
      have hwaits := hq t hmem pc hl
      cases pc <;> first | rfl | cases hwaits
  have := hi.2.settled hsilent
  simp only [board] at this
  rw [← this, decide_eq_true_eq]

end System

/-- The update stream of goroutine `t` ends for no reason of the server's, and
its goroutine reports the loss. -/
def losing (t : ℕ) : List Label := .run t (.fail none) :: goes t 7

/-- A session is connected and its stream ends. -/
theorem published_agrees_lost : ∃ s : System,
    exec (System.step 256) System.init (connected 0 "tok" ++ losing 1) = some s ∧
      (s.m.published = some .connected ↔ s.m.live.isSome = true) ∧
      s.m.published = some .disconnected := by
  have h : (exec (System.step 256) System.init (connected 0 "tok" ++ losing 1)).map
      (fun s => (decide s.Quiescent, s.m.published)) = some (true, some .disconnected) := by
    decide +kernel
  obtain ⟨s, hs, hv⟩ := Option.map_eq_some_iff.1 h
  rw [Prod.mk.injEq, decide_eq_true_eq] at hv
  exact ⟨s, hs, System.published_agrees (by decide +kernel) hs hv.1, hv.2⟩

/-- **A publication overtaken.** The stream ends between the install and its
publication: nothing is in place and `connected` is shown. A `Reconnect` that
fails over a connection in place: `disconnected` is shown. -/
theorem published_disagrees :
    (∃ s : System, exec (System.step 256) System.init
        (connecting 0 "tok" ++ goes 0 3 ++ losing 1 ++ goes 0 3) = some s ∧ s.Quiescent ∧
        s.m.published = some .connected ∧ s.m.live.isSome = false) ∧
      ∃ s : System, exec (System.step 256) System.init
        (connected 0 "tok" ++ .call .reconnect :: goes 2 5 ++ .run 2 (.fail none) :: goes 2 4) =
          some s ∧ s.Quiescent ∧ s.m.published = some .disconnected ∧ s.m.live.isSome = true := by
  have h : (exec (System.step 256) System.init
        (connecting 0 "tok" ++ goes 0 3 ++ losing 1 ++ goes 0 3)).map
      (fun s => (decide s.Quiescent, s.m.published, s.m.live.isSome)) =
        some (true, some .connected, false) := by decide +kernel
  have h' : (exec (System.step 256) System.init
        (connected 0 "tok" ++ .call .reconnect :: goes 2 5 ++ .run 2 (.fail none) :: goes 2 4)).map
      (fun s => (decide s.Quiescent, s.m.published, s.m.live.isSome)) =
        some (true, some .disconnected, true) := by decide +kernel
  obtain ⟨s, hs, hv⟩ := Option.map_eq_some_iff.1 h
  obtain ⟨s', hs', hv'⟩ := Option.map_eq_some_iff.1 h'
  simp only [Prod.mk.injEq, decide_eq_true_eq] at hv hv'
  exact ⟨⟨s, hs, hv⟩, s', hs', hv'⟩

end VcsClient.Session
