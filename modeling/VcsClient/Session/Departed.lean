import VcsClient.Session.Life

/-!
# Nothing comes back

`Disconnect` and `endSession` empty the store mutator by mutator after their
section, while update streams, resyncs and a `Reconnect` may still hold
something to write. As long as each of those writes finds its session
remembered, what a teardown has emptied stays empty until the next `Connect`.
-/

namespace VcsClient.State.Store

/-- What was empty before is empty after. -/
structure Thins (st st' : Store) : Prop where
  roster : st.RosterEmpty → st'.RosterEmpty
  voice : st.VoiceEmpty → st'.VoiceEmpty
  self : st.SelfEmpty → st'.SelfEmpty

variable (st : Store)

theorem Thins.refl : st.Thins st := ⟨fun h => h, fun h => h, fun h => h⟩

theorem thins_resetRoster : st.Thins st.resetRoster := ⟨fun _ => ⟨rfl, rfl⟩, fun h => h, fun h => h⟩

theorem thins_clearVoice : st.Thins st.clearVoice := ⟨fun h => h, fun _ => ⟨rfl, rfl, rfl⟩, fun h => h⟩

theorem thins_clearSelf : st.Thins st.clearSelf := ⟨fun h => h, fun h => h, fun _ => ⟨rfl, rfl⟩⟩

end VcsClient.State.Store

namespace VcsClient.Session

open VcsClient.Control VcsClient.Lib VcsClient.State

/-- The next step takes something of the server into the store, and not for a
`Connect` that has yet to install. -/
def Pc.feeds : Pc → Bool
  | .route _ | .replay _ _ (_ :: _) _ => true
  | .hydrate job _ (_ :: _) _ => !job.isConnect
  | _ => false

/-- The teardown a goroutine carries out. -/
def Pc.teardown : Pc → Option Teardown
  | .closeEnded _ td | .resetRoster td | .clearVoice td | .clearSelf td | .publishEnded td
  | .sessionEnded td | .unlockDisconnect td => some td
  | _ => none

theorem Pc.life_of_teardown {pc : Pc} {td : Teardown} (h : pc.teardown = some td)
    (hlife : td.life = true) : pc.life = true := by
  cases pc with
  | unlockDisconnect => rfl
  | closeEnded | resetRoster | clearVoice | clearSelf | publishEnded | sessionEnded =>
    cases h
    exact hlife
  | _ => cases h

/-- What the teardown has emptied so far. -/
def Pc.Swept (st : Store) : Pc → Prop
  | .clearVoice _ => st.RosterEmpty
  | .clearSelf _ => st.RosterEmpty ∧ st.VoiceEmpty
  | .publishEnded _ | .sessionEnded _ | .unlockDisconnect _ =>
    st.RosterEmpty ∧ st.VoiceEmpty ∧ st.SelfEmpty
  | _ => True

theorem Pc.Swept.thins {st st' : Store} {pc : Pc} (h : pc.Swept st) (hs : st.Thins st') :
    pc.Swept st' := by
  cases pc with
  | clearVoice => exact hs.roster h
  | clearSelf => exact ⟨hs.roster h.1, hs.voice h.2⟩
  | publishEnded | sessionEnded | unlockDisconnect =>
    exact ⟨hs.roster h.1, hs.voice h.2.1, hs.self h.2.2⟩
  | _ => trivial

/-- What a move does to the store, and to the teardowns under way. -/
inductive Manager.Sweep (m : Manager) : Pc → Move → Prop
  /-- The store only gets emptier. -/
  | keep {pc mv} (hstore : m.store.Thins mv.m.store)
      (hdialer : mv.m.lastDialer = true → m.lastDialer = true) (hlogins : mv.m.logins = m.logins)
      (hdown : mv.m.down = m.down)
      (hfresh : Leads mv.pc fun pc' => pc'.fresh = true → pc.fresh = true)
      (htd : Leads mv.pc fun pc' => ∀ td ∈ pc'.teardown,
        pc.teardown = some td ∧ (pc.Swept m.store → pc'.Swept mv.m.store)) : m.Sweep pc mv
  /-- A stream, a resync or an attempt writes to it, or a `Connect` installs. -/
  | write {pc mv} (hpc : pc.feeds = true ∨ pc.fresh = true) (hlogins : mv.m.logins = m.logins)
      (hdown : mv.m.down = m.down) (htd : Leads mv.pc fun pc' => pc'.teardown = none) :
      m.Sweep pc mv
  /-- A teardown begins. -/
  | begins {pc mv} (hstore : mv.m.store = m.store) (hdialer : mv.m.lastDialer = false)
      (hlogins : mv.m.logins = m.logins) (hdown : mv.m.down = m.down) (hpc : pc.fresh = false)
      (hwho : pc.life = true ∨ ¬(m.lastToken = "" ∧ m.live = none))
      (hnext : Leads mv.pc fun pc' => pc'.fresh = false ∧ pc'.Swept m.store ∧
        ∀ td ∈ pc'.teardown, td.logins = m.logins) : m.Sweep pc mv
  /-- It is done. -/
  | settles {pc mv} (td : Teardown) (hpc : pc.teardown = some td)
      (hswept : pc.Swept m.store →
        m.store.RosterEmpty ∧ m.store.VoiceEmpty ∧ m.store.SelfEmpty)
      (hstore : mv.m.store = m.store) (hdialer : mv.m.lastDialer = m.lastDialer)
      (hlogins : mv.m.logins = m.logins)
      (hdown : mv.m.down = (m.down || decide (td.logins = m.logins)))
      (hnext : Leads mv.pc fun pc' => pc'.fresh = false ∧ pc'.teardown = none) : m.Sweep pc mv
  /-- A `Connect` forgets the session before it. -/
  | forgets {pc mv} (hlogins : mv.m.logins = m.logins + 1) (hdown : mv.m.down = false)
      (hnext : Leads mv.pc fun pc' => pc'.teardown = none) : m.Sweep pc mv

namespace Manager

variable {cap : ℕ} {m : Manager} {t : ℕ} {pc : Pc} {a : Answer} {mv : Move}

theorem advance_sweep (h : m.advance cap t pc a = some mv) : m.Sweep pc mv := by
  replace h := advance_moves h
  induction h
  case hydrate job p h rest hadSecret =>
    refine .write ?_ rfl rfl (leads_some rfl)
    cases job with
    | connect => exact .inr rfl
    | reconnect | resync => exact .inl rfl
  case endSession reason still about k hsome hstill =>
    exact .begins rfl rfl rfl rfl rfl (.inr hsome)
      (leads_some ⟨rfl, trivial, fun _ h => by cases h; rfl⟩)
  case resetRoster td =>
    exact .keep (Store.thins_resetRoster _) (fun h => h) rfl rfl (leads_some (of_false rfl))
      (leads_some fun _ h => ⟨h, fun _ => ⟨rfl, rfl⟩⟩)
  case clearVoice td =>
    exact .keep (Store.thins_clearVoice _) (fun h => h) rfl rfl (leads_some (of_false rfl))
      (leads_some fun _ h => ⟨h, fun hs => ⟨hs, rfl, rfl, rfl⟩⟩)
  case clearSelf td =>
    exact .keep (Store.thins_clearSelf _) (fun h => h) rfl rfl (leads_some (of_false rfl))
      (leads_some fun _ h => ⟨h, fun hs => ⟨hs.1, hs.2, rfl, rfl⟩⟩)
  case setSelf | installConnect => exact .write (.inr rfl) rfl rfl (leads_some rfl)
  case replay | route => exact .write (.inl rfl) rfl rfl (leads_some rfl)
  case forget => exact .forgets rfl rfl (leads_some rfl)
  case sessionEnded | unlockDisconnect =>
    exact .settles _ rfl (fun h => h) rfl rfl rfl rfl leads_none
  case reconnectEnded =>
    exact .settles _ rfl (fun h => h) rfl rfl rfl rfl (leads_some ⟨rfl, rfl⟩)
  case disconnect =>
    exact .begins rfl rfl rfl rfl rfl (.inl rfl)
      (leads_some ⟨rfl, trivial, fun _ h => by cases h; rfl⟩)
  -- the rest writes nothing
  all_goals first
    | exact .keep (.refl _) (fun h => h) rfl rfl leads_none leads_none
    | exact .keep (.refl _) (fun h => h) rfl rfl (leads_some fun h => h) (leads_some (of_none rfl))
    | exact .keep (.refl _) (fun h => h) rfl rfl (leads_some (of_false rfl))
        (leads_some (of_none rfl))
    | exact .keep (.refl _) (fun h => h) rfl rfl (leads_some (of_false rfl))
        (leads_some fun _ h => ⟨h, fun h => h⟩)

end Manager

namespace System

/-- No session is remembered, and no `Connect` has forgotten one and not yet
installed. -/
def Quiet (s : System) : Prop :=
  s.m.lastDialer = false ∧ ∀ t pc, s.threads.lookup t = some pc → pc.fresh = false

/-- What teardowns have emptied is empty. -/
structure Departed (s : System) : Prop where
  down : s.m.down = true →
    s.Quiet ∧ s.m.store.RosterEmpty ∧ s.m.store.VoiceEmpty ∧ s.m.store.SelfEmpty
  swept : ∀ t pc, s.threads.lookup t = some pc → ∀ td ∈ pc.teardown, td.logins = s.m.logins →
    s.Quiet ∧ pc.Swept s.m.store
  logins : ∀ t pc, s.threads.lookup t = some pc → ∀ td ∈ pc.teardown, td.logins ≤ s.m.logins

theorem init_departed : init.Departed where
  down h := by cases h
  swept t pc h := by simp [init] at h
  logins t pc h := by simp [init] at h

variable {cap : ℕ} {s s' : System}

theorem Quiet.after {t : ℕ} {pc : Pc} {mv : Move} (h : s.Quiet) (ht : s.threads.lookup t = some pc)
    (hdialer : mv.m.lastDialer = true → s.m.lastDialer = true)
    (hfresh : Leads mv.pc fun pc' => pc'.fresh = true → pc.fresh = true) :
    (s.after t mv).Quiet := by
  refine ⟨?_, threads_after (P := fun _ pc' => pc'.fresh = false) (fun pc' hpc' => ?_)
    (fun _ => rfl) fun u pc' _ hu => h.2 u pc' hu⟩
  · rw [after_m]
    show mv.m.lastDialer = false
    cases hd : mv.m.lastDialer with
    | false => rfl
    | true => exact absurd (hdialer hd) (by rw [h.1]; nofun)
  · cases hf : pc'.fresh with
    | false => rfl
    | true => exact absurd (hfresh pc' hpc' hf) (by rw [h.2 t pc ht]; nofun)

/-- No `Connect` is between its teardown and its install when another teardown
begins. -/
theorem Held.quiet (hheld : s.Held) {t : ℕ} {pc : Pc} (ht : s.threads.lookup t = some pc)
    (hpc : pc.fresh = false) (hwho : pc.life = true ∨ ¬(s.m.lastToken = "" ∧ s.m.live = none)) :
    ∀ u pc', s.threads.lookup u = some pc' → pc'.fresh = false := by
  intro u pc' hu
  cases hf : pc'.fresh with
  | false => rfl
  | true =>
    exfalso
    rcases hwho with hlife | hsome
    · have hne : u ≠ t := by
        rintro rfl
        cases ht.symm.trans hu
        rw [hpc] at hf
        cases hf
      have := hheld.alone ht hlife hu hne
      rw [Pc.life_of_bare (Pc.bare_of_fresh hf)] at this
      cases this
    · exact hsome ⟨(hheld.fresh u pc' hu hf).2, hheld.bare u pc' hu (Pc.bare_of_fresh hf)⟩

theorem enter_departed (h : s.Departed) (c : Call) : (s.enter c).Departed := by
  have hquiet : s.Quiet → (s.enter c).Quiet := fun hq =>
    ⟨hq.1, threads_enter (P := fun _ pc => pc.fresh = false) (by cases c <;> rfl) hq.2⟩
  refine ⟨fun hd => ?_, ?_, ?_⟩
  · obtain ⟨hq, hempty⟩ := h.down hd
    exact ⟨hquiet hq, hempty⟩
  · refine threads_enter (P := fun _ pc => ∀ td ∈ pc.teardown, td.logins = s.m.logins →
      (s.enter c).Quiet ∧ pc.Swept s.m.store) (by cases c <;> nofun) fun t pc ht td htd hl => ?_
    obtain ⟨hq, hs⟩ := h.swept t pc ht td htd hl
    exact ⟨hquiet hq, hs⟩
  · exact threads_enter (P := fun _ pc => ∀ td ∈ pc.teardown, td.logins ≤ s.m.logins)
      (by cases c <;> nofun) h.logins

theorem after_departed {t : ℕ} {mv : Move}
    (hdown : mv.m.down = true → (s.after t mv).Quiet ∧
      mv.m.store.RosterEmpty ∧ mv.m.store.VoiceEmpty ∧ mv.m.store.SelfEmpty)
    (hself : Leads mv.pc fun pc' => ∀ td ∈ pc'.teardown, td.logins ≤ mv.m.logins ∧
      (td.logins = mv.m.logins → (s.after t mv).Quiet ∧ pc'.Swept mv.m.store))
    (hothers : ∀ u pc', u ≠ t → s.threads.lookup u = some pc' → ∀ td ∈ pc'.teardown,
      td.logins ≤ mv.m.logins ∧
        (td.logins = mv.m.logins → (s.after t mv).Quiet ∧ pc'.Swept mv.m.store)) :
    (s.after t mv).Departed := by
  have hall := threads_after (s := s) (t := t)
    (P := fun _ pc' => ∀ td ∈ pc'.teardown, td.logins ≤ mv.m.logins ∧
      (td.logins = mv.m.logins → (s.after t mv).Quiet ∧ pc'.Swept mv.m.store))
    hself (fun _ => nofun) hothers
  have hm := after_m s t mv
  have hd : (s.after t mv).m.down = mv.m.down := by rw [hm]
  have hst : (s.after t mv).m.store = mv.m.store := by rw [hm]
  have hl : (s.after t mv).m.logins = mv.m.logins := by rw [hm]
  refine ⟨?_, fun u pc' hu td htd he => ?_, fun u pc' hu td htd => ?_⟩
  · rw [hd, hst]
    exact hdown
  · rw [hl] at he
    rw [hst]
    exact (hall u pc' hu td htd).2 he
  · rw [hl]
    exact (hall u pc' hu td htd).1

theorem step_departed {t : ℕ} {a : Answer} {pc : Pc} {mv : Move} (hheld : s.Held) (h : s.Departed)
    (hpc : s.threads.lookup t = some pc) (hok : pc.feeds = true → s.m.lastDialer = true)
    (hmv : s.m.advance cap t pc a = some mv) : (s.after t mv).Departed := by
  cases Manager.advance_sweep hmv with
  | keep hstore hdialer hlogins hdown hfresh htd =>
    have hquiet : s.Quiet → (s.after t mv).Quiet := fun hq => hq.after hpc hdialer hfresh
    refine after_departed (fun hd => ?_) (fun pc' hpc' td hmem => ?_) fun u pc' _ hu td hmem => ?_
    · rw [hdown] at hd
      obtain ⟨hq, hr, hv, hs⟩ := h.down hd
      exact ⟨hquiet hq, hstore.roster hr, hstore.voice hv, hstore.self hs⟩
    · obtain ⟨he, hswept⟩ := htd pc' hpc' td hmem
      rw [hlogins]
      refine ⟨h.logins t pc hpc td he, fun hl => ?_⟩
      obtain ⟨hq, hs⟩ := h.swept t pc hpc td he hl
      exact ⟨hquiet hq, hswept hs⟩
    · rw [hlogins]
      refine ⟨h.logins u pc' hu td hmem, fun hl => ?_⟩
      obtain ⟨hq, hs⟩ := h.swept u pc' hu td hmem hl
      exact ⟨hquiet hq, hs.thins hstore⟩
  | write hwho hlogins hdown htd =>
    -- whoever writes finds a session, or is a `Connect` under way
    have hloud : ¬s.Quiet := by
      rintro ⟨hd, hf⟩
      rcases hwho with hfeeds | hfresh
      · exact absurd (hok hfeeds) (by rw [hd]; nofun)
      · exact absurd hfresh (by rw [hf t pc hpc]; nofun)
    refine after_departed (fun hd => ?_) (fun pc' hpc' => Manager.of_none (htd pc' hpc'))
      fun u pc' _ hu td hmem => ?_
    · rw [hdown] at hd
      exact absurd (h.down hd).1 hloud
    · rw [hlogins]
      exact ⟨h.logins u pc' hu td hmem,
        fun hl => absurd (h.swept u pc' hu td hmem hl).1 hloud⟩
  | begins hstore hdialer hlogins hdown hpcf hwho hnext =>
    have hnofresh := hheld.quiet hpc hpcf hwho
    have hquiet : (s.after t mv).Quiet := by
      refine ⟨by rw [after_m]; exact hdialer, ?_⟩
      exact threads_after (P := fun _ pc' => pc'.fresh = false) (fun pc' hpc' => (hnext pc' hpc').1)
        (fun _ => rfl) fun u pc' _ hu => hnofresh u pc' hu
    refine after_departed (fun hd => ?_) (fun pc' hpc' td hmem => ?_) fun u pc' _ hu td hmem => ?_
    · rw [hdown] at hd
      rw [hstore]
      exact ⟨hquiet, (h.down hd).2⟩
    · obtain ⟨-, hs, hl⟩ := hnext pc' hpc'
      rw [hlogins, hstore]
      exact ⟨Nat.le_of_eq (hl td hmem), fun _ => ⟨hquiet, hs⟩⟩
    · rw [hlogins, hstore]
      exact ⟨h.logins u pc' hu td hmem, fun hl => ⟨hquiet, (h.swept u pc' hu td hmem hl).2⟩⟩
  | settles td he hswept hstore hdialer hlogins hdown hnext =>
    have hquiet : s.Quiet → (s.after t mv).Quiet := fun hq =>
      hq.after hpc (fun hd => by rw [← hdialer, hd]) fun pc' hpc' =>
        Manager.of_false (hnext pc' hpc').1
    refine after_departed (fun hd => ?_) (fun pc' hpc' => Manager.of_none (hnext pc' hpc').2)
      fun u pc' _ hu td' hmem => ?_
    · rw [hstore]
      rw [hdown, Bool.or_eq_true, decide_eq_true_eq] at hd
      rcases hd with hd | hd
      · obtain ⟨hq, hempty⟩ := h.down hd
        exact ⟨hquiet hq, hempty⟩
      · obtain ⟨hq, hs⟩ := h.swept t pc hpc td he hd
        exact ⟨hquiet hq, hswept hs⟩
    · rw [hlogins, hstore]
      refine ⟨h.logins u pc' hu td' hmem, fun hl => ?_⟩
      obtain ⟨hq, hs⟩ := h.swept u pc' hu td' hmem hl
      exact ⟨hquiet hq, hs⟩
  | forgets hlogins hdown hnext =>
    refine after_departed (fun hd => ?_) (fun pc' hpc' => Manager.of_none (hnext pc' hpc'))
      fun u pc' _ hu td hmem => ?_
    · rw [hdown] at hd
      cases hd
    · -- a teardown begun before is of an earlier session
      have hle := h.logins u pc' hu td hmem
      rw [hlogins]
      exact ⟨by omega, fun hl => absurd hl (by omega)⟩

end System

end VcsClient.Session
