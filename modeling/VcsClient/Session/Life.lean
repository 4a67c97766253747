import VcsClient.Session.Threads

/-!
# Who may install a session

`Connect`, `Reconnect` and `Disconnect` keep `lifeMu` from before their first
section to their return. While a `Connect` has torn down what was there and has
not installed, nothing is in place and no session is remembered; a `Reconnect`
finds the session it resumes, or none.
-/

namespace VcsClient.Session

open VcsClient.Lib

/-- The goroutine holds `lifeMu`. -/
def Job.life : Job → Bool
  | .connect _ _ _ | .reconnect _ => true
  | .resync _ _ => false

def After.life : After → Bool
  | .exit => false
  | .reconnect _ => true

def Teardown.life (td : Teardown) : Bool :=
  match td.k with
  | none => true
  | some k => k.life

def Pc.life : Pc → Bool
  | .beginAttempt _ _ | .announce _ | .teardownLive | .teardownClose _ | .forget | .dialerFor
  | .lastSession | .dialConnect | .dialReconnect _ | .initAuth | .guestLogin _ | .finalCheck _ _ _ _
  | .setSelf _ _ _ _ | .attemptError _ _ _ _ _ | .goodbye _ | .publishFailed _ | .endAttempt _
  | .unlockLife _ | .disconnect | .unlockDisconnect _ => true
  | .subscribe job | .syncClient job _ | .hydrate job _ _ _ | .install job _ | .release job _ _
  | .replay job _ _ _ | .publishConnected job _ => job.life
  | .endSession _ _ _ k => k.life
  | .closeEnded _ td | .resetRoster td | .clearVoice td | .clearSelf td | .publishEnded td
  | .sessionEnded td => td.life
  | _ => false

def Job.isConnect : Job → Bool
  | .connect _ _ _ => true
  | _ => false

/-- A `Connect` that has forgotten the session before it and has not installed. -/
def Pc.fresh : Pc → Bool
  | .dialerFor | .dialConnect | .initAuth | .guestLogin _ | .finalCheck _ _ _ _
  | .setSelf _ _ _ _ => true
  | .subscribe job | .syncClient job _ | .hydrate job _ _ _ | .install job _ => job.isConnect
  | _ => false

/-- A `Connect` that has torn down what was there and has not installed. -/
def Pc.bare : Pc → Bool
  | .teardownClose _ | .forget => true
  | pc => pc.fresh

def Job.resumes : Job → Option Token
  | .reconnect token => some token
  | _ => none

/-- The session a `Reconnect` resumes, until it has installed. -/
def Pc.resumes : Pc → Option Token
  | .dialReconnect token => some token
  | .subscribe job | .syncClient job _ | .hydrate job _ _ _ | .install job _ => job.resumes
  | .attemptError .reconnect token _ _ _ => some token
  | .endSession _ none about (.reconnect _) => some about
  | _ => none

/-- The session a `Reconnect` installs next; it has applied its snapshot. -/
def Pc.reclaims : Pc → Option Token
  | .install job _ => job.resumes
  | _ => none

/-- What holds of the place a move leads to. -/
def Leads (pc : Option Pc) (P : Pc → Prop) : Prop := ∀ pc' ∈ pc, P pc'

theorem Pc.life_of_bare {pc : Pc} (h : pc.bare = true) : pc.life = true := by
  cases pc with
  | subscribe job | syncClient job | hydrate job | install job => cases job <;> first | rfl | cases h
  | _ => first | rfl | cases h

theorem Pc.bare_of_fresh {pc : Pc} (h : pc.fresh = true) : pc.bare = true := by
  cases pc <;> first | exact h | cases h

theorem Pc.life_of_resumes {pc : Pc} {token : Token} (h : pc.resumes = some token) :
    pc.life = true := by
  unfold Pc.resumes at h
  split at h
  · rfl
  · next job => cases job <;> first | rfl | cases h
  · next job _ => cases job <;> first | rfl | cases h
  · next job _ _ _ => cases job <;> first | rfl | cases h
  · next job _ => cases job <;> first | rfl | cases h
  · rfl
  · rfl
  · cases h

/-- What a move does to `lifeMu` and to the session in place. -/
inductive Manager.Grip (m : Manager) (t : ℕ) : Pc → Move → Prop
  /-- Nothing of it changes. -/
  | keep {pc mv} (hlive : mv.m.live = m.live) (hdialer : mv.m.lastDialer = m.lastDialer)
      (htoken : mv.m.lastToken = m.lastToken) (hmu : mv.m.lifeMu = m.lifeMu)
      (hlife : Leads mv.pc fun pc' => pc'.life = pc.life)
      (hbare : Leads mv.pc fun pc' => pc'.bare = true → pc.bare = true ∨ m.live = none)
      (hfresh : Leads mv.pc fun pc' => pc'.fresh = true → pc.fresh = true)
      (hresumes : Leads mv.pc fun pc' => ∀ token ∈ pc'.resumes,
        pc.resumes = some token ∨ token = m.lastToken) : m.Grip t pc mv
  | lock {pc mv} (hlive : mv.m.live = m.live) (hdialer : mv.m.lastDialer = m.lastDialer)
      (htoken : mv.m.lastToken = m.lastToken) (hfree : m.lifeMu = none)
      (hmu : mv.m.lifeMu = some t)
      (hplain : Leads mv.pc fun pc' => pc'.bare = false ∧ pc'.resumes = none) : m.Grip t pc mv
  | unlock {pc mv} (hlive : mv.m.live = m.live) (hdialer : mv.m.lastDialer = m.lastDialer)
      (htoken : mv.m.lastToken = m.lastToken) (hlife : pc.life = true) (hgone : mv.pc = none) :
      m.Grip t pc mv
  /-- The connection is given up. -/
  | drop {pc mv} (hlive : mv.m.live = none) (hdialer : mv.m.lastDialer = m.lastDialer)
      (htoken : mv.m.lastToken = m.lastToken) (hmu : mv.m.lifeMu = m.lifeMu)
      (hlife : Leads mv.pc fun pc' => pc'.life = pc.life)
      (hplain : Leads mv.pc fun pc' => pc'.fresh = false ∧ pc'.resumes = none) : m.Grip t pc mv
  /-- The session is forgotten by the `Connect` that replaces it. -/
  | forget {pc mv} (hlive : mv.m.live = m.live) (hdialer : mv.m.lastDialer = false)
      (htoken : mv.m.lastToken = "") (hmu : mv.m.lifeMu = m.lifeMu) (hpc : pc = .forget)
      (hnext : mv.pc = some .dialerFor) : m.Grip t pc mv
  /-- The session is given up with its connection. -/
  | finish {pc mv} (hlive : mv.m.live = none) (hdialer : mv.m.lastDialer = false)
      (htoken : mv.m.lastToken = "") (hmu : mv.m.lifeMu = m.lifeMu)
      (hlife : Leads mv.pc fun pc' => pc'.life = pc.life)
      (hplain : Leads mv.pc fun pc' => pc'.bare = false ∧ pc'.resumes = none) : m.Grip t pc mv
  | install {pc mv} (l : Live) (hlive : mv.m.live = some l) (htoken : mv.m.lastToken = l.token)
      (hmu : mv.m.lifeMu = m.lifeMu) (hpc : pc.life = true)
      (hjob : ∃ job p, pc = .install job p ∧
        (job.isConnect = true ∧ mv.m.lastDialer = true ∨ job.isConnect = false ∧
          m.lastToken = job.token ∧ mv.m.lastToken = m.lastToken ∧
            mv.m.lastDialer = m.lastDialer))
      (hlife : Leads mv.pc fun pc' => pc'.life = pc.life)
      (hplain : Leads mv.pc fun pc' => pc'.bare = false ∧ pc'.resumes = none) : m.Grip t pc mv

namespace Manager

variable {cap : ℕ} {m : Manager} {t : ℕ} {pc : Pc} {a : Answer} {mv : Move}

theorem leads_none {P : Pc → Prop} : Leads none P := fun pc h => by cases h

theorem leads_some {P : Pc → Prop} {pc : Pc} (h : P pc) : Leads (some pc) P := by
  intro pc' hpc'
  cases hpc'
  exact h

theorem of_false {b : Bool} {P : Prop} (h : b = false) : b = true → P := fun h' => by
  rw [h] at h'
  cases h'

theorem of_true {b : Bool} {P : Prop} (h : b = true) : b = false → P := fun h' => by
  rw [h] at h'
  cases h'

theorem of_none {α : Type*} {o : Option α} {P : α → Prop} (h : o = none) : ∀ x ∈ o, P x :=
  fun x ht => by
    rw [h] at ht
    cases ht

theorem advance_grip (h : m.advance cap t pc a = some mv) : m.Grip t pc mv := by
  replace h := advance_moves h
  induction h
  case lockLife hfree | lockDisconnect hfree =>
    exact .lock rfl rfl rfl hfree rfl (leads_some ⟨rfl, rfl⟩)
  case unlockLife | unlockDisconnect => exact .unlock rfl rfl rfl rfl rfl
  case teardownLive | controlLost =>
    exact .drop rfl rfl rfl rfl (leads_some rfl) (leads_some ⟨rfl, rfl⟩)
  case forget => exact .forget rfl rfl rfl rfl rfl rfl
  case endSession | disconnect =>
    exact .finish rfl rfl rfl rfl (leads_some rfl) (leads_some ⟨rfl, rfl⟩)
  case installConnect =>
    exact .install _ rfl rfl rfl rfl ⟨_, _, rfl, .inl ⟨rfl, rfl⟩⟩ (leads_some rfl)
      (leads_some ⟨rfl, rfl⟩)
  case teardownNone hlive =>
    exact .keep rfl rfl rfl rfl (leads_some rfl) (leads_some fun _ => .inr hlive)
      (leads_some (of_false rfl)) (leads_some (of_none rfl))
  case lastSession hdialer =>
    refine .keep rfl rfl rfl rfl (leads_some rfl) (leads_some (of_false rfl))
      (leads_some (of_false rfl)) (leads_some fun token ht => .inr ?_)
    exact (Option.some.inj ht).symm
  case installReconnect token p hsame =>
    exact .install _ rfl hsame rfl rfl ⟨_, _, rfl, .inr ⟨rfl, hsame, rfl, rfl⟩⟩
      (leads_some rfl) (leads_some ⟨rfl, rfl⟩)
  case publishDisconnect td hk =>
    have hlife : td.life = true := by simp [Teardown.life, hk]
    exact .keep rfl rfl rfl rfl (leads_some hlife.symm) (leads_some (of_false rfl))
      (leads_some (of_false rfl)) (leads_some (of_none rfl))
  case reconnectEnded td why hk =>
    have hlife : td.life = true := by simp [Teardown.life, hk, After.life]
    exact .keep rfl rfl rfl rfl (leads_some hlife.symm) (leads_some (of_false rfl))
      (leads_some (of_false rfl)) (leads_some (of_none rfl))
  -- the rest keeps the session as it is
  all_goals first
    | exact .keep rfl rfl rfl rfl leads_none leads_none leads_none leads_none
    | exact .keep rfl rfl rfl rfl (leads_some rfl) (leads_some fun h => .inl h)
        (leads_some fun h => h) (leads_some fun _ h => .inl h)
    | exact .keep rfl rfl rfl rfl (leads_some rfl) (leads_some (of_false rfl))
        (leads_some (of_false rfl)) (leads_some (of_none rfl))

end Manager

namespace System

/-- Who holds `lifeMu`, and what is in place while it is held. -/
structure Held (s : System) : Prop where
  life : ∀ t pc, s.threads.lookup t = some pc → pc.life = true → s.m.lifeMu = some t
  bare : ∀ t pc, s.threads.lookup t = some pc → pc.bare = true → s.m.live = none
  fresh : ∀ t pc, s.threads.lookup t = some pc → pc.fresh = true →
    s.m.lastDialer = false ∧ s.m.lastToken = ""
  resumes : ∀ t pc, s.threads.lookup t = some pc → ∀ token ∈ pc.resumes,
    s.m.lastToken = token ∨ s.m.lastToken = "" ∧ s.m.live = none
  token : ∀ l ∈ s.m.live, l.token = s.m.lastToken

theorem init_held : init.Held where
  life t pc h := by simp [init] at h
  bare t pc h := by simp [init] at h
  fresh t pc h := by simp [init] at h
  resumes t pc h := by simp [init] at h
  token l h := by cases h

variable {cap : ℕ} {s s' : System}

theorem Held.alone (h : s.Held) {t u : ℕ} {pc pc' : Pc} (ht : s.threads.lookup t = some pc)
    (hpc : pc.life = true) (hu : s.threads.lookup u = some pc') (hne : u ≠ t) :
    pc'.life = false := by
  cases hl : pc'.life with
  | false => rfl
  | true =>
    have := (h.life u pc' hu hl).symm.trans (h.life t pc ht hpc)
    exact absurd (Option.some.inj this) hne

theorem enter_held (h : s.Held) (c : Call) : (s.enter c).Held where
  life := threads_enter (P := fun t pc => pc.life = true → s.m.lifeMu = some t)
    (by cases c <;> nofun) h.life
  bare := threads_enter (P := fun _ pc => pc.bare = true → s.m.live = none)
    (by cases c <;> nofun) h.bare
  fresh := threads_enter (P := fun _ pc => pc.fresh = true →
    s.m.lastDialer = false ∧ s.m.lastToken = "") (by cases c <;> nofun) h.fresh
  resumes := threads_enter (P := fun _ pc => ∀ token ∈ pc.resumes,
    s.m.lastToken = token ∨ s.m.lastToken = "" ∧ s.m.live = none) (by cases c <;> nofun) h.resumes
  token := h.token

/-- The parts of `Held` after a move, from the goroutine that moved and the
others. -/
theorem after_held {t : ℕ} {mv : Move}
    (hself : Leads mv.pc fun pc' => (pc'.life = true → mv.m.lifeMu = some t) ∧
      (pc'.bare = true → mv.m.live = none) ∧
      (pc'.fresh = true → mv.m.lastDialer = false ∧ mv.m.lastToken = "") ∧
      ∀ token ∈ pc'.resumes, mv.m.lastToken = token ∨ mv.m.lastToken = "" ∧ mv.m.live = none)
    (hothers : ∀ u pc', u ≠ t → s.threads.lookup u = some pc' →
      (pc'.life = true → mv.m.lifeMu = some u) ∧ (pc'.bare = true → mv.m.live = none) ∧
      (pc'.fresh = true → mv.m.lastDialer = false ∧ mv.m.lastToken = "") ∧
      ∀ token ∈ pc'.resumes, mv.m.lastToken = token ∨ mv.m.lastToken = "" ∧ mv.m.live = none)
    (htoken : ∀ l ∈ mv.m.live, l.token = mv.m.lastToken) : (s.after t mv).Held := by
  have hall := threads_after (s := s) (t := t)
    (P := fun u pc' => (pc'.life = true → mv.m.lifeMu = some u) ∧
      (pc'.bare = true → mv.m.live = none) ∧
      (pc'.fresh = true → mv.m.lastDialer = false ∧ mv.m.lastToken = "") ∧
      ∀ token ∈ pc'.resumes, mv.m.lastToken = token ∨ mv.m.lastToken = "" ∧ mv.m.live = none)
    hself (fun _ => ⟨nofun, nofun, nofun, nofun⟩) hothers
  have hm := after_m s t mv
  refine ⟨fun u pc hu => ?_, fun u pc hu => ?_, fun u pc hu => ?_, fun u pc hu => ?_, ?_⟩ <;>
    rw [hm]
  · exact (hall u pc hu).1
  · exact (hall u pc hu).2.1
  · exact (hall u pc hu).2.2.1
  · exact (hall u pc hu).2.2.2
  · exact htoken

theorem step_held {l : Label} (h : s.Held) (hs : s.step cap l = some s') : s'.Held := by
  rcases step_cases hs with ⟨c, rfl, rfl⟩ | ⟨t, a, pc, mv, rfl, hpc, hmv, rfl⟩
  · exact enter_held h c
  have hothers : ∀ u pc', u ≠ t → s.threads.lookup u = some pc' →
      (pc'.life = true → s.m.lifeMu = some u) ∧ (pc'.bare = true → s.m.live = none) ∧
      (pc'.fresh = true → s.m.lastDialer = false ∧ s.m.lastToken = "") ∧
      ∀ token ∈ pc'.resumes, s.m.lastToken = token ∨ s.m.lastToken = "" ∧ s.m.live = none :=
    fun u pc' _ hu => ⟨h.life u pc' hu, h.bare u pc' hu, h.fresh u pc' hu, h.resumes u pc' hu⟩
  -- once `t` holds `lifeMu`, nothing is said of the others
  have halone : pc.life = true → ∀ u pc', u ≠ t → s.threads.lookup u = some pc' →
      pc'.life = false ∧ pc'.bare = false ∧ pc'.fresh = false ∧ pc'.resumes = none := by
    intro hl u pc' hne hu
    have hlife := h.alone hpc hl hu hne
    have hbare : pc'.bare = false := by
      cases hb : pc'.bare with
      | false => rfl
      | true => rw [Pc.life_of_bare hb] at hlife; cases hlife
    refine ⟨hlife, hbare, ?_, ?_⟩
    · cases hf : pc'.fresh with
      | false => rfl
      | true => rw [Pc.bare_of_fresh hf] at hbare; cases hbare
    · cases hr : pc'.resumes with
      | none => rfl
      | some token => rw [Pc.life_of_resumes hr] at hlife; cases hlife
  have hsilent : pc.life = true → ∀ u pc', u ≠ t → s.threads.lookup u = some pc' →
      (pc'.life = true → mv.m.lifeMu = some u) ∧ (pc'.bare = true → mv.m.live = none) ∧
      (pc'.fresh = true → mv.m.lastDialer = false ∧ mv.m.lastToken = "") ∧
      ∀ token ∈ pc'.resumes, mv.m.lastToken = token ∨ mv.m.lastToken = "" ∧ mv.m.live = none := by
    intro hl u pc' hne hu
    obtain ⟨hlife, hbare, hfresh, hresumes⟩ := halone hl u pc' hne hu
    exact ⟨Manager.of_false hlife, Manager.of_false hbare, Manager.of_false hfresh,
      Manager.of_none hresumes⟩
  cases Manager.advance_grip hmv with
  | keep hlive hdialer htoken hmu hlife hbare hfresh hresumes =>
    refine after_held (fun pc' hpc' => ⟨fun hl => ?_, fun hb => ?_, fun hf => ?_, fun token ht => ?_⟩)
      ?_ ?_
    · rw [hmu]
      exact h.life t pc hpc (by rw [← hlife pc' hpc', hl])
    · rw [hlive]
      rcases hbare pc' hpc' hb with hb | hnone
      · exact h.bare t pc hpc hb
      · exact hnone
    · rw [hdialer, htoken]
      exact h.fresh t pc hpc (hfresh pc' hpc' hf)
    · rw [htoken, hlive]
      rcases hresumes pc' hpc' token ht with hr | rfl
      · exact h.resumes t pc hpc token hr
      · exact .inl rfl
    · simpa only [hlive, hdialer, htoken, hmu] using hothers
    · simpa only [hlive, htoken] using h.token
  | lock hlive hdialer htoken hfree hmu hplain =>
    refine after_held (fun pc' hpc' => ⟨fun _ => hmu, Manager.of_false (hplain pc' hpc').1, ?_,
      Manager.of_none (hplain pc' hpc').2⟩) (fun u pc' hne hu => ?_) ?_
    · intro hf
      have := (hplain pc' hpc').1
      rw [Pc.bare_of_fresh hf] at this
      cases this
    · -- nobody held `lifeMu`
      have hlife : pc'.life = false := by
        cases hl : pc'.life with
        | false => rfl
        | true =>
          have := h.life u pc' hu hl
          rw [hfree] at this
          cases this
      obtain ⟨-, hbare, hfresh, hresumes⟩ := hothers u pc' hne hu
      refine ⟨Manager.of_false hlife, ?_, ?_, ?_⟩
      · simpa only [hlive] using hbare
      · simpa only [hdialer, htoken] using hfresh
      · simpa only [htoken, hlive] using hresumes
    · simpa only [hlive, htoken] using h.token
  | unlock hlive hdialer htoken hlife hgone =>
    refine after_held ?_ (hsilent hlife) ?_
    · rw [hgone]
      exact Manager.leads_none
    · simpa only [hlive, htoken] using h.token
  | drop hlive hdialer htoken hmu hlife hplain =>
    refine after_held (fun pc' hpc' => ⟨fun hl => ?_, fun _ => hlive,
      Manager.of_false (hplain pc' hpc').1, Manager.of_none (hplain pc' hpc').2⟩)
      (fun u pc' hne hu => ?_) ?_
    · rw [hmu]
      exact h.life t pc hpc (by rw [← hlife pc' hpc', hl])
    · obtain ⟨hl, -, hf, hr⟩ := hothers u pc' hne hu
      refine ⟨by simpa only [hmu] using hl, fun _ => hlive, by simpa only [hdialer, htoken] using hf,
        fun token ht => ?_⟩
      rw [htoken]
      rcases hr token ht with hr | ⟨hr, -⟩
      · exact .inl hr
      · exact .inr ⟨hr, hlive⟩
    · rw [hlive]
      nofun
  | forget hlive hdialer htoken hmu hpcf hnext =>
    have hlife : pc.life = true := by rw [hpcf]; rfl
    have hnone : s.m.live = none := h.bare t pc hpc (by rw [hpcf]; rfl)
    refine after_held ?_ (hsilent hlife) ?_
    · rw [hnext]
      refine Manager.leads_some ⟨fun _ => ?_, fun _ => ?_, fun _ => ⟨hdialer, htoken⟩, nofun⟩
      · rw [hmu]
        exact h.life t pc hpc hlife
      · rw [hlive, hnone]
    · rw [hlive, hnone]
      nofun
  | finish hlive hdialer htoken hmu hlife hplain =>
    refine after_held (fun pc' hpc' => ⟨fun hl => ?_, fun _ => hlive, fun _ => ⟨hdialer, htoken⟩,
      Manager.of_none (hplain pc' hpc').2⟩) (fun u pc' hne hu => ?_) ?_
    · rw [hmu]
      exact h.life t pc hpc (by rw [← hlife pc' hpc', hl])
    · exact ⟨by simpa only [hmu] using (hothers u pc' hne hu).1, fun _ => hlive,
        fun _ => ⟨hdialer, htoken⟩, fun _ _ => .inr ⟨htoken, hlive⟩⟩
    · rw [hlive]
      nofun
  | install l hlive htoken hmu hlpc _ hlife hplain =>
    refine after_held (fun pc' hpc' => ⟨fun _ => ?_, Manager.of_false (hplain pc' hpc').1, ?_,
      Manager.of_none (hplain pc' hpc').2⟩) (hsilent hlpc) ?_
    · rw [hmu]
      exact h.life t pc hpc hlpc
    · intro hf
      have := (hplain pc' hpc').1
      rw [Pc.bare_of_fresh hf] at this
      cases this
    · rw [hlive, htoken]
      rintro l' ⟨rfl⟩
      rfl

end System

end VcsClient.Session
