import VcsClient.Session.Flow

/-!
# Stream contexts

A stream runs on the context of the connection it was opened on. Once it is
installed, that context is cancelled, or its connection is in place, or a
goroutine has given the connection up and cancels the context next.
-/

namespace VcsClient.Session

open VcsClient.Lib

/-- The stream context a goroutine cancels next. -/
def Pc.closes : Pc → Option ℕ
  | .teardownClose owner | .closeLost owner _ => some owner
  | .closeEnded owner _ => owner
  | _ => none

namespace Manager

/-- Stream `p` was opened by `t` for `job`. -/
def Opened (m : Manager) (t : ℕ) (job : Job) (p : ℕ) : Prop :=
  m.At p fun q => m.ownerOf t job = some q.owner

/-- The stream a place has to do with runs on the context of its job. -/
def Owned (m : Manager) (t : ℕ) : Pc → Prop
  | .stillCurrent gen token p => m.Opened t (.resync gen token) p
  | .syncClient job p | .hydrate job p _ _ | .install job p => m.Opened t job p
  | .finalCheck token guid self p | .setSelf token guid self p =>
    m.Opened t (.connect token guid self) p
  | _ => True

variable {cap : ℕ} {m m' : Manager} {t : ℕ} {pc : Pc} {a : Answer} {mv : Move}

theorem Keeps.ownerOf (h : m.Keeps m') {job : Job} {owner : ℕ} (ho : m.ownerOf t job = some owner) :
    m'.ownerOf t job = some owner := by
  cases job with
  | connect | reconnect => exact ho
  | resync gen token =>
    obtain ⟨q, hq, rfl⟩ := Option.map_eq_some_iff.1 ho
    obtain ⟨q', hq', hle⟩ := h t q hq
    show (m'.streams.lookup t).map Stream.owner = some q.owner
    rw [hq', Option.map_some, hle.owner]

theorem Opened.keeps {job : Job} {p : ℕ} (h : m.Opened t job p) (hk : m.Keeps m') :
    m'.Opened t job p :=
  At.keeps h hk fun q q' hle ho => by
    rw [hle.owner]
    exact hk.ownerOf ho

theorem Owned.keeps (h : m.Owned t pc) (hk : m.Keeps m') : m'.Owned t pc := by
  cases pc with
  | stillCurrent | syncClient | hydrate | install | finalCheck | setSelf => exact Opened.keeps h hk
  | _ => trivial

theorem advance_owned (hnum : m.StreamsNumbered) (hpc : m.Owned t pc)
    (h : m.advance cap t pc a = some mv) : Leads mv.pc (mv.m.Owned t) := by
  replace h := advance_moves h
  induction h
  all_goals first
    | exact leads_none
    | exact leads_some trivial
    | exact leads_some hpc
    | skip
  case openConnect howner | openReconnect howner | openResync howner =>
    exact leads_some (at_insert rfl ((keeps_of_insert hnum rfl).ownerOf howner))

/-- A connection that is given up is closed next, or is closed already. -/
theorem advance_closes (hbare : pc.bare = true → m.live = none) (h : m.advance cap t pc a = some mv) :
    (∀ l ∈ m.live, (∃ l' ∈ mv.m.live, l'.owner = l.owner) ∨ l.owner ∈ mv.m.ctxDone ∨
      ∃ pc' ∈ mv.pc, pc'.closes = some l.owner) ∧ ∀ o ∈ pc.closes, o ∈ mv.m.ctxDone := by
  replace h := advance_moves h
  induction h
  all_goals first
    | exact ⟨fun l hl => .inl ⟨l, hl, rfl⟩, of_none rfl⟩
    | exact ⟨fun l hl => .inl ⟨l, hl, rfl⟩, fun o ho =>
        List.mem_append_left _ (Option.mem_toList.2 ho)⟩
    | exact ⟨fun l hl => .inr (.inr ⟨_, rfl, congrArg (Option.map Live.owner) hl⟩), of_none rfl⟩
    | skip
  case teardownLive l hlive =>
    refine ⟨fun l' hl => .inr (.inr ⟨_, rfl, ?_⟩), of_none rfl⟩
    cases hlive.symm.trans hl
    rfl
  case installConnect token guid self p =>
    refine ⟨fun l hl => ?_, of_none rfl⟩
    rw [hbare rfl] at hl
    cases hl
  case installReconnect token p hsame =>
    refine ⟨fun l hl => .inr (.inl (List.mem_append_left _ ?_)), of_none rfl⟩
    exact Option.mem_toList.2 (congrArg (Option.map Live.owner) hl)
  case controlLost gen l hlive hgen =>
    refine ⟨fun l' hl => .inr (.inr ⟨_, rfl, ?_⟩), of_none rfl⟩
    cases hlive.symm.trans hl
    rfl

theorem advance_install {job : Job} {p : ℕ} (h : m.advance cap t (.install job p) a = some mv) :
    mv = m.install t job p := by
  cases a with
  | go => exact (Option.some.inj h).symm
  | _ => cases h

theorem install_live {job : Job} {p : ℕ} (hjob : job.life = true)
    (h : (m.install t job p).m.streamGen = m.streamGen + 1) :
    (m.install t job p).m.live = some ⟨t, job.token⟩ := by
  cases job with
  | connect => rfl
  | resync => cases hjob
  | reconnect token =>
    show (m.install t (.reconnect token) p).m.live = some ⟨t, token⟩
    by_cases hne : m.lastToken ≠ token
    · exfalso
      simp only [install, if_pos hne] at h
      exact absurd h (Nat.succ_ne_self _).symm
    · simp only [install, if_neg hne]
      rfl

theorem ownerOf_life {job : Job} (hjob : job.life = true) : m.ownerOf t job = some t := by
  cases job <;> first | rfl | cases hjob

end Manager

namespace System

/-- What holds of the stream contexts. -/
structure Closing (s : System) : Prop where
  owned : ∀ t pc, s.threads.lookup t = some pc → s.m.Owned t pc
  closes : ∀ p q, s.m.streams.lookup p = some q → q.gen.isSome = true →
    q.owner ∈ s.m.ctxDone ∨ (∃ l ∈ s.m.live, l.owner = q.owner) ∨
      ∃ u pc, s.threads.lookup u = some pc ∧ pc.closes = some q.owner

theorem init_closing : init.Closing where
  owned t pc h := by simp [init] at h
  closes p q h := by simp [init, Manager.init] at h

variable {cap : ℕ} {s s' : System}

theorem enter_closing (hflow : s.Flow) (h : s.Closing) (c : Call) : (s.enter c).Closing where
  owned := threads_enter (P := fun t pc => s.m.Owned t pc) (by cases c <;> trivial) h.owned
  closes p q hq hg := (h.closes p q hq hg).imp_right fun hc =>
    hc.imp_right fun ⟨u, pc, hu, ho⟩ => ⟨u, pc, lookup_enter_of_some hflow.numbered hu, ho⟩

theorem step_closing {l : Label} (hheld : s.Held) (hflow : s.Flow) (h : s.Closing)
    (hs : s.step cap l = some s') : s'.Closing := by
  rcases step_cases hs with ⟨c, rfl, rfl⟩ | ⟨t, a, pc, mv, rfl, hpc, hmv, rfl⟩
  · exact enter_closing hflow h c
  have hplace := hflow.place t pc hpc
  have hpours := Manager.advance_pours hmv
  have hkeeps := Manager.pours_keeps hflow.streams hplace hpours
  have hnext := Manager.advance_next hmv
  have hctx := Manager.advance_ctxDone hmv
  obtain ⟨hgiven, hclosed⟩ := Manager.advance_closes (hheld.bare t pc hpc) hmv
  have hm := after_m s t mv
  refine ⟨?_, ?_⟩
  · rw [hm]
    exact threads_after (P := fun u pc' => mv.m.Owned u pc')
      (Manager.advance_owned hflow.streams (h.owned t pc hpc) hmv) (fun _ => trivial)
      fun u pc' _ hu => (h.owned u pc' hu).keeps hkeeps
  -- the context of a stream that was installed before stays accounted for
  have hold : ∀ q : Stream, (q.owner ∈ s.m.ctxDone ∨ (∃ l ∈ s.m.live, l.owner = q.owner) ∨
      ∃ u pc, s.threads.lookup u = some pc ∧ pc.closes = some q.owner) →
      q.owner ∈ mv.m.ctxDone ∨ (∃ l ∈ mv.m.live, l.owner = q.owner) ∨
        ∃ u pc, (s.after t mv).threads.lookup u = some pc ∧ pc.closes = some q.owner := by
    rintro q (hd | ⟨l, hl, ho⟩ | ⟨u, pc', hu, hc⟩)
    · exact .inl (hctx _ hd)
    · rcases hgiven l hl with ⟨l', hl', ho'⟩ | hd | ⟨pc', hpc', hc⟩
      · exact .inr (.inl ⟨l', hl', ho'.trans ho⟩)
      · exact .inl (ho ▸ hd)
      · refine .inr (.inr ⟨t, pc', ?_, hc.trans (congrArg some ho)⟩)
        rw [lookup_after_self hflow.numbered hnext hpc]
        exact hpc'
    · by_cases hut : u = t
      · subst hut
        cases hpc.symm.trans hu
        exact .inl (hclosed _ hc)
      · exact .inr (.inr ⟨u, pc', lookup_after_of_ne hflow.numbered hnext hu hut, hc⟩)
  rw [hm]
  intro p q' hq' hg
  show q'.owner ∈ mv.m.ctxDone ∨ (∃ l ∈ mv.m.live, l.owner = q'.owner) ∨ _
  have hsame : mv.m.genOf p = s.m.genOf p → q'.owner ∈ mv.m.ctxDone ∨
      (∃ l ∈ mv.m.live, l.owner = q'.owner) ∨
        ∃ u pc, (s.after t mv).threads.lookup u = some pc ∧ pc.closes = some q'.owner := by
    intro he
    have hgen : s.m.genOf p = q'.gen := by
      rw [← he]
      unfold Manager.genOf
      rw [show mv.m.streams.lookup p = some q' from hq', Option.bind_some]
    obtain ⟨g, hg⟩ := Option.isSome_iff_exists.1 hg
    rw [hg] at hgen
    obtain ⟨q, hq, hqg⟩ := Option.bind_eq_some_iff.1 hgen
    obtain ⟨q'', hq'', hle⟩ := hkeeps p q hq
    cases (show mv.m.streams.lookup p = some q' from hq').symm.trans hq''
    rw [hle.owner]
    exact hold q (h.closes p q hq (by rw [hqg]; rfl))
  rcases Manager.pours_gens hflow.streams hplace hpours with ⟨he, -, -⟩ | ⟨p₀, ⟨job, rfl, -⟩, he, hbump, -⟩
  · exact hsame (by rw [he])
  by_cases hp : p = p₀
  · subst hp
    obtain ⟨q, hq, ho⟩ := h.owned t _ hpc
    obtain ⟨q'', hq'', hle⟩ := hkeeps p q hq
    cases (show mv.m.streams.lookup p = some q' from hq').symm.trans hq''
    rw [hle.owner]
    cases hjob : job.life with
    | false =>
      cases job with
      | connect | reconnect => cases hjob
      | resync gen token =>
        -- the stream it replaces runs on the same context
        obtain ⟨r, hr, hro⟩ := Option.map_eq_some_iff.1 ho
        obtain ⟨-, r', hr', hflows⟩ := hplace
        cases hr.symm.trans hr'
        rw [← hro]
        exact hold r (h.closes t r hr (by rw [hflows.gen]; rfl))
    | true =>
      have hmv' := Manager.advance_install hmv
      rw [hmv'] at hbump ⊢
      rw [Manager.ownerOf_life hjob] at ho
      exact .inr (.inl ⟨_, Manager.install_live hjob hbump, Option.some.inj ho⟩)
  · exact hsame (by rw [he, if_neg hp])

end System

end VcsClient.Session
