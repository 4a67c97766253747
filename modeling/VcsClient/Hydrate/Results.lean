import VcsClient.Hydrate.Disposed

/-!
# What becomes of a result

A fetch that comes back leaves its handle at rest, but for a result of `hydrateDelta` that a
push has come before: that one is fetched again, as long as there are attempts left
(`lands`). A window that has had every event is therefore settled by the next result, or by
the one after it (`results_settle`).
-/

namespace VcsClient.Hydrate

open VcsClient.Lib Sync

variable {σ δ : Type*} {S : System σ δ} {s s' : Sync σ δ} {f : Flight} {i moment n : ℕ}

/-- The flight `f` of a handle can come back with the state at a moment. -/
structure Returns (s : Sync σ δ) (i : ℕ) (f : Flight) (moment : ℕ) : Prop where
  flight : s.handles[i]? = some f
  inflight : f.handle.inflight = true
  since : f.since ≤ moment
  le : moment ≤ s.commits.length

structure Taken (S : System σ δ) (s : Sync σ δ) (i : ℕ) (f : Flight) (moment : ℕ)
    (s' : Sync σ δ) : Prop where
  flight : s'.handles[i]? = some { f with handle := f.handle.landed }
  store : s'.store = s.stateAt S moment
  calls : s'.calls = s.calls ++ (if f.handle.dirty then [(i, .warn)] else []) ++
    [(i, .apply moment s.delivered)]

structure Left (s : Sync σ δ) (i : ℕ) (f : Flight) (s' : Sync σ δ) : Prop where
  flight : s'.handles[i]? = some f
  store : s'.store = s.store
  calls : s'.calls = s.calls

/-- **What becomes of results.** -/
structure Lands (S : System σ δ) : Prop where
  taken : ∀ s, Run S s → ∀ i f moment, Returns s i f moment → f.handle.disposed = false →
    (¬Pushed s f ∨ ∃ n, S.rule = .delta n ∧ n ≤ f.handle.attempt) →
      ∃ s', step S s (.resolve i moment) = some s' ∧ Taken S s i f moment s'
  /-- A push came first: it is fetched again, -/
  retried : ∀ s, Run S s → ∀ i f moment n, Returns s i f moment → f.handle.disposed = false →
    Pushed s f → S.rule = .delta n → f.handle.attempt < n →
      ∃ s', step S s (.resolve i moment) = some s' ∧
        Left s i ⟨⟨true, false, false, f.handle.attempt + 1⟩, s.commits.length, s.delivered⟩ s'
  /-- or was itself the newest state. -/
  dropped : ∀ s, Run S s → ∀ i f moment, Returns s i f moment →
    f.handle.disposed = true ∨ S.rule = .snapshot ∧ Pushed s f →
      ∃ s', step S s (.resolve i moment) = some s' ∧
        Left s i { f with handle := f.handle.landed } s'
  attempts : ∀ s, Run S s → ∀ (i : ℕ) f n, s.handles[i]? = some f → S.rule = .delta n →
    0 < f.handle.attempt ∧ f.handle.attempt ≤ max 1 n

/-! ## One result -/

theorem Returns.step (h : Returns s i f moment) :
    Sync.step S s (.resolve i moment) = some (s.resolve S i moment f) := by
  simp only [Sync.step, h.flight]
  exact if_pos ⟨h.inflight, h.since, h.le⟩

theorem Returns.setFlight (h : Returns s i f moment) (f' : Flight) :
    (s.setFlight i f').handles[i]? = some f' := by
  show (s.handles.set i f')[i]? = some f'
  rw [List.getElem?_set, if_pos rfl, if_pos (List.getElem?_eq_some_iff.1 h.flight).1]

/-- A handle in flight is dirty when a push has come since it started. -/
theorem Inv.dirty_iff (h : Inv S s) (hr : Returns s i f moment) (hd : f.handle.disposed = false) :
    f.handle.dirty = true ↔ Pushed s f := by
  obtain ⟨-, hcur⟩ := h.live hr.flight hd
  refine ⟨hcur.dirtied, fun hp => ?_⟩
  by_contra hclean
  exact hcur.clean hr.inflight (Bool.not_eq_true _ ▸ hclean) hp

theorem resolve_applied (hr : Returns s i f moment)
    (h : S.rule.resolve f.handle = (f.handle.landed, .applied f.handle.dirty)) :
    Taken S s i f moment (s.resolve S i moment f) := by
  unfold Sync.resolve
  rw [h]
  exact ⟨hr.setFlight _, rfl, rfl⟩

theorem resolve_left {h' : Handle} (hr : Returns s i f moment)
    (h : S.rule.resolve f.handle = (h', .dropped)) :
    Left s i { f with handle := h' } (s.resolve S i moment f) := by
  unfold Sync.resolve
  rw [h]
  exact ⟨hr.setFlight _, rfl, rfl⟩

theorem resolve_retried {h' : Handle} (hr : Returns s i f moment)
    (h : S.rule.resolve f.handle = (h', .retried)) :
    Left s i ⟨h', s.commits.length, s.delivered⟩ (s.resolve S i moment f) := by
  unfold Sync.resolve
  rw [h]
  exact ⟨hr.setFlight _, rfl, rfl⟩

/-! ## Attempts -/

/-- What the guards keep of a handle is kept of all of them. -/
theorem handles_step {P : Handle → Prop} (hnew : P S.rule.hydrate)
    (hpushed : ∀ h, P h → P h.pushed) (hdispose : ∀ h, P h → P h.dispose)
    (hlanded : ∀ h, P h → P h.landed) (hresolve : ∀ h, P h → P (S.rule.resolve h).1)
    {a : Act σ δ} (hs : ∀ (i : ℕ) f, s.handles[i]? = some f → P f.handle)
    (hstep : step S s a = some s') : ∀ (i : ℕ) f, s'.handles[i]? = some f → P f.handle := by
  have hdisposed : ∀ t : Sync σ δ, (∀ (i : ℕ) f, t.handles[i]? = some f → P f.handle) →
      ∀ (i : ℕ) f, t.dispose.handles[i]? = some f → P f.handle := by
    intro t ht i f hf
    unfold Sync.dispose at hf
    split at hf
    · exact ht i f hf
    · obtain ⟨g, hg, rfl⟩ := eq_of_getElem?_modify hf
      split
      · exact hdispose _ (ht i g hg)
      · exact ht i g hg
  have hhydrated : ∀ t : Sync σ δ, (∀ (i : ℕ) f, t.handles[i]? = some f → P f.handle) →
      ∀ (i : ℕ) f, (t.hydrate S).handles[i]? = some f → P f.handle := by
    intro t ht i f hf
    obtain ⟨hf, -⟩ | ⟨-, rfl⟩ := eq_of_getElem?_concat hf
    · exact hdisposed t ht i f hf
    · exact hnew
  have hset : ∀ (k : ℕ) f', P f'.handle → ∀ (i : ℕ) f, (s.handles.set k f')[i]? = some f →
      P f.handle := by
    intro k f' hf' i f hf
    obtain ⟨-, rfl⟩ | ⟨-, hf⟩ := eq_of_getElem?_set hf
    · exact hf'
    · exact hs i f hf
  cases a with
  | commit c =>
    cases hstep
    exact hs
  | deliver =>
    simp only [step] at hstep
    split at hstep
    · cases hstep
    · next c _ =>
      cases hstep
      split
      · cases c with
        | delta d =>
          intro i f hf
          have hf' : (Sync.pushed { s with delivered := s.delivered + 1 }).handles[i]? = some f := hf
          unfold Sync.pushed at hf'
          split at hf'
          · exact hs i f hf'
          · obtain ⟨g, hg, rfl⟩ := eq_of_getElem?_modify hf'
            split
            · exact hpushed _ (hs i g hg)
            · exact hs i g hg
        | reset st => exact hs
        | rehydrate => exact hhydrated { s with delivered := s.delivered + 1 } hs
        | loggedOut => exact hdisposed { s with delivered := s.delivered + 1 } hs
      · exact hs
  | mount =>
    simp only [step] at hstep
    split at hstep
    · cases hstep
    · cases hstep
      exact hhydrated s hs
  | unmount =>
    simp only [step] at hstep
    split at hstep
    · cases hstep
      exact hdisposed s hs
    · cases hstep
  | hydrate =>
    simp only [step] at hstep
    split at hstep
    · cases hstep
      exact hhydrated s hs
    · cases hstep
  | resolve k moment =>
    simp only [step] at hstep
    split at hstep
    · cases hstep
    · next f hf =>
      split at hstep
      · cases hstep
        have hnext := hresolve _ (hs k f hf)
        unfold Sync.resolve
        split
        · next h' heq => exact hset k _ (by rwa [heq] at hnext)
        · next h' heq => exact hset k _ (by rwa [heq] at hnext)
        · next h' warned heq => exact hset k _ (by rwa [heq] at hnext)
      · cases hstep
  | reject k =>
    simp only [step] at hstep
    split at hstep
    · cases hstep
    · next f hf =>
      split at hstep
      · cases hstep
        exact hset k _ (hlanded _ (hs k f hf))
      · cases hstep

/-- **The attempts of a handle** are bounded. -/
theorem Run.attempts (hs : Run S s) (hrule : S.rule = .delta n) (hf : s.handles[i]? = some f) :
    0 < f.handle.attempt ∧ f.handle.attempt ≤ max 1 n := by
  obtain ⟨acts, hrun⟩ := hs
  refine exec_invariant (I := fun t => ∀ (i : ℕ) f, t.handles[i]? = some f →
    0 < f.handle.attempt ∧ f.handle.attempt ≤ max 1 n) (fun t a t' ht _ hstep => ?_)
    (fun i f hf => by cases hf) (Meets.trivial _ _ _) hrun i f hf
  refine handles_step (P := fun h => 0 < h.attempt ∧ h.attempt ≤ max 1 n) ?_ (fun h hh => ?_)
    (fun h hh => hh) (fun h hh => hh) (fun h hh => ?_) ht hstep
  · rw [hrule]
    exact ⟨Nat.one_pos, Nat.le_max_left 1 n⟩
  · unfold Handle.pushed
    split <;> exact hh
  · rw [hrule]
    show 0 < (resolveDelta n h).1.attempt ∧ (resolveDelta n h).1.attempt ≤ max 1 n
    unfold resolveDelta
    split_ifs with hd hretry
    · exact hh
    · exact ⟨Nat.succ_pos _, Nat.le_trans hretry.2 (Nat.le_max_right 1 n)⟩
    · exact hh

/-! ## The guards -/

theorem lands (hwhole : Whole S) : Lands S where
  taken s hs i f moment hr hd hwhen := by
    refine ⟨_, hr.step, resolve_applied hr ?_⟩
    cases hdirty : f.handle.dirty with
    | false =>
      cases hrule : S.rule with
      | snapshot => simp [Rule.resolve, resolveSnapshot, hd, hdirty]
      | delta n => simp [Rule.resolve, resolveDelta, hd, hdirty]
    | true =>
      obtain hnot | ⟨n, hrule, hlast⟩ := hwhen
      · exact absurd (((hs.inv hwhole).dirty_iff hr hd).1 hdirty) hnot
      · simp [hrule, Rule.resolve, resolveDelta, hd, hdirty, Nat.not_lt.2 hlast]
  retried s hs i f moment n hr hd hp hrule hlt := by
    have hdirty := ((hs.inv hwhole).dirty_iff hr hd).2 hp
    have hres : S.rule.resolve f.handle = (f.handle.landed.run, .retried) := by
      simp [hrule, Rule.resolve, resolveDelta, hd, hdirty, hlt]
    have hleft := resolve_retried hr hres
    have hrun : f.handle.landed.run = ⟨true, false, false, f.handle.attempt + 1⟩ := by
      unfold Handle.run Handle.landed
      rw [hd]
    rw [hrun] at hleft
    exact ⟨_, hr.step, hleft⟩
  dropped s hs i f moment hr hwhen := by
    refine ⟨_, hr.step, resolve_left hr ?_⟩
    obtain hd | ⟨hrule, hp⟩ := hwhen
    · exact S.rule.resolve_disposed hd
    · cases hd : f.handle.disposed with
      | true => exact S.rule.resolve_disposed hd
      | false =>
        have hdirty := ((hs.inv hwhole).dirty_iff hr hd).2 hp
        simp [hrule, Rule.resolve, resolveSnapshot, hdirty]
  attempts s hs i f n hf hrule := hs.attempts hrule hf

/-! ## A window that has had every event -/

theorem Run.step {a : Act σ δ} (hs : Run S s) (h : Sync.step S s a = some s') : Run S s' := by
  obtain ⟨acts, hrun⟩ := hs
  exact ⟨acts ++ [a], exec_append.2 ⟨s, hrun, exec_cons.2 ⟨s', h, rfl⟩⟩⟩

theorem resolve_frame (h : Sync.step S s (.resolve i moment) = some s') :
    s'.commits = s.commits ∧ s'.delivered = s.delivered ∧ s'.live = s.live := by
  simp only [Sync.step] at h
  split at h
  · cases h
  · split at h
    · cases h
      unfold Sync.resolve
      split <;> exact ⟨rfl, rfl, rfl⟩
    · cases h

section Settles

variable {α : Type*} {look : σ → α}

theorem newest_congr (h : s'.commits = s.commits) : s'.newest S = s.newest S := by
  unfold newest stateAt
  rw [h]

theorem Sync.Delivered.congr (h : s.Delivered S look) (hcommits : s'.commits = s.commits)
    (hdelivered : s'.delivered = s.delivered) : s'.Delivered S look := by
  obtain ⟨commits, delivered, _, _, _, _, _⟩ := s'
  cases hcommits
  cases hdelivered
  exact ⟨h.all, h.followed⟩

/-- **At rest** the window shows the newest state. -/
theorem Run.newest (hwhole : Whole S) (hlook : Respects S look) (hs : Run S s)
    (hall : s.Delivered S look) (hlive : s.live = some i) (hf : s.handles[i]? = some f)
    (hidle : f.handle.inflight = false) (herr : (i, .onError) ∉ s.calls)
    (hwarn : S.rule = .snapshot ∨ (i, .warn) ∉ s.calls) : look s.store = look (s.newest S) :=
  (hs.inv hwhole).newest look hlook hall hlive hf fun hcur => hcur.fits hidle herr hwarn

/-- **A window that has had every event** is settled by the result that is to come, or by
the one after it. -/
def Settles (S : System σ δ) (look : σ → α) : Prop :=
  ∀ s, Run S s → s.Delivered S look → ∀ i f moment, s.live = some i → Returns s i f moment →
    (i, .onError) ∉ s.calls → (i, .warn) ∉ s.calls →
      (∀ n, S.rule = .delta n → ¬Pushed s f ∨ f.handle.attempt < n) →
        ∃ s', step S s (.resolve i moment) = some s' ∧
          (look s'.store = look (s.newest S) ∨
            ∃ s'', step S s' (.resolve i s.commits.length) = some s'' ∧
              look s''.store = look (s.newest S))

theorem results_settle (hwhole : Whole S) (hlook : Respects S look) : Settles S look := by
  intro s hs hall i f moment hlive hr herr hwarn hleft
  have hlands := lands hwhole
  -- a clean result is taken
  have hclean : ∀ {t : Sync σ δ} {g : Flight} {m : ℕ}, Run S t → t.commits = s.commits →
      t.delivered = s.delivered → t.live = some i → t.calls = s.calls → Returns t i g m →
      ¬Pushed t g →
      ∃ t', Sync.step S t (.resolve i m) = some t' ∧ look t'.store = look (s.newest S) := by
    intro t g m ht hcommits hdelivered htlive hcalls hret hnot
    obtain ⟨g', hg', hcur⟩ := (ht.inv hwhole).current i htlive
    obtain rfl : g = g' := Option.some.inj (hret.flight.symm.trans hg')
    obtain ⟨t', hstep, htaken⟩ := hlands.taken t ht i g m hret hcur.enabled (.inl hnot)
    obtain ⟨hcommits', hdelivered', hlive'⟩ := resolve_frame hstep
    have hdirty : g.handle.dirty = false := by
      rw [← Bool.not_eq_true, (ht.inv hwhole).dirty_iff hret hcur.enabled]
      exact hnot
    have hcalls' : t'.calls = s.calls ++ [(i, .apply m t.delivered)] := by
      rw [htaken.calls, hdirty, if_neg Bool.false_ne_true, List.append_nil, hcalls]
    refine ⟨t', hstep, ?_⟩
    rw [← newest_congr (S := S) (hcommits'.trans hcommits)]
    refine (ht.step hstep).newest hwhole hlook
      (hall.congr (hcommits'.trans hcommits) (hdelivered'.trans hdelivered))
      (hlive'.trans htlive) htaken.flight rfl ?_ (.inr ?_)
    · rw [hcalls']
      simpa using herr
    · rw [hcalls']
      simpa using hwarn
  obtain ⟨f', hf', hcur⟩ := (hs.inv hwhole).current i hlive
  obtain rfl : f = f' := Option.some.inj (hr.flight.symm.trans hf')
  by_cases hp : Pushed s f
  · cases hrule : S.rule with
    | snapshot =>
      obtain ⟨s', hstep, hkept⟩ := hlands.dropped s hs i f moment hr (.inr ⟨hrule, hp⟩)
      obtain ⟨hcommits, hdelivered, hlive'⟩ := resolve_frame hstep
      refine ⟨s', hstep, .inl ?_⟩
      rw [← newest_congr (S := S) hcommits]
      exact (hs.step hstep).newest hwhole hlook (hall.congr hcommits hdelivered)
        (hlive'.trans hlive) hkept.flight rfl (by rwa [hkept.calls]) (.inl hrule)
    | delta n =>
      obtain ⟨s', hstep, hkept⟩ := hlands.retried s hs i f moment n hr hcur.enabled hp hrule
        ((hleft n hrule).resolve_left (not_not.2 hp))
      obtain ⟨hcommits, hdelivered, hlive'⟩ := resolve_frame hstep
      refine ⟨s', hstep, .inr (hclean (hs.step hstep) hcommits hdelivered
        (hlive'.trans hlive) hkept.calls ⟨hkept.flight, rfl, Nat.le_refl _, ?_⟩ ?_)⟩
      · exact Nat.le_of_eq (congrArg List.length hcommits.symm)
      · rintro ⟨j, d, hseen, hj, -⟩
        rw [hdelivered] at hj
        exact absurd hj (Nat.not_lt.2 hseen)
  · obtain ⟨s', hstep, hnew⟩ := hclean hs rfl rfl hlive rfl hr hp
    exact ⟨s', hstep, .inl hnew⟩

end Settles

end VcsClient.Hydrate
