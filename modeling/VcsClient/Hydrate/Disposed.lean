import VcsClient.Hydrate.Settled

/-!
# Disposed handles

A disposed handle writes nothing and reports nothing, so that a store which `logged_out`
cleared is made of what came after it (`retires`).
-/

namespace VcsClient.Hydrate

open VcsClient.Lib Sync

variable {σ δ : Type*} {S : System σ δ} {s s' : Sync σ δ} {f : Flight} {i moment : ℕ}

def callsOf (s : Sync σ δ) (i : ℕ) : List (ℕ × Call) := s.calls.filter fun c => c.1 = i

def Disposed (s : Sync σ δ) (i : ℕ) : Prop :=
  ∃ f, s.handles[i]? = some f ∧ f.handle.disposed = true

theorem disposed_dispose (h : Disposed s i) : Disposed s.dispose i := by
  obtain ⟨f, hf, hd⟩ := h
  unfold Sync.dispose
  split
  · exact ⟨f, hf, hd⟩
  · next k _ =>
    by_cases hk : k = i
    · exact ⟨{ f with handle := f.handle.dispose },
        by rw [List.getElem?_modify, hf]; exact congrArg some (if_pos hk), rfl⟩
    · exact ⟨f, by rw [List.getElem?_modify, hf]; exact congrArg some (if_neg hk), hd⟩

theorem disposed_pushed (h : Disposed s i) : Disposed s.pushed i := by
  obtain ⟨f, hf, hd⟩ := h
  unfold Sync.pushed
  split
  · exact ⟨f, hf, hd⟩
  · next k _ =>
    by_cases hk : k = i
    · exact ⟨{ f with handle := f.handle.pushed },
        by rw [List.getElem?_modify, hf]; exact congrArg some (if_pos hk),
        (Handle.disposed_pushed _).trans hd⟩
    · exact ⟨f, by rw [List.getElem?_modify, hf]; exact congrArg some (if_neg hk), hd⟩

theorem disposed_hydrate (h : Disposed s i) : Disposed (s.hydrate S) i := by
  obtain ⟨f, hf, hd⟩ := disposed_dispose h
  refine ⟨f, ?_, hd⟩
  show (s.dispose.handles ++ _)[i]? = some f
  rw [List.getElem?_append_left (List.getElem?_eq_some_iff.1 hf).1, hf]

theorem disposed_receive (h : Disposed s i) (c : Commit σ δ) : Disposed (s.receive S c) i := by
  cases c with
  | delta d => exact disposed_pushed h
  | reset st => exact h
  | rehydrate => exact disposed_hydrate h
  | loggedOut => exact disposed_dispose h

theorem calls_receive (s : Sync σ δ) (c : Commit σ δ) : (s.receive S c).calls = s.calls := by
  cases c with
  | delta d =>
    show s.pushed.calls = s.calls
    unfold Sync.pushed
    split <;> rfl
  | reset st => rfl
  | rehydrate => exact (frame_dispose s).2.2.1
  | loggedOut => exact (frame_dispose s).2.2.1

/-- What a result changes of the handles and of the calls. -/
theorem resolve_only (s : Sync σ δ) (k moment : ℕ) (f : Flight) :
    (∃ f', (s.resolve S k moment f).handles = s.handles.set k f') ∧
      ∃ calls, (s.resolve S k moment f).calls = s.calls ++ calls ∧ ∀ c ∈ calls, c.1 = k := by
  unfold Sync.resolve
  split
  · exact ⟨⟨_, rfl⟩, [], (List.append_nil _).symm, nofun⟩
  · exact ⟨⟨_, rfl⟩, [], (List.append_nil _).symm, nofun⟩
  · refine ⟨⟨_, rfl⟩, _, List.append_assoc _ _ _, fun c hc => ?_⟩
    obtain hc | hc := List.mem_append.1 hc
    · split at hc
      · rw [List.mem_singleton.1 hc]
      · cases hc
    · rw [List.mem_singleton.1 hc]

theorem reject_only (s : Sync σ δ) (k : ℕ) (f : Flight) :
    (∃ f', (s.reject k f).handles = s.handles.set k f') ∧
      ∃ calls, (s.reject k f).calls = s.calls ++ calls ∧ ∀ c ∈ calls, c.1 = k := by
  unfold Sync.reject
  refine ⟨⟨_, rfl⟩, _, rfl, fun c hc => ?_⟩
  split at hc
  · cases hc
  · rw [List.mem_singleton.1 hc]

theorem disposed_only {k : ℕ} (h : Disposed s i) (hne : k ≠ i)
    (hhandles : ∃ f', s'.handles = s.handles.set k f')
    (hcalls : ∃ calls, s'.calls = s.calls ++ calls ∧ ∀ c ∈ calls, c.1 = k) :
    Disposed s' i ∧ callsOf s' i = callsOf s i := by
  obtain ⟨f', hf'⟩ := hhandles
  obtain ⟨calls, hcalls, hk⟩ := hcalls
  obtain ⟨g, hg, hd⟩ := h
  refine ⟨⟨g, ?_, hd⟩, ?_⟩
  · rw [hf', List.getElem?_set, if_neg hne, hg]
  · have hnil : (calls.filter fun c => c.1 = i) = [] :=
      List.filter_eq_nil_iff.2 fun c hc => by
        rw [decide_eq_true_iff, hk c hc]
        exact hne
    unfold callsOf
    rw [hcalls, List.filter_append, hnil, List.append_nil]

theorem disposed_landed (hf : s.handles[i]? = some f) (hd : f.handle.disposed = true) :
    Disposed (s.setFlight i { f with handle := f.handle.landed }) i := by
  refine ⟨{ f with handle := f.handle.landed }, ?_, hd⟩
  show (s.handles.set i _)[i]? = _
  rw [List.getElem?_set, if_pos rfl, if_pos (List.getElem?_eq_some_iff.1 hf).1]

theorem disposed_step {a : Act σ δ} (h : Disposed s i) (hstep : step S s a = some s') :
    Disposed s' i ∧ callsOf s' i = callsOf s i := by
  cases a with
  | commit c =>
    cases hstep
    exact ⟨h, rfl⟩
  | deliver =>
    simp only [step] at hstep
    split at hstep
    · cases hstep
    · next c _ =>
      cases hstep
      split
      · refine ⟨disposed_receive (s := { s with delivered := s.delivered + 1 }) h c, ?_⟩
        unfold callsOf
        rw [calls_receive]
      · exact ⟨h, rfl⟩
  | mount =>
    simp only [step] at hstep
    split at hstep
    · cases hstep
    · cases hstep
      exact ⟨disposed_hydrate h, congrArg (List.filter _) (frame_dispose s).2.2.1⟩
  | unmount =>
    simp only [step] at hstep
    split at hstep
    · cases hstep
      exact ⟨disposed_dispose h, congrArg (List.filter _) (frame_dispose s).2.2.1⟩
    · cases hstep
  | hydrate =>
    simp only [step] at hstep
    split at hstep
    · cases hstep
      exact ⟨disposed_hydrate h, congrArg (List.filter _) (frame_dispose s).2.2.1⟩
    · cases hstep
  | resolve k moment =>
    simp only [step] at hstep
    split at hstep
    · cases hstep
    · next f hf =>
      split at hstep
      · cases hstep
        by_cases hk : k = i
        · subst hk
          obtain ⟨g, hg, hd⟩ := h
          obtain rfl : f = g := Option.some.inj (hf.symm.trans hg)
          rw [resolve_disposed hd]
          exact ⟨disposed_landed hf hd, rfl⟩
        · obtain ⟨hhandles, hcalls⟩ := resolve_only (S := S) s k moment f
          exact disposed_only h hk hhandles hcalls
      · cases hstep
  | reject k =>
    simp only [step] at hstep
    split at hstep
    · cases hstep
    · next f hf =>
      split at hstep
      · cases hstep
        by_cases hk : k = i
        · subst hk
          obtain ⟨g, hg, hd⟩ := h
          obtain rfl : f = g := Option.some.inj (hf.symm.trans hg)
          rw [reject_disposed hd]
          exact ⟨disposed_landed hf hd, rfl⟩
        · obtain ⟨hhandles, hcalls⟩ := reject_only s k f
          exact disposed_only h hk hhandles hcalls
      · cases hstep

/-- **A disposed handle** makes no call, however the run goes on. -/
theorem disposed_run {acts : List (Act σ δ)} (h : Disposed s i)
    (hrun : exec (step S) s acts = some s') : Disposed s' i ∧ callsOf s' i = callsOf s i :=
  exec_invariant (I := fun t => Disposed t i ∧ callsOf t i = callsOf s i)
    (fun _ _ _ hi _ hs => ⟨(disposed_step hi.1 hs).1, (disposed_step hi.1 hs).2.trans hi.2⟩)
    ⟨h, rfl⟩ (Meets.trivial _ _ _) hrun

theorem store_disposed (h : Disposed s i) :
    (∀ moment s', step S s (.resolve i moment) = some s' → s'.store = s.store) ∧
      ∀ s', step S s (.reject i) = some s' → s'.store = s.store := by
  obtain ⟨f, hf, hd⟩ := h
  constructor
  · intro moment s' hstep
    simp only [step, hf] at hstep
    split at hstep
    · cases hstep
      rw [resolve_disposed hd]
      rfl
    · cases hstep
  · intro s' hstep
    simp only [step, hf] at hstep
    split at hstep
    · cases hstep
      rfl
    · cases hstep

/-! ## After `logged_out` -/

theorem After.commit {cs : List (Commit σ δ)} {p : ℕ} {st : σ} (c : Commit σ δ)
    (h : After S cs p st) : After S (cs ++ [c]) p st := by
  induction h with
  | cleared => exact .cleared
  | fetched moment hp hle =>
    have hsame : (cs ++ [c]).take moment = cs.take moment := List.take_append_of_le_length hle
    rw [← hsame]
    refine .fetched moment hp ?_
    rw [List.length_append]
    omega
  | delta j d st hp hj _ ih =>
    refine .delta j d st hp ?_ ih
    rw [List.getElem?_append_left (List.getElem?_eq_some_iff.1 hj).1, hj]

/-- A window that `logged_out` has come to, as the commit `p`. -/
structure Later (S : System σ δ) (p : ℕ) (s : Sync σ δ) : Prop where
  lt : p < s.delivered
  le : s.delivered ≤ s.commits.length
  /-- what can still be taken was fetched later -/
  since : ∀ (i : ℕ) f, s.handles[i]? = some f → f.handle.disposed = false → p < f.since
  store : After S s.commits p s.store

section Later

variable {p : ℕ}

theorem since_dispose (h : ∀ (i : ℕ) f, s.handles[i]? = some f → f.handle.disposed = false →
    p < f.since) : ∀ (i : ℕ) f, s.dispose.handles[i]? = some f → f.handle.disposed = false →
      p < f.since := by
  intro i f hf hd
  unfold Sync.dispose at hf
  split at hf
  · exact h i f hf hd
  · obtain ⟨g, hg, rfl⟩ := eq_of_getElem?_modify hf
    split at hd
    · cases hd
    · rename_i hne
      rw [if_neg hne]
      exact h i g hg hd

theorem since_hydrate (hlt : p < s.commits.length)
    (h : ∀ (i : ℕ) f, s.handles[i]? = some f → f.handle.disposed = false → p < f.since) :
    ∀ (i : ℕ) f, (s.hydrate S).handles[i]? = some f → f.handle.disposed = false → p < f.since := by
  intro i f hf hd
  obtain ⟨hf, -⟩ | ⟨-, rfl⟩ := eq_of_getElem?_concat hf
  · exact since_dispose h i f hf hd
  · show p < s.dispose.commits.length
    rw [(frame_dispose s).1]
    exact hlt

theorem store_dispose (s : Sync σ δ) : s.dispose.store = s.store := by
  unfold Sync.dispose
  split <;> rfl

theorem Later.hydrate (h : Later S p s) (mounted : Bool) :
    Later S p { s.hydrate S with mounted := mounted } where
  lt := by
    show p < s.dispose.delivered
    rw [(frame_dispose s).2.1]
    exact h.lt
  le := by
    show s.dispose.delivered ≤ s.dispose.commits.length
    rw [(frame_dispose s).1, (frame_dispose s).2.1]
    exact h.le
  since := since_hydrate (Nat.lt_of_lt_of_le h.lt h.le) h.since
  store := by
    show After S s.dispose.commits p s.dispose.store
    rw [(frame_dispose s).1, store_dispose]
    exact h.store

theorem Later.dispose (h : Later S p s) (mounted : Bool) :
    Later S p { s.dispose with mounted := mounted } where
  lt := by
    show p < s.dispose.delivered
    rw [(frame_dispose s).2.1]
    exact h.lt
  le := by
    show s.dispose.delivered ≤ s.dispose.commits.length
    rw [(frame_dispose s).1, (frame_dispose s).2.1]
    exact h.le
  since := since_dispose h.since
  store := by
    show After S s.dispose.commits p s.dispose.store
    rw [(frame_dispose s).1, store_dispose]
    exact h.store

theorem Later.deliver {c : Commit σ δ} (h : Later S p s)
    (hc : s.commits[s.delivered]? = some c) :
    Later S p { s with delivered := s.delivered + 1 } where
  lt := Nat.lt_succ_of_lt h.lt
  le := (List.getElem?_eq_some_iff.1 hc).1
  since := h.since
  store := h.store

theorem Later.receive {c : Commit σ δ} (h : Later S p s) {n : ℕ} (hn : p < n)
    (hc : s.commits[n]? = some c) : Later S p (s.receive S c) := by
  cases c with
  | delta d =>
    have hpushed : s.pushed.commits = s.commits ∧ s.pushed.delivered = s.delivered := by
      unfold Sync.pushed
      split <;> exact ⟨rfl, rfl⟩
    refine ⟨?_, ?_, fun i f hf hd => ?_, ?_⟩
    · exact hpushed.2 ▸ h.lt
    · show s.pushed.delivered ≤ s.pushed.commits.length
      rw [hpushed.1, hpushed.2]
      exact h.le
    · have hf' : s.pushed.handles[i]? = some f := hf
      unfold Sync.pushed at hf'
      split at hf'
      · exact h.since i f hf' hd
      · obtain ⟨g, hg, rfl⟩ := eq_of_getElem?_modify hf'
        split at hd
        · rename_i he
          rw [if_pos he]
          exact h.since i g hg ((Handle.disposed_pushed _).symm.trans hd)
        · rename_i hne
          rw [if_neg hne]
          exact h.since i g hg hd
    · show After S s.pushed.commits p (S.deltas.apply d s.store)
      rw [hpushed.1]
      exact .delta n d s.store hn hc h.store
  | reset st => exact h
  | rehydrate =>
    have hnew := h.hydrate (s.hydrate S).mounted
    exact hnew
  | loggedOut =>
    have hnew := h.dispose s.dispose.mounted
    exact ⟨hnew.lt, hnew.le, hnew.since, .cleared⟩

theorem Later.setFlight (h : Later S p s) (f' : Flight) (store : σ) (calls : List (ℕ × Call))
    (hsince : f'.handle.disposed = false → p < f'.since)
    (hstore : After S s.commits p store) :
    Later S p { s.setFlight i f' with store := store, calls := calls } where
  lt := h.lt
  le := h.le
  since j g hg hd := by
    obtain ⟨-, rfl⟩ | ⟨-, hg⟩ := eq_of_getElem?_set hg
    · exact hsince hd
    · exact h.since j g hg hd
  store := hstore

theorem Later.resolve (h : Later S p s) (hf : s.handles[i]? = some f)
    (hsince : f.since ≤ moment) (hmoment : moment ≤ s.commits.length) :
    Later S p (s.resolve S i moment f) := by
  cases hd : f.handle.disposed with
  | true =>
    rw [resolve_disposed hd]
    exact h.setFlight { f with handle := f.handle.landed } s.store s.calls
      (fun hd' => absurd (hd.symm.trans hd') (by decide)) h.store
  | false =>
    have hlater : p < f.since := h.since i f hf hd
    unfold Sync.resolve
    split
    · exact h.setFlight _ s.store s.calls (fun _ => hlater) h.store
    · exact h.setFlight _ s.store s.calls (fun _ => Nat.lt_of_lt_of_le h.lt h.le) h.store
    · exact h.setFlight _ _ _ (fun _ => hlater)
        (.fetched moment (Nat.lt_of_lt_of_le hlater hsince) hmoment)

theorem later_step {a : Act σ δ} (h : Later S p s) (hstep : step S s a = some s') :
    Later S p s' := by
  cases a with
  | commit c =>
    cases hstep
    refine ⟨h.lt, ?_, h.since, h.store.commit c⟩
    have := h.le
    show s.delivered ≤ (s.commits ++ [c]).length
    rw [List.length_append]
    omega
  | deliver =>
    simp only [step] at hstep
    split at hstep
    · cases hstep
    · next c hc =>
      cases hstep
      split
      · exact (h.deliver hc).receive h.lt hc
      · exact h.deliver hc
  | mount =>
    simp only [step] at hstep
    split at hstep
    · cases hstep
    · cases hstep
      exact h.hydrate true
  | unmount =>
    simp only [step] at hstep
    split at hstep
    · cases hstep
      exact h.dispose false
    · cases hstep
  | hydrate =>
    simp only [step] at hstep
    split at hstep
    · cases hstep
      exact h.hydrate (s.hydrate S).mounted
    · cases hstep
  | resolve k moment =>
    simp only [step] at hstep
    split at hstep
    · cases hstep
    · next f hf =>
      split at hstep
      · next hok =>
        cases hstep
        exact h.resolve hf hok.2.1 hok.2.2
      · cases hstep
  | reject k =>
    simp only [step] at hstep
    split at hstep
    · cases hstep
    · next f hf =>
      split at hstep
      · cases hstep
        exact h.setFlight _ s.store _ (fun hd => h.since k f hf hd) h.store
      · cases hstep

/-- **After `logged_out`** the store is made of what was committed later. -/
theorem after_loggedOut {acts : List (Act σ δ)} (hinv : Inv S s) (hwhole : Whole S)
    (hmounted : s.mounted = true) (hc : s.commits[s.delivered]? = some .loggedOut)
    (hrun : exec (step S) s (.deliver :: acts) = some s') :
    After S s'.commits s.delivered s'.store := by
  obtain ⟨t, hstep, hrun⟩ := exec_cons.1 hrun
  have ht := inv_step hwhole hinv hstep
  simp only [step, hc] at hstep
  rw [if_pos hmounted] at hstep
  cases hstep
  have hlater : Later S s.delivered
      (({ s with delivered := s.delivered + 1 } : Sync σ δ).receive S .loggedOut) := by
    refine ⟨?_, ht.le, fun i f hf hd => ?_, .cleared⟩
    · show s.delivered < ({ s with delivered := s.delivered + 1 } : Sync σ δ).dispose.delivered
      rw [(frame_dispose _).2.1]
      exact Nat.lt_succ_self _
    · have hnone := live_dispose { s with delivered := s.delivered + 1 }
      have hdisposed := ht.retired i f hf (by
        show ({ s with delivered := s.delivered + 1 } : Sync σ δ).dispose.live ≠ some i
        rw [hnone]
        exact (Option.some_ne_none i).symm)
      exact absurd (hdisposed.symm.trans hd) (by decide)
  exact (exec_invariant (fun _ _ _ hi _ hs => later_step hi hs) hlater (Meets.trivial _ _ _)
    hrun).store

end Later

/-! ## The guards -/

/-- `hydrateSnapshot`: a push is the whole state. -/
def System.snapshot (origin shown cleared : σ) : System σ σ where
  rule := .snapshot
  deltas := Deltas.whole σ
  change d _ := d
  origin := origin
  shown := shown
  cleared := cleared

/-- `hydrateDelta`: a push is the value of one key. -/
def System.delta {κ : Type*} {v : κ → Type*} [DecidableEq κ] (maxAttempts : ℕ)
    (origin shown cleared : ∀ k, v k) : System (∀ k, v k) (Σ k, v k) where
  rule := .delta maxAttempts
  deltas := Deltas.perKey v
  change d s := Function.update s d.1 d.2
  origin := origin
  shown := shown
  cleared := cleared

theorem Respects.perKey {κ : Type*} {v : κ → Type*} [DecidableEq κ] (k : κ) (x : Σ k, v k)
    {st st' : ∀ k, v k} (h : st k = st' k) :
    (Deltas.perKey v).apply x st k = (Deltas.perKey v).apply x st' k := by
  obtain ⟨k', y⟩ := x
  by_cases hk : k = k'
  · subst hk
    exact (Function.update_self k y st).trans (Function.update_self k y st').symm
  · exact (Function.update_of_ne hk y st).trans (h.trans (Function.update_of_ne hk y st').symm)

/-- A handle is silent once it is disposed, and so is a session that is over. -/
structure Retires (S : System σ δ) : Prop where
  mute : ∀ s, Run S s → ∀ i, Disposed s i → ∀ acts s', exec (step S) s acts = some s' →
    callsOf s' i = callsOf s i
  writes : ∀ s, Run S s → ∀ i, Disposed s i →
    (∀ moment s', step S s (.resolve i moment) = some s' → s'.store = s.store) ∧
      ∀ s', step S s (.reject i) = some s' → s'.store = s.store
  loggedOut : ∀ s, Run S s → s.mounted = true → s.commits[s.delivered]? = some .loggedOut →
    ∀ acts s', exec (step S) s (.deliver :: acts) = some s' →
      After S s'.commits s.delivered s'.store

theorem retires (hwhole : Whole S) : Retires S where
  mute _ _ _ hd _ _ hrun := (disposed_run hd hrun).2
  writes _ _ _ hd := store_disposed hd
  loggedOut _ hs hmounted hc _ _ hrun := after_loggedOut (hs.inv hwhole) hwhole hmounted hc hrun

end VcsClient.Hydrate
