import VcsClient.Notify.ShareSections

/-!
# Runs and a share

`System.share_step`: a step of the notifier does to the share of a key what its
inputs do, and by `System.share_run` so does a run. The generations that calls
and windows carry are told apart in the notifier by numbers of its own, in the
share by who is still there to use them.
-/

namespace VcsClient.Notify

open VcsClient.Lib

variable {δ : Type*}

/-! ### A window cancelled elsewhere -/

theorem cancelGen_stop (n : Notifier δ) (timer : Option ℕ) :
    (n.stop timer).cancelGen = n.cancelGen := by
  cases timer <;> rfl

theorem cancelGen_cancel (n : Notifier δ) (key : Key) :
    (n.cancelPendingLocked key).cancelGen = n.cancelGen + 1 := by
  unfold Notifier.cancelPendingLocked
  simp only
  split
  · rfl
  · exact cancelGen_stop _ _

theorem cancelGen_forget (sha256 : List UInt8 → δ) (n : Notifier δ) (it : Item) :
    n.cancelGen ≤ (n.forget sha256 it).cancelGen := by
  have hcancel := cancelGen_cancel n it.key
  unfold Notifier.forget
  simp only
  split
  · exact le_rfl
  · split
    · exact hcancel ▸ Nat.le_succ _
    · exact hcancel ▸ Nat.le_succ _

theorem cancelGen_foldl_forget (sha256 : List UInt8 → δ) (l : List Item) (n : Notifier δ) :
    n.cancelGen ≤ (l.foldl (Notifier.forget sha256) n).cancelGen := by
  induction l generalizing n with
  | nil => exact le_rfl
  | cons it l ih => exact (cancelGen_forget sha256 n it).trans (ih _)

theorem cancelGen_commit [DecidableEq δ] (sha256 : List UInt8 → δ) (now : ℤ) (n : Notifier δ)
    (op : Op) :
    n.cancelGen ≤ (Op.commit sha256 now n op).n.cancelGen := by
  cases op with
  | post item => exact le_rfl
  | raise key item => exact (commit_windows sha256 now n key (.raise item)).cancelGen.ge
  | resolve key => exact (commit_windows sha256 now n key .resolve).cancelGen.ge
  | markRead id =>
    simp only [Op.commit, Notifier.markRead]
    split <;> exact le_rfl
  | markAllRead =>
    simp only [Op.commit, Notifier.markAllRead]
    split <;> exact le_rfl
  | dismiss id =>
    simp only [Op.commit, Notifier.dismiss]
    split
    · exact le_rfl
    · exact cancelGen_forget sha256 n _
  | clear =>
    simp only [Op.commit, Notifier.clear]
    split
    · exact le_rfl
    · exact cancelGen_foldl_forget sha256 n.items n

theorem cancelGen_stopTimers (n : Notifier δ) : n.stopTimers.cancelGen = n.cancelGen + 1 := by
  have hloop : ∀ (l : List (Sigma fun _ : Key => PendingChange)) (m : Notifier δ),
      (m.stopTimersLoop l).cancelGen = m.cancelGen := by
    intro l
    induction l with
    | nil => exact fun _ => rfl
    | cons e l ih => exact fun m => (ih _).trans (cancelGen_stop m e.2.timer)
  exact hloop n.pending.entries { n with cancelGen := n.cancelGen + 1 }

namespace System

variable {k : Key} {x : String} {s : System δ}

theorem bump_of_not_leading (h : s.leading k = false) : (s.share k x).bump = s.share k x := by
  refine Share.ext rfl rfl rfl (funext fun g => ?_)
  simp only [Share.bump, share, shareOf]
  cases hl : s.threads.lookup g with
  | none => rfl
  | some pc =>
    have hnone : (pc.stage k s.n).any Stage.leads = false := by
      have := List.any_eq_false.1 h ⟨g, pc⟩ (AList.mem_lookup_iff.1 hl)
      simpa using this
    simp only [Option.bind_some]
    rcases hst : pc.stage k s.n with _ | (_ | ⟨_, _ | _ | _⟩ | (_ | _ | _) | _ | _ | _) <;>
      first | rfl | (rw [hst] at hnone; cases hnone)

theorem share_bumped [DecidableEq δ] (sha256 : List UInt8 → δ) (hcap : Captured s.n s.threads)
    {n' : Notifier δ} (hle : s.n.cancelGen ≤ n'.cancelGen) :
    shareOf k x (s.n.inGen n'.cancelGen) s.threads =
      (s.bumped k n').foldl (Share.step sha256 k) (s.share k x) := by
  unfold bumped
  rcases hle.eq_or_lt with he | hlt
  · rw [if_neg (by simp [he]), ← he]
    rfl
  · have hbump : shareOf k x (s.n.inGen n'.cancelGen) s.threads = (s.share k x).bump :=
      shareOf_bump hcap ⟨rfl, rfl, fun _ _ _ _ => rfl⟩ rfl rfl hlt
    rw [hbump]
    split
    · rfl
    · next hnot =>
      have hquiet : s.leading k = false := by
        by_contra hl
        exact hnot ⟨by omega, by simpa using hl⟩
      exact bump_of_not_leading hquiet

end System

/-! ## The steps of the notifier -/

theorem Change.op_about (key : Key) (c : Change) : (c.op key).about = some (key, c) := by
  cases c <;> rfl

theorem stage_op {k key : Key} {n : Notifier δ} (c : Change) (stamp : ℕ) (after : After) :
    (Pc.commit (c.op key) stamp after).stage k n =
      if key = k then some (.commit c (after.follow k n)) else none := by
  simp only [Pc.stage, Change.op_about, Option.filter]
  by_cases hkey : key = k <;> simp [hkey]

theorem follow_other {k : Key} {n : Notifier δ} {after : After} (h : ∀ key ∈ after.key, key ≠ k) :
    after.follow k n = .ret := by
  cases after with
  | ret => rfl
  | lead key window gen => exact if_neg fun hc => h key rfl hc.1
  | trail key gen window => exact if_neg fun hc => h key rfl hc.1

theorem isOpen_iff {k : Key} {n : Notifier δ} {gen : ℕ} :
    n.isOpen k gen = true ↔ ∃ p, n.pending.lookup k = some p ∧ p.gen = gen := by
  unfold Notifier.isOpen
  cases n.pending.lookup k <;> simp

theorem cancelGen_arm (n : Notifier δ) (now : ℤ) (key : Key) (window : ℤ) :
    (n.armLocked now key window).cancelGen = n.cancelGen := by
  unfold Notifier.armLocked
  split
  · rfl
  · exact cancelGen_stop _ _

namespace System

/-- What the share relies on in the notifier. -/
structure Sound (k : Key) (x : String) (s : System δ) : Prop where
  kept : s.n.Kept
  windows : s.Windows
  sane : s.Sane
  captured : Captured s.n s.threads
  aside : s.n.Aside k x

section
variable {k : Key} {x : String} {s : System δ} {g : ℕ}

theorem stages_of_lookup {pc : Pc} (hg : s.threads.lookup g = some pc) :
    (s.share k x).stages g = pc.stage k s.n := by
  simp [share, shareOf, hg]

/-- The share after a step of goroutine `g`, whatever else the step changed. -/
theorem share_goto_of {u : System δ} {m : Notifier δ} (hn : u.n = m)
    (hthreads : u.threads = s.threads) (g : ℕ) (pc : Option Pc) :
    (u.goto g pc).share k x = (shareOf k x m s.threads).goto g (pc.bind (Pc.stage k m)) := by
  rw [share_goto, hn]
  simp only [share, hn, hthreads]

/-- The key's window opens. -/
theorem share_open (hs : s.Sound k x) (hnone : s.n.pending.lookup k = none) (window : ℤ) :
    shareOf k x (s.n.armLocked s.now k window) s.threads =
      { s.share k x with window := some ⟨none, window, some (s.now + window)⟩ } := by
  have hgen : ∀ r, r ≤ s.n.pendingGen → (s.n.armLocked s.now k window).isOpen k r = false := by
    intro r hr
    have hne : ¬s.n.pendingGen + 1 = r := by omega
    simp [Notifier.isOpen, Notifier.armLocked, hnone, Notifier.startTimer, hne]
  have hsame := Notifier.SameList.armLocked s.n s.now k window
  have hstages : (fun g => (s.threads.lookup g).bind (Pc.stage k (s.n.armLocked s.now k window))) =
      fun g => (s.threads.lookup g).bind (Pc.stage k s.n) := by
    funext g
    cases hl : s.threads.lookup g with
    | none => rfl
    | some pc =>
      refine stage_fresh (cancelGen_arm _ _ _ _) hnone fun r hr => ?_
      refine hgen _ (hs.windows.fresh (.inr g) r ?_)
      simp only [token, hl, Option.bind_some]
      exact hr
  simp only [share, shareOf, hstages, hsame.2.1, hsame.2.2.2]
  congr 1
  simp [Notifier.openWindow, Notifier.armLocked, hnone, Notifier.startTimer]

/-- The key's window stays open for another period. -/
theorem share_reopen {p : PendingChange} (hp : s.n.pending.lookup k = some p) (window : ℤ) :
    shareOf k x (s.n.armLocked s.now k window) s.threads =
      { s.share k x with window := some ⟨p.apply, window, some (s.now + window)⟩ } := by
  have hlookup : (s.n.armLocked s.now k window).pending.lookup k =
      some { p with timer := some ((s.n.stop p.timer).timerSeq + 1) } := by
    simp [Notifier.armLocked, hp, Notifier.startTimer]
  have hopen : ∀ gen, (s.n.armLocked s.now k window).isOpen k gen = s.n.isOpen k gen := by
    intro gen
    simp only [Notifier.isOpen, hlookup, hp]
    rfl
  have hsame := Notifier.SameList.armLocked s.n s.now k window
  have hstages : Pc.stage k (s.n.armLocked s.now k window) = Pc.stage k s.n :=
    funext fun pc => stage_congr (cancelGen_arm _ _ _ _) hopen pc
  simp only [share, shareOf, hstages, hsame.2.1, hsame.2.2.2]
  congr 1
  simp only [Notifier.openWindow, hlookup]
  simp [Notifier.armLocked, hp, Notifier.startTimer]

variable [DecidableEq δ] (sha256 : List UInt8 → δ)

theorem foldl_own {pc : Pc} {st : Stage} (hg : s.threads.lookup g = some pc)
    (hst : pc.stage k s.n = some st) :
    (s.own k g pc).foldl (Share.step sha256 k) (s.share k x) =
      (s.share k x).advance sha256 k s.now g st := by
  simp only [own, hst, Option.map_some, Option.toList_some, List.foldl_cons, List.foldl_nil,
    Share.step, stages_of_lookup hg]

theorem foldl_own_none {pc : Pc} (hst : pc.stage k s.n = none) (v : Share δ) :
    (s.own k g pc).foldl (Share.step sha256 k) v = v := by
  simp only [own, hst, Option.map_none, Option.toList_none, List.foldl_nil]

/-- A goroutine that has nothing to do with the key, and then nothing either. -/
theorem share_idle {pc : Pc} {pc' : Option Pc} {u : System δ} {n' : Notifier δ}
    (hg : s.threads.lookup g = some pc) (hn : u.n = n') (hthreads : u.threads = s.threads)
    (hrows : shareRows k x n'.items = shareRows k x s.n.items)
    (hsup : n'.suppressed.lookup k = s.n.suppressed.lookup k) (hwin : s.n.SameWindow k n')
    (hcancel : n'.cancelGen = s.n.cancelGen) (hst : pc.stage k s.n = none)
    (hst' : pc'.bind (Pc.stage k n') = none) :
    (u.goto g pc').share k x = (s.own k g pc).foldl (Share.step sha256 k) (s.share k x) := by
  rw [share_goto_of hn hthreads, hst', foldl_own_none sha256 hst,
    shareOf_same hrows hsup hwin hcancel]
  exact Share.goto_self ((stages_of_lookup hg).trans hst)

/-! ### Coalescer sections -/

theorem share_coalesce {key : Key} {window : ℤ} {c : Change} {stamp : ℕ}
    (hg : s.threads.lookup g = some (.coalesce key window c stamp)) :
    (s.coalesce g key window c stamp).share k x =
      (s.own k g (.coalesce key window c stamp)).foldl (Share.step sha256 k) (s.share k x) := by
  by_cases hkey : key = k
  · subst hkey
    have hst : (Pc.coalesce key window c stamp).stage key s.n = some (.coalesce window c) :=
      if_pos rfl
    rw [foldl_own sha256 hg hst]
    simp only [coalesce, Share.advance]
    split
    · rw [share_goto, Option.bind_some, stage_op, if_pos rfl]
      rfl
    · have hwindow : (s.share key x).window = s.n.openWindow key := rfl
      cases hp : s.n.pending.lookup key with
      | none =>
        have hnone : s.n.openWindow key = none := by simp [Notifier.openWindow, hp]
        simp only [hwindow, hnone]
        rw [share_goto, Option.bind_some, stage_op, if_pos rfl]
        simp [After.follow]
      | some p =>
        have hopen : ∀ gen, Notifier.isOpen key
            { s.n with pending := s.n.pending.insert key { p with apply := some c, stamp } } gen =
            s.n.isOpen key gen := by
          intro gen
          simp [Notifier.isOpen, hp]
        simp only [hwindow, Notifier.openWindow, hp, Option.map_some]
        rw [share_goto_of (m := { s.n with
          pending := s.n.pending.insert key { p with apply := some c, stamp } }) rfl rfl]
        have hstages : Pc.stage key { s.n with
            pending := s.n.pending.insert key { p with apply := some c, stamp } } =
            Pc.stage key s.n := funext fun pc => stage_congr (by rfl) hopen pc
        simp only [shareOf, hstages, Notifier.openWindow, AList.lookup_insert]
        rfl
  · have hst : (Pc.coalesce key window c stamp).stage k s.n = none := if_neg hkey
    have hwin : ∀ p, s.n.SameWindow k { s.n with pending := s.n.pending.insert key p } := fun p =>
      ⟨AList.lookup_insert_ne (Ne.symm hkey), rfl, fun _ _ _ _ => rfl⟩
    unfold coalesce
    split
    · exact share_idle sha256 hg rfl rfl rfl rfl (.refl _) rfl hst (by
        rw [Option.bind_some, stage_op, if_neg hkey])
    · split
      · exact share_idle sha256 hg rfl rfl rfl rfl (hwin _) rfl hst rfl
      · exact share_idle sha256 hg rfl rfl rfl rfl (.refl _) rfl hst (by
          rw [Option.bind_some, stage_op, if_neg hkey])

theorem share_arm (hs : s.Sound k x) {key : Key} {window : ℤ} {gen : ℕ}
    (hg : s.threads.lookup g = some (.arm key window gen)) :
    (s.arm g key window gen).share k x =
      (s.own k g (.arm key window gen)).foldl (Share.step sha256 k) (s.share k x) := by
  by_cases hst : key = k ∧ gen = s.n.cancelGen
  · obtain ⟨rfl, rfl⟩ := hst
    have hst : (Pc.arm key window s.n.cancelGen).stage key s.n = some (.arm window) :=
      if_pos ⟨rfl, rfl⟩
    have hwindow : (s.share key x).window = s.n.openWindow key := rfl
    rw [foldl_own sha256 hg hst]
    simp only [arm, Share.advance, hwindow]
    cases hp : s.n.pending.lookup key with
    | none =>
      have hnone : s.n.openWindow key = none := by simp [Notifier.openWindow, hp]
      have hmem : key ∉ s.n.pending := AList.lookup_eq_none.1 hp
      rw [if_neg hmem, if_neg (not_not.2 rfl), share_goto_of rfl rfl, share_open hs hp]
      simp only [hnone]
      rfl
    | some p =>
      have hmem : key ∈ s.n.pending := AList.lookup_isSome.1 (by simp [hp])
      rw [if_pos hmem, share_goto]
      simp only [Notifier.openWindow, hp, Option.map_some]
      rfl
  · have hnone : (Pc.arm key window gen).stage k s.n = none := if_neg hst
    unfold arm
    split
    · exact share_idle sha256 hg rfl rfl rfl rfl (.refl _) rfl hnone rfl
    · split
      · exact share_idle sha256 hg rfl rfl rfl rfl (.refl _) rfl hnone rfl
      · next hgen =>
        have hkey : k ≠ key := fun he => hst ⟨he.symm, (not_not.1 hgen).symm⟩
        have hsame := Notifier.SameList.armLocked s.n s.now key window
        refine share_idle sha256 hg rfl rfl ?_ ?_ (hs.windows.sameWindow_arm hkey window)
          (cancelGen_arm _ _ _ _) hnone rfl
        · rw [hsame.2.1]
        · rw [hsame.2.2.2]

end

end System

namespace System

section
variable {k : Key} {x : String} {s : System δ} {g : ℕ}

/-- The key's window is retired by the goroutine that closed it. -/
theorem share_retire (s : System δ) :
    shareOf k x (s.n.retirePendingLocked k) s.threads = (s.share k x).cancel :=
  shareOf_cancel (AList.lookup_erase _ _) rfl rfl rfl

theorem window_of_lookup {p : PendingChange} (hp : s.n.pending.lookup k = some p) :
    (s.share k x).window = some ⟨p.apply, (s.n.windows.lookup k).getD 0,
      (p.timer.bind s.n.timers.lookup).map (·.due)⟩ := by
  simp [share, shareOf, Notifier.openWindow, hp]

theorem inputs_of_about {op : Op} {c : Change} (hop : op.about = some (k, c)) (n n' : Notifier δ) :
    op.inputs k x n n' = [] ∨ op.inputs k x n n' = lost k x n.items n'.items := by
  cases op with
  | post _ | raise _ _ => exact .inr rfl
  | resolve _ => exact .inl rfl
  | markRead _ | markAllRead | dismiss _ | clear => cases hop

variable [DecidableEq δ] (sha256 : List UInt8 → δ)

theorem share_close {key : Key} {gen : ℕ} (hg : s.threads.lookup g = some (.close key gen)) :
    (s.close g key gen).share k x =
      (s.own k g (.close key gen)).foldl (Share.step sha256 k) (s.share k x) := by
  by_cases hst : key = k ∧ s.n.isOpen k gen = true
  · obtain ⟨rfl, hopen⟩ := hst
    have hst : (Pc.close key gen).stage key s.n = some .close := if_pos ⟨rfl, hopen⟩
    obtain ⟨p, hp, rfl⟩ := isOpen_iff.1 hopen
    rw [foldl_own sha256 hg hst]
    simp only [close, hp, Share.advance, window_of_lookup hp, ne_eq, not_true_eq_false, if_false]
    cases hc : p.apply with
    | none =>
      simp only
      rw [share_goto_of rfl rfl, share_retire]
      rfl
    | some c =>
      have hopen' : ∀ r, Notifier.isOpen key { s.n with
          pending := s.n.pending.insert key { p with apply := none } } r = s.n.isOpen key r := by
        intro r
        simp [Notifier.isOpen, hp]
      have hstages : Pc.stage key { s.n with
          pending := s.n.pending.insert key { p with apply := none } } =
          Pc.stage key s.n := funext fun pc => stage_congr (by rfl) hopen' pc
      simp only
      rw [share_goto_of (m := { s.n with
        pending := s.n.pending.insert key { p with apply := none } }) rfl rfl, Option.bind_some,
        hstages, stage_op, if_pos rfl]
      simp only [After.follow, hopen, and_self, if_true, shareOf, hstages, Notifier.openWindow,
        AList.lookup_insert]
      rfl
  · have hnone : (Pc.close key gen).stage k s.n = none := if_neg hst
    unfold close
    split
    · exact share_idle sha256 hg rfl rfl rfl rfl (.refl _) rfl hnone rfl
    · next p hp =>
      split
      · exact share_idle sha256 hg rfl rfl rfl rfl (.refl _) rfl hnone rfl
      · next hgen =>
        have hkey : key ≠ k := by
          rintro rfl
          exact hst ⟨rfl, isOpen_iff.2 ⟨p, hp, not_not.1 hgen⟩⟩
        split
        · exact share_idle sha256 hg rfl rfl rfl rfl (.retire (Ne.symm hkey)) rfl hnone rfl
        · refine share_idle sha256 hg rfl rfl rfl rfl
            ⟨AList.lookup_insert_ne (Ne.symm hkey), rfl, fun _ _ _ _ => rfl⟩ rfl hnone ?_
          rw [Option.bind_some, stage_op, if_neg hkey]

theorem share_rearm (hs : s.Sound k x) {key : Key} {gen : ℕ} {window : ℤ} {changed : Bool}
    (hg : s.threads.lookup g = some (.rearm key gen window changed)) :
    (s.rearm g key gen window changed).share k x =
      (s.own k g (.rearm key gen window changed)).foldl (Share.step sha256 k) (s.share k x) := by
  by_cases hst : key = k ∧ s.n.isOpen k gen = true
  · obtain ⟨rfl, hopen⟩ := hst
    have hst : (Pc.rearm key gen window changed).stage key s.n = some (.rearm window changed) :=
      if_pos ⟨rfl, hopen⟩
    obtain ⟨p, hp, rfl⟩ := isOpen_iff.1 hopen
    rw [foldl_own sha256 hg hst]
    simp only [rearm, hp, Share.advance, window_of_lookup hp, ne_eq, not_true_eq_false, if_false]
    by_cases hpos : window ≤ 0
    · rw [if_pos hpos, if_pos (.inl hpos), share_goto_of rfl rfl, share_retire]
      rfl
    · by_cases hidle : (!changed && p.apply.isNone) = true
      · rw [if_neg hpos, if_pos hidle, if_pos (.inr hidle), share_goto_of rfl rfl, share_retire]
        rfl
      · rw [if_neg hpos, if_neg hidle, if_neg (not_or.2 ⟨hpos, hidle⟩), share_goto_of rfl rfl,
          share_reopen hp]
        rfl
  · have hnone : (Pc.rearm key gen window changed).stage k s.n = none := if_neg hst
    unfold rearm
    split
    · exact share_idle sha256 hg rfl rfl rfl rfl (.refl _) rfl hnone rfl
    · next p hp =>
      split
      · exact share_idle sha256 hg rfl rfl rfl rfl (.refl _) rfl hnone rfl
      · next hgen =>
        have hkey : k ≠ key := by
          rintro rfl
          exact hst ⟨rfl, isOpen_iff.2 ⟨p, hp, not_not.1 hgen⟩⟩
        split
        · exact share_idle sha256 hg rfl rfl rfl rfl (.retire hkey) rfl hnone rfl
        · split
          · exact share_idle sha256 hg rfl rfl rfl rfl (.retire hkey) rfl hnone rfl
          · have hsame := Notifier.SameList.armLocked s.n s.now key window
            refine share_idle sha256 hg rfl rfl ?_ ?_ (hs.windows.sameWindow_arm hkey window)
              (cancelGen_arm _ _ _ _) hnone rfl
            · rw [hsame.2.1]
            · rw [hsame.2.2.2]

/-- The last step of a publication. -/
theorem share_published {pc : Pc} {after : After} {u : System δ} (hg : s.threads.lookup g = some pc)
    (hpc : pc.stage k s.n = (after.follow k s.n).published) (hn : u.n = s.n)
    (hthreads : u.threads = s.threads) :
    (u.goto g (after.resume true)).share k x =
      (s.own k g pc).foldl (Share.step sha256 k) (s.share k x) := by
  rw [share_goto_of hn hthreads, follow_resume]
  cases hf : after.follow k s.n with
  | ret =>
    rw [hf] at hpc
    rw [foldl_own_none sha256 hpc]
    exact Share.goto_self ((stages_of_lookup hg).trans hpc)
  | lead window =>
    rw [hf] at hpc
    rw [foldl_own sha256 hg hpc]
    rfl
  | trail window =>
    rw [hf] at hpc
    rw [foldl_own sha256 hg hpc]
    rfl

/-! ### Publishing sections -/

theorem goto_lost (v : Share δ) (g : ℕ) (st : Option Stage) (before after : List Item) :
    (lost k x before after).foldl (Share.step sha256 k) (v.goto g st) =
      ((lost k x before after).foldl (Share.step sha256 k) v).goto g st := by
  unfold lost
  split <;> rfl

theorem sameWindows_of_about {op : Op} {c : Change} (hop : op.about = some (k, c)) (now : ℤ)
    (n : Notifier δ) : n.SameWindows (Op.commit sha256 now n op).n := by
  cases op with
  | post item => exact ⟨rfl, rfl, rfl, rfl⟩
  | raise key item => exact commit_windows sha256 now n key (.raise item)
  | resolve key => exact commit_windows sha256 now n key .resolve
  | markRead _ | markAllRead | dismiss _ | clear => cases hop

theorem share_commit {t : System δ} (hs : s.Sound k x) {op : Op} {stamp : ℕ} {after : After}
    (hg : s.threads.lookup g = some (.commit op stamp after))
    (h : s.commit sha256 g op stamp after = some t) :
    t.share k x = (s.runInputs k x sha256 g (.commit op stamp after)).foldl (Share.step sha256 k)
      (s.share k x) := by
  -- what the goroutine goes on with, when the section published and when it did not
  have hgo : ∃ (u : System δ) (pc : Option Pc), t = u.goto g pc ∧ u.threads = s.threads ∧
      u.n = (Op.commit sha256 s.now s.n op).n ∧
      ∀ n : Notifier δ, pc.bind (Pc.stage k n) =
        if (Op.commit sha256 s.now s.n op).snap.isSome then (after.follow k n).published
        else (after.follow k n).resume false := by
    simp only [commit] at h
    split at h
    · split at h
      · next hsnap =>
        cases h
        refine ⟨_, _, rfl, rfl, rfl, fun n => ?_⟩
        rw [hsnap, follow_resume]
        rfl
      · next snap hsnap =>
        cases h
        refine ⟨{ s.recorded op stamp after (Op.commit sha256 s.now s.n op) with emit := some g },
          _, rfl, rfl, rfl, fun n => ?_⟩
        rw [hsnap]
        rfl
    · cases h
  obtain ⟨u, pc, rfl, hthreads, hn, hpc⟩ := hgo
  rw [share_goto_of hn hthreads, hpc]
  simp only [runInputs, List.foldl_append]
  cases hop : op.about.filter (·.1 = k) with
  | some r =>
    obtain ⟨key, c⟩ := r
    obtain ⟨rfl, habout⟩ := Op.about_filter hop
    have hst : (Pc.commit op stamp after).stage key s.n =
        some (.commit c (after.follow key s.n)) := by
      simp only [Pc.stage, hop]
      rfl
    have hsame := sameWindows_of_about sha256 habout s.now s.n
    have hwin : s.n.SameWindow key (Op.commit sha256 s.now s.n op).n := .of_same hsame
    have hbumped : s.bumped key (Op.commit sha256 s.now s.n op).n = [] := by
      simp [bumped, hsame.cancelGen]
    obtain ⟨hshare, hsnap⟩ :=
      share_about sha256 hs.kept hs.aside s.threads s.now habout
    rw [foldl_own sha256 hg hst, hbumped, hshare, hsnap, follow_congr hsame.cancelGen hwin.isOpen]
    simp only [List.foldl_nil, Share.advance]
    rcases inputs_of_about habout s.n (Op.commit sha256 s.now s.n op).n with hin | hin
    · rw [hin]
      rfl
    · rw [hin, goto_lost]
      rfl
  | none =>
    have hst : ∀ n : Notifier δ, (Pc.commit op stamp after).stage k n = none := by
      intro n
      simp only [Pc.stage, hop]
      rfl
    have hfollow : ∀ n : Notifier δ, after.follow k n = .ret := by
      intro n
      refine follow_other fun key hkey he => ?_
      obtain ⟨c, hc⟩ := (hs.sane.threads g _ hg).1 op stamp after rfl key hkey
      have habout : op.about = some (key, c) := by
        cases op <;> first | exact hc | cases hc
      simp [habout, he] at hop
    rw [foldl_own_none sha256 (hst s.n), hfollow,
      ← share_bumped sha256 hs.captured (cancelGen_commit sha256 s.now s.n op),
      ← share_other sha256 hs.kept hs.aside hs.windows s.now hop]
    refine Share.goto_self ?_
    simp only [shareOf, hg, Option.bind_some, hst]
    split <;> rfl

end

end System

namespace System

section
variable {k : Key} {x : String} {s : System δ} {g : ℕ}

theorem entry_stage (n : Notifier δ) (c : Call) (stamp : ℕ) :
    (c.entry stamp).bind (Pc.stage k n) = c.stage k := by
  cases c with
  | plain op => rfl
  | raiseWindowed key item window =>
    simp only [Call.entry, Call.stage]
    by_cases hkey : key = k
    · subst hkey
      by_cases hne : key = ""
      · simp [hne, Pc.stage, Op.about, Option.filter, After.follow]
      · simp [hne, Pc.stage]
    · by_cases hne : key = ""
      · subst hne
        simp [hkey, Pc.stage, Op.about, Option.filter]
      · simp [hkey, hne, Pc.stage]
  | resolveWindowed key window =>
    simp only [Call.entry, Call.stage]
    by_cases hkey : key = k
    · subst hkey
      by_cases hne : key = "" <;> simp [hne, Pc.stage]
    · by_cases hne : key = "" <;> simp [hkey, hne, Pc.stage]
  | stopTimers => rfl

theorem stages_of_notMem (hg : g ∉ s.threads) : (s.share k x).stages g = none := by
  simp [share, shareOf, AList.lookup_eq_none.2 hg]

/-- The timer of the key's window fires. -/
theorem openWindow_fire (hw : s.Windows) {id : ℕ} {t : Timer} (ht : s.n.timers.lookup id = some t)
    (hopen : s.n.isOpen k t.gen = true) :
    Notifier.openWindow k { s.n with timers := s.n.timers.erase id } =
      (s.n.openWindow k).map OpenWindow.fired := by
  obtain ⟨p, hp, hgen⟩ := isOpen_iff.1 hopen
  have hdue : (p.timer.bind (s.n.timers.erase id).lookup).map (·.due) = none := by
    cases hi : p.timer with
    | none => rfl
    | some i =>
      by_cases hid : i = id
      · subst hid
        simp
      · have hnone : s.n.timers.lookup i = none := by
          by_contra harmed
          obtain ⟨t', ht'⟩ := Option.ne_none_iff_exists'.1 harmed
          -- two timers would carry the token of the window
          have htok : s.token (.inl id) = some (t.key, t.gen) := by
            simp [token, Notifier.timerToken, ht]
          have htok' : s.token (.inl i) = some (t'.key, t'.gen) := by
            simp [token, Notifier.timerToken, ht']
          have hgen' : t'.gen = p.gen := hw.timer k p i t' hp hi ht'
          have := hw.unique _ _ _ _ htok' htok (hgen'.trans hgen)
          exact hid (by simpa using this)
        simp [AList.lookup_erase_ne hid, hnone]
  simp only [Notifier.openWindow, hp, Option.map_some, hdue]
  rfl

variable [DecidableEq δ] (sha256 : List UInt8 → δ)

theorem share_fire (hs : s.Sound k x) {id : ℕ} {t : Timer} (ht : s.n.timers.lookup id = some t)
    (hg : g ∉ s.threads) :
    ({ s with n := { s.n with timers := s.n.timers.erase id } }.goto g
        (some (.close t.key t.gen))).share k x =
      (s.inputs k x sha256 (.fire id g)).foldl (Share.step sha256 k) (s.share k x) := by
  have hopen : ∀ r, Notifier.isOpen k { s.n with timers := s.n.timers.erase id } r =
      s.n.isOpen k r := fun _ => rfl
  have hstages : Pc.stage k { s.n with timers := s.n.timers.erase id } = Pc.stage k s.n :=
    funext fun pc => stage_congr (by rfl) hopen pc
  rw [share_goto_of (m := { s.n with timers := s.n.timers.erase id }) rfl rfl, Option.bind_some,
    hstages]
  simp only [inputs, ht]
  by_cases hst : t.key = k ∧ s.n.isOpen k t.gen = true
  · have hclose : (Pc.close t.key t.gen).stage k s.n = some .close := if_pos hst
    rw [if_pos hst, hclose]
    simp only [List.foldl_cons, List.foldl_nil, Share.step, shareOf, hstages,
      openWindow_fire hs.windows ht hst.2]
    rfl
  · have hclose : (Pc.close t.key t.gen).stage k s.n = none := if_neg hst
    have hwin : s.n.SameWindow k { s.n with timers := s.n.timers.erase id } := by
      refine ⟨rfl, rfl, fun p i hp hi => AList.lookup_erase_ne ?_⟩
      rintro rfl
      have hgen := hs.windows.timer k p i t hp hi ht
      have htok : s.token (.inl i) = some (t.key, t.gen) := by
        simp [token, Notifier.timerToken, ht]
      have hkey := hs.windows.key_of_gen hp htok hgen
      rw [Prod.mk.injEq] at hkey
      exact hst ⟨hkey.1, isOpen_iff.2 ⟨p, hp, hgen.symm⟩⟩
    have hsame : shareOf k x { s.n with timers := s.n.timers.erase id } s.threads = s.share k x :=
      shareOf_same (by rfl) (by rfl) hwin (by rfl)
    rw [if_neg hst, hclose, hsame]
    exact Share.goto_self (stages_of_notMem hg)

theorem share_call (hg : g ∉ s.threads) (c : Call) :
    ({ s with calls := s.calls + 1 }.goto g (c.entry (s.calls + 1))).share k x =
      (s.inputs k x sha256 (.call g c)).foldl (Share.step sha256 k) (s.share k x) := by
  rw [share_goto, entry_stage]
  simp only [inputs]
  cases hst : c.stage k with
  | none => exact Share.goto_self (stages_of_notMem hg)
  | some st =>
    simp only [Option.map_some, Option.toList_some, List.foldl_cons, List.foldl_nil, Share.step,
      hst]
    rfl

theorem share_stop (hs : s.Sound k x) (hg : s.threads.lookup g = some .stop) :
    ({ s with n := s.n.stopTimers, asked := fun _ => none }.goto g none).share k x =
      (s.runInputs k x sha256 g .stop).foldl (Share.step sha256 k) (s.share k x) := by
  have hgen := cancelGen_stopTimers s.n
  have hsame := Notifier.SameList.stopTimers s.n
  have hcancel : shareOf k x s.n.stopTimers s.threads =
      (shareOf k x (s.n.inGen s.n.stopTimers.cancelGen) s.threads).cancel := by
    refine shareOf_cancel (stopTimers_pending s.n k) ?_ ?_ rfl
    · rw [hsame.2.1]
      rfl
    · rw [hsame.2.2.2]
      rfl
  have hself : (shareOf k x s.n.stopTimers s.threads).stages g = none := by
    simp [shareOf, hg, Pc.stage]
  rw [share_goto_of rfl rfl]
  simp only [runInputs, List.foldl_append]
  have hcancelled := share_cancelled sha256 (n := s.n) (m := s.n.inGen s.n.stopTimers.cancelGen) rfl
    (.inr hcancel)
  rw [← share_bumped sha256 hs.captured (by omega), ← hcancelled]
  exact Share.goto_self hself

/-- **A step of the notifier** does to the share of a key what its inputs do. -/
theorem share_step {t : System δ} {l : Label} (hs : s.Sound k x) (h : s.step sha256 l = some t) :
    t.share k x = (s.inputs k x sha256 l).foldl (Share.step sha256 k) (s.share k x) := by
  cases l with
  | call g c =>
    simp only [step] at h
    split at h
    · cases h
    · next hg =>
      cases h
      exact share_call sha256 hg c
  | run g =>
    simp only [step] at h
    split at h
    · cases h
    · next pc hg =>
      simp only [inputs, hg]
      cases pc with
      | coalesce key window c stamp => cases h; exact share_coalesce sha256 hg
      | commit op stamp after => exact share_commit sha256 hs hg h
      | publish snap sound after =>
        cases sound with
        | none => cases h; exact share_published sha256 hg rfl rfl rfl
        | some it =>
          cases h
          rw [share_goto]
          exact Share.goto_self (stages_of_lookup hg)
      | sound it after => cases h; exact share_published sha256 hg rfl rfl rfl
      | arm key window gen => cases h; exact share_arm sha256 hs hg
      | close key gen => cases h; exact share_close sha256 hg
      | rearm key gen window changed => cases h; exact share_rearm sha256 hs hg
      | stop => cases h; exact share_stop sha256 hs hg
  | fire id g =>
    simp only [step] at h
    split at h
    · cases h
    · next t' ht =>
      split at h
      · cases h
      · next hg =>
        cases h
        exact share_fire sha256 hs ht fun hc => hg (.inl hc)
  | tick now =>
    simp only [step] at h
    split at h
    · cases h; rfl
    · cases h

end

end System

/-! ## Every run -/

section
variable {k : Key} {x : String}

theorem Notifier.SameList.aside {n n' : Notifier δ} (h : n.SameList n') (ha : n.Aside k x) :
    n'.Aside k x := by
  unfold Notifier.Aside
  rw [h.2.1, h.2.2.1]
  exact ha

theorem insertLocked_aside {n : Notifier δ} (ha : n.Aside k x) (now : ℤ) (item : Item) :
    (n.insertLocked now item).2.Aside k x := by
  obtain ⟨⟨m, hm, hx⟩, hres⟩ := ha
  refine ⟨⟨m, Nat.le_succ_of_le hm, hx⟩, fun it hit hid hkey => ?_⟩
  rcases List.mem_cons.1 (List.mem_of_mem_take hit) with rfl | hit
  · exact absurd hid (Notifier.Aside.fresh_ne ⟨⟨m, hm, hx⟩, hres⟩)
  · exact hres it hit hid hkey

theorem Op.commit_aside [DecidableEq δ] (sha256 : List UInt8 → δ) {n : Notifier δ} (hk : n.Kept)
    (ha : n.Aside k x) (now : ℤ) (op : Op) : (Op.commit sha256 now n op).n.Aside k x := by
  obtain ⟨hseq, hres⟩ := ha
  cases op with
  | post item => exact insertLocked_aside ⟨hseq, hres⟩ now _
  | raise key item =>
    simp only [Op.commit, Notifier.raiseReport]
    split
    · exact insertLocked_aside ⟨hseq, hres⟩ now _
    · next hempty =>
      split
      · exact ⟨hseq, hres⟩
      · next r hr =>
        obtain ⟨-, ⟨-, rfl⟩ | ⟨it, hf, hun, -, rfl⟩⟩ :=
          Notifier.raiseLocked_cases sha256 hk hempty hr
        · have ha' : Notifier.Aside k x { n with suppressed := n.suppressed.erase key } :=
            ⟨hseq, hres⟩
          exact insertLocked_aside ha' now _
        · refine ⟨hseq, fun y hy hid hkey => ?_⟩
          rcases mem_modifyFirst hy with hy | ⟨a, -, rfl⟩
          · exact hres y hy hid hkey
          · have hik : it.key = key := by simpa using List.find?_some hf
            rcases hres it (List.mem_of_find?_eq_some hf) hid (hik.trans hkey) with h | h
            · exact .inl h
            · rw [hun] at h
              cases h
  | resolve key =>
    simp only [Op.commit, Notifier.resolveReport]
    split
    · exact ⟨hseq, hres⟩
    · split
      · exact ⟨hseq, hres⟩
      · split
        · exact ⟨hseq, hres⟩
        · refine ⟨hseq, fun y hy hid hkey => ?_⟩
          rcases mem_modifyFirst hy with hy | ⟨a, -, rfl⟩
          · exact hres y hy hid hkey
          · exact .inr rfl
  | markRead id =>
    simp only [Op.commit, Notifier.markRead]
    split
    · refine ⟨hseq, fun y hy hid hkey => ?_⟩
      rcases mem_modifyFirst hy with hy | ⟨a, ha, rfl⟩
      · exact hres y hy hid hkey
      · exact hres a (List.mem_of_find?_eq_some ha) hid hkey
    · exact ⟨hseq, hres⟩
  | markAllRead =>
    simp only [Op.commit, Notifier.markAllRead]
    split
    · refine ⟨hseq, fun y hy hid hkey => ?_⟩
      obtain ⟨a, ha, rfl⟩ := List.mem_map.1 hy
      exact hres a ha hid hkey
    · exact ⟨hseq, hres⟩
  | dismiss id =>
    simp only [Op.commit, Notifier.dismiss]
    split
    · exact ⟨hseq, hres⟩
    · next it _ =>
      obtain ⟨-, hitems, hs⟩ := n.forget_items sha256 it
      simp only [Notifier.changed, Notifier.Aside, hitems, hs]
      exact ⟨hseq, fun y hy => hres y (List.eraseP_sublist.subset hy)⟩
  | clear =>
    simp only [Op.commit, Notifier.clear]
    split
    · exact ⟨hseq, hres⟩
    · obtain ⟨-, -, hs⟩ := n.foldl_forget_items sha256 n.items
      simp only [Notifier.changed, Notifier.Aside, hs]
      exact ⟨hseq, fun y hy => absurd hy List.not_mem_nil⟩

end

theorem resume_captured {after : After} {changed : Bool} {p : Pc}
    (h : after.resume changed = some p) {c : ℕ} (hc : c ∈ p.captured) : c ∈ after.captured := by
  cases after with
  | ret => cases h
  | lead key window gen =>
    simp only [After.resume] at h
    split at h
    · cases h
      exact hc
    · cases h
  | trail key gen window =>
    cases h
    cases hc

namespace System

section
variable [DecidableEq δ] (sha256 : List UInt8 → δ) {s t : System δ}

/-- A step leaves the list alone or is the section of an entry point, and no
goroutine looked for a window in a generation to come. -/
structure Shape (s t : System δ) : Prop where
  gen : s.n.cancelGen ≤ t.n.cancelGen
  list : (s.n.SameList t.n ∧ t.history = s.history) ∨
    ∃ op stamp, t.n = (Op.commit sha256 s.now s.n op).n ∧
      t.history = s.history ++ [⟨op, stamp, s.n.items, t.n.items⟩]
  threads : ∀ g pc, t.threads.lookup g = some pc → s.threads.lookup g = some pc ∨
    ∀ c ∈ pc.captured, c ≤ s.n.cancelGen

theorem Shape.goto {u : System δ} (hthreads : u.threads = s.threads)
    (hgen : s.n.cancelGen ≤ u.n.cancelGen)
    (hlist : (s.n.SameList u.n ∧ u.history = s.history) ∨
      ∃ op stamp, u.n = (Op.commit sha256 s.now s.n op).n ∧
        u.history = s.history ++ [⟨op, stamp, s.n.items, u.n.items⟩]) (g : ℕ) {pc : Option Pc}
    (hpc : ∀ p ∈ pc, ∀ c ∈ p.captured, c ≤ s.n.cancelGen) : Shape sha256 s (u.goto g pc) where
  gen := by rwa [goto_n]
  list := by rwa [goto_n, goto_history]
  threads := by
    intro g' p hl
    rw [goto_lookup, hthreads] at hl
    split at hl
    · exact .inr (hpc p hl)
    · exact .inl hl

/-- The section leaves list and generation alone, and no call goes on. -/
theorem Shape.quiet {u : System δ} (hthreads : u.threads = s.threads)
    (hgen : u.n.cancelGen = s.n.cancelGen) (hhistory : u.history = s.history)
    (hlist : s.n.SameList u.n) (g : ℕ) {pc : Option Pc}
    (hpc : ∀ p ∈ pc, ∀ c ∈ p.captured, c ≤ s.n.cancelGen) : Shape sha256 s (u.goto g pc) :=
  .goto sha256 hthreads hgen.ge (.inl ⟨hlist, hhistory⟩) g hpc

/-- A section of the coalescer. -/
theorem Shape.coalescer {n' : Notifier δ} (hlist : s.n.SameList n')
    (hgen : n'.cancelGen = s.n.cancelGen) (g : ℕ) {pc : Option Pc}
    (hpc : ∀ p ∈ pc, ∀ c ∈ p.captured, c ≤ s.n.cancelGen) :
    Shape sha256 s ({ s with n := n' }.goto g pc) :=
  .quiet (s := s) (u := { s with n := n' }) sha256 rfl hgen rfl hlist g hpc

theorem entry_captured (c : Call) (stamp : ℕ) : ∀ p ∈ c.entry stamp, p.captured = none := by
  intro p hp
  cases c with
  | plain op => cases hp; rfl
  | raiseWindowed key item window | resolveWindowed key window =>
    simp only [Call.entry] at hp
    split at hp <;> cases hp <;> rfl
  | stopTimers => cases hp; rfl

theorem commit_shape {g : ℕ} {op : Op} {stamp : ℕ} {after : After}
    (hpc : ∀ c ∈ (Pc.commit op stamp after).captured, c ≤ s.n.cancelGen)
    (h : s.commit sha256 g op stamp after = some t) : Shape sha256 s t := by
  have hgen := cancelGen_commit sha256 s.now s.n op
  simp only [commit] at h
  split at h
  · split at h
    · cases h
      exact .goto sha256 (by rfl) (by exact hgen) (by exact .inr ⟨op, stamp, rfl, rfl⟩) g
        fun p hp c hc => hpc c (resume_captured hp hc)
    · cases h
      refine .goto sha256 (by rfl) (by exact hgen) (by exact .inr ⟨op, stamp, rfl, rfl⟩) g
        fun p hp => ?_
      cases hp
      exact hpc
  · cases h

theorem coalesce_shape (g : ℕ) (key : Key) (window : ℤ) (c : Change) (stamp : ℕ) :
    Shape sha256 s (s.coalesce g key window c stamp) := by
  simp only [coalesce]
  split
  · exact .coalescer sha256 (.refl _) rfl g (by rintro p ⟨⟩ c ⟨⟩)
  · split
    · exact .quiet sha256 (by rfl) (by rfl) (by rfl) (by exact ⟨rfl, rfl, rfl, rfl⟩) g (by simp)
    · refine .coalescer sha256 (.refl _) rfl g fun p hp c' hc => ?_
      cases hp
      cases hc
      exact le_rfl

theorem arm_shape (g : ℕ) (key : Key) (window : ℤ) (gen : ℕ) :
    Shape sha256 s (s.arm g key window gen) := by
  simp only [arm]
  split
  · exact .coalescer sha256 (.refl _) rfl g (by simp)
  · split
    · exact .coalescer sha256 (.refl _) rfl g (by simp)
    · exact .coalescer sha256 (.armLocked _ _ _ _) (cancelGen_arm _ _ _ _) g (by simp)

theorem close_shape (g : ℕ) (key : Key) (gen : ℕ) : Shape sha256 s (s.close g key gen) := by
  simp only [close]
  split
  · exact .coalescer sha256 (.refl _) rfl g (by simp)
  · split
    · exact .coalescer sha256 (.refl _) rfl g (by simp)
    · split
      · exact .coalescer sha256 (.retirePendingLocked _ _) rfl g (by simp)
      · exact .coalescer sha256 (by exact ⟨rfl, rfl, rfl, rfl⟩) (by rfl) g (by rintro p ⟨⟩ c ⟨⟩)

theorem rearm_shape (g : ℕ) (key : Key) (gen : ℕ) (window : ℤ) (changed : Bool) :
    Shape sha256 s (s.rearm g key gen window changed) := by
  simp only [rearm]
  split
  · exact .coalescer sha256 (.refl _) rfl g (by simp)
  · split
    · exact .coalescer sha256 (.refl _) rfl g (by simp)
    · split
      · exact .coalescer sha256 (.retirePendingLocked _ _) rfl g (by simp)
      · split
        · exact .coalescer sha256 (.retirePendingLocked _ _) rfl g (by simp)
        · exact .coalescer sha256 (.armLocked _ _ _ _) (cancelGen_arm _ _ _ _) g (by simp)

/-- **What a step can do.** -/
theorem step_shape {l : Label} (hcap : Captured s.n s.threads) (h : s.step sha256 l = some t) :
    Shape sha256 s t := by
  cases l with
  | call g c =>
    simp only [step] at h
    split at h
    · cases h
    · cases h
      refine .quiet sha256 (by rfl) (by rfl) (by rfl) (by exact .refl _) g fun p hp c' hc => ?_
      rw [entry_captured c _ p hp] at hc
      cases hc
  | fire id g =>
    simp only [step] at h
    split at h
    · cases h
    · split at h
      · cases h
      · cases h
        exact .coalescer sha256 (by exact ⟨rfl, rfl, rfl, rfl⟩) (by rfl) g
          (by rintro p ⟨⟩ c ⟨⟩)
  | tick now =>
    simp only [step] at h
    split at h
    · cases h
      exact ⟨le_rfl, .inl ⟨.refl _, rfl⟩, fun g pc hl => .inl hl⟩
    · cases h
  | run g =>
    simp only [step] at h
    split at h
    · cases h
    · next pc hg =>
      have hpc := hcap g pc hg
      cases pc with
      | commit op stamp after => exact commit_shape sha256 hpc h
      | publish snap sound after =>
        simp only [advance] at h
        split at h
        · cases h
          exact .quiet sha256 (by rfl) (by rfl) (by rfl) (by exact .refl _) g fun p hp c hc =>
            hpc c (resume_captured hp hc)
        · cases h
          refine .quiet sha256 (by rfl) (by rfl) (by rfl) (by exact .refl _) g fun p hp => ?_
          cases hp
          exact hpc
      | sound it after =>
        cases h
        exact .quiet sha256 (by rfl) (by rfl) (by rfl) (by exact .refl _) g
          fun p hp c hc => hpc c (resume_captured hp hc)
      | stop =>
        cases h
        exact .goto sha256 (by rfl) (by rw [cancelGen_stopTimers]; exact Nat.le_succ _)
          (by exact .inl ⟨.stopTimers _, rfl⟩) g (by simp)
      | coalesce key window c stamp =>
        cases h
        exact coalesce_shape sha256 g key window c stamp
      | arm key window gen =>
        cases h
        exact arm_shape sha256 g key window gen
      | close key gen =>
        cases h
        exact close_shape sha256 g key gen
      | rearm key gen window changed =>
        cases h
        exact rearm_shape sha256 g key gen window changed

theorem Shape.captured (h : Shape sha256 s t) (hcap : Captured s.n s.threads) :
    Captured t.n t.threads := by
  intro g pc hl c hc
  refine le_trans ?_ h.gen
  rcases h.threads g pc hl with hl | hle
  · exact hcap g pc hl c hc
  · exact hle c hc

theorem Shape.aside {k : Key} {x : String} (h : Shape sha256 s t) (hk : s.n.Kept)
    (ha : s.n.Aside k x) : t.n.Aside k x := by
  rcases h.list with ⟨hlist, -⟩ | ⟨op, stamp, hn, -⟩
  · exact hlist.aside ha
  · rw [hn]
    exact Op.commit_aside sha256 hk ha s.now op

theorem step_sound {k : Key} {x : String} {l : Label} (hi : s.Inv sha256) (hs : s.Sound k x)
    (h : s.step sha256 l = some t) : t.Inv sha256 ∧ t.Sound k x := by
  have hi' := step_inv sha256 hi h
  have hshape := step_shape sha256 hs.captured h
  exact ⟨hi', hi'.kept, step_windows sha256 hs.windows h, step_sane sha256 hs.kept hs.sane h,
    hshape.captured sha256 hs.captured, hshape.aside sha256 hs.kept hs.aside⟩

/-- What reaches the share of a key in a run. -/
def received (k : Key) (x : String) : System δ → List Label → List Input :=
  arrivals (System.step sha256) (inputs k x sha256)

/-- **A run** leaves the share of a key as what reached it does. -/
theorem share_run {k : Key} {x : String} {ls : List Label} (hi : s.Inv sha256) (hs : s.Sound k x)
    (h : exec (System.step sha256) s ls = some t) :
    t.share k x = (received sha256 k x s ls).foldl (Share.step sha256 k) (s.share k x) :=
  (exec_part (I := fun s : System δ => s.Inv sha256 ∧ s.Sound k x)
    (fun _ _ _ ⟨hi, hs⟩ hstep => ⟨step_sound sha256 hi hs hstep, share_step sha256 hs hstep⟩)
    ⟨hi, hs⟩ h).2

/-- Two runs that bring a share the same inputs leave it the same. -/
theorem share_agree {k : Key} {x : String} {s' t' : System δ} {ls ls' : List Label}
    (hi : s.Inv sha256) (hs : s.Sound k x) (hi' : s'.Inv sha256) (hs' : s'.Sound k x)
    (hshare : s.share k x = s'.share k x) (h : exec (System.step sha256) s ls = some t)
    (h' : exec (System.step sha256) s' ls' = some t')
    (heq : received sha256 k x s ls = received sha256 k x s' ls') : t.share k x = t'.share k x :=
  exec_agree (I := fun s : System δ => s.Inv sha256 ∧ s.Sound k x)
    (fun _ _ _ ⟨hi, hs⟩ hstep => ⟨step_sound sha256 hi hs hstep, share_step sha256 hs hstep⟩)
    ⟨hi, hs⟩ ⟨hi', hs'⟩ hshare h h' heq

end

end System

end VcsClient.Notify
