import VcsClient.Notify.Settled

/-!
# Every key settles on its last call

`Settling` holds in every state of every run in which one goroutine makes the
calls of the key and each of its calls that is applied at once finds no older
change of the key in a window, open or closed. When nothing is left to do the
list then shows what the last call asked for.
-/

namespace VcsClient.Notify

open VcsClient.Lib

variable {δ : Type*}

/-! ## What a goroutine carries -/

def After.key : After → Option Key
  | .ret => none
  | .lead key _ _ | .trail key _ _ => some key

def After.window : After → Option ℤ
  | .ret => none
  | .lead _ window _ | .trail _ _ window => some window

def Pc.window : Pc → Option ℤ
  | .commit _ _ k | .publish _ _ k | .sound _ k => k.window
  | .arm _ window _ | .rearm _ _ window _ => some window
  | _ => none

/-- A goroutine of a windowed call carries a change of its key and a window
longer than none. -/
def Pc.Sane (pc : Pc) : Prop :=
  (∀ op stamp k, pc = .commit op stamp k → ∀ key ∈ k.key, ∃ c, op.change? = some (key, c)) ∧
    ∀ w ∈ pc.window, 0 < w

/-- The period of each open window is on record. -/
def Notifier.Recorded (n : Notifier δ) : Prop :=
  ∀ k p, n.pending.lookup k = some p → ∃ w, n.windows.lookup k = some w ∧ 0 < w

namespace Notifier.Recorded

variable {n : Notifier δ}

theorem erase (h : n.Recorded) {n' : Notifier δ} (key : Key) (hp : n'.pending = n.pending.erase key)
    (hw : n'.windows = n.windows.erase key) : n'.Recorded := by
  intro k p hl
  rw [hp] at hl
  obtain ⟨hne, hl⟩ := lookup_of_erase hl
  rw [hw, AList.lookup_erase_ne hne]
  exact h k p hl

theorem insert (h : n.Recorded) {n' : Notifier δ} {key : Key} {p : PendingChange} {w : ℤ}
    (hpos : 0 < w) (hp : n'.pending = n.pending.insert key p)
    (hw : n'.windows = n.windows.insert key w) : n'.Recorded := by
  intro k q hl
  rw [hp] at hl
  rw [hw]
  by_cases hk : k = key
  · exact ⟨w, by rw [hk, AList.lookup_insert], hpos⟩
  · rw [AList.lookup_insert_ne hk] at hl ⊢
    exact h k q hl

theorem congr (h : n.Recorded) {n' : Notifier δ} (hp : n'.pending = n.pending)
    (hw : n'.windows = n.windows) : n'.Recorded := by
  intro k p hl
  rw [hp] at hl
  rw [hw]
  exact h k p hl

theorem stop (h : n.Recorded) (timer : Option ℕ) : (n.stop timer).Recorded := by
  cases timer <;> exact h.congr rfl rfl

theorem cancelPendingLocked (h : n.Recorded) (key : Key) : (n.cancelPendingLocked key).Recorded := by
  have hgen : Notifier.Recorded { n with cancelGen := n.cancelGen + 1 } := h.congr rfl rfl
  unfold Notifier.cancelPendingLocked
  simp only
  split
  · exact hgen
  · next p _ => exact (hgen.stop p.timer).erase key rfl rfl

theorem forget (h : n.Recorded) (sha256 : List UInt8 → δ) (it : Item) :
    (n.forget sha256 it).Recorded := by
  unfold Notifier.forget
  simp only
  split
  · exact h
  · have := h.cancelPendingLocked it.key
    split
    · exact this.congr rfl rfl
    · exact this

theorem foldl_forget (h : n.Recorded) (sha256 : List UInt8 → δ) (l : List Item) :
    (l.foldl (Notifier.forget sha256) n).Recorded := by
  induction l generalizing n with
  | nil => exact h
  | cons it l ih => exact ih (h.forget sha256 it)

theorem armLocked (h : n.Recorded) (now : ℤ) (key : Key) {window : ℤ} (hpos : 0 < window) :
    (n.armLocked now key window).Recorded := by
  unfold Notifier.armLocked
  split
  · exact Notifier.Recorded.insert (n := { n with pendingGen := n.pendingGen + 1 })
      (h.congr rfl rfl) hpos rfl rfl
  · next p _ => exact (h.stop p.timer).insert hpos rfl rfl

theorem stopTimers (n : Notifier δ) : n.stopTimers.Recorded := by
  intro k p hl
  rw [System.stopTimers_pending] at hl
  cases hl

theorem commit [DecidableEq δ] (sha256 : List UInt8 → δ) (hk : n.Kept) (h : n.Recorded) (now : ℤ)
    (op : Op) : (Op.commit sha256 now n op).n.Recorded := by
  cases op with
  | post item => exact h.congr rfl rfl
  | raise key item =>
    simp only [Op.commit, Notifier.raiseReport]
    split
    · exact h.congr rfl rfl
    · next hne =>
      split
      · exact h
      · next r hr =>
        obtain ⟨-, ⟨-, rfl⟩ | ⟨it, -, -, -, rfl⟩⟩ := Notifier.raiseLocked_cases sha256 hk hne hr <;>
          exact h.congr rfl rfl
  | resolve key =>
    simp only [Op.commit, Notifier.resolveReport]
    split
    · exact h
    · split
      · exact h.congr rfl rfl
      · split <;> exact h.congr rfl rfl
  | markRead id =>
    simp only [Op.commit, Notifier.markRead]
    split
    · exact h.congr rfl rfl
    · exact h
  | markAllRead =>
    simp only [Op.commit, Notifier.markAllRead]
    split
    · exact h.congr rfl rfl
    · exact h
  | dismiss id =>
    simp only [Op.commit, Notifier.dismiss]
    split
    · exact h
    · next it _ => exact (h.forget sha256 it).congr rfl rfl
  | clear =>
    simp only [Op.commit, Notifier.clear]
    split
    · exact h
    · exact (h.foldl_forget sha256 n.items).congr rfl rfl

end Notifier.Recorded

namespace System

/-- Every goroutine and every window is sane. -/
structure Sane (s : System δ) : Prop where
  threads : ∀ g pc, s.threads.lookup g = some pc → pc.Sane
  windows : s.n.Recorded

theorem init_sane (cap now : ℤ) : (init δ cap now).Sane where
  threads := fun g pc h => by simp [init] at h
  windows := fun k p h => by simp [init, Notifier.new] at h

theorem Sane.goto {s t : System δ} (hs : s.Sane) (hthreads : t.threads = s.threads)
    (hwindows : t.n.Recorded) (g : ℕ) {pc : Option Pc} (hpc : ∀ p ∈ pc, p.Sane) :
    (t.goto g pc).Sane where
  threads := by
    intro g' p hl
    rw [goto_lookup, hthreads] at hl
    split at hl
    · exact hpc p hl
    · exact hs.threads g' p hl
  windows := by
    rw [goto_n]
    exact hwindows

theorem sane_of_window {pc : Pc} (hpc : ∀ op stamp k, pc ≠ .commit op stamp k)
    (hw : ∀ w ∈ pc.window, 0 < w) : pc.Sane :=
  ⟨fun op stamp k he => absurd he (hpc op stamp k), hw⟩

theorem sane_resume {k : After} (h : ∀ w ∈ k.window, 0 < w) (changed : Bool) :
    ∀ p ∈ k.resume changed, p.Sane := by
  intro p hp
  cases k with
  | ret => cases hp
  | lead key window gen =>
    simp only [After.resume] at hp
    split at hp
    · cases hp
      exact sane_of_window (by simp) h
    · cases hp
  | trail key gen window =>
    cases hp
    exact sane_of_window (by simp) h

theorem sane_op (key : Key) (c : Change) (stamp : ℕ) {k : After} (hkey : k.key = some key ∨ k.key = none)
    (hw : ∀ w ∈ k.window, 0 < w) : (Pc.commit (c.op key) stamp k).Sane := by
  refine ⟨fun op stamp' k' he key' hk' => ?_, hw⟩
  cases he
  rcases hkey with hkey | hkey
  · rw [hkey] at hk'
    cases hk'
    exact ⟨c, by cases c <;> rfl⟩
  · rw [hkey] at hk'
    cases hk'

theorem entry_sane (c : Call) (stamp : ℕ) : ∀ p ∈ c.entry stamp, p.Sane := by
  have hplain : ∀ op : Op, Pc.Sane (.commit op stamp .ret) := by
    refine fun op => ⟨fun op' stamp k he key hk' => ?_, fun w hw => by cases hw⟩
    cases he
    cases hk'
  intro p hp
  cases c with
  | plain op =>
    cases hp
    exact hplain op
  | stopTimers =>
    cases hp
    exact sane_of_window (by simp) (fun w hw => by cases hw)
  | raiseWindowed key item window =>
    simp only [Call.entry] at hp
    split at hp
    · cases hp
      exact hplain _
    · cases hp
      exact sane_of_window (by simp) (fun w hw => by cases hw)
  | resolveWindowed key window =>
    simp only [Call.entry] at hp
    split at hp
    · cases hp
    · cases hp
      exact sane_of_window (by simp) (fun w hw => by cases hw)

section Sections

variable {s : System δ} {key : Key} {window : ℤ}

theorem Sane.stay (hs : s.Sane) (g : ℕ) {pc : Option Pc} (hpc : ∀ p ∈ pc, p.Sane) :
    (s.goto g pc).Sane :=
  hs.goto rfl hs.windows g hpc

/-- Another change in an open window. -/
theorem Recorded.update {n : Notifier δ} (h : n.Recorded) {p q : PendingChange}
    (hp : n.pending.lookup key = some p) :
    Notifier.Recorded { n with pending := n.pending.insert key q } := by
  obtain ⟨w, hw, hpos⟩ := h key p hp
  intro k q' hl
  by_cases hk : k = key
  · exact ⟨w, hk ▸ hw, hpos⟩
  · exact h k q' (by simpa [AList.lookup_insert_ne hk] using hl)

theorem Sane.coalesce (hs : s.Sane) (g : ℕ) (c : Change) (stamp : ℕ) :
    (s.coalesce g key window c stamp).Sane := by
  unfold System.coalesce
  split
  · refine hs.stay g fun p hp => ?_
    cases hp
    exact sane_op key c stamp (.inr rfl) (fun w hw => by cases hw)
  · next hw =>
    split
    · next p hp => exact hs.goto (by rfl) (Recorded.update hs.windows hp) g (by simp)
    · refine hs.stay g fun p hp => ?_
      cases hp
      refine sane_op key c stamp (.inl rfl) fun w hw' => ?_
      cases hw'
      omega

theorem Sane.arm (hs : s.Sane) (g : ℕ) (gen : ℕ) (hpos : 0 < window) :
    (s.arm g key window gen).Sane := by
  unfold System.arm
  split
  · exact hs.stay g (by simp)
  · split
    · exact hs.stay g (by simp)
    · exact hs.goto (by rfl) (by exact hs.windows.armLocked s.now key hpos) g (by simp)

theorem Sane.close (hs : s.Sane) (g : ℕ) (gen : ℕ) : (s.close g key gen).Sane := by
  unfold System.close
  split
  · exact hs.stay g (by simp)
  · next p hp =>
    obtain ⟨w, hwl, hpos⟩ := hs.windows key p hp
    split
    · exact hs.stay g (by simp)
    · split
      · exact hs.goto (by rfl) (by exact hs.windows.erase key rfl rfl) g (by simp)
      · refine hs.goto (by rfl) (Recorded.update hs.windows hp) g fun q hq => ?_
        cases hq
        refine sane_op key _ _ (.inl rfl) fun w' hw' => ?_
        cases hw'
        rw [hwl]
        exact hpos

theorem Sane.rearm (hs : s.Sane) (g : ℕ) (gen : ℕ) (changed : Bool) (hpos : 0 < window) :
    (s.rearm g key gen window changed).Sane := by
  have hretire : ({ s with n := s.n.retirePendingLocked key }.goto g none).Sane :=
    hs.goto (by rfl) (by exact hs.windows.erase key rfl rfl) g (by simp)
  unfold System.rearm
  split
  · exact hs.stay g (by simp)
  · split
    · exact hs.stay g (by simp)
    · split
      · exact hretire
      · split
        · exact hretire
        · exact hs.goto (by rfl) (by exact hs.windows.armLocked s.now key hpos) g (by simp)

end Sections

theorem step_sane [DecidableEq δ] (sha256 : List UInt8 → δ) {s t : System δ} {l : Label}
    (hk : s.n.Kept) (hs : s.Sane) (h : step sha256 s l = some t) : t.Sane := by
  cases l with
  | call g c =>
    simp only [step] at h
    split at h
    · cases h
    · cases h
      exact hs.goto (by rfl) (by exact hs.windows) g (entry_sane c _)
  | fire id g =>
    simp only [step] at h
    split at h
    · cases h
    · split at h
      · cases h
      · cases h
        refine hs.goto (by rfl) (by exact hs.windows.congr rfl rfl) g fun p hp => ?_
        cases hp
        exact sane_of_window (by simp) (fun w hw => by cases hw)
  | tick now =>
    simp only [step] at h
    split at h
    · cases h
      exact ⟨hs.threads, hs.windows⟩
    · cases h
  | run g =>
    simp only [step] at h
    split at h
    · cases h
    · next pc hg =>
      have hpc := hs.threads g pc hg
      cases pc with
      | commit op stamp k =>
        simp only [advance, commit] at h
        split at h
        · have hc := Notifier.Recorded.commit sha256 hk hs.windows s.now op
          split at h
          · cases h
            exact hs.goto (by rfl) (by exact hc) g (by exact sane_resume hpc.2 false)
          · cases h
            refine hs.goto (by rfl) (by exact hc) g fun p hp => ?_
            cases hp
            exact sane_of_window (by simp) hpc.2
        · cases h
      | publish snap heard k =>
        simp only [advance] at h
        split at h
        · cases h
          exact hs.goto (by rfl) (by exact hs.windows) g (by exact sane_resume hpc.2 true)
        · cases h
          refine hs.goto (by rfl) (by exact hs.windows) g fun p hp => ?_
          cases hp
          exact sane_of_window (by simp) hpc.2
      | sound it k =>
        cases h
        exact hs.goto (by rfl) (by exact hs.windows) g (by exact sane_resume hpc.2 true)
      | stop =>
        cases h
        exact hs.goto (by rfl) (by exact Notifier.Recorded.stopTimers _) g (by simp)
      | coalesce key window c stamp =>
        cases h
        exact hs.coalesce g c stamp
      | arm key window gen =>
        cases h
        exact hs.arm g gen (hpc.2 window rfl)
      | close key gen =>
        cases h
        exact hs.close g gen
      | rearm key gen window changed =>
        cases h
        exact hs.rearm g gen changed (hpc.2 window rfl)

end System

/-! ## Every step -/

def After.direct : After → Bool
  | .trail _ _ _ => false
  | _ => true

/-- The goroutine is to apply the change of a closed window. -/
def View.holds : View → Bool
  | .holding _ _ _ => true
  | _ => false

/-- The change of `k` the goroutine is about to apply, and whether its call is
applied at once. -/
def Pc.applies (k : Key) : Pc → Option (Change × Bool)
  | .commit op _ after =>
    match op.change? with
    | some (key, c) => if key = k then some (c, after.direct) else none
    | none => none
  | _ => none

namespace System

/-- No window holds a change of the key, closed or open. -/
def Settled (s : System δ) (k : Key) : Prop :=
  (∀ e ∈ s.threads.entries, (e.2.view k).holds = false) ∧
    ∀ p ∈ s.n.pending.lookup k, p.apply = none

instance (s : System δ) (k : Key) : Decidable (s.Settled k) :=
  have : Decidable (∀ e ∈ s.threads.entries, (e.2.view k).holds = false) :=
    List.decidableBAll _ _
  inferInstanceAs (Decidable (_ ∧ _))

/-- A change of the key is applied in its turn, told from the row on screen: a
call applied at once finds no older change of the key in a window. -/
def InTurn [DecidableEq δ] (sha256 : List UInt8 → δ) (k : Key) (s : System δ) : Label → Prop
  | .run g => ∀ x ∈ (s.threads.lookup g).bind (Pc.applies k),
    x.1.Distinct sha256 k s.n ∧ (x.2 = true → s.Settled k)
  | _ => True

instance [DecidableEq δ] (sha256 : List UInt8 → δ) (k : Key) (s : System δ) :
    (l : Label) → Decidable (s.InTurn sha256 k l)
  | .run g => inferInstanceAs (Decidable (∀ x ∈ (s.threads.lookup g).bind (Pc.applies k),
      x.1.Distinct sha256 k s.n ∧ (x.2 = true → s.Settled k)))
  | .call _ _ | .fire _ _ | .tick _ => .isTrue trivial

/-- Nobody is running and no timer is armed. -/
def Quiescent (s : System δ) : Prop := s.threads.keys = [] ∧ s.n.timers.keys = []

instance (s : System δ) : Decidable s.Quiescent := inferInstanceAs (Decidable (_ ∧ _))

end System

/-- The method raises or resolves `k`. -/
def Call.on (k : Key) : Call → Bool
  | .plain op => op.on k
  | .raiseWindowed key _ _ | .resolveWindowed key _ => key == k
  | .stopTimers => false

/-- Only `caller` raises and resolves `k`. -/
def Label.CallsBy (k : Key) (caller : ℕ) : Label → Prop
  | .call g c => c.on k = true → g = caller
  | _ => True

instance (k : Key) (caller : ℕ) : (l : Label) → Decidable (l.CallsBy k caller)
  | .call g c => inferInstanceAs (Decidable (c.on k = true → g = caller))
  | .run _ | .fire _ _ | .tick _ => .isTrue trivial

theorem Notifier.SameList.shows {sha256 : List UInt8 → δ} {k : Key} {n n' : Notifier δ}
    (h : n.SameList n') {c : Change} (hs : n.Shows sha256 k c) : n'.Shows sha256 k c := by
  obtain ⟨-, hitems, -, hsup⟩ := h
  cases c with
  | raise item =>
    unfold Notifier.Shows at hs ⊢
    rw [hitems, hsup]
    exact hs
  | resolve =>
    unfold Notifier.Shows at hs ⊢
    rw [hitems]
    exact hs

namespace System

section
variable {k : Key} {caller : ℕ} {s : System δ}

theorem Settled.not_held (h : s.Settled k) (c : Change) (st : ℕ) : ¬s.Held k c st := by
  rintro ⟨g, gen, hg⟩
  unfold view viewOf at hg
  cases hl : s.threads.lookup g with
  | none => rw [hl] at hg; cases hg
  | some pc =>
    have := h.1 ⟨g, pc⟩ (AList.mem_lookup_iff.1 hl)
    rw [hl] at hg
    have hg : pc.view k = .holding gen c st := hg
    rw [hg] at this
    cases this

theorem moves_goto (t : System δ) (hthreads : t.threads = s.threads) (g : ℕ) (pc : Option Pc) :
    Moves k g (viewOf k pc) s (t.goto g pc) := by
  intro g'
  rw [view_goto]
  have : t.view k g' = s.view k g' := by simp [view, hthreads]
  rw [this]

/-- The step spares the key, and goroutine `g` goes on with what it had to do
with the key, or is done with it. -/
theorem Frame.goto {sha256 : List UInt8 → δ} {t : System δ} {g : ℕ} {pc : Option Pc}
    (hthreads : t.threads = s.threads)
    (hpending : ∀ p, t.n.pending.lookup k = some p → ∃ p', s.n.pending.lookup k = some p' ∧
      p'.gen = p.gen ∧ p'.apply = p.apply ∧ p'.stamp = p.stamp)
    (hasked : ∀ c, t.asked k = some c → s.asked k = some c ∧
      (s.n.Shows sha256 k c → t.n.Shows sha256 k c) ∧
      ∀ p', s.n.pending.lookup k = some p' → p'.apply ≠ none →
        ∃ p, t.n.pending.lookup k = some p ∧ p.apply = p'.apply)
    (happlied : t.applied k = s.applied k) (hcalls : s.calls ≤ t.calls)
    (hview : viewOf k pc = s.view k g ∨ viewOf k pc = .idle ∧ (s.view k g).busy = true) :
    s.Frame sha256 k (t.goto g pc) where
  pending := by simpa using hpending
  asked := by simpa using hasked
  applied := by simpa [System.applied] using happlied
  calls := by simpa using hcalls
  view := by
    intro g'
    rw [moves_goto t hthreads g pc g']
    split
    · next he => exact he ▸ hview
    · exact .inl rfl

/-- The step leaves the list and what was asked for alone, and the window of the
key but for its timer. -/
theorem Frame.quiet {sha256 : List UInt8 → δ} {t : System δ} {g : ℕ} {pc : Option Pc}
    (hthreads : t.threads = s.threads) (hlist : s.n.SameList t.n)
    (hpending : t.n.pending.lookup k = s.n.pending.lookup k) (hasked : t.asked k = s.asked k)
    (hhistory : t.history = s.history) (hcalls : s.calls ≤ t.calls)
    (hview : viewOf k pc = s.view k g ∨ viewOf k pc = .idle ∧ (s.view k g).busy = true) :
    s.Frame sha256 k (t.goto g pc) := by
  refine .goto hthreads (fun p hp => ⟨p, hpending ▸ hp, rfl, rfl, rfl⟩) (fun c hc => ?_)
    (applied_congr hhistory) hcalls hview
  exact ⟨hasked ▸ hc, hlist.shows, fun p hp _ => ⟨p, hpending.trans hp, rfl⟩⟩

end

theorem Change.op_change (key : Key) (c : Change) : (c.op key).change? = some (key, c) := by
  cases c <;> rfl

theorem Op.on_of_change {op : Op} {key k : Key} {c : Change} (h : op.change? = some (key, c)) :
    op.on k = decide (key = k) := by
  simp [Op.on, h, Bool.beq_eq_decide_eq]

/-- What is left to do with the key after a section that reported `changed`. -/
theorem viewOf_resume (k : Key) (changed : Bool) (after : After) :
    viewOf k (after.resume changed) = .idle ∨
      viewOf k (after.resume changed) = .led ∧ ∃ w gen, after = .lead k w gen := by
  cases after with
  | ret | trail => exact .inl rfl
  | lead key w gen =>
    cases changed with
    | false => exact .inl rfl
    | true =>
      by_cases hk : key = k
      · subst hk
        exact .inr ⟨by simp [viewOf, After.resume, Pc.view], w, gen, rfl⟩
      · exact .inl (by simp [viewOf, After.resume, Pc.view, hk])

theorem view_publish (k : Key) (snap : Snapshot) (heard : Option Item) (after : After) :
    (Pc.publish snap heard after).view k = viewOf k (after.resume true) := by
  cases after <;> rfl

theorem view_sound (k : Key) (it : Item) (after : After) :
    (Pc.sound it after).view k = viewOf k (after.resume true) := by
  cases after <;> rfl

/-! ### Sections of the list -/

section
variable [DecidableEq δ] {sha256 : List UInt8 → δ} {k : Key} {caller : ℕ} {s t : System δ}

theorem commit_cases {g : ℕ} {op : Op} {stamp : ℕ} {after : After}
    (h : s.commit sha256 g op stamp after = some t) :
    ∃ (u : System δ) (pc : Option Pc), t = u.goto g pc ∧ u.threads = s.threads ∧
      u.n = (Op.commit sha256 s.now s.n op).n ∧ u.calls = s.calls ∧
      u.history = s.history ++ [⟨op, stamp, s.n.items, (Op.commit sha256 s.now s.n op).n.items⟩] ∧
      u.asked = s.askedAfter op after (Op.commit sha256 s.now s.n op).n.items ∧
      ∃ changed, viewOf k pc = viewOf k (after.resume changed) := by
  simp only [commit] at h
  split at h
  · split at h
    · cases h
      exact ⟨_, _, rfl, rfl, rfl, rfl, rfl, rfl, false, rfl⟩
    · cases h
      refine ⟨{ s.recorded op stamp after (Op.commit sha256 s.now s.n op) with emit := some g }, _,
        rfl, rfl, rfl, rfl, rfl, rfl, true, ?_⟩
      exact view_publish k _ _ after
  · cases h

theorem view_commit (k : Key) {op : Op} {stamp : ℕ} {after : After}
    (hsane : (Pc.commit op stamp after).Sane) (hop : ¬op.on k = true) :
    (Pc.commit op stamp after).view k = .idle ∧ ∀ w gen, after ≠ .lead k w gen := by
  have hkey : ∀ key ∈ after.key, key ≠ k := by
    intro key hkey he
    obtain ⟨c, hc⟩ := hsane.1 op stamp after rfl key hkey
    exact hop (by simp [Op.on_of_change hc, he])
  cases after with
  | ret => exact ⟨by simp [Pc.view, hop], by simp⟩
  | lead key w gen =>
    have hne := hkey key rfl
    exact ⟨by simp [Pc.view, hne], fun w' gen' he => by cases he; exact hne rfl⟩
  | trail key gen w =>
    have hne := hkey key rfl
    refine ⟨?_, by simp⟩
    simp only [Pc.view]
    split
    · rw [if_neg hne]
    · rfl

theorem Frame.commit (hk : s.n.Kept) (hne : k ≠ "") {g : ℕ} {op : Op} {stamp : ℕ} {after : After}
    (hg : s.threads.lookup g = some (.commit op stamp after))
    (hsane : (Pc.commit op stamp after).Sane) (hop : ¬op.on k = true)
    (h : s.commit sha256 g op stamp after = some t) : s.Frame sha256 k t := by
  obtain ⟨u, pc, rfl, hthreads, hn, hcalls, hhistory, hasked, changed, hview⟩ :=
    commit_cases (k := k) h
  have hspares := Op.commit_spares sha256 hk s.now op hne hop
  rw [← hn] at hspares
  obtain ⟨hidle, hlead⟩ := view_commit k hsane hop
  refine .goto hthreads (fun p hp => ⟨p, hspares.pending p hp, rfl, rfl, rfl⟩) (fun c hc => ?_) ?_
    hcalls.ge (.inl ?_)
  · -- what was asked for is kept only when no row of the key was taken
    have hkept : k ∉ op.takes s.n.items u.n.items ∧ s.asked k = some c := by
      rw [hasked, hn.symm] at hc
      have hbase : (if k ∈ op.takes s.n.items u.n.items then none else s.asked k) = some c := by
        unfold askedAfter at hc
        cases after with
        | trail => exact hc
        | ret | lead =>
          cases hch : op.change? with
          | none => rw [hch] at hc; exact hc
          | some x =>
            obtain ⟨key, c'⟩ := x
            have hkey : k ≠ key := by
              rintro rfl
              exact hop (by simp [Op.on_of_change hch])
            rw [hch] at hc
            simpa [Function.update_of_ne hkey] using hc
      split at hbase
      · cases hbase
      · next hnt => exact ⟨hnt, hbase⟩
    exact ⟨hkept.2, hspares.shows hkept.1, fun p hp _ => ⟨p, (hspares.window hkept.1).trans hp, rfl⟩⟩
  · simp [System.applied, hhistory, hop]
  · rw [view_of_lookup hg, hidle, hview]
    rcases viewOf_resume k changed after with he | ⟨-, w, gen, he⟩
    · exact he
    · exact absurd he (hlead w gen)

theorem Settling.commit (hs : s.Settling sha256 k caller) (hk : s.n.Kept) (hne : k ≠ "") {g : ℕ}
    {op : Op} {stamp : ℕ} {after : After}
    (hg : s.threads.lookup g = some (.commit op stamp after))
    (hsane : (Pc.commit op stamp after).Sane) (hop : op.on k = true)
    (hok : s.InTurn sha256 k (.run g)) (h : s.commit sha256 g op stamp after = some t) :
    t.Settling sha256 k caller := by
  obtain ⟨u, pc, rfl, hthreads, hn, hcalls, hhistory, hasked, changed, hview⟩ :=
    commit_cases (k := k) h
  obtain ⟨c, hc⟩ : ∃ c, op.change? = some (k, c) := by
    obtain ⟨⟨key, c⟩, hch, hkey⟩ := Option.any_eq_true _ _ |>.1 hop
    exact ⟨c, by rw [hch, (by simpa using hkey : key = k)]⟩
  have hkey : ∀ key ∈ after.key, key = k := by
    intro key hkey
    obtain ⟨c', hc'⟩ := hsane.1 op stamp after rfl key hkey
    rw [hc, Option.some.injEq, Prod.mk.injEq] at hc'
    exact hc'.1.symm
  obtain ⟨hdistinct, hsettled⟩ := hok (c, after.direct) (by simp [hg, Pc.applies, hc])
  obtain ⟨hshows, hpending⟩ := Op.commit_shows sha256 hk s.now hne hc hdistinct
  rw [← hn] at hshows hpending
  have happ : (u.goto g pc).applied k = s.applied k ++ [stamp] :=
    applied_append (r := ⟨op, stamp, s.n.items, _⟩) (by simpa using hhistory) hop
  have hm := moves_goto u hthreads g pc (k := k)
  have hpc := view_of_lookup (k := k) hg
  cases after with
  | ret =>
    have hcall : s.view k g = .calling stamp := by rw [hpc]; simp [Pc.view, hop]
    have hsett := hsettled rfl
    rw [hview] at hm
    refine hs.direct (c := c) (.inl hcall) hm (.inl rfl) hsett.not_held hsett.2 (by simpa using hpending)
      happ ?_ (by simpa using hshows) (by simpa using hcalls)
    simp [hasked, askedAfter, hc]
  | lead key w gen =>
    obtain rfl := hkey key rfl
    have hcall : s.view key g = .leading stamp := by rw [hpc]; simp [Pc.view]
    have hsett := hsettled rfl
    rw [hview] at hm
    refine hs.direct (c := c) (.inr hcall) hm ?_ hsett.not_held hsett.2 (by simpa using hpending)
      happ ?_ (by simpa using hshows) (by simpa using hcalls)
    · rcases viewOf_resume key changed (.lead key w gen) with he | ⟨he, -⟩
      · exact .inl he
      · exact .inr ⟨he, hcall⟩
    · simp [hasked, askedAfter, hc]
  | trail key gen w =>
    obtain rfl := hkey key rfl
    have hhold : s.view key g = .holding gen c stamp := by
      rw [hpc]
      simp [Pc.view, hc]
    rw [hview] at hm
    refine hs.apply hhold hm (by simpa using hpending) happ (fun c' hc' => ?_) (by simpa using hshows)
      (by simpa using hcalls)
    rw [goto_asked, hasked] at hc'
    simp only [askedAfter] at hc'
    split at hc'
    · cases hc'
    · exact hc'

end

/-! ### Sections of the coalescer -/

section
variable {sha256 : List UInt8 → δ} {k : Key} {caller : ℕ} {s t : System δ}

theorem armLocked_other (n : Notifier δ) (now : ℤ) {key : Key} (window : ℤ) (hne : k ≠ key) :
    (n.armLocked now key window).pending.lookup k = n.pending.lookup k := by
  unfold Notifier.armLocked
  split
  · simp [Notifier.startTimer, AList.lookup_insert_ne hne]
  · next p _ =>
    have : (n.stop p.timer).pending = n.pending := by cases p.timer <;> rfl
    simp [Notifier.startTimer, AList.lookup_insert_ne hne, this]

theorem armLocked_new (n : Notifier δ) (now : ℤ) {key : Key} (window : ℤ)
    (h : n.pending.lookup key = none) : ∃ p, (n.armLocked now key window).pending.lookup key = some p ∧
      p.apply = none :=
  ⟨⟨n.pendingGen + 1, some (n.timerSeq + 1), none, 0⟩,
    by simp [Notifier.armLocked, h, Notifier.startTimer], rfl⟩

theorem armLocked_again (n : Notifier δ) (now : ℤ) {key : Key} (window : ℤ) {p : PendingChange}
    (h : n.pending.lookup key = some p) : ∃ q,
      (n.armLocked now key window).pending.lookup key = some q ∧ p.gen = q.gen ∧
      p.apply = q.apply ∧ p.stamp = q.stamp :=
  ⟨{ p with timer := some ((n.stop p.timer).timerSeq + 1) },
    by simp [Notifier.armLocked, h, Notifier.startTimer], rfl, rfl, rfl⟩

theorem Settling.coalesce (hs : s.Settling sha256 k caller) {g : ℕ} {key : Key} {window : ℤ}
    {c : Change} {stamp : ℕ} (hg : s.threads.lookup g = some (.coalesce key window c stamp)) :
    (s.coalesce g key window c stamp).Settling sha256 k caller := by
  have hpc := view_of_lookup (k := k) hg
  have hon : (c.op key).on k = decide (key = k) := Op.on_of_change (Change.op_change key c)
  by_cases hkey : key = k
  · subst hkey
    have hcall : s.view key g = .calling stamp := by rw [hpc]; simp [Pc.view]
    unfold System.coalesce
    split
    · refine Frame.settling (s := s) (.quiet rfl (.refl _) rfl rfl rfl le_rfl (.inl ?_)) hs
      rw [hcall]
      simp [viewOf, Pc.view, hon]
    · split
      · next p hp =>
        refine hs.record (c := c) (p := p) hcall
          (moves_goto (s := s) _ (by rfl) g none) hp (by simp) (by simp) (by simp) (by simp)
      · next hp =>
        have hm := moves_goto s rfl g (some (.commit (c.op key) stamp
          (.lead key window s.n.cancelGen))) (k := key)
        refine hs.leadEdge hcall ?_ hp (by simp) (by simp) (by simp) (by simp)
        simpa [viewOf, Pc.view] using hm
  · have hidle : s.view k g = .idle := by rw [hpc]; simp [Pc.view, hkey]
    unfold System.coalesce
    split
    · refine Frame.settling (s := s) (.quiet rfl (.refl _) rfl rfl rfl le_rfl (.inl ?_)) hs
      rw [hidle]
      simp [viewOf, Pc.view, hon, hkey]
    · split
      · refine Frame.settling (s := s) (.quiet (by rfl) ⟨rfl, rfl, rfl, rfl⟩ ?_ ?_ (by rfl) le_rfl
          (.inl ?_)) hs
        · exact AList.lookup_insert_ne (Ne.symm hkey)
        · exact Function.update_of_ne (Ne.symm hkey) _ _
        · rw [hidle]
          rfl
      · refine Frame.settling (s := s) (.quiet rfl (.refl _) rfl rfl rfl le_rfl (.inl ?_)) hs
        rw [hidle]
        simp [viewOf, Pc.view, hkey]

theorem Settling.arm (hs : s.Settling sha256 k caller) {g : ℕ} {key : Key} {window : ℤ} {gen : ℕ}
    (hg : s.threads.lookup g = some (.arm key window gen)) :
    (s.arm g key window gen).Settling sha256 k caller := by
  have hpc := view_of_lookup (k := k) hg
  by_cases hkey : key = k
  · subst hkey
    have hled : s.view key g = .led := by rw [hpc]; simp [Pc.view]
    have hnone := hs.lead g (by simp [hled, View.leads])
    have hquiet : (s.goto g none).Settling sha256 key caller :=
      Frame.settling (s := s) (.quiet rfl (.refl _) rfl rfl rfl le_rfl
        (.inr ⟨rfl, by simp [hled, View.busy]⟩)) hs
    unfold System.arm
    split
    · exact hquiet
    · split
      · exact hquiet
      · obtain ⟨p, hp, happly⟩ := armLocked_new s.n s.now window hnone
        refine hs.opened hled (moves_goto (s := s) _ (by rfl) g none) (fun q hq => ?_) (fun c hc => ?_)
          (by simp) (by simp) (by simp)
        · cases hp.symm.trans (by simpa using hq)
          exact happly
        · exact (Notifier.SameList.armLocked s.n s.now key window).shows (by simpa using hc)
  · have hidle : s.view k g = .idle := by rw [hpc]; simp [Pc.view, hkey]
    have hquiet : (s.goto g none).Settling sha256 k caller :=
      Frame.settling (s := s) (.quiet rfl (.refl _) rfl rfl rfl le_rfl (.inl (by rw [hidle]; rfl))) hs
    unfold System.arm
    split
    · exact hquiet
    · split
      · exact hquiet
      · refine Frame.settling (s := s) (.quiet (by rfl) (.armLocked s.n s.now key window)
          (armLocked_other s.n s.now window (Ne.symm hkey)) (by rfl) (by rfl) le_rfl
          (.inl ?_)) hs
        rw [hidle]
        rfl

theorem Settling.retire (hs : s.Settling sha256 k caller) {g : ℕ} {key : Key} {p : PendingChange}
    (hg : s.view k g = .idle) (hp : s.n.pending.lookup key = some p)
    (happly : key = k → p.apply = none) :
    ({ s with n := s.n.retirePendingLocked key }.goto g none).Settling sha256 k caller := by
  refine Frame.settling (s := s) (.goto (by rfl) (fun q hq => ?_) (fun c hc => ⟨hc, ?_, fun q hq hne => ?_⟩)
    (by rfl) le_rfl (.inl (by rw [hg]; rfl))) hs
  · exact ⟨q, (lookup_of_erase (m := s.n.pending) hq).2, rfl, rfl, rfl⟩
  · exact (Notifier.SameList.retirePendingLocked s.n key).shows
  · have hk : k ≠ key := by
      rintro rfl
      cases hp.symm.trans hq
      exact hne (happly rfl)
    exact ⟨q, (AList.lookup_erase_ne hk).trans hq, rfl⟩

theorem Settling.rearm (hs : s.Settling sha256 k caller) {g : ℕ} {key : Key} {gen : ℕ} {window : ℤ}
    {changed : Bool} (hg : s.threads.lookup g = some (.rearm key gen window changed))
    (hpos : 0 < window) : (s.rearm g key gen window changed).Settling sha256 k caller := by
  have hidle : s.view k g = .idle := view_of_lookup (k := k) hg
  have hquiet : (s.goto g none).Settling sha256 k caller :=
    Frame.settling (s := s) (.quiet rfl (.refl _) rfl rfl rfl le_rfl (.inl (by rw [hidle]; rfl))) hs
  unfold System.rearm
  split
  · exact hquiet
  · next p hp =>
    split
    · exact hquiet
    · rw [if_neg (by omega)]
      split
      · next hcond =>
        refine hs.retire hidle hp fun _ => ?_
        simp only [Bool.and_eq_true, Option.isNone_iff_eq_none] at hcond
        exact hcond.2
      · refine Frame.settling (s := s) (.goto (by rfl) (fun q hq => ?_)
          (fun c hc => ⟨hc, ?_, fun q hq _ => ?_⟩) (by rfl) le_rfl (.inl (by rw [hidle]; rfl))) hs
        · by_cases hk : k = key
          · subst hk
            obtain ⟨q', hq', hcore⟩ := armLocked_again s.n s.now window hp
            cases hq'.symm.trans hq
            exact ⟨p, hp, hcore⟩
          · exact ⟨q, (armLocked_other s.n s.now window hk) ▸ hq, rfl, rfl, rfl⟩
        · exact (Notifier.SameList.armLocked s.n s.now key window).shows
        · by_cases hk : k = key
          · subst hk
            obtain ⟨q', hq', -, happly, -⟩ := armLocked_again s.n s.now window hp
            cases hp.symm.trans hq
            exact ⟨q', hq', happly.symm⟩
          · exact ⟨q, (armLocked_other s.n s.now window hk).trans hq, rfl⟩

/-- While a window of the key is open and its goroutine has nothing of it yet,
no goroutine holds a change of the key. -/
theorem Settling.none_held (hs : s.Settling sha256 k caller) (hw : s.Windows) {g : ℕ}
    {p : PendingChange} (hp : s.n.pending.lookup k = some p)
    (hg : s.threads.lookup g = some (.close k p.gen)) (c : Change) (st : ℕ) : ¬s.Held k c st := by
  rintro ⟨g', gen, hg'⟩
  have hgen := hs.own g' gen c st hg' p hp
  unfold view viewOf at hg'
  cases hl : s.threads.lookup g' with
  | none => rw [hl] at hg'; cases hg'
  | some pc =>
    rw [hl] at hg'
    have hg' : pc.view k = .holding gen c st := hg'
    -- the holder carries the token of the open window, as does the one that closes it
    have htoken : ∃ key, pc.token = some (key, gen) := by
      cases pc with
      | commit op stamp after =>
        cases after with
        | trail key gen' w =>
          simp only [Pc.view] at hg'
          split at hg'
          · split at hg'
            · cases hg'
              exact ⟨key, rfl⟩
            · cases hg'
          · cases hg'
        | ret => simp only [Pc.view] at hg'; split at hg' <;> cases hg'
        | lead => simp only [Pc.view] at hg'; split at hg' <;> cases hg'
      | coalesce | arm => simp only [Pc.view] at hg'; split at hg' <;> cases hg'
      | publish snap heard after | sound it after =>
        cases after with
        | lead => simp only [Pc.view] at hg'; split at hg' <;> cases hg'
        | ret | trail => cases hg'
      | close | rearm | stop => cases hg'
    obtain ⟨key, htoken⟩ := htoken
    have hsame := hw.unique (.inr g') (.inr g) (key, gen) (k, p.gen)
      (by simp [token, hl, htoken]) (by simp [token, hg, Pc.token]) hgen.symm
    cases hsame
    rw [hg] at hl
    cases hl
    cases hg'

theorem Settling.close (hs : s.Settling sha256 k caller) (hw : s.Windows) {g : ℕ} {key : Key}
    {gen : ℕ} (hg : s.threads.lookup g = some (.close key gen)) :
    (s.close g key gen).Settling sha256 k caller := by
  have hidle : s.view k g = .idle := view_of_lookup (k := k) hg
  have hquiet : (s.goto g none).Settling sha256 k caller :=
    Frame.settling (s := s) (.quiet rfl (.refl _) rfl rfl rfl le_rfl (.inl (by rw [hidle]; rfl))) hs
  unfold System.close
  split
  · exact hquiet
  · next p hp =>
    split
    · exact hquiet
    · next hgen =>
      have hgen : p.gen = gen := not_not.1 hgen
      subst hgen
      split
      · next happly => exact hs.retire hidle hp fun _ => happly
      · next c happly =>
        by_cases hkey : key = k
        · subst hkey
          have hm := moves_goto (s := s) (k := key) { s with
            n := { s.n with pending := s.n.pending.insert key { p with apply := none } } } rfl g
            (some (.commit (c.op key) p.stamp (.trail key p.gen ((s.n.windows.lookup key).getD 0))))
          refine hs.take (g := g) (c := c) (p := p) (hs.none_held hw hp hg) ?_ hp happly (by simp) (by simp)
            (by simp) (by simp)
          simpa [viewOf, Pc.view, Change.op_change] using hm
        · refine Frame.settling (s := s) (.quiet (by rfl) ⟨rfl, rfl, rfl, rfl⟩ ?_ (by rfl) (by rfl) le_rfl
            (.inl ?_)) hs
          · exact AList.lookup_insert_ne (Ne.symm hkey)
          · rw [hidle]
            simp [viewOf, Pc.view, Change.op_change, hkey]

theorem Settling.called (hs : s.Settling sha256 k caller) {g : ℕ} {c : Call} (hg : g ∉ s.threads)
    (hby : (Label.call g c).CallsBy k caller) :
    ({ s with calls := s.calls + 1 }.goto g (c.entry (s.calls + 1))).Settling sha256 k caller := by
  have hidle : s.view k g = .idle := by simp [view, viewOf, AList.lookup_eq_none.2 hg]
  have hm := moves_goto (s := s) (k := k) { s with calls := s.calls + 1 } rfl g
    (c.entry (s.calls + 1))
  have hentry : viewOf k (c.entry (s.calls + 1)) = .idle ∨
      viewOf k (c.entry (s.calls + 1)) = .calling (s.calls + 1) ∧ c.on k = true := by
    cases c with
    | plain op =>
      by_cases hop : op.on k = true
      · exact .inr ⟨by simp [viewOf, Call.entry, Pc.view, hop], hop⟩
      · exact .inl (by simp [viewOf, Call.entry, Pc.view, hop])
    | raiseWindowed key item window =>
      by_cases hkey : key = ""
      · exact .inl (by simp [viewOf, Call.entry, Pc.view, hkey, Op.on, Op.change?])
      · by_cases hk : key = k
        · subst hk
          exact .inr ⟨by simp [viewOf, Call.entry, Pc.view, hkey], by simp [Call.on]⟩
        · exact .inl (by simp [viewOf, Call.entry, Pc.view, hkey, hk])
    | resolveWindowed key window =>
      by_cases hkey : key = ""
      · exact .inl (by simp [viewOf, Call.entry, hkey])
      · by_cases hk : key = k
        · subst hk
          exact .inr ⟨by simp [viewOf, Call.entry, Pc.view, hkey], by simp [Call.on]⟩
        · exact .inl (by simp [viewOf, Call.entry, Pc.view, hkey, hk])
    | stopTimers => exact .inl rfl
  rcases hentry with he | ⟨he, hon⟩
  · exact Frame.settling (s := s) (.quiet rfl (.refl _) rfl rfl rfl (Nat.le_succ _)
      (.inl (by rw [hidle, he]))) hs
  · rw [he] at hm
    exact hs.call (hby hon) hidle hm (by simp) (by simp) (by simp) (by simp)

end

section
variable [DecidableEq δ] {sha256 : List UInt8 → δ} {k : Key} {caller : ℕ} {s t : System δ}

/-- **Every step keeps the key settling**, when its changes are applied in turn. -/
theorem step_settling {l : Label} (hne : k ≠ "") (hs : s.Settling sha256 k caller) (hk : s.n.Kept)
    (hw : s.Windows) (hsane : s.Sane) (hby : l.CallsBy k caller) (hok : s.InTurn sha256 k l)
    (h : step sha256 s l = some t) : t.Settling sha256 k caller := by
  cases l with
  | call g c =>
    simp only [step] at h
    split at h
    · cases h
    · next hg =>
      cases h
      exact hs.called hg hby
  | fire id g =>
    simp only [step] at h
    split at h
    · cases h
    · split at h
      · cases h
      · next hg =>
        cases h
        have hidle : s.view k g = .idle := by
          simp [view, viewOf, AList.lookup_eq_none.2 fun hm => hg (.inl hm)]
        exact Frame.settling (s := s) (.quiet rfl ⟨rfl, rfl, rfl, rfl⟩ rfl rfl rfl le_rfl
          (.inl (by rw [hidle]; rfl))) hs
  | tick now =>
    simp only [step] at h
    split at h
    · cases h
      exact ⟨hs.caller, hs.lead, hs.led, hs.own, hs.one, hs.sorted, hs.order, hs.due⟩
    · cases h
  | run g =>
    have hstep := h
    simp only [step] at h
    split at h
    · cases h
    · next pc hg =>
      have hview := view_of_lookup (k := k) hg
      have hmove : ∀ after, pc.view k = viewOf k (After.resume true after) →
          viewOf k (After.resume true after) = s.view k g ∨
            viewOf k (After.resume true after) = .idle ∧ (s.view k g).busy = true := fun after he =>
        .inl (by rw [hview, he])
      cases pc with
      | commit op stamp after =>
        by_cases hop : op.on k = true
        · exact hs.commit hk hne hg (hsane.threads g _ hg) hop hok h
        · exact (Frame.commit hk hne hg (hsane.threads g _ hg) hop h).settling hs
      | publish snap heard after =>
        simp only [advance] at h
        split at h
        · cases h
          exact Frame.settling (s := s) (.quiet rfl (.refl _) rfl rfl rfl le_rfl
            (hmove after (view_publish k _ _ after))) hs
        · next it =>
          cases h
          refine Frame.settling (s := s) (.quiet rfl (.refl _) rfl rfl rfl le_rfl (.inl ?_)) hs
          rw [hview, view_publish]
          exact view_sound k it after
      | sound it after =>
        cases h
        exact Frame.settling (s := s) (.quiet rfl (.refl _) rfl rfl rfl le_rfl
          (hmove after (view_sound k it after))) hs
      | stop =>
        cases h
        refine Frame.settling (s := s) (.goto rfl (fun p hp => ?_) (fun c hc => by cases hc) rfl le_rfl
          (.inl hview.symm)) hs
        rw [stopTimers_pending] at hp
        cases hp
      | coalesce key window c stamp => cases h; exact hs.coalesce hg
      | arm key window gen => cases h; exact hs.arm hg
      | close key gen => cases h; exact hs.close hw hg
      | rearm key gen window changed =>
        cases h
        exact hs.rearm hg ((hsane.threads g _ hg).2 window rfl)

end

end System

/-! ## Main results -/

section
variable [DecidableEq δ] (sha256 : List UInt8 → δ)

/-- **A key settles on its last call.** Where one goroutine makes the calls of a
key and they are applied in turn, their changes reach the list in the order of
the calls, and once nobody runs and no timer is armed the list shows what the
last call asked for. -/
theorem settles {k : Key} {caller : ℕ} {cap now : ℤ} {ls : List Label} {t : System δ} (hk : k ≠ "")
    (hby : ∀ l ∈ ls, l.CallsBy k caller)
    (hok : Meets (System.step sha256) (System.InTurn sha256 k) (System.init δ cap now) ls)
    (h : exec (System.step sha256) (System.init δ cap now) ls = some t) :
    (t.applied k).Pairwise (· < ·) ∧
      (t.Quiescent → ∀ c, t.asked k = some c → t.n.Shows sha256 k c) := by
  have hinv : t.Inv sha256 ∧ t.Windows ∧ t.Sane ∧ t.Settling sha256 k caller := by
    refine exec_invariant
      (I := fun s : System δ => s.Inv sha256 ∧ s.Windows ∧ s.Sane ∧ s.Settling sha256 k caller)
      (fun s l s' ⟨hi, hw, hsane, hs⟩ ⟨hturn, hcaller⟩ hstep => ?_)
      ⟨System.init_inv sha256 cap now, System.init_windows cap now, System.init_sane cap now,
        System.init_settling sha256 k caller cap now⟩ (hok.and_mem hby) h
    exact ⟨System.step_inv sha256 hi hstep, System.step_windows sha256 hw hstep,
      System.step_sane sha256 hi.kept hsane hstep,
      System.step_settling hk hs hi.kept hw hsane hcaller hturn hstep⟩
  obtain ⟨-, hw, -, hs⟩ := hinv
  refine ⟨hs.sorted, fun ⟨hthreads, htimers⟩ c hc => ?_⟩
  have hgone : ∀ g, t.threads.lookup g = none := fun g => by
    refine AList.lookup_eq_none.2 fun hm => ?_
    have : g ∈ t.threads.keys := hm
    rw [hthreads] at this
    cases this
  have hfired : ∀ id, t.n.timers.lookup id = none := fun id => by
    refine AList.lookup_eq_none.2 fun hm => ?_
    have : id ∈ t.n.timers.keys := hm
    rw [htimers] at this
    cases this
  -- an open window would have a timer armed or a goroutine closing it
  have hclosed : ∀ p, t.n.pending.lookup k ≠ some p := by
    intro p hp
    obtain ⟨a | a, ha⟩ := hw.entry k p hp
    · simp [System.token, Notifier.timerToken, hfired] at ha
    · simp [System.token, hgone] at ha
  rcases hs.due c hc with ⟨p, hp, -⟩ | ⟨-, ⟨st, g, gen, hg⟩ | ⟨-, hshows⟩⟩
  · exact absurd hp (hclosed p)
  · simp [System.view, viewOf, hgone] at hg
  · exact hshows

end

def micMuted : Item := { micFault with title := "Microphone muted" }

/-- The fault is raised, changes within the window and the window closes. -/
def settlingRun : List Label :=
  [.call 0 (.raiseWindowed "mic" micFault 10), .run 0, .run 0, .run 0, .run 0, .run 0,
    .call 0 (.raiseWindowed "mic" micMuted 10), .run 0, .tick 10, .fire 1 1, .run 1, .run 1, .run 1,
    .run 1, .run 1, .tick 20, .fire 2 2, .run 2]

theorem settles_run : ∃ t : System (List UInt8),
    exec (System.step id) (System.init _ 3 0) settlingRun = some t ∧ t.Quiescent ∧
      t.n.Shows id "mic" (.raise micMuted) := by
  have h : (exec (System.step id) (System.init (List UInt8) 3 0) settlingRun).map
      (fun t => (decide t.Quiescent, t.asked "mic")) = some (true, some (.raise micMuted)) := by
    decide +kernel
  obtain ⟨t, ht, hv⟩ := Option.map_eq_some_iff.1 h
  rw [Prod.mk.injEq, decide_eq_true_eq] at hv
  have hby : ∀ l ∈ settlingRun, l.CallsBy "mic" 0 := by decide
  exact ⟨t, ht, hv.1, (settles id (by decide) hby (by decide +kernel) ht).2 hv.1 _ hv.2⟩

/-- The window of the fault closes and its goroutine has taken the change the
window held when the row is dismissed and the fault resolved at once. -/
def overtakenRun : List Label :=
  [.call 0 (.raiseWindowed "mic" micFault 10), .run 0, .run 0, .run 0, .run 0, .run 0,
    .call 0 (.raiseWindowed "mic" micMuted 10), .run 0, .tick 10, .fire 1 1, .run 1,
    .call 2 (.plain (.dismiss "n1")), .run 2, .run 2,
    .call 0 (.resolveWindowed "mic" 10), .run 0, .run 0,
    .run 1, .run 1, .run 1, .run 1]

/-- **An older call applied after a newer one.** The last call resolved the
fault, and its row is on the list unresolved with nobody left to clear it. -/
theorem settled_on_an_older_call : ∃ t : System (List UInt8),
    exec (System.step id) (System.init _ 3 0) overtakenRun = some t ∧
      (∀ l ∈ overtakenRun, l.CallsBy "mic" 0) ∧ t.Quiescent ∧ t.asked "mic" = some .resolve ∧
      ¬t.n.Shows id "mic" .resolve ∧ ¬(t.applied "mic").Pairwise (· < ·) := by
  have h : (exec (System.step id) (System.init (List UInt8) 3 0) overtakenRun).map
      (fun t => (decide t.Quiescent, t.asked "mic", t.n.items.map fun it => (it.key, it.resolved),
        t.applied "mic")) = some (true, some .resolve, [("mic", false)], [1, 4, 2]) := by
    decide +kernel
  obtain ⟨t, ht, hv⟩ := Option.map_eq_some_iff.1 h
  simp only [Prod.mk.injEq, decide_eq_true_eq] at hv
  obtain ⟨hquiet, hasked, hitems, happlied⟩ := hv
  refine ⟨t, ht, by decide, hquiet, hasked, fun hs => ?_, by rw [happlied]; decide⟩
  obtain ⟨it, hit, he⟩ := List.mem_map.1 (hitems ▸ List.mem_singleton_self (("mic", false) : Key × Bool))
  simp only [Prod.mk.injEq] at he
  have := hs it hit he.1
  rw [he.2] at this
  cases this

end VcsClient.Notify
